import Xv6.Umalloc.Ring

namespace Xv6.Umalloc
open Xv6.Umalloc.Block Function List

/-- The free list and the used blocks. -/
structure Ring (base : Nat) (s : State) (ns used : List Block) : Prop where
  head : ns.head? = some ⟨base, 0⟩
  linked : Linked s.mem base ns
  sorted : Sorted ns
  freep : ∃ f ∈ ns, f.addr = s.freep
  size : ∀ u ∈ used, (s.mem u.addr).size = u.size
  pos : ∀ b ∈ ns ++ used, base < b.addr → 0 < b.size
  above : ∀ u ∈ used, base < u.addr
  below : ∀ b ∈ ns ++ used, b.stop ≤ s.top
  apart : used.Pairwise Block.Disjoint
  free_apart : ∀ b ∈ ns, ∀ u ∈ used, b.Disjoint u
  cover : ∀ x, (∃ b ∈ ns ++ used, b.Has x) ↔ ∃ r ∈ s.regions, r.Has x
  total : units ns + units used = units s.regions
  top : base < s.top
  aligned : (∀ t ∈ s.regions, t.addr % 16 = 0) → ∀ b ∈ ns ++ used, base < b.addr → b.addr % 16 = 0

variable {base top fuel n : Nat} {s : State} {ns used l r : List Block} {b c f p q u x : Block}

lemma Disjoint.symm (h : b.Disjoint c) : c.Disjoint b := Or.symm h

lemma Disjoint.addr_ne (h : b.Disjoint c) (hb : 0 < b.size) (hc : 0 < c.size) :
    b.addr ≠ c.addr := by
  unfold Block.Disjoint Block.stop at h
  omega

namespace Ring
section Facts
variable (h : Ring base s ns used)
include h

lemma perm {used' : List Block} (hp : used.Perm used') : Ring base s ns used' where
  head := h.head
  linked := h.linked
  sorted := h.sorted
  freep := h.freep
  size := fun u hu => h.size u (hp.mem_iff.mpr hu)
  pos := fun b hb => h.pos b ((hp.append_left ns).mem_iff.mpr hb)
  above := fun u hu => h.above u (hp.mem_iff.mpr hu)
  below := fun b hb => h.below b ((hp.append_left ns).mem_iff.mpr hb)
  apart := (hp.pairwise_iff (fun hd => Disjoint.symm hd)).mp h.apart
  free_apart := fun b hb u hu => h.free_apart b hb u (hp.mem_iff.mpr hu)
  cover := fun y => by
    rw [← h.cover y]
    simp only [(hp.append_left ns).mem_iff]
  total := by
    have : units used = units used' := (hp.map Block.size).sum_eq
    rw [← this, h.total]
  top := h.top
  aligned := fun ht b hb => h.aligned ht b ((hp.append_left ns).mem_iff.mpr hb)

lemma nextAddr_eq : nextAddr base ns = base := by
  have hhead := h.head
  cases ns with
  | nil => rfl
  | cons c ns =>
    cases Option.some.inj hhead
    rfl

lemma eq_or_above (hb : b ∈ ns) : b = ⟨base, 0⟩ ∨ base < b.addr := by
  have hhead := h.head
  have hs := h.sorted
  cases ns with
  | nil => exact absurd hb not_mem_nil
  | cons c ns =>
    cases Option.some.inj hhead
    rcases mem_cons.mp hb with rfl | hb
    · exact .inl rfl
    exact .inr (addr_lt_of_before ((pairwise_cons.mp hs).1 b hb))

lemma base_le (hb : b ∈ ns) : base ≤ b.addr := by
  rcases h.eq_or_above hb with rfl | hb
  · exact le_rfl
  exact le_of_lt hb

lemma used_pos (hu : u ∈ used) : 0 < u.size :=
  h.pos u (mem_append_right ns hu) (h.above u hu)

lemma addr_ne (hb : b ∈ ns) (hu : u ∈ used) : b.addr ≠ u.addr := by
  rcases h.eq_or_above hb with rfl | hlt
  · exact (h.above u hu).ne
  exact Disjoint.addr_ne (h.free_apart b hb u hu) (h.pos b (mem_append_left used hb) hlt)
    (h.used_pos hu)

lemma freep_ne (hbase : 0 < base) : s.freep ≠ 0 := by
  obtain ⟨f, hf, hfreep⟩ := h.freep
  have := h.base_le hf
  omega
end Facts

lemma exists_place {a : Nat} : ∀ {ns p}, Sorted (p :: ns) → p.addr < a → (∀ c ∈ ns, c.addr ≠ a) →
    ∃ l q r, p :: ns = l ++ q :: r ∧ q.addr < a ∧ ∀ c ∈ r, a < c.addr := by
  intro ns
  induction ns with
  | nil =>
    intro p _ hp _
    exact ⟨[], p, [], rfl, hp, fun c hc => absurd hc not_mem_nil⟩
  | cons d ns ih =>
    intro p hs hp hne
    obtain ⟨-, hs'⟩ := pairwise_cons.mp hs
    rcases Nat.lt_or_gt_of_ne (hne d mem_cons_self) with hd | hd
    · obtain ⟨l, q, r, hsplit, hq, hr⟩ := ih hs' hd fun c hc => hne c (mem_cons_of_mem d hc)
      exact ⟨p :: l, q, r, by rw [hsplit]; rfl, hq, hr⟩
    refine ⟨[], p, d :: ns, rfl, hp, fun c hc => ?_⟩
    rcases mem_cons.mp hc with rfl | hc
    · exact hd
    exact lt_trans hd (addr_lt_of_before ((pairwise_cons.mp hs').1 c hc))

section Free
lemma forall_free {P : Block → Prop}
    (hjoin : ∀ {d e}, d.stop = e.addr → P d → P e → P ⟨d.addr, d.size + e.size⟩)
    (hb : P b) (hP : ∀ d ∈ l ++ p :: r, P d) (hc : c ∈ l ++ join p (join b r)) : P c := by
  rcases mem_append.mp hc with hc | hc
  · exact hP c (mem_append_left _ hc)
  refine forall_join hjoin (hP p (mem_append_right l mem_cons_self)) (fun d hd => ?_) hc
  refine forall_join hjoin hb (fun e he => ?_) hd
  exact hP e (mem_append_right l (mem_cons_of_mem p he))

variable (h : Ring base s (l ++ p :: r) (b :: used))
include h

lemma stop_le_place (hp : p.addr < b.addr) : p.stop ≤ b.addr := by
  have hpn : p ∈ l ++ p :: r := mem_append_right l mem_cons_self
  rcases h.free_apart p hpn b mem_cons_self with hle | hle
  · exact hle
  have : b.addr ≤ b.stop := Nat.le_add_right _ _
  omega

lemma place_le (hr : ∀ c ∈ r, b.addr < c.addr) (hc : c ∈ r) : b.stop ≤ c.addr := by
  have hcn : c ∈ l ++ p :: r := mem_append_right l (mem_cons_of_mem p hc)
  rcases h.free_apart c hcn b mem_cons_self with hle | hle
  · have := hr c hc
    have : c.addr ≤ c.stop := Nat.le_add_right _ _
    omega
  exact hle

lemma sorted_free (hp : p.addr < b.addr) (hr : ∀ c ∈ r, b.addr < c.addr) :
    Sorted (l ++ join p (join b r)) := by
  obtain ⟨hl, hpr, hlr⟩ := pairwise_append.mp h.sorted
  obtain ⟨hp', hr'⟩ := pairwise_cons.mp hpr
  have hpstop := h.stop_le_place hp
  have hright : Sorted (join b r) := sorted_join hr' fun c hc => h.place_le hr hc
  have hjoin : Sorted (join p (join b r)) := by
    refine sorted_join hright fun c hc => ?_
    exact addr_join hpstop (fun d hd => le_of_lt (hp' d hd)) hc
  refine pairwise_append.mpr ⟨hl, hjoin, fun d hd c hc => ?_⟩
  have hdp : d.stop < p.addr := hlr d hd p mem_cons_self
  refine addr_join hdp (fun e he => ?_) hc
  refine addr_join (lt_trans hdp hp) (fun e he => ?_) he
  exact hlr d hd e (mem_cons_of_mem p he)

lemma head_free (hp : p.addr < b.addr) : (l ++ join p (join b r)).head? = some ⟨base, 0⟩ := by
  have hhead := h.head
  cases l with
  | nil =>
    cases Option.some.inj hhead
    obtain ⟨d, r', hd, haddr, -⟩ := join_eq_cons b r
    have hgap : ¬(⟨base, 0⟩ : Block).stop = d.addr := by
      rw [haddr]
      exact hp.ne
    rw [hd, join, if_neg hgap]
    rfl
  | cons d l => exact hhead

lemma cover_free (y : Nat) : (∃ c ∈ (l ++ join p (join b r)) ++ used, c.Has y) ↔
    ∃ t ∈ s.regions, t.Has y := by
  have hnew : (∃ c ∈ join p (join b r), c.Has y) ↔ p.Has y ∨ b.Has y ∨ ∃ c ∈ r, c.Has y := by
    rw [has_join, has_join]
  rw [← h.cover y]
  simp only [mem_append, mem_cons, or_and_right, exists_or, exists_eq_left] at hnew ⊢
  rw [hnew]
  exact Iff.of_eq (by ac_rfl)

lemma pos_free (hr : ∀ c ∈ r, b.addr < c.addr) (hc : c ∈ l ++ join p (join b r))
    (hbase : base < c.addr) : 0 < c.size := by
  have hright : ∀ d ∈ join b r, 0 < d.size := by
    intro d hd
    refine forall_join (P := fun d => 0 < d.size) (fun _ hd _ => Nat.add_pos_left hd _)
      (h.used_pos mem_cons_self) (fun e he => ?_) hd
    have hab := h.above b mem_cons_self
    exact h.pos e (by simp [he]) (lt_trans hab (hr e he))
  rcases mem_append.mp hc with hc | hc
  · exact h.pos c (by simp [hc]) hbase
  rcases mem_join hc with hc | rfl | ⟨d, hd, -, rfl⟩
  · exact hright c hc
  · exact h.pos c (by simp) hbase
  exact Nat.add_pos_right _ (hright d hd)
end Free

lemma free (h : Ring base s ns (b :: used)) (hsmall : units s.regions < 2 ^ 32) :
    ∃ s' ns', (∀ fuel, 2 * ns.length < fuel → Umalloc.free fuel s (b.addr + 16) = some s') ∧
      Ring base s' ns' used ∧ (∃ d ∈ ns', b.size ≤ d.size) ∧ s'.regions = s.regions := by
  have hplace : ∃ l p r, ns = l ++ p :: r ∧ p.addr < b.addr ∧ ∀ c ∈ r, b.addr < c.addr := by
    have hhead := h.head
    have hne := fun c hc => h.addr_ne (b := c) hc mem_cons_self
    have hs := h.sorted
    cases ns with
    | nil => cases hhead
    | cons c ns =>
      cases Option.some.inj hhead
      exact exists_place hs (h.above b mem_cons_self) (fun d hd => hne d (.tail _ hd))
  obtain ⟨l, p, r, rfl, hp, hr⟩ := hplace
  have hpn : p ∈ l ++ p :: r := mem_append_right l mem_cons_self
  have hbpos := h.used_pos (u := b) (.head _)
  have hbase := h.above b mem_cons_self
  have hlinked := linked_free h.linked h.sorted (h.size b mem_cons_self) hp hr
    (by have : b.addr ≤ b.stop := Nat.le_add_right _ _; omega)
    (by have := h.total; simp only [units_append, units_cons] at this; omega)
  obtain ⟨f, hf, hfreep⟩ := h.freep
  refine ⟨{ s with
      mem := link (link s.mem b.addr (s.mem p.addr).ptr) p.addr b.addr, freep := p.addr },
    l ++ join p (join b r), fun fuel hfuel => ?_, ⟨h.head_free hp, hlinked,
      h.sorted_free hp hr, ?_, fun u hu => ?_, ?_, ?_, ?_, ?_, ?_, h.cover_free, ?_, h.top, ?_⟩,
    ?_, rfl⟩
  · have hfind := findPrev_eq h.linked h.sorted h.nextAddr_eq (h.base_le hpn) hp hr hf hfuel
    rw [Umalloc.free, Nat.add_sub_cancel, ← hfreep, hfind]
    rfl
  · obtain ⟨d, r', hd, haddr, -⟩ := join_eq_cons p (join b r)
    exact ⟨d, by rw [hd]; simp, haddr⟩
  · have hup := h.addr_ne hpn (mem_cons_of_mem b hu)
    have hub := Disjoint.addr_ne ((pairwise_cons.mp h.apart).1 u hu) hbpos
      (h.used_pos (mem_cons_of_mem b hu))
    show (link (link s.mem b.addr _) p.addr b.addr u.addr).size = u.size
    rw [link_of_ne hup.symm, link_of_ne hub.symm]
    exact h.size u (mem_cons_of_mem b hu)
  · intro c hc hlt
    rcases mem_append.mp hc with hc | hc
    · exact h.pos_free hr hc hlt
    exact h.used_pos (mem_cons_of_mem b hc)
  · exact fun u hu => h.above u (mem_cons_of_mem b hu)
  · intro c hc
    rcases mem_append.mp hc with hc | hc
    · refine forall_free (P := fun d => d.stop ≤ s.top) (fun hmeet _ he => ?_)
        (h.below b (by simp)) (fun d hd => h.below d (mem_append_left _ hd)) hc
      rw [stop_merged hmeet]
      exact he
    exact h.below c (by simp [hc])
  · exact (pairwise_cons.mp h.apart).2
  · intro c hc u hu
    exact forall_free (P := fun d => d.Disjoint u)
      (fun hmeet hd he => disjoint_merged (h.used_pos (mem_cons_of_mem b hu)) hmeet hd he)
      ((pairwise_cons.mp h.apart).1 u hu)
      (fun d hd => h.free_apart d hd u (mem_cons_of_mem b hu)) hc
  · have := h.total
    simp only [units_append, units_cons, units_join] at this ⊢
    omega
  · intro ht c hc
    rcases mem_append.mp hc with hc | hc
    · exact forall_free (P := fun d => base < d.addr → d.addr % 16 = 0) (fun _ hd _ => hd)
        (h.aligned ht b (by simp)) (fun d hd => h.aligned ht d (mem_append_left _ hd)) hc
    exact h.aligned ht c (by simp [hc])
  obtain ⟨d, r', hd, -, hle, -⟩ := join_eq_cons b r
  rw [hd, join]
  split
  · exact ⟨_, mem_append_right l mem_cons_self, le_trans hle (Nat.le_add_left d.size p.size)⟩
  exact ⟨d, by simp, hle⟩

section Take
variable (h : Ring base s (l ++ q :: x :: r) used)
include h

lemma taken_above : base < x.addr := by
  have hq := h.base_le (b := q) (by simp)
  have hqx := (pairwise_cons.mp (pairwise_append.mp h.sorted).2.1).1 x mem_cons_self
  exact lt_of_le_of_lt hq (addr_lt_of_before hqx)

lemma taken_disjoint (hb : b ∈ l ++ q :: r) : b.Disjoint x := by
  obtain ⟨-, hqr, hlr⟩ := pairwise_append.mp h.sorted
  obtain ⟨hq, hxr⟩ := pairwise_cons.mp hqr
  have hbefore : b.Before x ∨ x.Before b := by
    rcases mem_append.mp hb with hb | hb
    · exact .inl (hlr b hb x (by simp))
    rcases mem_cons.mp hb with rfl | hb
    · exact .inl (hq x mem_cons_self)
    exact .inr ((pairwise_cons.mp hxr).1 b hb)
  exact hbefore.imp le_of_lt le_of_lt

lemma cut {mem : Nat → Header} (rest : List Block) (hu : 0 < u.size) (hxu : x.addr ≤ u.addr)
    (hstop : u.stop = x.stop) (hmod : u.addr % 16 = x.addr % 16) (hsorted : Sorted rest)
    (hrest : ∀ c ∈ rest, c.addr = x.addr ∧ c.stop = u.addr ∧ 0 < c.size)
    (hcover : ∀ y, x.Has y ↔ (∃ c ∈ rest, c.Has y) ∨ u.Has y)
    (htotal : units rest + u.size = x.size) (hlinked : Linked mem base (l ++ q :: (rest ++ r)))
    (hsize : (mem u.addr).size = u.size) (hmem : ∀ v ∈ used, mem v.addr = s.mem v.addr) :
    Ring base { s with mem := mem, freep := q.addr } (l ++ q :: (rest ++ r)) (u :: used) := by
  have hx := h.taken_above
  have hxn : x ∈ l ++ q :: x :: r := by simp
  obtain ⟨hsl, hsr, hslr⟩ := pairwise_append.mp h.sorted
  obtain ⟨hq, hxr⟩ := pairwise_cons.mp hsr
  obtain ⟨hxr, hr⟩ := pairwise_cons.mp hxr
  have hustop : u.addr ≤ u.stop := Nat.le_add_right _ _
  have hold : ∀ c ∈ l ++ q :: (rest ++ r), c ∈ rest ∨ c ∈ l ++ q :: r := by
    intro c hc
    simp only [mem_append, mem_cons] at hc ⊢
    tauto
  have hin : ∀ c ∈ l ++ q :: r, c ∈ l ++ q :: x :: r := by
    intro c hc
    simp only [mem_append, mem_cons] at hc ⊢
    tauto
  refine ⟨?_, hlinked, ?_, ⟨q, by simp, rfl⟩, ?_, ?_, ?_, ?_, ?_, ?_, ?_, ?_, h.top, ?_⟩
  · have hhead := h.head
    cases l <;> exact hhead
  · refine pairwise_append.mpr ⟨hsl, pairwise_cons.mpr ⟨fun c hc => ?_,
      pairwise_append.mpr ⟨hsorted, hr, fun c hc d hd => ?_⟩⟩, fun c hc d hd => ?_⟩
    · rcases mem_append.mp hc with hc | hc
      · show q.stop < c.addr
        rw [(hrest c hc).1]
        exact hq x mem_cons_self
      exact hq c (mem_cons_of_mem x hc)
    · have hxd : x.stop < d.addr := hxr d hd
      show c.stop < d.addr
      have := (hrest c hc).2.1
      omega
    · rcases mem_cons.mp hd with rfl | hd
      · exact hslr c hc d mem_cons_self
      rcases mem_append.mp hd with hd | hd
      · show c.stop < d.addr
        rw [(hrest d hd).1]
        exact hslr c hc x (by simp)
      exact hslr c hc d (by simp [hd])
  · intro v hv
    rcases mem_cons.mp hv with rfl | hv
    · exact hsize
    show (mem v.addr).size = v.size
    rw [hmem v hv]
    exact h.size v hv
  · intro c hc hlt
    rcases mem_append.mp hc with hc | hc
    · rcases hold c hc with hc | hc
      · exact (hrest c hc).2.2
      exact h.pos c (mem_append_left _ (hin c hc)) hlt
    rcases mem_cons.mp hc with rfl | hc
    · exact hu
    exact h.used_pos hc
  · intro v hv
    rcases mem_cons.mp hv with rfl | hv
    · exact lt_of_lt_of_le hx hxu
    exact h.above v hv
  · intro c hc
    have hxtop := h.below x (mem_append_left _ hxn)
    show c.stop ≤ s.top
    rcases mem_append.mp hc with hc | hc
    · rcases hold c hc with hc | hc
      · have := (hrest c hc).2.1
        omega
      exact h.below c (mem_append_left _ (hin c hc))
    rcases mem_cons.mp hc with rfl | hc
    · omega
    exact h.below c (mem_append_right _ hc)
  · refine pairwise_cons.mpr ⟨fun v hv => ?_, h.apart⟩
    have hxv := h.free_apart x hxn v hv
    unfold Block.Disjoint at *
    omega
  · intro c hc v hv
    rcases mem_cons.mp hv with rfl | hv
    · rcases hold c hc with hc | hc
      · exact .inl (le_of_eq (hrest c hc).2.1)
      · have hcx := h.taken_disjoint hc
        unfold Block.Disjoint at *
        omega
    rcases hold c hc with hc | hc
    · have hxv := h.free_apart x hxn v hv
      have hc := hrest c hc
      unfold Block.Disjoint at *
      omega
    exact h.free_apart c (hin c hc) v hv
  · intro y
    have hx := hcover y
    show _ ↔ ∃ t ∈ s.regions, t.Has y
    rw [← h.cover y]
    simp only [mem_append, mem_cons, or_and_right, exists_or, exists_eq_left, hx]
    exact Iff.of_eq (by ac_rfl)
  · have := h.total
    simp only [units_append, units_cons] at this ⊢
    omega
  intro ht c hc hlt
  have hx16 := h.aligned ht x (mem_append_left _ hxn) hx
  rcases mem_append.mp hc with hc | hc
  · rcases hold c hc with hc | hc
    · rw [(hrest c hc).1]
      exact hx16
    exact h.aligned ht c (mem_append_left _ (hin c hc)) hlt
  rcases mem_cons.mp hc with rfl | hc
  · rw [hmod]
    exact hx16
  exact h.aligned ht c (mem_append_right _ hc) hlt

lemma take (hn : 0 < n) (hle : n ≤ x.size) (hsmall : units s.regions < 2 ^ 32) :
    ∃ s' u ns', Umalloc.take s n q.addr x.addr = (s', u.addr + 16) ∧ u.size = n ∧
      Ring base s' ns' (u :: used) ∧ s'.regions = s.regions := by
  have hxn : x ∈ l ++ q :: x :: r := by simp
  have hsize : (s.mem x.addr).size = x.size := h.linked.size_eq hxn
  obtain ⟨hl, hr⟩ := linked_append.mp h.linked
  obtain ⟨-, hsr, hslr⟩ := pairwise_append.mp h.sorted
  obtain ⟨hq, hxr⟩ := pairwise_cons.mp hsr
  obtain ⟨hxr, -⟩ := pairwise_cons.mp hxr
  have hqx := addr_lt_of_before (hq x mem_cons_self)
  have hlx : ∀ c ∈ l, c.addr < q.addr := fun c hc => addr_lt_of_before (hslr c hc q mem_cons_self)
  have hrx : ∀ c ∈ r, x.stop < c.addr := fun c hc => hxr c hc
  have hstop : x.addr ≤ x.stop := Nat.le_add_right _ _
  unfold Umalloc.take
  rw [hsize]
  split
  · rename_i hall
    refine ⟨_, x, _, rfl, hall, h.cut [] (by omega) (le_refl _) rfl rfl .nil
      (by simp) (by simp) (by simp) ?_ ?_ ?_, rfl⟩
    · refine linked_append.mpr ⟨hl.congr fun c hc => ?_, ?_, hr.2.2.congr fun c hc => ?_⟩
      · exact update_of_ne (hlx c hc).ne _ _
      · rw [update_self, hr.2.1, hr.1]
        rfl
      have := hrx c hc
      exact update_of_ne (by omega) _ _
    · rw [update_of_ne hqx.ne', hsize]
    exact fun v hv => update_of_ne (h.addr_ne (by simp) hv).symm _ _
  rename_i hpart
  have hsmall : x.size - n < 2 ^ 32 := by
    have := h.total
    simp only [units_append, units_cons] at this
    omega
  have hrest : uint (x.size - n) = x.size - n := Nat.mod_eq_of_lt hsmall
  have hxstop : x.stop = x.addr + 16 * x.size := rfl
  simp only [update_self, hrest]
  have hux : x.addr + 16 * (x.size - n) ≠ x.addr := by omega
  refine ⟨_, ⟨x.addr + 16 * (x.size - n), n⟩, _, rfl, rfl,
    h.cut [⟨x.addr, x.size - n⟩] hn (Nat.le_add_right _ _) ?_
    (Nat.add_mul_mod_self_left _ _ _) (pairwise_singleton _ _) ?_ ?_ ?_ ?_ ?_ ?_, rfl⟩
  · show x.addr + 16 * (x.size - n) + 16 * n = x.stop
    omega
  · intro c hc
    cases mem_singleton.mp hc
    exact ⟨rfl, rfl, by show 0 < x.size - n; omega⟩
  · intro y
    simp only [mem_singleton, exists_eq_left]
    exact has_split hle
  · show x.size - n + 0 + n = x.size
    omega
  · refine linked_append.mpr ⟨hl.congr fun c hc => ?_, ?_, ?_, hr.2.2.congr fun c hc => ?_⟩
    · have := hlx c hc
      rw [update_of_ne (by omega), update_of_ne (by omega)]
    · rw [update_of_ne (by omega), update_of_ne (by omega)]
      exact hr.1
    · rw [update_of_ne hux.symm, update_self, hr.2.1]
      rfl
    have := hrx c hc
    rw [update_of_ne (by omega), update_of_ne (by omega)]
  · rw [update_self]
  intro v hv
  have hxv := h.free_apart x hxn v hv
  have hv0 := h.used_pos hv
  unfold Block.Disjoint Block.stop at hxv
  rw [update_of_ne (by omega), update_of_ne (by omega)]
end Take
section Malloc
lemma exists_walk (h : Ring base s ns used) : ∃ w, Walk s.mem s.freep (w ++ [s.freep]) ∧
    (∀ y ∈ w, y ≠ s.freep) ∧ w.length < ns.length ∧
    ∀ y, y ∈ w ++ [s.freep] ↔ ∃ b ∈ ns, b.addr = y := by
  obtain ⟨f, hf, hfreep⟩ := h.freep
  obtain ⟨l, r, rfl⟩ := append_of_mem hf
  obtain ⟨-, hfr, hlf⟩ := pairwise_append.mp h.sorted
  rw [← hfreep]
  refine ⟨(r ++ l).map Block.addr, walk_ring h.linked h.nextAddr_eq, fun y hy => ?_, ?_,
    fun y => ?_⟩
  · obtain ⟨c, hc, rfl⟩ := mem_map.mp hy
    rcases mem_append.mp hc with hc | hc
    · exact (addr_lt_of_before ((pairwise_cons.mp hfr).1 c hc)).ne'
    exact (addr_lt_of_before (hlf c hc f mem_cons_self)).ne
  · simp only [length_map, length_append, length_cons]
    omega
  simp only [map_append, mem_append, mem_map, mem_cons, not_mem_nil,
    or_false, or_and_right, exists_or, exists_eq_left, eq_comm (a := y)]
  exact Iff.of_eq (by ac_rfl)

lemma exists_front (h : Ring base s ns used) (hq : q ∈ ns)
    (hx : 0 < (s.mem (s.mem q.addr).ptr).size) :
    ∃ l x r, ns = l ++ q :: x :: r ∧ (s.mem q.addr).ptr = x.addr := by
  obtain ⟨l, r, rfl⟩ := append_of_mem hq
  have hptr : (s.mem q.addr).ptr = nextAddr base r :=
    congrArg Header.ptr (linked_append.mp h.linked).2.1
  cases r with
  | nil =>
    have hbase : (s.mem base).size = 0 := by
      have hhead : (⟨base, 0⟩ : Block) ∈ l ++ [q] := mem_of_mem_head? h.head
      exact h.linked.size_eq hhead
    rw [hptr, nextAddr, hbase] at hx
    exact absurd hx (lt_irrefl 0)
  | cons x r => exact ⟨l, x, r, rfl, hptr⟩

lemma search_found (h : Ring base s ns used) (hn : 0 < n) (hsmall : units s.regions < 2 ^ 32)
    (hbig : ∃ d ∈ ns, n ≤ d.size) :
    ∃ s' u ns', (∀ fuel, ns.length ≤ fuel →
        search n fuel s s.freep (s.mem s.freep).ptr = some (s', u.addr + 16)) ∧
      u.size = n ∧ Ring base s' ns' (u :: used) ∧ s'.regions = s.regions := by
  obtain ⟨w, hwalk, hne, hlen, hmem⟩ := h.exists_walk
  obtain ⟨d, hd, hle⟩ := hbig
  obtain ⟨q, x, hq, hptr, hx, hsearch⟩ := Umalloc.search_found (n := n) w s.freep hwalk hne
    ⟨d.addr, (hmem d.addr).mpr ⟨d, hd, rfl⟩, by rwa [h.linked.size_eq hd]⟩
  have hqn : q ∈ w ++ [s.freep] := by
    rcases hq with rfl | hq
    · exact mem_append_right w (mem_singleton_self _)
    exact mem_append_left _ hq
  obtain ⟨b, hb, rfl⟩ := (hmem q).mp hqn
  obtain ⟨l, c, r, rfl, hc⟩ := h.exists_front hb (by rw [hptr]; omega)
  rw [hc] at hptr
  rw [← hptr] at hx hsearch
  rw [h.linked.size_eq (b := c) (by simp)] at hx
  obtain ⟨s', u, ns', htake, hu, hring, hregions⟩ := h.take hn hx hsmall
  exact ⟨s', u, ns', fun fuel hfuel => by rw [hsearch fuel (by omega), htake], hu, hring, hregions⟩

lemma grow {hp : Nat} (nu : Nat) (h : Ring base s ns used) (hhp : s.top ≤ hp) (hnu : 0 < nu)
    (answers : List (Option Nat)) :
    Ring base { s with
        answers := answers, top := hp + nu * 16
        mem := update s.mem hp { s.mem hp with size := nu }
        regions := ⟨hp, nu⟩ :: s.regions } ns (⟨hp, nu⟩ :: used) := by
  have hstop : (⟨hp, nu⟩ : Block).stop = hp + nu * 16 := by
    show hp + 16 * nu = hp + nu * 16
    rw [mul_comm]
  have htop := h.top
  have hbelow : ∀ b ∈ ns ++ used, b.stop ≤ hp := fun b hb => le_trans (h.below b hb) hhp
  have hlt : ∀ b ∈ ns ++ used, b.addr < hp := by
    intro b hb
    have hcase : b = ⟨base, 0⟩ ∨ base < b.addr := by
      rcases mem_append.mp hb with hb | hb
      · exact h.eq_or_above hb
      exact .inr (h.above b hb)
    rcases hcase with rfl | hbase
    · exact lt_of_lt_of_le htop hhp
    have hpos := h.pos b hb hbase
    have hstop := hbelow b hb
    unfold Block.stop at hstop
    omega
  have hsplit : ∀ b ∈ ns ++ ⟨hp, nu⟩ :: used, b = ⟨hp, nu⟩ ∨ b ∈ ns ++ used := by
    intro b hb
    simp only [mem_append, mem_cons] at hb ⊢
    tauto
  refine ⟨h.head, h.linked.congr fun b hb => ?_, h.sorted, h.freep, fun u hu => ?_,
    fun b hb hbase => ?_, fun u hu => ?_, fun b hb => ?_, ?_, fun b hb u hu => ?_, fun y => ?_, ?_,
    ?_, fun ht b hb hbase => ?_⟩
  · exact update_of_ne (hlt b (mem_append_left _ hb)).ne _ _
  · rcases mem_cons.mp hu with rfl | hu
    · show (update s.mem hp _ hp).size = nu
      rw [update_self]
    have := (hlt u (mem_append_right _ hu)).ne
    exact (congrArg Header.size (update_of_ne this _ _)).trans (h.size u hu)
  · rcases hsplit b hb with rfl | hb
    · exact hnu
    exact h.pos b hb hbase
  · rcases mem_cons.mp hu with rfl | hu
    · exact lt_of_lt_of_le htop hhp
    exact h.above u hu
  · rcases hsplit b hb with rfl | hb
    · exact le_of_eq hstop
    exact le_trans (hbelow b hb) (Nat.le_add_right _ _)
  · exact pairwise_cons.mpr ⟨fun u hu => .inr (hbelow u (mem_append_right _ hu)), h.apart⟩
  · rcases mem_cons.mp hu with rfl | hu
    · exact .inl (hbelow b (mem_append_left _ hb))
    exact h.free_apart b hb u hu
  · have hcover := h.cover y
    simp only [mem_append, mem_cons, or_and_right, exists_or, exists_eq_left] at hcover ⊢
    rw [← hcover]
    exact Iff.of_eq (by ac_rfl)
  · have := h.total
    simp only [units_cons]
    omega
  · show base < hp + nu * 16
    omega
  rcases hsplit b hb with rfl | hb
  · exact ht _ mem_cons_self
  exact h.aligned (fun t ht' => ht t (.tail _ ht')) b hb hbase

lemma with_answers (h : Ring base s ns used) (answers : List (Option Nat)) :
    Ring base { s with answers := answers } ns used :=
  ⟨h.head, h.linked, h.sorted, h.freep, h.size, h.pos, h.above, h.below, h.apart, h.free_apart,
    h.cover, h.total, h.top, h.aligned⟩

lemma sbrk_cases (s : State) (bytes : Nat) :
    (∃ answers, sbrk s bytes = (none, { s with answers := answers })) ∨ ∃ hp answers, s.top ≤ hp ∧
        sbrk s bytes = (some hp, { s with answers := answers, top := hp + bytes }) := by
  unfold sbrk
  split
  · rename_i a rest _
    split
    · exact .inr ⟨a, rest, by assumption, rfl⟩
    exact .inl ⟨rest, rfl⟩
  · rename_i rest _
    exact .inl ⟨rest, rfl⟩
  exact .inl ⟨s.answers, rfl⟩

lemma morecore (h : Ring base s ns used) (hsmall : units s.regions + max 4096 n < 2 ^ 32) :
    ∃ s' N, units s'.regions < 2 ^ 32 ∧
      ((∀ fuel, N ≤ fuel → Umalloc.morecore fuel s n = some (s', 0)) ∧ Ring base s' ns used ∨
        ∃ ns', (∀ fuel, N ≤ fuel → Umalloc.morecore fuel s n = some (s', s'.freep)) ∧
          Ring base s' ns' used ∧ ∃ d ∈ ns', n ≤ d.size) := by
  have hnu : (if n < 4096 then 4096 else n) = max 4096 n := by split <;> omega
  unfold Umalloc.morecore
  rw [hnu]
  rcases sbrk_cases s (max 4096 n * 16) with ⟨answers, hs⟩ | ⟨hp, answers, hhp, hs⟩
  · refine ⟨_, 0, ?_, .inl ⟨fun fuel _ => by simp only [hs], h.with_answers answers⟩⟩
    show units s.regions < 2 ^ 32
    omega
  have hgrow := h.grow (max 4096 n) hhp (by omega) answers
  have hunits : units (⟨hp, max 4096 n⟩ :: s.regions) < 2 ^ 32 := by
    show max 4096 n + units s.regions < 2 ^ 32
    omega
  obtain ⟨s', ns', hfree, hring, hbig, hregions⟩ := hgrow.free hunits
  refine ⟨s', 2 * ns.length + 1, ?_, .inr ⟨ns', fun fuel hfuel => ?_, hring, ?_⟩⟩
  · rw [hregions]
    exact hunits
  · simp only [hs]
    rw [hfree fuel (by omega)]
    rfl
  obtain ⟨d, hd, hle⟩ := hbig
  exact ⟨d, hd, le_trans (Nat.le_max_right 4096 n) hle⟩

lemma search (h : Ring base s ns used) (hbase : 0 < base) (hn : 0 < n)
    (hsmall : units s.regions + max 4096 n < 2 ^ 32) :
    ∃ s' p ns' N, (∀ fuel, N ≤ fuel →
        Umalloc.search n fuel s s.freep (s.mem s.freep).ptr = some (s', p)) ∧
      (p = 0 ∧ Ring base s' ns' used ∨
        ∃ u, p = u.addr + 16 ∧ u.size = n ∧ Ring base s' ns' (u :: used)) ∧
      units s'.regions < 2 ^ 32 := by
  by_cases hbig : ∃ d ∈ ns, n ≤ d.size
  · obtain ⟨s', u, ns', hsearch, hu, hring, hregions⟩ := h.search_found hn (by omega) hbig
    exact ⟨s', _, ns', ns.length, hsearch, .inr ⟨u, rfl, hu, hring⟩, by rw [hregions]; omega⟩
  obtain ⟨w, hwalk, hne, hlen, hmem⟩ := h.exists_walk
  have hless : ∀ y ∈ w ++ [s.freep], (s.mem y).size < n := by
    intro y hy
    obtain ⟨b, hb, rfl⟩ := (hmem y).mp hy
    rw [h.linked.size_eq hb]
    exact Nat.lt_of_not_le fun hle => hbig ⟨b, hb, hle⟩
  have hfreep := hless s.freep (mem_append_right w (mem_singleton_self _))
  have hround : ∀ fuel, ∃ q, Umalloc.search n (fuel + w.length) s s.freep (s.mem s.freep).ptr =
        Umalloc.search n fuel s q s.freep := fun fuel =>
    search_none w s.freep hwalk hne fun y hy => hless y (mem_append_left _ hy)
  obtain ⟨s1, N, hunits, ⟨hmore, hring⟩ | ⟨ns1, hmore, hring, hbig1⟩⟩ := h.morecore hsmall
  · refine ⟨s1, 0, ns, N + 1 + w.length, fun fuel hfuel => ?_, .inl ⟨rfl, hring⟩, hunits⟩
    obtain ⟨k, rfl⟩ := Nat.exists_eq_add_of_le hfuel
    obtain ⟨q, hq⟩ := hround (N + k + 1)
    have hfuel' : N + 1 + w.length + k = N + k + 1 + w.length := by omega
    rw [hfuel', hq, search_more hfreep (hmore _ (Nat.le_add_right N k)), if_pos rfl]
  obtain ⟨s', u, ns', hsearch, hu, hring', hregions⟩ := hring.search_found hn hunits hbig1
  refine ⟨s', _, ns', N + ns1.length + 1 + w.length, fun fuel hfuel => ?_,
    .inr ⟨u, rfl, hu, hring'⟩, by rwa [hregions]⟩
  obtain ⟨k, rfl⟩ := Nat.exists_eq_add_of_le hfuel
  obtain ⟨q, hq⟩ := hround (N + ns1.length + k + 1)
  have hfuel' : N + ns1.length + 1 + w.length + k = N + ns1.length + k + 1 + w.length := by omega
  rw [hfuel', hq, search_more hfreep (hmore _ (by omega)), if_neg (hring.freep_ne hbase)]
  exact hsearch _ (by omega)
end Malloc
end Ring
end Xv6.Umalloc
