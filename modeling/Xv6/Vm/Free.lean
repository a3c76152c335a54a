import Xv6.Vm.Process

namespace Xv6.Vm
open Lib List
variable {kend : Nat} {m m' m'' : Mem} {t u c l depth root sz : Nat} {E : Panic → Prop}
  {H H' H'' K D W : Nat → Prop} {i : Fin 512}

def Pages (m : Mem) : Nat → Nat → Nat → Prop
  | 0, t, u => u = t
  | l + 1, t, u => u = t ∨ ∃ i c, m.next t i = some c ∧ Pages m l c u

def Bare (kend : Nat) (m : Mem) : Nat → Nat → Prop
  | 0, t => Ram kend t ∧ t ∉ m.freelist ∧ ∀ i, m.next t i = none
  | l + 1, t => Ram kend t ∧ t ∉ m.freelist ∧
    (∀ i c, m.next t i = some c → isLeaf (m.entry t i) = false ∧ Bare kend m l c ∧ ¬Pages m l c t) ∧
    ∀ i j c d u, m.next t i = some c → m.next t j = some d → Pages m l c u → Pages m l d u → i = j

structure Gives (D W : Nat → Prop) (m m' : Mem) : Prop where
  free : ∀ u, u ∈ m'.freelist ↔ u ∈ m.freelist ∨ D u
  nodup : m'.freelist.Nodup
  byte : ∀ a, ¬W (pgrounddown a) → m'.byte a = m.byte a

lemma Bare.used : ∀ {l t}, Bare kend m l t → ∀ u, Pages m l t u → Ram kend u ∧
    u ∉ m.freelist := by
  intro l
  induction l with
  | zero =>
    rintro t h u rfl
    exact ⟨h.1, h.2.1⟩
  | succ l ih =>
    rintro t h u (rfl | ⟨i, c, hc, hu⟩)
    · exact ⟨h.1, h.2.1⟩
    exact ih (h.2.2.1 i c hc).2.1 u hu

lemma entry_of_page (ht : t % pgsize = 0)
    (h : ∀ a, pgrounddown a = t → m'.byte a = m.byte a) : m'.entry t i = m.entry t i :=
  Mem.entry_congr fun a h1 h2 => h a (pgrounddown_of_mem ht h1 h2)

lemma Bare.frame : ∀ {l t}, Bare kend m l t →
    (∀ a, Pages m l t (pgrounddown a) → m'.byte a = m.byte a) →
    (∀ u, Pages m l t u → u ∉ m'.freelist) →
    Bare kend m' l t ∧ ∀ u, Pages m' l t u ↔ Pages m l t u := by
  intro l
  induction l with
  | zero =>
    intro t h hbyte hfree
    have hent : ∀ i, m'.entry t i = m.entry t i := fun i =>
      entry_of_page h.1.aligned fun a ha => hbyte a ha
    refine ⟨⟨h.1, hfree t rfl, fun i => ?_⟩, fun u => Iff.rfl⟩
    rw [Mem.next_congr hent]
    exact h.2.2 i
  | succ l ih =>
    intro t h hbyte hfree
    obtain ⟨hram, -, hchild, hdisj⟩ := h
    have hent : ∀ i, m'.entry t i = m.entry t i := fun i =>
      entry_of_page hram.aligned fun a ha => hbyte a (.inl ha)
    have hnext := Mem.next_congr hent
    have hsub : ∀ i c, m.next t i = some c →
        Bare kend m' l c ∧ ∀ u, Pages m' l c u ↔ Pages m l c u := fun i c hc =>
      ih (hchild i c hc).2.1 (fun a ha => hbyte a (.inr ⟨i, c, hc, ha⟩))
        (fun u hu => hfree u (.inr ⟨i, c, hc, hu⟩))
    refine ⟨⟨hram, hfree t (.inl rfl), fun i c hc => ?_, fun i j c d u hc hd hu hu' => ?_⟩,
      fun u => ?_⟩
    · rw [hnext] at hc
      obtain ⟨h1, -, h3⟩ := hchild i c hc
      exact ⟨by rw [hent, h1], (hsub i c hc).1, fun ht => h3 (((hsub i c hc).2 t).mp ht)⟩
    · rw [hnext] at hc hd
      exact hdisj i j c d u hc hd (((hsub i c hc).2 u).mp hu) (((hsub j d hd).2 u).mp hu')
    unfold Pages
    rw [hnext]
    refine or_congr_right (exists_congr fun i => exists_congr fun c => and_congr_right fun hc => ?_)
    exact (hsub i c hc).2 u

lemma Mem.testBit_of_next (h : m.next t i = none) : (m.entry t i).testBit 0 = false := by
  by_contra hv
  rw [next, if_pos (by simpa using hv)] at h
  cases h

lemma Mem.next_of_testBit (h : (m.entry t i).testBit 0) :
    m.next t i = some (pte2pa (m.entry t i)) := by
  rw [next, if_pos h]

lemma wp_freeEntries_none {w : Nat → VmM Unit} {Q : Unit → Mem → Prop} (hQ : Q () m) :
    ∀ is : List (Fin 512), (∀ i ∈ is, m.next t i = none) → wp (freeEntries t w is) m Q E := by
  intro is
  induction is with
  | nil => exact fun _ => wp_pure.mpr hQ
  | cons i is ih =>
    intro hnone
    have hv := Mem.testBit_of_next (hnone i mem_cons_self)
    rw [freeEntries, wp_bind, wp_readPte, hv, if_neg (by simp), if_neg (by simp)]
    exact ih fun j hj => hnone j (mem_cons_of_mem i hj)

def Below (m : Mem) (l t : Nat) (is : List (Fin 512)) (u : Nat) : Prop :=
  ∃ i ∈ is, ∃ c, m.next t i = some c ∧ Pages m l c u

lemma wp_freeEntries (hchild : ∀ m c, Bare kend m l c → m.freelist.Nodup →
      wp (freewalk kend depth c) m (fun _ m' => Gives (Pages m l c) (Pages m l c) m m') E) :
    ∀ (is : List (Fin 512)) m, is.Nodup → m.freelist.Nodup → Ram kend t → t ∉ m.freelist →
      (∀ i ∈ is, ∀ c, m.next t i = some c →
        isLeaf (m.entry t i) = false ∧ Bare kend m l c ∧ ¬Pages m l c t) →
      (∀ i ∈ is, ∀ j ∈ is, ∀ c d u, m.next t i = some c → m.next t j = some d →
        Pages m l c u → Pages m l d u → i = j) →
      wp (freeEntries t (freewalk kend depth) is) m (fun _ m' =>
        Gives (Below m l t is) (fun u => u = t ∨ Below m l t is u) m m') E := by
  intro is
  induction is with
  | nil =>
    intro m _ hnodup _ _ _ _
    exact wp_pure.mpr ⟨fun u => by simp [Below], hnodup, fun _ _ => rfl⟩
  | cons i is ih =>
    intro m his hnodup hram hused hsub hdisj
    obtain ⟨hi, his⟩ := nodup_cons.mp his
    have hmem : ∀ j ∈ is, j ∈ i :: is := fun j hj => mem_cons_of_mem i hj
    rw [freeEntries, wp_bind, wp_readPte]
    cases hv : (m.entry t i).testBit 0 with
    | false =>
      have hnone : m.next t i = none := by rw [Mem.next, if_neg (by simp [hv])]
      have hbelow : ∀ u, Below m l t (i :: is) u ↔ Below m l t is u := by
        intro u
        simp [Below, hnone]
      rw [if_neg (by simp), if_neg (by simp)]
      refine wp_imp (ih m his hnodup hram hused (fun j hj => hsub j (hmem j hj))
        (fun j hj k hk => hdisj j (hmem j hj) k (hmem k hk))) (fun _ m' hm => ?_)
      exact ⟨fun u => by rw [hm.free, hbelow], hm.nodup,
        fun a ha => hm.byte a (fun hw => ha (hw.imp_right (hbelow _).mpr))⟩
    | true =>
      have hc := Mem.next_of_testBit hv
      obtain ⟨hleaf, hbare, hself⟩ := hsub i mem_cons_self _ hc
      rw [hleaf, if_pos (by simp)]
      refine wp_bind_of (hchild m _ hbare hnodup) fun _ m1 hm1 => ?_
      rw [wp_bind, wp_writePte]
      have hother : ∀ j ∈ is, j ≠ i := fun j hj e => hi (e ▸ hj)
      have hent : ∀ j ∈ is, (m1.setEntry t i 0).entry t j = m.entry t j := by
        intro j hj
        rw [Mem.entry_setEntry hram.aligned hram.aligned (Nat.two_pow_pos 64),
          if_neg (fun h => hother j hj h.2)]
        exact entry_of_page hram.aligned fun a ha => hm1.byte a (by rw [ha]; exact hself)
      have hnext : ∀ j ∈ is, (m1.setEntry t i 0).next t j = m.next t j := by
        intro j hj
        rw [Mem.next, Mem.next, hent j hj]
      have hframe : ∀ j ∈ is, ∀ d, m.next t j = some d → Bare kend (m1.setEntry t i 0) l d ∧
            ∀ u, Pages (m1.setEntry t i 0) l d u ↔ Pages m l d u := by
        intro j hj d hd
        obtain ⟨-, hbare', hself'⟩ := hsub j (hmem j hj) d hd
        have hout : ∀ u, Pages m l d u → ¬Pages m l (pte2pa (m.entry t i)) u := fun u hu hu' =>
          hother j hj (hdisj j (hmem j hj) i mem_cons_self d _ u hd hc hu hu')
        refine hbare'.frame (fun a ha => ?_) fun u hu hf => ?_
        · have hne : pgrounddown a ≠ t := fun e => hself' (e ▸ ha)
          rw [Mem.byte_setEntry (outside_of_pgrounddown_ne hram.aligned hne)]
          exact hm1.byte a (hout _ ha)
        rcases (hm1.free u).mp hf with hf | hf
        · exact (hbare'.used u hu).2 hf
        exact hout u hu hf
      have hbelow : ∀ u, Below (m1.setEntry t i 0) l t is u ↔ Below m l t is u := by
        intro u
        refine exists_congr fun j => and_congr_right fun hj => ?_
        rw [hnext j hj]
        exact exists_congr fun d => and_congr_right fun hd => (hframe j hj d hd).2 u
      have hall : ∀ u, Below m l t (i :: is) u ↔
          Pages m l (pte2pa (m.entry t i)) u ∨ Below m l t is u := by
        intro u
        simp [Below, hc]
      have ht : t ∉ (m1.setEntry t i 0).freelist := by
        intro hf
        rcases (hm1.free t).mp hf with hf | hf
        · exact hused hf
        exact hself hf
      refine wp_imp (ih _ his hm1.nodup hram ht (fun j hj d hd => ?_)
        (fun j hj k hk d e u hd he hu hu' => ?_)) (fun _ m' hm => ⟨fun u => ?_, hm.nodup,
          fun a ha => ?_⟩)
      · rw [hnext j hj] at hd
        obtain ⟨h1, -, h3⟩ := hsub j (hmem j hj) d hd
        exact ⟨by rw [hent j hj, h1], (hframe j hj d hd).1,
          fun hp => h3 (((hframe j hj d hd).2 t).mp hp)⟩
      · rw [hnext j hj] at hd
        rw [hnext k hk] at he
        exact hdisj j (hmem j hj) k (hmem k hk) d e u hd he (((hframe j hj d hd).2 u).mp hu)
          (((hframe k hk e he).2 u).mp hu')
      · rw [hm.free, hbelow, hall, ← or_assoc, ← hm1.free]
        rfl
      have hne : pgrounddown a ≠ t := fun e => ha (.inl e)
      rw [hm.byte a (fun hw => ?_), Mem.byte_setEntry (outside_of_pgrounddown_ne hram.aligned hne),
        hm1.byte a (fun hp => ha (.inr ((hall _).mpr (.inl hp))))]
      rcases hw with e | hw
      · exact hne e
      exact ha (.inr ((hall _).mpr (.inr ((hbelow _).mp hw))))

lemma wp_kfree_gives (hm : Gives D W m m') (ht : Ram kend t) (hused : t ∉ m.freelist)
    (hD : ¬D t) :
    wp (kfree kend t) m' (fun _ m'' =>
      Gives (fun u => u = t ∨ D u) (fun u => u = t ∨ W u) m m'') E := by
  rw [wp_kfree ht]
  have hlist : (m'.freed t).freelist = t :: m'.freelist := rfl
  refine ⟨fun u => ?_, ?_, fun a ha => ?_⟩
  · rw [hlist, mem_cons, hm.free]
    exact or_left_comm
  · rw [hlist, nodup_cons, hm.free]
    exact ⟨fun hn => hn.elim hused hD, hm.nodup⟩
  have hbyte := hm.byte a (fun hw => ha (.inr hw))
  rw [← hbyte]
  exact Mem.byte_fill (outside_of_pgrounddown_ne ht.aligned (fun e => ha (.inl e)))

lemma wp_freewalk : ∀ l depth m t, l < depth → Bare kend m l t → m.freelist.Nodup →
    wp (freewalk kend depth t) m (fun _ m' => Gives (Pages m l t) (Pages m l t) m m') E := by
  intro l
  induction l with
  | zero =>
    intro depth m t hd h hnodup
    obtain ⟨depth, rfl⟩ := Nat.exists_eq_succ_of_ne_zero (by omega : depth ≠ 0)
    rw [freewalk, wp_bind]
    refine wp_freeEntries_none ?_ _ fun i _ => h.2.2 i
    refine wp_imp (wp_kfree_gives (D := fun _ => False) (W := fun _ => False)
      ⟨fun u => by rw [or_false], hnodup, fun _ _ => rfl⟩ h.1 h.2.1 (fun hf => hf))
      (fun _ m' hm => ?_)
    exact ⟨fun u => by rw [hm.free, or_false]; rfl, hm.nodup,
      fun a ha => hm.byte a (fun hw => ha (hw.elim id False.elim))⟩
  | succ l ih =>
    intro depth m t hd h hnodup
    obtain ⟨depth, rfl⟩ := Nat.exists_eq_succ_of_ne_zero (by omega : depth ≠ 0)
    obtain ⟨hram, hused, hsub, hdisj⟩ := h
    have hbelow : ∀ u, Below m l t (finRange 512) u ↔ ∃ i c, m.next t i = some c ∧ Pages m l c u :=
      by
      intro u
      simp [Below, mem_finRange]
    have hself : ¬Below m l t (finRange 512) t := by
      rw [hbelow]
      rintro ⟨i, c, hc, hp⟩
      exact (hsub i c hc).2.2 hp
    rw [freewalk]
    refine wp_bind_of (wp_freeEntries (fun m c => ih depth m c (by omega)) (finRange 512) m
      (nodup_finRange 512) hnodup hram hused (fun i _ => hsub i)
      (fun i _ j _ => hdisj i j)) (fun _ m1 hm1 => ?_)
    refine wp_imp (wp_kfree_gives hm1 hram hused hself) fun _ m' hm => ?_
    refine ⟨fun u => ?_, hm.nodup, fun a ha => hm.byte a (fun hw => ha ?_)⟩
    · rw [hm.free, hbelow]
      rfl
    rw [hbelow] at hw
    exact hw.elim .inl id

lemma pages_iff : ∀ {l t}, Pages m l t u ↔ Reached m.next t l u := by
  intro l
  induction l with
  | zero =>
    intro t
    constructor
    · rintro rfl
      exact ⟨[], by simp, rfl⟩
    rintro ⟨q, hq, hu⟩
    cases length_eq_zero_iff.mp (by omega : q.length = 0)
    exact (Option.some.inj hu).symm
  | succ l ih =>
    intro t
    constructor
    · rintro (rfl | ⟨i, c, hc, hu⟩)
      · exact ⟨[], by simp, rfl⟩
      obtain ⟨q, hq, hu⟩ := ih.mp hu
      exact ⟨i :: q, by simpa using hq, by rwa [follow, hc]⟩
    rintro ⟨q, hq, hu⟩
    cases q with
    | nil => exact .inl (Option.some.inj hu).symm
    | cons i q =>
      rw [follow] at hu
      cases hc : m.next t i with
      | none =>
        rw [hc] at hu
        cases hu
      | some c =>
        rw [hc] at hu
        exact .inr ⟨i, c, hc, ih.mpr ⟨q, by simpa using hq, hu⟩⟩

lemma Paged.path_eq (h : Paged kend m root) {p q q' : List (Fin 512)} {i j : Fin 512}
    {t c d u : Nat} (hp : follow m.next root p = some t) (hc : m.next t i = some c)
    (hd : m.next t j = some d) (hq : follow m.next c q = some u) (hq' : follow m.next d q' = some u)
    (hl : p.length + 1 + q.length ≤ 2) (hl' : p.length + 1 + q'.length ≤ 2) : i = j := by
  have hpath : ∀ i c q, m.next t i = some c → follow m.next c q = some u →
      follow m.next root (p ++ i :: q) = some u := by
    intro i c q hc hq
    rwa [follow_append, hp, Option.bind_some, follow, hc]
  have heq := h.tree _ _ u (by simp; omega) (by simp; omega) (hpath i c q hc hq)
    (hpath j d q' hd hq')
  have := append_cancel_left heq
  exact (cons.inj this).1

lemma Paged.bare (h : Paged kend m root) (hnone : ∀ x, Page x → m.map root x = none) :
    ∀ l (p : List (Fin 512)) t, p.length + l = 2 → follow m.next root p = some t →
      Bare kend m l t := by
  intro l
  induction l with
  | zero =>
    intro p t hl hp
    have hr : Reached m.next root 2 t := ⟨p, by omega, hp⟩
    refine ⟨h.page t hr, h.used t hr, fun i => ?_⟩
    obtain ⟨va, hva, hidx, hpx⟩ := exists_page (by omega : p.length = 2) i
    have hmap := hnone va hva
    rw [Mem.map_of_follow (by rw [hidx, hp]), hpx, ofPte_eq_none] at hmap
    rw [Mem.next, if_neg (by simp [hmap])]
  | succ l ih =>
    intro p t hl hp
    have hr : Reached m.next root 2 t := ⟨p, by omega, hp⟩
    have hstep : ∀ i c, m.next t i = some c → follow m.next root (p ++ [i]) = some c := by
      intro i c hc
      rwa [follow_concat, hp]
    refine ⟨h.page t hr, h.used t hr, fun i c hc => ⟨?_, ih (p ++ [i]) c (by simp; omega)
      (hstep i c hc), fun hpages => ?_⟩, fun i j c d u hc hd hu hu' => ?_⟩
    · refine h.inner t i ⟨p, by omega, hp⟩ ?_
      by_contra hv
      rw [Mem.next, if_neg hv] at hc
      cases hc
    · obtain ⟨q, hq, hfq⟩ := pages_iff.mp hpages
      have hlong : follow m.next root (p ++ [i] ++ q) = some t := by
        rwa [follow_append, hstep i c hc]
      have heq := h.tree _ _ t (by simp; omega) (by omega : p.length ≤ 2) hlong hp
      have := congrArg length heq
      simp at this
    obtain ⟨q, hq, hfq⟩ := pages_iff.mp hu
    obtain ⟨q', hq', hfq'⟩ := pages_iff.mp hu'
    exact h.path_eq hp hc hd hfq hfq' (by omega) (by omega)

structure Trade (H H' : Nat → Prop) (m m' : Mem) : Prop where
  pages : ∀ t, H' t ∨ t ∈ m'.freelist ↔ H t ∨ t ∈ m.freelist
  apart : ∀ t, H' t → t ∉ m'.freelist
  nodup : m'.freelist.Nodup
  byte : ∀ a, ¬H (pgrounddown a) → pgrounddown a ∉ m.freelist → m'.byte a = m.byte a

lemma Trade.trans (h : Trade H H' m m') (h' : Trade H' H'' m' m'') : Trade H H'' m m'' where
  pages t := by rw [h'.pages, h.pages]
  apart := h'.apart
  nodup := h'.nodup
  byte a h1 h2 := by
    have hn : ¬(H' (pgrounddown a) ∨ pgrounddown a ∈ m'.freelist) := by
      rw [h.pages]
      rintro (hh | hf)
      · exact h1 hh
      exact h2 hf
    rw [h'.byte a (fun hh => hn (.inl hh)) (fun hf => hn (.inr hf)), h.byte a h1 h2]

lemma Trade.congr (h : Trade H H' m m') (hK : ∀ t, K t ↔ H t) (hD : ∀ t, D t ↔ H' t) :
    Trade K D m m' where
  pages t := by rw [hK, hD, h.pages]
  apart t ht := h.apart t ((hD t).mp ht)
  nodup := h.nodup
  byte a h1 h2 := h.byte a (fun hh => h1 ((hK _).mpr hh)) h2

lemma Trade.add (h : Trade H H' m m') (hK : ∀ t, K t → ¬H t ∧ t ∉ m.freelist) :
    Trade (fun t => H t ∨ K t) (fun t => H' t ∨ K t) m m' where
  pages t := by rw [or_right_comm, h.pages, or_right_comm]
  apart t ht hf := by
    have hn := (h.pages t).mp (.inr hf)
    rcases ht with ht | ht
    · exact h.apart t ht hf
    exact hn.elim (hK t ht).1 (hK t ht).2
  nodup := h.nodup
  byte a h1 h2 := h.byte a (fun hh => h1 (.inl hh)) h2

lemma Sound.trade (hs : Sound kend m root) (h : Trade H H' m m') (hram : ∀ t, H t → Ram kend t)
    (hout : ∀ t, Owns m root t → ¬H t) : Same kend m m' root := by
  refine hs.frame (fun a ho => h.byte a (hout _ ho) (fun hf => hs.not_owns hf ho)) (fun t hf => ?_)
    h.nodup
  rcases (h.pages t).mp (.inr hf) with hh | hf
  · exact ⟨hram t hh, fun ho => hout t ho hh⟩
  exact ⟨hs.paged.freeRam t hf, hs.not_owns hf⟩

lemma Evolves.trade {v : View} (he : Evolves kend root m m' v) :
    Trade (Owns m root) (Owns m' root) m m' where
  pages := he.owns
  apart _ ho hf := he.sound.not_owns hf ho
  nodup := he.sound.paged.nodup
  byte := he.byte

lemma Sound.owns_ram (h : Sound kend m root) (ho : Owns m root t) : Ram kend t := by
  rcases ho with hr | ⟨x, flags, hx, hlt, hm⟩
  · exact h.paged.page t hr
  exact h.ram x t flags hx hlt hm

lemma owns_of_map_none (hnone : ∀ x, Page x → x < trapframe → m.map root x = none) :
    Owns m root t ↔ Reached m.next root 2 t := by
  refine ⟨fun h => ?_, .inl⟩
  rcases h with hr | ⟨x, flags, hx, hlt, hm⟩
  · exact hr
  rw [hnone x hx hlt] at hm
  cases hm

lemma wp_freewalk_sound (h : Sound kend m root) (hnone : ∀ x, Page x → m.map root x = none) :
    wp (freewalk kend 4 root) m (fun _ m' => Trade (Owns m root) (fun _ => False) m m') E := by
  have howns : ∀ t, Owns m root t ↔ Pages m 2 root t := fun t => by
    rw [owns_of_map_none fun x hx _ => hnone x hx, pages_iff]
  refine wp_imp (wp_freewalk 2 4 m root (by omega) (h.paged.bare hnone 2 [] root rfl rfl)
    h.paged.nodup) fun _ m' hm => ⟨fun t => ?_, fun _ hf => hf.elim, hm.nodup, fun a h1 _ => ?_⟩
  · rw [false_or, hm.free, howns, or_comm]
  exact hm.byte a fun hp => h1 ((howns _).mpr hp)

lemma wp_uvmfree (h : Sound kend m root) (hsz : sz ≤ trapframe)
    (hbelow : ∀ x, Page x → m.map root x ≠ none → x < sz) :
    wp (uvmfree kend root sz) m (fun _ m' => Trade (Owns m root) (fun _ => False) m m') E := by
  have hnone : ∀ x, Page x → sz ≤ x → m.map root x = none := by
    intro x hx hge
    by_contra hne
    have := hbelow x hx hne
    omega
  unfold uvmfree
  by_cases hpos : 0 < sz
  · have h63 := lt_of_le_trapframe hsz
    have hup := pgroundup_le_trapframe hsz
    have hn : pgroundup sz / pgsize * pgsize = pgroundup sz :=
      Nat.div_mul_cancel (Nat.dvd_of_mod_eq_zero (pgroundup_aligned sz))
    rw [if_pos hpos]
    refine wp_bind_of (wp_uvmunmap_user h (by decide) (by rw [hn]; omega)) fun _ m1 ⟨hm1, _⟩ => ?_
    refine wp_imp (wp_freewalk_sound hm1.sound (fun x hx => ?_)) fun _ m' hm => hm1.trade.trans hm
    by_cases hlt : x < trapframe
    · rw [← view_eq_none, hm1.view x hx hlt, Nat.zero_add, hn]
      have hiff := hx.lt_pgroundup_iff h63
      by_cases hin : 0 ≤ x ∧ x < pgroundup sz
      · rw [if_pos hin]
      rw [if_neg hin, view_eq_none]
      exact hnone x hx (by omega)
    rw [hm1.top x hx (by omega)]
    exact hnone x hx (by omega)
  rw [if_neg hpos, wp_bind, wp_pure]
  exact wp_freewalk_sound h fun x hx => hnone x hx (by omega)

lemma Sound.retop {g : Nat → Option (Nat × Nat)} (h : Sound kend m root)
    (hb : Becomes kend root (fun _ => False) m m' g)
    (hlow : ∀ x, Page x → x < trapframe → g x = m.map root x)
    (hread : ∀ x t flags, Page x → trapframe ≤ x → g x = some (t, flags) →
      flags.testBit 1) (hhalf : ∀ x, Page x → maxva ≤ x → g x = none) :
    Sound kend m' root ∧ Trade (Owns m root) (Owns m' root) m m' := by
  have hmap : ∀ x, Page x → x < trapframe → m'.map root x = m.map root x :=
    fun x hx hlt => by rw [hb.map x hx, hlow x hx hlt]
  have hs : Sound kend m' root := by
    refine ⟨hb.paged, fun x t fl hx hlt hm => ?_, fun x t fl hx hlt hm => ?_,
      fun x y t fl fl' hx hy hlt hlt' hm hm' => ?_, fun x t fl hx hm => ?_, fun x hx hge => ?_⟩
    · exact h.ram x t fl hx hlt (by rw [← hmap x hx hlt, hm])
    · exact hb.idle (h.idle x t fl hx hlt (by rw [← hmap x hx hlt, hm])) fun hf => hf
    · exact h.once x y t fl fl' hx hy hlt hlt' (by rw [← hmap x hx hlt, hm])
        (by rw [← hmap y hy hlt', hm'])
    · by_cases hlt : x < trapframe
      · exact h.readable x t fl hx (by rw [← hmap x hx hlt, hm])
      exact hread x t fl hx (by omega) (by rw [← hb.map x hx, hm])
    rw [hb.map x hx, hhalf x hx hge]
  refine ⟨hs, fun t => ?_, fun t ho hf => hs.not_owns hf ho, hs.paged.nodup, fun a h1 h2 => ?_⟩
  · have hiff := owns_iff (D := fun _ => False) (H := fun _ => False) (hb.pages t)
      (fun x fl hx hlt hm => .inl (by rwa [hmap x hx hlt] at hm))
      (fun x fl hx hlt hm => .inl (by rw [hmap x hx hlt, hm])) False.elim False.elim
    rw [hiff, or_false]
  exact hb.byte a (fun hr => h1 (.inl hr)) h2 fun hf => hf
end Xv6.Vm
