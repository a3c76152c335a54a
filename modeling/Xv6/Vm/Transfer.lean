import Xv6.Vm.Demand
import Xv6.Vm.Exec

namespace Xv6.Vm
open Lib List
variable {kend tramp : Nat} {m m' m'' : Mem} {p q : Proc} {x va a sz off flags pa : Nat}
  {src : List UInt8} {E : Panic → Prop} {v w : View} {b : Fin pgsize → UInt8} {write : Bool}
  {n : Nat}

abbrev Bytes := Nat → Option (Nat × UInt8)

def View.seen (v : View) (sz : Nat) : Bytes := fun a =>
  if trapframe ≤ a then none
  else match v (pgrounddown a) with
    | some (flags, b) => some (flags, b ⟨a % pgsize, mod_pgsize_lt a⟩)
    | none => if pgrounddown a < sz then some (pteData, 0) else none

def Mem.seen (m : Mem) (p : Proc) : Bytes := (m.view p.pagetable).seen p.sz

def Bytes.store (f : Bytes) (dst : Nat) (src : List UInt8) : Bytes := fun a =>
  if dst ≤ a ∧ a < dst + src.length then (f a).map fun e => (e.1, src.getD (a - dst) 0) else f a

lemma Bytes.store_nil (f : Bytes) (dst : Nat) : f.store dst [] = f := by
  funext a
  rw [Bytes.store, if_neg (by simp)]

lemma Bytes.store_store (f : Bytes) (dst : Nat) (s1 s2 : List UInt8) :
    (f.store dst s1).store (dst + s1.length) s2 = f.store dst (s1 ++ s2) := by
  funext a
  unfold Bytes.store
  rw [length_append]
  by_cases h1 : dst ≤ a ∧ a < dst + s1.length
  · rw [if_neg (by omega), if_pos h1, if_pos (by omega), getD_append _ _ _ _ (by omega)]
  by_cases h2 : dst + s1.length ≤ a ∧ a < dst + s1.length + s2.length
  · rw [if_pos h2, if_neg h1, if_pos (by omega), getD_append_right _ _ _ _ (by omega),
      Nat.sub_add_eq]
  rw [if_neg h2, if_neg h1, if_neg (by omega)]

lemma View.seen_congr (h : ∀ x, Page x → x < trapframe → v x = w x) : v.seen sz = w.seen sz := by
  funext a
  unfold View.seen
  by_cases ha : trapframe ≤ a
  · rw [if_pos ha, if_pos ha]
  have hlt := pgrounddown_lt_trapframe_iff.mpr (not_le.mp ha)
  rw [if_neg ha, if_neg ha, h _ (page_of_lt (pgrounddown_aligned a) hlt) hlt]

lemma Evolves.seen (he : Evolves kend p.pagetable m m' v) : m'.seen p = v.seen p.sz :=
  View.seen_congr he.view

lemma View.seen_faulted (hv : v x = none) (hlt : x < sz) : (v.faulted x).seen sz = v.seen sz := by
  funext a
  unfold View.seen View.faulted
  by_cases hx : pgrounddown a = x
  · rw [if_pos hx, hx, hv]
    simp only [hlt, if_true]
    rfl
  rw [if_neg hx]

lemma add_mod_pgsize (hx : x % pgsize = 0) (hoff : off < pgsize) : (x + off) % pgsize = off := by
  rw [pgsize_eq] at *
  omega

lemma View.seen_setBytes (hx : x % pgsize = 0) (hv : v x = some (flags, b))
    (hfit : off + src.length ≤ pgsize) :
    (v.put x flags (setBytes b off src)).seen sz = (v.seen sz).store (x + off) src := by
  funext a
  unfold View.seen View.put Bytes.store
  dsimp only
  have hmod : a = pgrounddown a + a % pgsize := by
    rw [pgrounddown]
    exact (Nat.div_add_mod' a pgsize).symm
  have hlt := mod_pgsize_lt a
  by_cases hpage : pgrounddown a = x
  · have hin : x + off ≤ a ∧ a < x + off + src.length ↔
        off ≤ a % pgsize ∧ a % pgsize < off + src.length := by omega
    have hsub : a - (x + off) = a % pgsize - off := by omega
    rw [if_pos hpage, hpage, hv, hsub]
    simp only [hin, setBytes]
    split <;> split <;> simp
  have hout : ¬(x + off ≤ a ∧ a < x + off + src.length) := fun h => by
    refine hpage ?_
    rw [pgrounddown, pgsize_eq] at *
    omega
  rw [if_neg hpage, if_neg hout]

def Grants (m : Mem) (p : Proc) (write : Bool) (a : Nat) : Prop :=
  a < trapframe ∧ match m.map p.pagetable (pgrounddown a) with
    | some (_, flags) => flags.testBit 4 ∧ (write → flags.testBit 2)
    | none => pgrounddown a < p.sz

inductive Refuses (m : Mem) (p : Proc) (write : Bool) (a : Nat) : Prop where
  | guard (pa flags : Nat) (hm : m.map p.pagetable (pgrounddown a) = some (pa, flags))
      (hu : flags.testBit 4 = false)
  | readOnly (pa flags : Nat) (hw : write)
      (hm : m.map p.pagetable (pgrounddown a) = some (pa, flags)) (hro : flags.testBit 2 = false)
  | missing (hm : m.map p.pagetable (pgrounddown a) = none) (hsz : p.sz ≤ pgrounddown a)
  | trapframe (h : pgrounddown a = trapframe)
  | trampoline (h : pgrounddown a = trampoline)
  | high (h : maxva ≤ a)

lemma not_grants_iff : ¬Grants m p write a ↔ Refuses m p write a := by
  have htf : trapframe = 274877898752 := trapframe_eq
  have htr : trampoline = 274877902848 := trampoline_eq
  have hmx : maxva = 274877906944 := maxva_eq
  have hle := pgrounddown_le a
  constructor
  · intro h
    by_cases hlt : a < trapframe
    · cases hm : m.map p.pagetable (pgrounddown a) with
      | none =>
        refine .missing hm (not_lt.mp fun hsz => h ⟨hlt, ?_⟩)
        rwa [hm]
      | some e =>
        by_cases hu : e.2.testBit 4
        · by_cases hw : write → e.2.testBit 2
          · refine absurd ⟨hlt, ?_⟩ h
            rw [hm]
            exact ⟨hu, hw⟩
          obtain ⟨hw, hro⟩ := Classical.not_imp.mp hw
          exact .readOnly e.1 e.2 hw hm (Bool.eq_false_iff.mpr hro)
        exact .guard e.1 e.2 hm (Bool.eq_false_iff.mpr hu)
    by_cases hhigh : maxva ≤ a
    · exact .high hhigh
    have htop : pgrounddown a = trapframe ∨ pgrounddown a = trampoline := by
      rw [pgrounddown, pgsize_eq]
      omega
    exact htop.elim .trapframe .trampoline
  rintro h ⟨hlt, hg⟩
  cases h with
  | guard pa flags hm hu =>
    rw [hm] at hg
    exact absurd hg.1 (by simp [hu])
  | readOnly pa flags hw hm hro =>
    rw [hm] at hg
    exact absurd (hg.2 hw) (by simp [hro])
  | missing hm hsz =>
    rw [hm] at hg
    exact absurd hg (not_lt.mpr hsz)
  | trapframe h | trampoline h | high h => omega

lemma Mem.seen_of_lt (ha : a < trapframe) : m.seen p a =
    match m.map p.pagetable (pgrounddown a) with
      | some (pa, flags) => some (flags, m.byte (pa + a % pgsize))
      | none => if pgrounddown a < p.sz then some (pteData, 0) else none := by
  rw [Mem.seen, View.seen, if_neg (not_le.mpr ha), Mem.view]
  cases m.map p.pagetable (pgrounddown a) <;> rfl

lemma grants_iff : Grants m p write a ↔ ∃ e, m.seen p a = some e ∧
    e.1.testBit 4 ∧ (write → e.1.testBit 2) := by
  unfold Grants
  by_cases ha : a < trapframe
  · rw [Mem.seen_of_lt ha]
    cases hm : m.map p.pagetable (pgrounddown a) with
    | none =>
      by_cases hsz : pgrounddown a < p.sz
      · simp only [ha, hsz, if_true]
        exact ⟨fun _ => ⟨_, rfl, by decide, fun _ => by decide⟩, fun _ => ⟨trivial, trivial⟩⟩
      simp [hsz]
    | some e => simp [ha]
  rw [Mem.seen, View.seen, if_pos (not_lt.mp ha)]
  simp [ha]

def Present (m : Mem) (p : Proc) (x : Nat) : Prop :=
  x < trapframe ∧ ∃ pa flags, m.map p.pagetable x = some (pa, flags) ∧ flags.testBit 4

lemma Resized.trans {p' p'' : Proc} {m'' : Mem} (h : Resized kend tramp m m' p p')
    (h' : Resized kend tramp m' m'' p' p'') : Resized kend tramp m m'' p p'' := by
  obtain ⟨v, hv⟩ := h.evolves
  obtain ⟨w, hw⟩ := h'.evolves
  rw [h.pagetable] at hw
  exact ⟨h'.space, ⟨w, hv.trans hw⟩, by rw [h'.pagetable, h.pagetable],
    by rw [h'.trapframe, h.trapframe]⟩

lemma Resized.trade {p' : Proc} (hp : Space kend tramp m p) (h : Resized kend tramp m m' p p') :
    Trade (Has m p) (Has m' p') m m' := by
  obtain ⟨v, hv⟩ := h.evolves
  exact hp.trade_of_evolves hv h.pagetable h.trapframe

structure Faulted (kend tramp : Nat) (m m' : Mem) (p : Proc) : Prop where
  resized : Resized kend tramp m m' p p
  seen : m'.seen p = m.seen p
  present : ∀ x, x % pgsize = 0 → Present m p x → Present m' p x

lemma Space.faulted (h : Space kend tramp m p) : Faulted kend tramp m m p :=
  ⟨h.resized, rfl, fun _ _ hx => hx⟩

lemma wp_vmfault_faulted (h : Space kend tramp m p) :
    wp (vmfault kend p p.pagetable va) m (fun r m' => Faulted kend tramp m m' p ∧
      (r = 0 ∨ va < p.sz ∧ m.map p.pagetable (pgrounddown va) = none ∧ Ram kend r ∧
        m'.map p.pagetable (pgrounddown va) = some (r, pteData))) E := by
  have hsz := h.size
  have hle := pgrounddown_le va
  refine wp_imp (wp_both (wp_vmfault_space h) (wp_vmfault h.sound h.size)) fun r m' hr => ?_
  obtain ⟨hres, hr⟩ := hr
  have hkeep : ∀ w : View, Evolves kend p.pagetable m m' w →
      (∀ x, m.view p.pagetable x ≠ none → w x = m.view p.pagetable x) →
      ∀ x, x % pgsize = 0 → Present m p x → Present m' p x := by
    intro w he hw x hx ⟨hlt, pa, flags, hm, hu⟩
    have hv := he.view x (page_of_lt hx hlt) hlt
    rw [hw x (by rw [view_eq_some hm]; simp), view_eq_some hm] at hv
    obtain ⟨pa', hm'⟩ := map_of_view hv
    exact ⟨hlt, pa', flags, hm', hu⟩
  rcases hr with ⟨rfl, he⟩ | ⟨hlt, hnone, hram, he, hmap⟩
  · exact ⟨⟨hres, he.seen, hkeep _ he fun _ _ => rfl⟩, .inl rfl⟩
  have hv := view_eq_none.mpr hnone
  refine ⟨⟨hres, ?_, hkeep _ he fun x hx => ?_⟩, .inr ⟨hlt, hnone, hram, hmap⟩⟩
  · rw [he.seen]
    exact View.seen_faulted hv (by omega)
  rw [View.faulted, if_neg]
  rintro rfl
  exact hx hv

lemma wp_userAddr_faulted (h : Space kend tramp m p) (hk : 0 < kend) (hx : x % pgsize = 0) :
    wp (userAddr kend p p.pagetable x) m (fun pa m' => Faulted kend tramp m m' p ∧
      (pa = 0 ∧ ¬Present m p x ∨ pa ≠ 0 ∧ x < trapframe ∧ ∃ flags,
        m'.map p.pagetable x = some (pa, flags) ∧ flags.testBit 4)) E := by
  have hround := pgrounddown_of_aligned hx
  have hsz := h.size
  unfold userAddr
  rw [wp_bind, wp_walkaddr]
  by_cases hp : Present m p x
  · obtain ⟨hlt, pa, flags, hm, hu⟩ := hp
    have hpa := (h.sound.ram x pa flags (page_of_lt hx hlt) hlt hm).above
    rw [walkaddr_of_some hlt hm, if_pos hu, if_neg (by omega), wp_pure]
    exact ⟨h.faulted, .inr ⟨by omega, hlt, flags, hm, hu⟩⟩
  have hzero : (if x < maxva then userPage (m.map p.pagetable x) else 0) = 0 := by
    by_cases hmax : x < maxva
    · rw [if_pos hmax]
      cases hm : m.map p.pagetable x with
      | none => rfl
      | some e =>
        have hu : e.2.testBit 4 = false := by
          by_cases hlt : x < trapframe
          · exact Bool.eq_false_iff.mpr fun hu => hp ⟨hlt, e.1, e.2, hm, hu⟩
          exact h.not_user hx (not_lt.mp hlt) hmax hm
        rw [userPage, hu, if_neg (by simp)]
    rw [if_neg hmax]
  rw [hzero, if_pos rfl]
  refine wp_imp (wp_vmfault_faulted h) fun r m' hr => ⟨hr.1, ?_⟩
  rcases hr.2 with rfl | ⟨hlt, -, hram, hmap⟩
  · exact .inl ⟨rfl, hp⟩
  have hr := hram.above
  rw [hround] at hmap
  exact .inr ⟨by omega, by omega, _, hmap, by decide⟩

lemma Faulted.trans (h : Faulted kend tramp m m' p) (h' : Faulted kend tramp m' m'' p) :
    Faulted kend tramp m m'' p :=
  ⟨h.resized.trans h'.resized, h'.seen.trans h.seen, fun x hx hp => h'.present x hx
    (h.present x hx hp)⟩

lemma Mem.seen_of_map (hx : x % pgsize = 0) (hlt : x < trapframe) (hoff : off < pgsize)
    (hm : m.map p.pagetable x = some (pa, flags)) :
    m.seen p (x + off) = some (flags, m.byte (pa + off)) := by
  have hround : pgrounddown (x + off) = x := by
    rw [pgrounddown, pgsize_eq] at *
    omega
  have ha : x + off < trapframe := pgrounddown_lt_trapframe_iff.mp (by rwa [hround])
  rw [Mem.seen_of_lt ha, hround, hm, add_mod_pgsize hx hoff]

lemma grants_congr (h : (m'.seen p a).map Prod.fst = (m.seen p a).map Prod.fst) :
    Grants m' p write a ↔ Grants m p write a := by
  rw [grants_iff, grants_iff]
  cases hm : m.seen p a <;> cases hm' : m'.seen p a <;> rw [hm, hm'] at h <;>
    simp only [Option.map_none, Option.map_some, reduceCtorEq, Option.some.injEq] at h
  simp [h]

lemma Bytes.fst_store (f : Bytes) (dst : Nat) (src : List UInt8) (a : Nat) :
    (f.store dst src a).map Prod.fst = (f a).map Prod.fst := by
  rw [Bytes.store]
  split
  · rw [Option.map_map]
    rfl
  rfl

def Bytes.read (f : Bytes) (va n : Nat) : List UInt8 :=
  (range n).map fun i => ((f (va + i)).map Prod.snd).getD 0

lemma Bytes.read_add (f : Bytes) (va n k : Nat) :
    f.read va (n + k) = f.read va n ++ f.read (va + n) k := by
  unfold Bytes.read
  rw [range_add, map_append, map_map]
  simp [Function.comp_def, add_assoc]

structure Sent (kend tramp : Nat) (m m' : Mem) (p : Proc) (va : Nat) (src : List UInt8) (k : Nat) :
    Prop where
  resized : Resized kend tramp m m' p p
  le : k ≤ src.length
  seen : m'.seen p = (m.seen p).store va (src.take k)
  grants : ∀ i < k, Grants m p true (va + i)
  present : ∀ x, x % pgsize = 0 → Present m p x ∨ (∃ i < k, pgrounddown (va + i) = x) →
    Present m' p x

lemma Space.sent (h : Space kend tramp m p) : Sent kend tramp m m p va src 0 where
  resized := h.resized
  le := Nat.zero_le _
  seen := by rw [take_zero, Bytes.store_nil]
  grants _ hi := absurd hi (Nat.not_lt_zero _)
  present x _ := by
    rintro (hp | ⟨i, hi, -⟩)
    · exact hp
    exact absurd hi (Nat.not_lt_zero _)

lemma Faulted.sent (h : Faulted kend tramp m m' p) : Sent kend tramp m m' p va src 0 where
  resized := h.resized
  le := Nat.zero_le _
  seen := by rw [take_zero, Bytes.store_nil, h.seen]
  grants _ hi := absurd hi (Nat.not_lt_zero _)
  present x hx := by
    rintro (hp | ⟨i, hi, -⟩)
    · exact h.present x hx hp
    exact absurd hi (Nat.not_lt_zero _)

lemma Sent.trans {n k : Nat} (h : Sent kend tramp m m' p va src n)
    (h' : Sent kend tramp m' m'' p (va + n) (src.drop n) k) :
    Sent kend tramp m m'' p va src (n + k) where
  resized := h.resized.trans h'.resized
  le := by
    have := h.le
    have := h'.le
    rw [length_drop] at this
    omega
  seen := by
    have hlen : (src.take n).length = n := by rw [length_take, min_eq_left h.le]
    rw [h'.seen, h.seen, take_add, ← Bytes.store_store, hlen]
  grants i hi := by
    by_cases hin : i < n
    · exact h.grants i hin
    have hg := h'.grants (i - n) (by omega)
    rw [show va + n + (i - n) = va + i by omega] at hg
    refine (grants_congr ?_).mp hg
    rw [h.seen, Bytes.fst_store]
  present x hx := by
    rintro (hp | ⟨i, hi, hpage⟩)
    · exact h'.present x hx (.inl (h.present x hx (.inl hp)))
    by_cases hin : i < n
    · exact h'.present x hx (.inl (h.present x hx (.inr ⟨i, hin, hpage⟩)))
    exact h'.present x hx (.inr ⟨i - n, by omega, by
      rw [show va + n + (i - n) = va + i by omega]; exact hpage⟩)

lemma copyoutLoop_nil (kend : Nat) (p : Proc) (root fuel va : Nat) :
    copyoutLoop kend p root fuel va [] = pure 0 := by
  cases fuel with
  | zero => rfl
  | succ fuel => rw [copyoutLoop, if_pos rfl]

lemma pgrounddown_add (hx : x % pgsize = 0) (hoff : off < pgsize) :
    pgrounddown (x + off) = x := by
  rw [pgrounddown, pgsize_eq] at *
  omega

lemma wp_poke_sent (h : Space kend tramp m p) (hx : x % pgsize = 0) (hlt : x < trapframe)
    (hm : m.map p.pagetable x = some (pa, flags)) (hu : flags.testBit 4)
    (hw : flags.testBit 2) (hfit : off + src.length ≤ pgsize) :
    wp (poke (pa + off) src) m (fun _ m' => Sent kend tramp m m' p (x + off) src src.length) E := by
  have hpage := page_of_lt hx hlt
  have hround : ∀ i < src.length, pgrounddown (x + off + i) = x := fun i hi => by
    rw [add_assoc]
    exact pgrounddown_add hx (by omega)
  refine wp_poke h.sound hpage hlt hm hfit fun m' he hmap _ _ => ⟨⟨?_, ⟨_, he⟩, rfl, rfl⟩,
    le_rfl, ?_, fun i hi => ⟨?_, ?_⟩, fun y hy hyp => ?_⟩
  · refine h.resize he h.size fun y hy hylt hv => ?_
    by_cases hyx : y = x
    · rw [hyx]
      exact h.below x hpage hlt (by rw [hm]; simp)
    rw [if_neg hyx] at hv
    exact h.view_ne_none hy hylt hv
  · rw [he.seen, take_length]
    exact View.seen_setBytes hx (view_eq_some hm) hfit
  · rwa [← pgrounddown_lt_trapframe_iff, hround i hi]
  · rw [hround i hi, hm]
    exact ⟨hu, fun _ => hw⟩
  rcases hyp with ⟨hylt, hyp⟩ | ⟨i, hi, rfl⟩
  · exact ⟨hylt, by rwa [hmap]⟩
  rw [hround i hi]
  exact ⟨hlt, pa, flags, by rw [hmap, hm], hu⟩

lemma Sent.take (h : Sent kend tramp m m' p va (src.take n) n) (hn : n ≤ src.length) :
    Sent kend tramp m m' p va src n :=
  ⟨h.resized, hn, by rw [h.seen, take_take, Nat.min_self], h.grants, h.present⟩

lemma Faulted.sent_trans (h : Faulted kend tramp m m' p)
    (h' : Sent kend tramp m' m'' p va src n) : Sent kend tramp m m'' p va src n := by
  have h0 : Sent kend tramp m m' p va src 0 := h.sent
  have hs := h0.trans h'
  rwa [zero_add] at hs

lemma wp_copyoutLoop_sent (hk : 0 < kend) : ∀ fuel m va src, src.length ≤ fuel →
    Space kend tramp m p → wp (copyoutLoop kend p p.pagetable fuel va src) m (fun r m' =>
      ∃ k, Sent kend tramp m m' p va src k ∧
        (r = 0 ∧ k = src.length ∨ r = -1 ∧ k < src.length)) E := by
  intro fuel
  induction fuel with
  | zero =>
    intro m va src hfuel h
    have hnil : src.length = 0 := by omega
    exact wp_pure.mpr ⟨0, h.sent, .inl ⟨rfl, hnil.symm⟩⟩
  | succ fuel ih =>
    intro m va src hfuel h
    have hle := pgrounddown_le va
    have hoff := sub_pgrounddown_lt va
    have hal := pgrounddown_aligned va
    rw [copyoutLoop]
    by_cases hnil : src = []
    · rw [if_pos hnil, wp_pure]
      exact ⟨0, h.sent, .inl ⟨rfl, by rw [hnil]; rfl⟩⟩
    have hpos : 0 < src.length := length_pos_iff.mpr hnil
    rw [if_neg hnil]
    refine wp_ite (fun _ => wp_pure.mpr ?_) fun hmax => ?_
    · exact ⟨0, h.sent, .inr ⟨rfl, hpos⟩⟩
    refine wp_bind_of (wp_userAddr_faulted h hk hal) fun pa m1 h1 => ?_
    obtain ⟨hf, ⟨hpa, -⟩ | ⟨hpa, hlt, flags, hmap, hu⟩⟩ := h1
    · rw [if_pos hpa, wp_pure]
      exact ⟨0, hf.sent, .inr ⟨rfl, hpos⟩⟩
    rw [if_neg hpa, wp_bind]
    refine wp_walk_mapped (not_le.mp hmax) hmap fun t i _ _ _ _ hflags => ?_
    rw [wp_bind, wp_readPte, ← testBit_pteFlags (by decide), hflags]
    by_cases hw : flags.testBit 2
    · rw [if_neg (by simp [hw])]
      generalize hn : min (pgsize - (va - pgrounddown va)) src.length = n
      have hlen : (src.take n).length = n := by
        rw [length_take]
        omega
      refine wp_bind_of (wp_poke_sent hf.resized.space hal hlt hmap hu hw (by omega))
        fun _ m2 hs => ?_
      rw [Nat.add_sub_cancel' hle, hlen] at hs
      have hs := hf.sent_trans (hs.take (by omega))
      by_cases hlast : n = src.length
      · rw [drop_eq_nil_of_le (by omega), copyoutLoop_nil, wp_pure]
        exact ⟨n, hs, .inl ⟨rfl, hlast⟩⟩
      have hnext : pgrounddown va + pgsize = va + n := by omega
      rw [hnext]
      refine wp_imp (ih m2 _ _ (by rw [length_drop]; omega) hs.resized.space) fun r m3 h3 => ?_
      obtain ⟨k, hs', hr⟩ := h3
      refine ⟨n + k, hs.trans hs', ?_⟩
      rw [length_drop] at hr
      omega
    rw [if_pos (by simpa using hw), wp_pure]
    exact ⟨0, hf.sent, .inr ⟨rfl, hpos⟩⟩

lemma copyinLoop_zero (kend : Nat) (p : Proc) (root fuel va : Nat) (dst : List UInt8) :
    copyinLoop kend p root fuel va 0 dst = pure (0, dst) := by
  cases fuel with
  | zero => rfl
  | succ fuel => rw [copyinLoop, if_pos rfl]

lemma pageBytes_eq_read (hx : x % pgsize = 0) (hlt : x < trapframe)
    (hm : m.map p.pagetable x = some (pa, flags)) (hfit : off + n ≤ pgsize) :
    pageBytes (m.bytes pa) off n = (m.seen p).read (x + off) n := by
  refine map_congr_left fun i hi => ?_
  have hi := mem_range.mp hi
  rw [add_assoc, Mem.seen_of_map hx hlt (by omega) hm]
  show m.byte (pa + (off + i) % pgsize) = m.byte (pa + (off + i))
  rw [Nat.mod_eq_of_lt (by omega)]

lemma wp_copyinLoop_faulted (hk : 0 < kend) : ∀ fuel m va len dst, len ≤ fuel →
    Space kend tramp m p → wp (copyinLoop kend p p.pagetable fuel va len dst) m (fun r m' =>
      Faulted kend tramp m m' p ∧ ∃ k, r.2 = dst ++ (m.seen p).read va k ∧
        (∀ i < k, Grants m p false (va + i)) ∧
        (r.1 = 0 ∧ k = len ∨ r.1 = -1 ∧ k < len ∧ ¬Present m p (pgrounddown (va + k)))) E := by
  intro fuel
  induction fuel with
  | zero =>
    intro m va len dst hfuel h
    refine wp_pure.mpr ⟨h.faulted, 0, (append_nil dst).symm, fun i hi => ?_, .inl ⟨rfl, ?_⟩⟩
    · exact absurd hi (Nat.not_lt_zero i)
    omega
  | succ fuel ih =>
    intro m va len dst hfuel h
    have hle := pgrounddown_le va
    have hoff := sub_pgrounddown_lt va
    have hal := pgrounddown_aligned va
    rw [copyinLoop]
    refine wp_ite (fun hnil => wp_pure.mpr ?_) fun hnil => ?_
    · exact ⟨h.faulted, 0, (append_nil dst).symm, fun i hi => absurd hi (Nat.not_lt_zero i),
        .inl ⟨rfl, hnil.symm⟩⟩
    refine wp_bind_of (wp_userAddr_faulted h hk hal) fun pa m1 h1 => ?_
    obtain ⟨hf, ⟨hpa, hp⟩ | ⟨hpa, hlt, flags, hmap, hu⟩⟩ := h1
    · rw [if_pos hpa, wp_pure]
      exact ⟨hf, 0, (append_nil dst).symm, fun i hi => absurd hi (Nat.not_lt_zero i),
        .inr ⟨rfl, by omega, hp⟩⟩
    rw [if_neg hpa]
    generalize hn : min (pgsize - (va - pgrounddown va)) len = n
    have hfit : va - pgrounddown va + n ≤ pgsize := by omega
    have hread := pageBytes_eq_read hal hlt hmap hfit
    rw [Nat.add_sub_cancel' hle, hf.seen] at hread
    have hgrants : ∀ i < n, Grants m p false (va + i) := fun i hi => by
      have hin : va - pgrounddown va + i < pgsize := by omega
      have hsee := Mem.seen_of_map hal hlt hin hmap
      rw [← add_assoc, Nat.add_sub_cancel' hle, hf.seen] at hsee
      exact grants_iff.mpr ⟨_, hsee, hu, by simp⟩
    rw [wp_bind, wp_peek (by omega), hread]
    by_cases hlast : n = len
    · rw [hlast, Nat.sub_self, copyinLoop_zero, wp_pure]
      exact ⟨hf, n, by rw [hlast], hgrants, .inl ⟨rfl, hlast⟩⟩
    have hnext : pgrounddown va + pgsize = va + n := by omega
    rw [hnext]
    refine wp_imp (ih m1 _ _ _ (by omega) hf.resized.space) fun r m2 h2 => ?_
    obtain ⟨hf', k, hbytes, hg, hr⟩ := h2
    refine ⟨hf.trans hf', n + k, ?_, fun i hi => ?_, ?_⟩
    · rw [hbytes, hf.seen, Bytes.read_add, append_assoc]
    · by_cases hin : i < n
      · exact hgrants i hin
      · have hg := hg (i - n) (by omega)
        rw [show va + n + (i - n) = va + i by omega] at hg
        exact (grants_congr (by rw [hf.seen])).mp hg
    rcases hr with ⟨hr, hk⟩ | ⟨hr, hk, hp⟩
    · exact .inl ⟨hr, by omega⟩
    refine .inr ⟨hr, by omega, fun hp' => hp ?_⟩
    rw [add_assoc]
    exact hf.present _ (pgrounddown_aligned _) hp'

lemma Bytes.read_store (f : Bytes) (h : ∀ i < src.length, f (va + i) ≠ none) :
    (f.store va src).read va src.length = src := by
  refine ext_getElem (by simp [Bytes.read]) fun i h1 h2 => ?_
  obtain ⟨e, he⟩ := Option.ne_none_iff_exists'.mp (h i h2)
  have hin : va ≤ va + i ∧ va + i < va + src.length := by omega
  simp [Bytes.read, Bytes.store, h2, he]

structure Elsewhere (kend tramp : Nat) (m m' : Mem) (p : Proc) : Prop where
  byte : ∀ a, ¬Owns m p.pagetable (pgrounddown a) → pgrounddown a ∉ m.freelist →
    m'.byte a = m.byte a
  other : ∀ q, Space kend tramp m q → (∀ t, Has m q t → ¬Has m p t) →
    Space kend tramp m' q ∧ m'.seen q = m.seen q

lemma Resized.elsewhere (h : Space kend tramp m p) (hr : Resized kend tramp m m' p p) :
    Elsewhere kend tramp m m' p where
  byte := by
    obtain ⟨v, hv⟩ := hr.evolves
    exact hv.byte
  other q hq hdisj := by
    obtain ⟨hsame, hspace⟩ := hq.trade (hr.trade h) (fun t ht => h.has_ram ht) hdisj
    exact ⟨hspace, View.seen_congr hsame.view⟩

lemma Grants.mod (h : Grants m p write a) : a % 2 ^ 64 = a := by
  have hlt := h.1
  rw [trapframe_eq] at hlt
  exact Nat.mod_eq_of_lt (by omega)

lemma Grants.not_refuses (h : Grants m p write a) : ¬Refuses m p write (a % 2 ^ 64) := by
  rw [h.mod, ← not_grants_iff]
  exact not_not.mpr h

lemma grants_of_page (h : Grants m p write a)
    (hpage : pgrounddown x = pgrounddown a) : Grants m p write x := by
  obtain ⟨hlt, hg⟩ := h
  refine ⟨?_, by rwa [hpage]⟩
  rwa [← pgrounddown_lt_trapframe_iff, hpage, pgrounddown_lt_trapframe_iff]

lemma Sent.before {i k : Nat} (h : Sent kend tramp m m' p va src k)
    (hi : Refuses m p true ((va + i) % 2 ^ 64)) : k ≤ i ∧
    ∀ a, m'.seen p a ≠ m.seen p a → ∃ j < i, a = (va + j) % 2 ^ 64 ∧
      pgrounddown a ≠ pgrounddown ((va + i) % 2 ^ 64) := by
  have hki : k ≤ i := not_lt.mp fun hlt => (h.grants i hlt).not_refuses hi
  refine ⟨hki, fun a ha => ?_⟩
  have hin : va ≤ a ∧ a < va + k := by
    by_contra hout
    refine ha ?_
    rw [h.seen, Bytes.store, length_take, min_eq_left h.le, if_neg hout]
  have hg := h.grants (a - va) (by omega)
  rw [Nat.add_sub_cancel' hin.1] at hg
  refine ⟨a - va, by omega, by rw [Nat.add_sub_cancel' hin.1, hg.mod], fun hpage => ?_⟩
  exact not_grants_iff.mpr hi (grants_of_page hg hpage.symm)

lemma Sent.copyin (hk : 0 < kend) (h : Sent kend tramp m m' p va src src.length) :
    ∃ m'', Vm.copyin kend p p.pagetable va src.length m' = .ok ((0, src), m'') := by
  obtain ⟨⟨r, bytes⟩, m'', hrun, -, k, hbytes, -, hr⟩ := wp_total
    (wp_copyinLoop_faulted hk src.length m' va src.length [] le_rfl h.resized.space)
  rcases hr with ⟨hr, hlen⟩ | ⟨-, hlt, hp⟩
  · have hread : (m'.seen p).read va src.length = src := by
      rw [h.seen, take_length]
      refine Bytes.read_store _ fun i hi => ?_
      obtain ⟨e, he, -⟩ := grants_iff.mp (h.grants i hi)
      rw [he]
      exact Option.some_ne_none e
    rw [nil_append, hlen, hread] at hbytes
    refine ⟨m'', ?_⟩
    rwa [show ((0 : Int), src) = (r, bytes) from Prod.ext hr.symm hbytes.symm]
  exact absurd (h.present _ (pgrounddown_aligned _) (.inr ⟨k, hlt, rfl⟩)) hp

theorem copy_exact (hk : 0 < kend) (h : Space kend tramp m p) (va : Nat) :
    (∀ src : List UInt8, ∃ r m', copyout kend p p.pagetable va src m = .ok (r, m') ∧
      (r = 0 ∨ r = -1) ∧ Space kend tramp m' p ∧ Elsewhere kend tramp m m' p ∧
      (r = 0 → (∀ i < src.length, Grants m p true ((va + i) % 2 ^ 64)) ∧
        m'.seen p = (m.seen p).store va src ∧
        ∃ m'', copyin kend p p.pagetable va src.length m' = .ok ((0, src), m'')) ∧
      ∀ i < src.length, Refuses m p true ((va + i) % 2 ^ 64) → r = -1 ∧
        ∀ a, m'.seen p a ≠ m.seen p a → ∃ j < i, a = (va + j) % 2 ^ 64 ∧
          pgrounddown a ≠ pgrounddown ((va + i) % 2 ^ 64)) ∧
    ∀ len, ∃ r bytes m', copyin kend p p.pagetable va len m = .ok ((r, bytes), m') ∧
      (r = 0 ∨ r = -1) ∧ Space kend tramp m' p ∧ Elsewhere kend tramp m m' p ∧
      m'.seen p = m.seen p ∧
      (r = 0 → (∀ i < len, Grants m p false ((va + i) % 2 ^ 64)) ∧ bytes = (m.seen p).read va len) ∧
      ∀ i < len, Refuses m p false ((va + i) % 2 ^ 64) → r = -1 := by
  refine ⟨fun src => ?_, fun len => ?_⟩
  · obtain ⟨r, m', hrun, k, hs, hr⟩ := wp_total
      (wp_copyoutLoop_sent hk src.length m va src le_rfl h)
    refine ⟨r, m', hrun, hr.imp (·.1) (·.1), hs.resized.space, hs.resized.elsewhere h,
      fun h0 => ?_, fun i hi href => ?_⟩
    · have hlen : k = src.length := by omega
      subst hlen
      refine ⟨fun i hi => ?_, by rw [hs.seen, take_length], hs.copyin hk⟩
      rw [(hs.grants i hi).mod]
      exact hs.grants i hi
    obtain ⟨hki, hbefore⟩ := hs.before href
    exact ⟨by omega, hbefore⟩
  obtain ⟨⟨r, bytes⟩, m', hrun, hf, k, hbytes, hg, hr⟩ := wp_total
    (wp_copyinLoop_faulted hk len m va len [] le_rfl h)
  refine ⟨r, bytes, m', hrun, hr.imp (·.1) (·.1), hf.resized.space, hf.resized.elsewhere h,
    hf.seen, fun h0 => ?_, fun i hi href => ?_⟩
  · have hlen : k = len := by omega
    rw [hlen] at hbytes hg
    refine ⟨fun i hi => ?_, hbytes⟩
    rw [(hg i hi).mod]
    exact hg i hi
  have hki : k ≤ i := not_lt.mp fun hlt => (hg i hlt).not_refuses href
  omega

def lazyProc : Proc := { firstProc with sz := 2 * pgsize }

lemma space_lazyProc : Space 0x80100000 0x80007000 firstMem lazyProc :=
  space_firstProc.resize space_firstProc.sound.evolves (by decide) fun x hx hlt hv =>
    absurd (space_firstProc.view_ne_none hx hlt hv) (Nat.not_lt_zero x)

lemma copyout_lazyProc :
    (copyout 0x80100000 lazyProc lazyProc.pagetable 4095 [7, 8] firstMem).map Prod.fst = .ok 0 := by
  rfl

theorem copy_exact_lazyProc : ∃ m' m'',
    copyout 0x80100000 lazyProc lazyProc.pagetable 4095 [7, 8] firstMem = .ok (0, m') ∧
    m'.seen lazyProc = (firstMem.seen lazyProc).store 4095 [7, 8] ∧
    copyin 0x80100000 lazyProc lazyProc.pagetable 4095 2 m' = .ok ((0, [7, 8]), m'') := by
  obtain ⟨r, m', hrun, -, -, -, hok, -⟩ :=
    (copy_exact (by decide) space_lazyProc 4095).1 [7, 8]
  have h0 := copyout_lazyProc
  rw [hrun] at h0
  cases h0
  obtain ⟨-, hseen, m'', hin⟩ := hok rfl
  exact ⟨m', m'', hrun, hseen, hin⟩
end Xv6.Vm
