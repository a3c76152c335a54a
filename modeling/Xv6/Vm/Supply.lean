import Xv6.Vm.Copy

namespace Xv6.Vm
open Lib
variable {kend : Nat} {m m' : Mem} {p : Proc} {root va pa a k n t perm : Nat} {i : Fin 512}
  {E : Panic → Prop}

structure Spare (k : Nat) (m : Mem) : Prop where
  granted : m.deny = []
  enough : k ≤ m.freelist.length

lemma Spare.mono (h : Spare k m) (hn : n ≤ k) : Spare n m := ⟨h.granted, hn.trans h.enough⟩

lemma wp_kalloc_spare {Q : Option Nat → Mem → Prop} (h : Spare (k + 1) m)
    (hok : ∀ r rest, m.freelist = r :: rest → Spare k (m.taken r rest) →
      Q (some r) (m.taken r rest)) :
    wp kalloc m Q E := by
  have hlen := h.enough
  refine wp_kalloc (fun hfail => ?_) (fun r rest hf => hok r rest hf ⟨?_, ?_⟩)
  · rcases hfail with hd | hnil
    · rw [h.granted] at hd
      cases hd
    rw [hnil] at hlen
    simp at hlen
  · show m.deny.tail = []
    rw [h.granted]
    rfl
  rw [hf, List.length_cons] at hlen
  show k ≤ rest.length
  omega

lemma Spare.of_eq (h : Spare k m) (hd : m'.deny = m.deny) (hf : m'.freelist = m.freelist) :
    Spare k m' := ⟨by rw [hd, h.granted], by rw [hf]; exact h.enough⟩

lemma wp_walkLevel_spare (h : Spare (k + 1) m) :
    wp (walkLevel t i true) m (fun r m' => r.isSome ∧ Spare k m') E := by
  unfold walkLevel
  rw [wp_bind, wp_readPte]
  refine wp_ite (fun hv => wp_pure.mpr ?_) fun _ => ?_
  · exact ⟨rfl, h.mono (by omega)⟩
  rw [if_neg (by simp), wp_bind]
  refine wp_kalloc_spare h fun r rest _ hs => ?_
  simp only [wp_bind, wp_memset, wp_writePte, wp_pure]
  exact ⟨rfl, hs.of_eq rfl rfl⟩

lemma wp_walkLoop_spare : ∀ level m t, Spare (k + level) m →
    wp (walkLoop va true level t) m (fun r m' => r.isSome ∧ Spare k m') E := by
  intro level
  induction level with
  | zero => exact fun m t h => wp_pure.mpr ⟨rfl, h⟩
  | succ level ih =>
    intro m t h
    rw [walkLoop]
    refine wp_bind_of (wp_walkLevel_spare h) fun r m' hr => ?_
    cases r with
    | none => cases hr.1
    | some u => exact ih m' u hr.2

lemma wp_mappages_spare (h : Spare (k + 2) m) :
    wp (mappages root va pgsize pa perm) m (fun r m' => r = 0 ∧ Spare k m') (fun _ => True) := by
  unfold mappages
  by_cases hva : va % pgsize ≠ 0
  · rw [if_pos hva, wp_throw]
    trivial
  rw [if_neg hva, if_neg (by decide), if_neg (by decide), Nat.div_self (by decide), mapLoop,
    wp_bind,
    walk]
  refine wp_ite (fun _ => ?_) fun _ => ?_
  · rw [wp_throw]
    trivial
  refine wp_bind_of (wp_walkLoop_spare 2 m root h) fun r m' hr => ?_
  obtain ⟨hr, hs⟩ := hr
  cases r with
  | none => cases hr
  | some t =>
    refine wp_pure.mpr ?_
    show wp (readPte t (px 0 va) >>= _) m' _ _
    rw [wp_bind, wp_readPte]
    refine wp_ite (fun _ => ?_) fun _ => ?_
    · rw [wp_throw]
      trivial
    rw [wp_bind, wp_writePte]
    refine wp_ite (fun _ => wp_pure.mpr ?_) fun _ => ?_
    · exact ⟨rfl, hs.of_eq rfl rfl⟩
    rw [mapLoop, wp_pure]
    exact ⟨rfl, hs.of_eq rfl rfl⟩

lemma wp_vmfault_spare (h : Spare (k + 3) m) : wp (vmfault kend p p.pagetable va) m (fun r m' =>
      r = 0 ∧ m' = m ∧ (va < p.sz → m.map p.pagetable (pgrounddown va) ≠ none) ∨
      r ∈ m.freelist ∧ Spare k m') (fun _ => True) := by
  unfold vmfault
  refine wp_ite (fun hge => wp_pure.mpr ?_) fun _ => ?_
  · exact .inl ⟨rfl, rfl, fun hlt => absurd hlt (not_lt.mpr hge)⟩
  by_cases hmax : maxva ≤ pgrounddown va
  · rw [wp_bind, ismapped, wp_bind, walk, if_pos hmax, wp_throw]
    trivial
  refine wp_bind_of (wp_ismapped (not_le.mp hmax)) fun b m1 hb => ?_
  obtain ⟨rfl, rfl⟩ := hb
  cases hmap : m1.map p.pagetable (pgrounddown va) with
  | some e =>
    rw [if_pos Option.isSome_some, wp_pure]
    exact .inl ⟨rfl, rfl, fun _ => by simp⟩
  | none =>
    rw [if_neg (by simp), wp_bind]
    refine wp_kalloc_spare h fun r rest hf hs => ?_
    rw [wp_bind, wp_memset]
    refine wp_bind_of (wp_mappages_spare (hs.of_eq rfl rfl)) fun e m' he => ?_
    rw [if_neg (by simp [he.1]), wp_pure]
    exact .inr ⟨by rw [hf]; exact List.mem_cons_self, he.2⟩

lemma wp_uvmallocLoop_spare {lo newsz xperm : Nat} : ∀ n m a, Spare (k + 3 * n) m →
    wp (uvmallocLoop kend root lo newsz xperm n a) m (fun r m' => r = newsz ∧ Spare k m')
      (fun _ => True) := by
  intro n
  induction n with
  | zero => exact fun m a h => wp_pure.mpr ⟨rfl, h⟩
  | succ n ih =>
    intro m a h
    rw [uvmallocLoop]
    refine wp_ite (fun hmore => ?_) fun hmore => ?_
    · rw [wp_bind]
      refine wp_kalloc_spare (h.mono (by omega : k + 3 * n + 2 + 1 ≤ _)) fun r rest _ hs => ?_
      rw [wp_bind, wp_memset]
      refine wp_bind_of (wp_mappages_spare (hs.of_eq rfl rfl)) fun e m' he => ?_
      rw [if_neg (by simp [he.1])]
      exact ih m' _ he.2
    rw [wp_pure]
    exact ⟨rfl, h.mono (by omega)⟩

def absent (f : Nat → Option (Nat × Nat)) (sz : Nat) : Nat :=
  Nat.count (fun k => f (k * pgsize) = none) ((sz + (pgsize - 1)) / pgsize)

lemma count_lt_count {P Q : Nat → Prop} [DecidablePred P] [DecidablePred Q] (hk : k < n)
    (hQ : Q k) (hP : ¬P k) (hPQ : ∀ j < n, P j → Q j) : Nat.count P n < Nat.count Q n := by
  rw [Nat.count_eq_card_filter_range, Nat.count_eq_card_filter_range]
  refine Finset.card_lt_card (Finset.ssubset_iff_of_subset (fun j hj => ?_) |>.mpr ⟨k, ?_, ?_⟩)
  · rw [Finset.mem_filter, Finset.mem_range] at hj ⊢
    exact ⟨hj.1, hPQ j hj.1 hj.2⟩
  · rw [Finset.mem_filter, Finset.mem_range]
    exact ⟨hk, hQ⟩
  rw [Finset.mem_filter]
  exact fun h => hP h.2
end Xv6.Vm
