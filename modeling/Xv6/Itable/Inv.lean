import Xv6.Itable.Change

namespace Xv6.Itable
open Fs

namespace State
variable {P : Type}

section
variable (s : State P) (k : Fin ninode)

def heldAt (p : P) : Nat := s.held p k
def stages (p : P) : Stage := (s.pc p).stage k

def view : View P :=
  ⟨s.entry k, s.disk (s.entry k).id, s.heldAt k, s.stages k⟩
end

structure Claimed (s : State P) (q : P) (i : Nat × Nat) : Prop where
  type : (s.disk i).type ≠ 0
  nlink : (s.disk i).nlink = 0
  alone : ∀ r, s.pc r = .allocGet i.1 i.2 → r = q
  unheld : ∀ k, 0 < (s.entry k).ref → (s.entry k).id = i →
    ∀ p, s.heldAt k p = 0 ∧ (s.stages k p).early = false

/-- The invariant of every run. -/
structure Inv [Fintype P] (s : State P) : Prop where
  ok : ∀ k, (s.view k).Ok
  unique : ∀ k l, 0 < (s.entry k).ref → 0 < (s.entry l).ref →
    (s.entry k).id = (s.entry l).id → k = l
  links : ∀ i, (s.disk i).type = 0 → (s.disk i).nlink = 0
  claimed : ∀ q i, s.pc q = .allocGet i.1 i.2 → s.Claimed q i
  quiet : s.panicked = none ∨ s.panicked = some .igetNoInodes

def Keeps (s : State P) : Act P → Prop
  | .change _ k f => (f (s.entry k).copy).type ≠ 0
  | _ => True

instance (s : State P) : ∀ a, Decidable (s.Keeps a)
  | .change _ k f => inferInstanceAs (Decidable ((f (s.entry k).copy).type ≠ 0))
  | .iget _ _ _ | .ialloc _ _ _ | .idup _ _ | .pass _ _ _ | .ilock _ _ | .iupdate _ _
  | .iunlock _ _ | .iput _ _ | .step _ => inferInstanceAs (Decidable True)

structure Frame (s s' : State P) (k : Fin ninode) : Prop where
  entry : ∀ l ≠ k, s'.entry l = s.entry l
  held : ∀ l ≠ k, s'.heldAt l = s.heldAt l
  stages : ∀ l ≠ k, s'.stages l = s.stages l
  disk : ∀ i ≠ (s.entry k).id, s'.disk i = s.disk i
  alloc : ∀ q (i : Nat × Nat), s'.pc q = .allocGet i.1 i.2 → s.pc q = .allocGet i.1 i.2

variable [Fintype P] {s s' : State P} {p q : P} {k l : Fin ninode} {i : Nat × Nat}

namespace Inv
lemma ref_pos (h : s.Inv) (hp : 0 < s.held p k) : 0 < (s.entry k).ref := (h.ok k).pos_of_held hp

lemma not_claimed (h : s.Inv) (hp : 0 < s.held p k) (q : P) :
    s.pc q ≠ .allocGet (s.entry k).dev (s.entry k).inum := by
  intro hq
  have hc := ((h.claimed q (s.entry k).id hq).unheld k (h.ref_pos hp) rfl p).1
  exact absurd hc (Nat.ne_of_gt hp)

lemma not_claimed_of_early (h : s.Inv) (hp : (s.stages k p).early) (q : P) :
    s.pc q ≠ .allocGet (s.entry k).dev (s.entry k).inum := by
  intro hq
  have hpos : 0 < (s.entry k).ref := (h.ok k).pos_of_puts (Stage.puts_of_early hp)
  have hc := ((h.claimed q (s.entry k).id hq).unheld k hpos rfl p).2
  exact nomatch hc.symm.trans hp

lemma onEntry (h : s.Inv) (hpos : 0 < (s.entry k).ref) (hf : Frame s s' k)
    (hid : (s'.entry k).id = (s.entry k).id) (hok : (s'.view k).Ok)
    (hlinks : (s'.disk (s.entry k).id).type = 0 → (s'.disk (s.entry k).id).nlink = 0)
    (hclaim : ∀ q, s.pc q = .allocGet (s.entry k).dev (s.entry k).inum →
      s'.disk (s.entry k).id = s.disk (s.entry k).id ∧
        ∀ p, s'.heldAt k p = 0 ∧ (s'.stages k p).early = false)
    (hquiet : s'.panicked = s.panicked) : s'.Inv := by
  have hne : ∀ l ≠ k, 0 < (s.entry l).ref → (s.entry l).id ≠ (s.entry k).id :=
    fun l hl hlr e => hl (h.unique l k hlr hpos e)
  refine ⟨fun l => ?_, fun l m hl hm e => ?_, fun i hi => ?_, fun q i hq => ?_, ?_⟩
  · by_cases hlk : l = k
    · rwa [hlk]
    · have hview : s'.view l = { s.view l with disk := s'.disk (s.entry l).id } := by
        rw [view, hf.entry l hlk, hf.held l hlk, hf.stages l hlk]
        rfl
      rw [hview]
      rcases Nat.eq_zero_or_pos (s.entry l).ref with h0 | hlr
      · exact (h.ok l).setDisk h0 _
      rw [hf.disk _ (hne l hlk hlr)]
      exact h.ok l
  · by_cases hlk : l = k <;> by_cases hmk : m = k
    · rw [hlk, hmk]
    · rw [hlk, hid, hf.entry m hmk] at e
      rw [hf.entry m hmk] at hm
      exact absurd e.symm (hne m hmk hm)
    · rw [hmk, hid, hf.entry l hlk] at e
      rw [hf.entry l hlk] at hl
      exact absurd e (hne l hlk hl)
    · rw [hf.entry l hlk, hf.entry m hmk] at e
      rw [hf.entry l hlk] at hl
      rw [hf.entry m hmk] at hm
      exact h.unique l m hl hm e
  · by_cases hik : i = (s.entry k).id
    · rw [hik] at hi ⊢
      exact hlinks hi
    rw [hf.disk i hik] at hi ⊢
    exact h.links i hi
  · have hq' := hf.alloc q i hq
    have hc := h.claimed q i hq'
    have hdisk : s'.disk i = s.disk i := by
      by_cases hik : i = (s.entry k).id
      · rw [hik] at hq' ⊢
        exact (hclaim q hq').1
      exact hf.disk i hik
    refine ⟨by rw [hdisk]; exact hc.type, by rw [hdisk]; exact hc.nlink,
      fun r hr => hc.alone r (hf.alloc r i hr), fun l hl e => ?_⟩
    by_cases hlk : l = k
    · rw [hlk, hid] at e
      rw [← e] at hq'
      rw [hlk]
      exact (hclaim q hq').2
    rw [hf.entry l hlk] at hl e
    rw [hf.held l hlk, hf.stages l hlk]
    exact hc.unheld l hl e
  rw [hquiet]
  exact h.quiet
end Inv
end State
end Xv6.Itable
