import Mathlib.Algebra.BigOperators.Group.Finset.Basic
import Mathlib.Algebra.Order.BigOperators.Group.Finset
import Mathlib.Data.Finset.Card
import Mathlib.Data.Fintype.Defs

namespace Xv6.Lib
variable {π : Type*}

def Counts (P : π → Bool) (n : Int) : Prop :=
  ∃ A : Finset π, (∀ p, p ∈ A ↔ P p) ∧ n = A.card

variable {P Q : π → Bool} {n : Int} {p : π}

lemma counts_zero (h : ∀ p, P p = false) : Counts P 0 :=
  ⟨∅, by simp [h], by simp⟩

lemma Counts.congr (h : Counts P n) (hPQ : ∀ p, Q p = P p) : Counts Q n := by
  obtain ⟨A, hA, hn⟩ := h
  exact ⟨A, fun p => by rw [hA, hPQ], hn⟩

lemma Counts.pos (h : Counts P n) (hp : P p) : 1 ≤ n := by
  obtain ⟨A, hA, rfl⟩ := h
  have : 0 < A.card := Finset.card_pos.mpr ⟨p, (hA p).mpr hp⟩
  omega

lemma Counts.eq_false (h : Counts P 0) (p : π) : P p = false := by
  by_contra hp
  have := h.pos (by simpa using hp)
  omega

variable [DecidableEq π]

lemma Counts.enter (h : Counts P n) (hp : P p = false) (hq : Q p)
    (hPQ : ∀ q ≠ p, Q q = P q) : Counts Q (n + 1) := by
  obtain ⟨A, hA, rfl⟩ := h
  have hn : p ∉ A := by simp [hA, hp]
  refine ⟨insert p A, fun q => ?_, by simp [Finset.card_insert_of_notMem hn]⟩
  by_cases hqp : q = p
  · simp [hqp, hq]
  simp [hqp, hA, hPQ q hqp]

lemma Counts.leave (h : Counts P n) (hp : P p) (hq : Q p = false)
    (hPQ : ∀ q ≠ p, Q q = P q) : Counts Q (n - 1) := by
  obtain ⟨A, hA, rfl⟩ := h
  have hm : p ∈ A := (hA p).mpr hp
  have hpos : 0 < A.card := Finset.card_pos.mpr ⟨p, hm⟩
  refine ⟨A.erase p, fun q => ?_, by rw [Finset.card_erase_of_mem hm]; omega⟩
  by_cases hqp : q = p
  · simp [hqp, hq]
  simp [hqp, hA, hPQ q hqp]

variable [Fintype π] {f g : π → Nat}
open Finset

lemma sum_add_of_forall_ne (h : ∀ q ≠ p, g q = f q) : ∑ q, g q + f p = ∑ q, f q + g p := by
  have hrest : ∑ q ∈ univ.erase p, g q = ∑ q ∈ univ.erase p, f q :=
    sum_congr rfl fun q hq => h q (ne_of_mem_erase hq)
  have hf := add_sum_erase univ f (mem_univ p)
  have hg := add_sum_erase univ g (mem_univ p)
  omega

omit [DecidableEq π] in
lemma share_le_sum (p : π) : f p ≤ ∑ q, f q :=
  single_le_sum (fun _ _ => Nat.zero_le _) (mem_univ p)

lemma shares_le_sum {q : π} (h : p ≠ q) : f p + f q ≤ ∑ r, f r := by
  have hf := add_sum_erase univ f (mem_univ p)
  have hq : f q ≤ ∑ r ∈ univ.erase p, f r :=
    single_le_sum (fun _ _ => Nat.zero_le _) (mem_erase.mpr ⟨h.symm, mem_univ q⟩)
  omega
end Xv6.Lib
