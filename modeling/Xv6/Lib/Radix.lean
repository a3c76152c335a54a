import Mathlib.Data.List.Induction

namespace Xv6.Lib
open List
variable {N I V : Type} {next next' : N → I → Option N} {root a b n : N} {d : Nat} {p q : List I}
  {i k : I}

def follow (next : N → I → Option N) : N → List I → Option N
  | n, [] => some n
  | n, i :: p => (next n i).bind fun n' => follow next n' p

lemma follow_append (p q : List I) :
    follow next root (p ++ q) = (follow next root p).bind fun n => follow next n q := by
  induction p generalizing root with
  | nil => rfl
  | cons i p ih =>
    rw [cons_append, follow, follow, Option.bind_assoc]
    exact congrArg _ (funext fun n => ih)

lemma follow_concat (p : List I) (i : I) :
    follow next root (p ++ [i]) = (follow next root p).bind fun n => next n i := by
  rw [follow_append]
  refine congrArg _ (funext fun n => ?_)
  show (next n i).bind some = next n i
  cases next n i <;> rfl

def Reached (next : N → I → Option N) (root : N) (d : Nat) (n : N) : Prop :=
  ∃ p : List I, p.length ≤ d ∧ follow next root p = some n

def Tree (next : N → I → Option N) (root : N) (d : Nat) : Prop :=
  ∀ (p q : List I) (n : N), p.length ≤ d → q.length ≤ d → follow next root p = some n →
    follow next root q = some n → p = q

lemma follow_congr (h : ∀ (q : List I) (n : N), q.length < d → follow next root q = some n →
    next' n = next n) (hp : p.length ≤ d) : follow next' root p = follow next root p := by
  induction p using reverseRecOn with
  | nil => rfl
  | append_singleton p i ih =>
    rw [length_append, length_singleton] at hp
    rw [follow_concat, follow_concat, ih (by omega)]
    cases hf : follow next root p with
    | none => rfl
    | some n =>
      show next' n i = next n i
      rw [h p n (by omega) hf]

lemma Tree.congr (h : Tree next root d)
    (hnext : ∀ (q : List I) (n : N), q.length < d → follow next root q = some n →
      next' n = next n) : Tree next' root d := by
  intro p q n hp hq hpn hqn
  rw [follow_congr hnext hp] at hpn
  rw [follow_congr hnext hq] at hqn
  exact h p q n hp hq hpn hqn

structure Extends (next next' : N → I → Option N) (root : N) (d : Nat) (p : List I) (a : N) (k : I)
    (b : N) : Prop where
  short : p.length < d
  path : follow next root p = some a
  empty : next a k = none
  fresh : ¬Reached next root d b
  entry : next' a k = some b
  new : ∀ i, next' b i = none
  rest : ∀ n i, Reached next root d n → ¬(n = a ∧ i = k) → next' n i = next n i

section
variable (h : Extends next next' root d p a k b) (ht : Tree next root d)
include h ht

lemma Extends.follow_eq [DecidableEq I] : ∀ q : List I, q.length ≤ d →
      follow next' root q = if q = p ++ [k] then some b else follow next root q := by
  intro q
  induction q using reverseRecOn with
  | nil =>
    intro _
    rw [if_neg (by simp)]
    rfl
  | append_singleton q i ih =>
    intro hq
    rw [length_append, length_singleton] at hq
    rw [follow_concat, follow_concat, ih (by omega)]
    by_cases hqk : q = p ++ [k]
    · -- one step beyond the new node, and beyond the empty entry before
      have hne : q ++ [i] ≠ p ++ [k] := fun e => by
        have hlen := congrArg length e
        rw [hqk] at hlen
        simp at hlen
      rw [if_pos hqk, if_neg hne, hqk, follow_concat, h.path]
      show next' b i = (next a k).bind _
      rw [h.new, h.empty]
      rfl
    rw [if_neg hqk]
    cases hf : follow next root q with
    | none =>
      have hne : q ++ [i] ≠ p ++ [k] := fun e => by
        have hqp : q = p := (append_inj' e rfl).1
        rw [hqp, h.path] at hf
        cases hf
      rw [if_neg hne]
      rfl
    | some n =>
      show next' n i = if q ++ [i] = p ++ [k] then some b else next n i
      by_cases hni : n = a ∧ i = k
      · have hqp : q = p := ht q p n (by omega) (by have := h.short; omega) hf
          (by rw [h.path, hni.1])
        rw [if_pos (by rw [hqp, hni.2]), hni.1, hni.2, h.entry]
      have hne : q ++ [i] ≠ p ++ [k] := fun e => by
        have hqp := append_inj' e rfl
        rw [hqp.1, h.path] at hf
        exact hni ⟨(Option.some.inj hf).symm, by simpa using hqp.2⟩
      rw [if_neg hne, h.rest n i ⟨q, by omega, hf⟩ hni]

lemma Extends.reached [DecidableEq I] :
    Reached next' root d n ↔ Reached next root d n ∨ n = b := by
  constructor
  · rintro ⟨q, hq, hn⟩
    rw [h.follow_eq ht q hq] at hn
    by_cases hqk : q = p ++ [k]
    · rw [if_pos hqk] at hn
      exact .inr (Option.some.inj hn).symm
    rw [if_neg hqk] at hn
    exact .inl ⟨q, hq, hn⟩
  rintro (⟨q, hq, hn⟩ | rfl)
  · refine ⟨q, hq, ?_⟩
    rw [h.follow_eq ht q hq, if_neg (fun e => ?_), hn]
    rw [e, follow_concat, h.path] at hn
    have hn : next a k = some n := hn
    rw [h.empty] at hn
    cases hn
  have hlen : (p ++ [k]).length ≤ d := by
    rw [length_append]
    exact h.short
  exact ⟨p ++ [k], hlen, by rw [h.follow_eq ht _ hlen, if_pos rfl]⟩

lemma Extends.tree [DecidableEq I] : Tree next' root d := by
  intro q r n hq hr hqn hrn
  rw [h.follow_eq ht q hq] at hqn
  rw [h.follow_eq ht r hr] at hrn
  by_cases hqk : q = p ++ [k]
  · by_cases hrk : r = p ++ [k]
    · rw [hqk, hrk]
    · rw [if_pos hqk] at hqn
      rw [if_neg hrk] at hrn
      exact absurd ⟨r, hr, by rw [hrn, hqn]⟩ h.fresh
  by_cases hrk : r = p ++ [k]
  · rw [if_neg hqk] at hqn
    rw [if_pos hrk] at hrn
    exact absurd ⟨q, hq, by rw [hqn, hrn]⟩ h.fresh
  rw [if_neg hqk] at hqn
  rw [if_neg hrk] at hrn
  exact ht q r n hq hr hqn hrn
end

def lookup (next : N → I → Option N) (val : N → I → Option V) (root : N) (p : List I) (k : I) :
    Option V :=
  (follow next root p).bind fun n => val n k

lemma Extends.lookup_eq [DecidableEq I] {val val' : N → I → Option V}
    (h : Extends next next' root d p a k b) (ht : Tree next root d)
    (hval : ∀ q n i, q.length = d → follow next root q = some n → val' n i = val n i)
    (hnew : ∀ i, val' b i = none) (hq : q.length = d) (j : I) :
    lookup next' val' root q j = lookup next val root q j := by
  unfold lookup
  rw [h.follow_eq ht q (Nat.le_of_eq hq)]
  by_cases hqk : q = p ++ [k]
  · rw [if_pos hqk, hqk, follow_concat, h.path]
    show val' b j = ((next a k).bind _)
    rw [hnew, h.empty]
    rfl
  rw [if_neg hqk]
  cases hf : follow next root q with
  | none => rfl
  | some n => exact hval q n j hq hf

lemma lookup_store [DecidableEq I] {val val' : N → I → Option V} {v : Option V}
    (ht : Tree next root d)
    (hnext : ∀ (q : List I) (n : N), q.length < d → follow next root q = some n → next' n = next n)
    (hp : p.length = d) (hpath : follow next root p = some a) (hself : val' a k = v)
    (hval : ∀ q n i, q.length = d → follow next root q = some n → ¬(n = a ∧ i = k) →
      val' n i = val n i)
    (hq : q.length = d) (j : I) :
    lookup next' val' root q j = if q = p ∧ j = k then v else lookup next val root q j := by
  unfold lookup
  rw [follow_congr hnext (Nat.le_of_eq hq)]
  by_cases hqj : q = p ∧ j = k
  · rwa [if_pos hqj, hqj.1, hqj.2, hpath]
  rw [if_neg hqj]
  cases hf : follow next root q with
  | none => rfl
  | some n =>
    refine hval q n j hq hf fun hn => hqj ⟨?_, hn.2⟩
    exact ht q p n (Nat.le_of_eq hq) (Nat.le_of_eq hp) hf (by rw [hpath, hn.1])
end Xv6.Lib
