import Xv6.Itable.Kernel
import Xv6.Lib.Count

namespace Xv6.Itable
open Fs

inductive Stage where
  | out
  | load
  | trunc
  | clear
  | release
  | drop
  deriving DecidableEq

namespace Stage
def puts : Stage → Bool
  | trunc | clear | release | drop => true
  | out | load => false

def frees : Stage → Bool
  | trunc | clear | release => true
  | out | load | drop => false

def locks : Stage → Bool
  | load | trunc | clear | release => true
  | out | drop => false

def early : Stage → Bool
  | trunc | clear => true
  | out | load | release | drop => false

variable {c : Stage}

lemma locks_of_frees (h : c.frees) : c.locks := by cases c <;> first | rfl | cases h
lemma puts_of_frees (h : c.frees) : c.puts := by cases c <;> first | rfl | cases h

section
variable (h : c.early)
include h

lemma locks_of_early : c.locks := by cases c <;> first | rfl | cases h
lemma frees_of_early : c.frees := by cases c <;> first | rfl | cases h

lemma ne_release_of_early : c ≠ release := by
  rintro rfl
  cases h

lemma puts_of_early : c.puts := by cases c <;> first | rfl | cases h
end
end Stage

def Pc.stage (k : Fin ninode) : Pc → Stage
  | idle | allocScan _ _ _ | allocGet _ _ => .out
  | load l => if l = k then .load else .out
  | trunc l => if l = k then .trunc else .out
  | clear l => if l = k then .clear else .out
  | release l => if l = k then .release else .out
  | drop l => if l = k then .drop else .out

def Pc.entry : Pc → Option (Fin ninode)
  | load k | trunc k | clear k | release k | drop k => some k
  | idle | allocScan _ _ _ | allocGet _ _ => none

lemma Pc.stage_of_entry {c : Pc} {k : Fin ninode} (h : c.entry ≠ some k) : c.stage k = .out := by
  cases c with
  | idle | allocScan | allocGet => rfl
  | load l | trunc l | clear l | release l | drop l => exact if_neg fun e => h (congrArg some e)

@[ext]
structure View (P : Type) where
  e : Entry P
  disk : Dinode
  held : P → Nat
  stage : P → Stage

namespace View
variable {P : Type} {v v' : View P} {p q : P}

def refs (v : View P) (p : P) : Nat := v.held p + if (v.stage p).puts then 1 else 0

structure Ok [Fintype P] (v : View P) : Prop where
  count : v.e.ref = ∑ p, v.refs p
  lock : ∀ p, v.e.lock = some p → (v.stage p).frees ∨ 0 < v.held p
  owner : ∀ p, (v.stage p).locks → v.e.lock = some p
  read : ∀ p, v.e.lock = some p → v.stage p ≠ .load → v.e.valid
  dirty : v.e.dirty → ∃ p, v.e.lock = some p ∧ v.stage p = .out
  fresh : v.e.valid → 0 < v.e.ref → (∀ p, v.stage p ≠ .release) →
    v.e.copy.type ≠ 0 ∧ v.disk.type ≠ 0 ∧ (v.e.dirty = false → v.e.copy = v.disk)
  typed : ∀ p, 0 < v.held p → v.disk.type ≠ 0
  early : ∀ p, (v.stage p).early → v.e.ref = 1 ∧ v.e.copy.nlink = 0

lemma held_le_refs : v.held p ≤ v.refs p := Nat.le_add_right _ _
lemma refs_of_puts (h : (v.stage p).puts) : v.refs p = v.held p + 1 := by rw [refs, if_pos h]

lemma refs_of_not_puts (h : (v.stage p).puts = false) : v.refs p = v.held p := by
  rw [refs, h]
  rfl

namespace Ok
variable [Fintype P]

section
variable (h : v.Ok)
include h

lemma pos_of_held (hp : 0 < v.held p) : 0 < v.e.ref := by
  have hle : v.refs p ≤ ∑ q, v.refs q := Lib.share_le_sum p
  have hheld : v.held p ≤ v.refs p := held_le_refs
  rw [h.count]
  omega

lemma pos_of_puts (hp : (v.stage p).puts) : 0 < v.e.ref := by
  have hle : v.refs p ≤ ∑ q, v.refs q := Lib.share_le_sum p
  have hrefs := refs_of_puts hp
  rw [h.count]
  omega

lemma refs_of_zero (h0 : v.e.ref = 0) (p : P) : v.refs p = 0 := by
  have hle : v.refs p ≤ ∑ q, v.refs q := Lib.share_le_sum p
  rw [← h.count] at hle
  omega

lemma lock_none (h0 : ∀ q, v.refs q = 0) : v.e.lock = none := by
  by_contra hne
  obtain ⟨q, hq⟩ := Option.ne_none_iff_exists'.mp hne
  have hrefs := h0 q
  rcases h.lock q hq with hf | hheld
  · rw [refs_of_puts (Stage.puts_of_frees hf)] at hrefs
    omega
  have hle : v.held q ≤ v.refs q := held_le_refs
  omega

lemma dirty_of_lock_none (hl : v.e.lock = none) : v.e.dirty = false := by
  by_contra hd
  obtain ⟨q, hq, -⟩ := h.dirty (Bool.eq_true_of_not_eq_false hd)
  rw [hl] at hq
  cases hq

lemma dirty_of_locks (hp : (v.stage p).locks) : v.e.dirty = false := by
  by_contra hd
  obtain ⟨q, hq, hout⟩ := h.dirty (Bool.eq_true_of_not_eq_false hd)
  have hqp : q = p := Option.some.inj (hq.symm.trans (h.owner p hp))
  rw [hqp] at hout
  rw [hout] at hp
  cases hp

lemma stage_of_lock (hl : v.e.lock = some p) (hq : (v.stage q).locks) : q = p :=
  Option.some.inj ((h.owner q hq).symm.trans hl)

lemma not_locks (hl : v.e.lock = none) (q : P) : (v.stage q).locks = false := by
  by_contra hq
  have hlock := h.owner q (Bool.eq_true_of_not_eq_false hq)
  rw [hl] at hlock
  cases hlock

lemma not_release (hl : v.e.lock = none) (q : P) : v.stage q ≠ .release := by
  intro hq
  have hlocks := h.not_locks hl q
  rw [hq] at hlocks
  cases hlocks
end

variable [DecidableEq P]

lemma two (h : v.Ok) (hne : p ≠ q) (hp : 0 < v.refs p) (hq : 0 < v.refs q) : 2 ≤ v.e.ref := by
  have hle : v.refs p + v.refs q ≤ ∑ r, v.refs r := Lib.shares_le_sum hne
  rw [h.count]
  omega

lemma held_of_early (h : v.Ok) (hp : (v.stage p).early) (q : P) : v.held q = 0 := by
  by_contra hq
  have hputs := refs_of_puts (Stage.puts_of_early hp)
  have hle : v.held q ≤ v.refs q := held_le_refs
  have href := (h.early p hp).1
  by_cases hqp : q = p
  · subst hqp
    have hsum : v.refs q ≤ ∑ r, v.refs r := Lib.share_le_sum q
    rw [← h.count] at hsum
    omega
  have htwo := h.two hqp (by omega) (by omega)
  omega

lemma lock_none_of_last (h : v.Ok) (href : v.e.ref = 1) (hp : 0 < v.held p)
    (hl : v.e.lock ≠ some p) : v.e.lock = none := by
  by_contra hne
  obtain ⟨q, hq⟩ := Option.ne_none_iff_exists'.mp hne
  have hqp : q ≠ p := fun e => hl (e ▸ hq)
  have hpos : 0 < v.refs q := by
    rcases h.lock q hq with hf | hheld
    · rw [refs_of_puts (Stage.puts_of_frees hf)]
      omega
    exact lt_of_lt_of_le hheld held_le_refs
  have htwo := h.two hqp hpos (lt_of_lt_of_le hp held_le_refs)
  omega

lemma count_of (h : v.Ok) (hne : ∀ q ≠ p, v'.refs q = v.refs q)
    (href : v'.e.ref + v.refs p = v.e.ref + v'.refs p) : v'.e.ref = ∑ q, v'.refs q := by
  have hsum := Lib.sum_add_of_forall_ne hne
  rw [← h.count] at hsum
  omega
end Ok
end View
end Xv6.Itable
