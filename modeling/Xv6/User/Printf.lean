import Mathlib

namespace Xv6.Printf
inductive Out where
  | char (c : UInt8)
  | digit (d : Fin 16)

def Out.byte (digits : Fin 16 → UInt8) : Out → UInt8
  | .char c => c
  | .digit d => digits d

inductive Kind where
  | int
  | uint32
  | uint64
  | char
  | string
  deriving DecidableEq

structure Printed where
  out : List Out
  took : List (Kind × Nat)

def Printed.put (s : Printed) (out : List Out) : Printed := { s with out := s.out ++ out }

def Printed.take (s : Printed) (k : Kind) (v : Nat) : Printed :=
  { s with took := s.took ++ [(k, v)] }

def consputc (c : Nat) : List Out :=
  if c = 0x100 then [.char 8, .char 32, .char 8] else [.char (UInt8.ofNat c)]

def putc (c : Nat) : List Out := [.char (UInt8.ofNat c)]
def base (hex : Bool) : Nat := if hex then 16 else 10

def digitLoop (hex : Bool) (x : Nat) : List Out :=
  .digit (Fin.ofNat 16 (x % base hex)) ::
    if x / base hex ≠ 0 then digitLoop hex (x / base hex) else []
termination_by x
decreasing_by
  rename_i h
  refine Nat.div_lt_self (Nat.pos_of_ne_zero fun h0 => h (by rw [h0, Nat.zero_div])) ?_
  cases hex <;> decide

def printint (xx : Nat) (hex sign : Bool) : List Out :=
  let neg := sign && 2 ^ 63 ≤ xx
  let x := if neg then 2 ^ 64 - xx else xx
  (digitLoop hex x ++ if neg then [Out.char 45] else []).reverse

def printptr (x : Nat) : List Out :=
  [.char 48, .char 120] ++
    (List.range 16).map fun i => .digit (Fin.ofNat 16 (x * 2 ^ (4 * i) % 2 ^ 64 / 2 ^ 60))

def userPrintint (xx : Nat) (hex sgn : Bool) : List Out := printint xx hex sgn
def userPrintptr (x : Nat) : List Out := printptr x

structure Printer where
  putc : Nat → List Out
  printint : Nat → Bool → Bool → List Out
  printptr : Nat → List Out

def kernel : Printer := ⟨consputc, printint, printptr⟩
def user : Printer := ⟨putc, userPrintint, userPrintptr⟩
def signExtend (v : Nat) : Nat := if v < 2 ^ 31 then v else v + (2 ^ 64 - 2 ^ 32)

def kernelDigits (d : Fin 16) : UInt8 := UInt8.ofNat (if d < 10 then 48 + d.val else 87 + d.val)
def userDigits (d : Fin 16) : UInt8 := UInt8.ofNat (if d < 10 then 48 + d.val else 55 + d.val)

variable {a : Args} {s : Printed} {c0 : UInt8}

def Alike (b c : UInt8) : Prop :=
  b = c ∨ ∃ d, 10 ≤ d ∧ b = kernelDigits d ∧ c = userDigits d

def digitsOf (hex : Bool) (x : Nat) : List Nat := if x = 0 then [0] else Nat.digits (base hex) x

variable {hex : Bool} {x k d : Nat}

lemma one_lt_base (hex : Bool) : 1 < base hex := by cases hex <;> decide

lemma digitLoop_eq (hex : Bool) (x : Nat) :
    digitLoop hex x = (digitsOf hex x).map fun d => .digit (Fin.ofNat 16 d) := by
  induction x using Nat.strong_induction_on with
  | _ x ih =>
    rw [digitLoop]
    by_cases hx : x = 0
    · rw [hx, Nat.zero_div, if_neg (not_not.mpr rfl), Nat.zero_mod]
      rfl
    have hdiv := Nat.div_lt_self (Nat.pos_of_ne_zero hx) (one_lt_base hex)
    rw [digitsOf, if_neg hx, Nat.digits_def' (one_lt_base hex) (Nat.pos_of_ne_zero hx),
      List.map_cons]
    by_cases h0 : x / base hex = 0
    · rw [h0, if_neg (not_not.mpr rfl), Nat.digits_zero, List.map_nil]
    rw [if_pos h0, ih _ hdiv, digitsOf, if_neg h0]

lemma length_digitsOf (hk : 0 < k) (h : x < base hex ^ k) : (digitsOf hex x).length ≤ k := by
  rw [digitsOf]
  split
  · exact hk
  exact (Nat.digits_length_le_iff (one_lt_base hex) x).mpr h

lemma lt_base_of_mem (h : d ∈ digitsOf hex x) : d < base hex := by
  rw [digitsOf] at h
  split at h
  · rw [List.mem_singleton.mp h]
    exact Nat.zero_lt_of_lt (one_lt_base hex)
  exact Nat.digits_lt_base (one_lt_base hex) h

lemma digitsOf_ne_nil : digitsOf hex x ≠ [] := by
  rw [digitsOf]
  split
  · exact List.cons_ne_nil _ _
  next h => exact Nat.digits_ne_nil_iff_ne_zero.mpr h

lemma ofDigits_digitsOf : Nat.ofDigits (base hex) (digitsOf hex x) = x := by
  rw [digitsOf]
  split
  · next h => rw [h, Nat.ofDigits_singleton]
  exact Nat.ofDigits_digits _ _

lemma digitsOf_of_getLast (h : (digitsOf hex x).getLast? = some 0) : digitsOf hex x = [0] := by
  rw [digitsOf] at h ⊢
  split at h
  · next hx => rw [if_pos hx]
  next hx =>
  rw [List.getLast?_eq_some_getLast (Nat.digits_ne_nil_iff_ne_zero.mpr hx)] at h
  exact absurd (Option.some.inj h) (Nat.getLast_digit_ne_zero _ hx)

def value (xx : Nat) (sign : Bool) : Int := if sign && 2 ^ 63 ≤ xx then xx - 2 ^ 64 else xx

theorem printint_exact (xx : UInt64) (hex sign : Bool) : ∃ ds : List Nat,
    (∀ digits, (printint xx.toNat hex sign).map (Out.byte digits) =
      (if value xx.toNat sign < 0 then [45] else []) ++ ds.map fun d => digits (Fin.ofNat 16 d)) ∧
    (printint xx.toNat hex sign).length ≤ 20 ∧ ds ≠ [] ∧ (∀ d ∈ ds, d < base hex) ∧
    (ds.head? = some 0 → ds = [0]) ∧
    Nat.ofDigits (base hex) ds.reverse = (value xx.toNat sign).natAbs := by
  have hxx := xx.toNat_lt
  rw [printint, value]
  generalize hneg : (sign && decide (2 ^ 63 ≤ xx.toNat)) = neg
  generalize hx : (if neg = true then 2 ^ 64 - xx.toNat else xx.toNat) = x
  have hle : neg = true → 2 ^ 63 ≤ xx.toNat := by
    rintro rfl
    simpa using (Bool.and_eq_true_iff.mp hneg).2
  have hlen : (digitsOf hex x).length + neg.toNat ≤ 20 := by
    cases neg with
    | true =>
      have hlt : x < base hex ^ 19 := by
        have := hle rfl
        cases hex <;> simp only [base, if_true, Bool.false_eq_true, if_false] at hx ⊢ <;> omega
      exact Nat.succ_le_succ (length_digitsOf (by decide) hlt)
    | false =>
      refine length_digitsOf (by decide) ?_
      cases hex <;> simp only [base, if_true, Bool.false_eq_true, if_false] at hx ⊢ <;> omega
  refine ⟨(digitsOf hex x).reverse, fun digits => ?_, ?_, ?_, fun d hd => ?_, fun h0 => ?_, ?_⟩
  · have hsign : (if neg then (xx.toNat - 2 ^ 64 : Int) else (xx.toNat : Int)) < 0 ↔ neg = true :=
      by
      cases neg <;> simp
      omega
    simp only [hsign, digitLoop_eq, List.map_reverse, List.map_append, List.map_map]
    cases neg <;> simp [Out.byte, Function.comp_def]
  · rw [List.length_reverse, List.length_append, digitLoop_eq, List.length_map]
    cases neg <;> exact hlen
  · rw [Ne, List.reverse_eq_nil_iff]
    exact digitsOf_ne_nil
  · exact lt_base_of_mem (List.mem_reverse.mp hd)
  · rw [List.head?_reverse] at h0
    rw [digitsOf_of_getLast h0]
    rfl
  rw [List.reverse_reverse, ofDigits_digitsOf, ← hx]
  cases neg with
  | true =>
    rw [if_pos rfl, if_pos rfl]
    omega
  | false => rfl
end Xv6.Printf
