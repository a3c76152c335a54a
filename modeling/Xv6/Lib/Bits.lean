import Mathlib.Logic.Function.Basic

namespace Xv6.Lib
open Function

def bitMask (i : Nat) : UInt8 := ⟨BitVec.twoPow 8 (i % 8)⟩

section
variable (m : Nat → UInt8) (i : Nat)

def getBit : Bool := (m (i / 8)).toBitVec.getLsbD (i % 8)

def setBit : Nat → UInt8 :=
  update m (i / 8) (m (i / 8) ||| bitMask i)

def clearBit : Nat → UInt8 :=
  update m (i / 8) (m (i / 8) &&& ~~~bitMask i)
end

lemma getLsbD_bitMask {i j : Nat} (h : j / 8 = i / 8) :
    (bitMask i).toBitVec.getLsbD (j % 8) = decide (j = i) := by
  have hlt : i % 8 < 8 := Nat.mod_lt i (by decide)
  have hr : i % 8 = j % 8 ↔ j = i := by omega
  rw [bitMask, BitVec.getLsbD_twoPow]
  simp [hlt, hr]

lemma getBit_setBit {m : Nat → UInt8} {i j : Nat} :
    getBit (setBit m i) j = (decide (j = i) || getBit m j) := by
  unfold getBit setBit
  by_cases hq : j / 8 = i / 8
  · rw [hq, update_self, UInt8.toBitVec_or, BitVec.getLsbD_or, getLsbD_bitMask hq, Bool.or_comm]
  have hne : j ≠ i := fun e => hq (by rw [e])
  rw [update_of_ne hq]
  simp [hne]

lemma getBit_clearBit {m : Nat → UInt8} {i j : Nat} :
    getBit (clearBit m i) j = (!decide (j = i) && getBit m j) := by
  have hlt : j % 8 < 8 := Nat.mod_lt j (by decide)
  unfold getBit clearBit
  by_cases hq : j / 8 = i / 8
  · rw [hq, update_self, UInt8.toBitVec_and, UInt8.toBitVec_not, BitVec.getLsbD_and,
      BitVec.getLsbD_not, getLsbD_bitMask hq, Bool.and_comm]
    simp only [hlt, decide_true, Bool.true_and]
  have hne : j ≠ i := fun e => hq (by rw [e])
  rw [update_of_ne hq]
  simp [hne]
end Xv6.Lib
