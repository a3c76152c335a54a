import Xv6.Lib.Bits
import Xv6.Lib.Bytes
import Xv6.Param

namespace Xv6
def Block : Type := Fin bsize → UInt8
abbrev Disk : Type := Nat → Block

namespace Block
def byte (b : Block) (i : Nat) : UInt8 := if h : i < bsize then b ⟨i, h⟩ else 0
def ofBytes (f : Nat → UInt8) : Block := fun i => f i
def zero : Block := fun _ => 0

variable {i : Nat}

lemma byte_ofBytes {f : Nat → UInt8} (h : i < bsize) : (ofBytes f).byte i = f i := by
  rw [byte, dif_pos h, ofBytes]

lemma byte_of_ge (b : Block) (h : bsize ≤ i) : b.byte i = 0 := by
  rw [byte, dif_neg (not_lt.mpr h)]

lemma byte_zero (i : Nat) : zero.byte i = 0 := by
  by_cases h : i < bsize
  · rw [byte, dif_pos h, zero]
  exact byte_of_ge _ (not_lt.mp h)

lemma ext {a b : Block} (h : ∀ i < bsize, a.byte i = b.byte i) : a = b := by
  funext i
  have hi := h i i.isLt
  rwa [byte, byte, dif_pos i.isLt, dif_pos i.isLt] at hi

def field (b : Block) (off k : Nat) : Nat := Lib.getLE b.byte off k
def setField (b : Block) (off k v : Nat) : Block := ofBytes (Lib.setLE b.byte off k v)
lemma field_lt (b : Block) (off k : Nat) : b.field off k < 256 ^ k := Lib.getLE_lt _ _ _

variable {b : Block} {fs : List Lib.Field}

lemma field_setField {off k v : Nat} (hfit : off + k ≤ bsize) (hv : v < 256 ^ k) :
    (b.setField off k v).field off k = v := by
  have hin : Lib.getLE (ofBytes (Lib.setLE b.byte off k v)).byte off k =
      Lib.getLE (Lib.setLE b.byte off k v) off k :=
    Lib.getLE_congr fun i _ h2 => byte_ofBytes (lt_of_lt_of_le h2 hfit)
  exact hin.trans (Lib.getLE_setLE hv)

lemma byte_setField_of_disjoint {off k v : Nat} (h : i < off ∨ off + k ≤ i) :
    (b.setField off k v).byte i = b.byte i := by
  by_cases hi : i < bsize
  · rw [setField, byte_ofBytes hi, Lib.setLE_outside h]
  rw [byte_of_ge _ (not_lt.mp hi), byte_of_ge _ (not_lt.mp hi)]

lemma field_setField_of_disjoint {off k v off' k' : Nat} (h : off' + k' ≤ off ∨ off + k ≤ off') :
    (b.setField off k v).field off' k' = b.field off' k' :=
  Lib.getLE_congr fun _ h1 h2 => byte_setField_of_disjoint (by omega)

lemma field_zero (off k : Nat) : zero.field off k = 0 := by
  induction k generalizing off with
  | zero => rfl
  | succ k ih =>
    have hr : Lib.getLE zero.byte (off + 1) k = 0 := ih (off + 1)
    show Lib.getLE zero.byte off (k + 1) = 0
    rw [Lib.getLE, byte_zero, hr]
    rfl

def setFields (b : Block) (base : Nat) (fs : List Lib.Field) : Block :=
  ofBytes (Lib.setFields b.byte base fs)

lemma field_setFields {base : Nat} {f : Lib.Field}
    (hdisj : fs.Pairwise Lib.Field.Disjoint) (hf : f ∈ fs) (hfit : f.Fits)
    (hin : base + f.off + f.width ≤ bsize) :
    (b.setFields base fs).field (base + f.off) f.width = f.val := by
  have hbytes : Lib.getLE (b.setFields base fs).byte (base + f.off) f.width =
      Lib.getLE (Lib.setFields b.byte base fs) (base + f.off) f.width :=
    Lib.getLE_congr fun i _ h2 => byte_ofBytes (lt_of_lt_of_le h2 hin)
  exact hbytes.trans (Lib.getLE_setFields hdisj hf hfit)

lemma byte_setFields_of_disjoint {base : Nat}
    (h : ∀ f ∈ fs, i < base + f.off ∨ base + f.off + f.width ≤ i) :
    (b.setFields base fs).byte i = b.byte i := by
  by_cases hi : i < bsize
  · rw [setFields, byte_ofBytes hi, Lib.setFields_outside h]
  rw [byte_of_ge _ (not_lt.mp hi), byte_of_ge _ (not_lt.mp hi)]

def getBit (b : Block) (i : Nat) : Bool := Lib.getBit b.byte i
def setBit (b : Block) (i : Nat) : Block := ofBytes (Lib.setBit b.byte i)
def clearBit (b : Block) (i : Nat) : Block := ofBytes (Lib.clearBit b.byte i)

lemma getBit_ofBytes {m : Nat → UInt8} (h : i / 8 < bsize) :
    (ofBytes m).getBit i = Lib.getBit m i := by
  rw [getBit, Lib.getBit, byte_ofBytes h, Lib.getBit]

lemma getBit_setBit {j : Nat} (h : j / 8 < bsize) :
    (b.setBit i).getBit j = (decide (j = i) || b.getBit j) := by
  rw [setBit, getBit_ofBytes h, Lib.getBit_setBit, getBit]

lemma getBit_clearBit {j : Nat} (h : j / 8 < bsize) :
    (b.clearBit i).getBit j = (!decide (j = i) && b.getBit j) := by
  rw [clearBit, getBit_ofBytes h, Lib.getBit_clearBit, getBit]

def word (b : Block) (j : Nat) : Nat := b.field (4 * j) 4
def setWord (b : Block) (j v : Nat) : Block := b.setField (4 * j) 4 v
lemma word_zero (j : Nat) : zero.word j = 0 := field_zero _ _

lemma word_setWord {j v : Nat} (hi : 4 * i + 4 ≤ bsize) (hv : v < 2 ^ 32) :
    (b.setWord i v).word j = if j = i then v else b.word j := by
  by_cases h : j = i
  · rw [if_pos h, h]
    exact field_setField hi hv
  rw [if_neg h]
  exact field_setField_of_disjoint (by omega)
end Block

def cint (x : Nat) : Int := if x < 2 ^ 31 then (x : Int) else (x : Int) - 2 ^ 32
lemma cint_of_lt {x : Nat} (h : x < 2 ^ 31) : cint x = x := if_pos h
end Xv6
