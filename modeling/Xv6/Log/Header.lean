import Xv6.Disk.Block

namespace Xv6.Log
def entryOffset (i : Nat) : Nat := 4 + 4 * i
def headerCount (hb : Block) : Nat := (cint (hb.field 0 4)).toNat

def getHeader (hb : Block) : List Nat :=
  (List.range (headerCount hb)).map fun i => hb.field (entryOffset i) 4

def putEntries : Block → Nat → List Nat → Block
  | hb, _, [] => hb
  | hb, i, b :: bs => putEntries (hb.setField (entryOffset i) 4 b) (i + 1) bs

def putHeader (hb : Block) (lh : List Nat) : Block :=
  putEntries (hb.setField 0 4 lh.length) 0 lh

variable {hb : Block} {bs lh : List Nat}

lemma field_putEntries_of_lt {i off : Nat}
    (h : off + 4 ≤ entryOffset i) : (putEntries hb i bs).field off 4 = hb.field off 4 := by
  induction bs generalizing hb i with
  | nil => rfl
  | cons b bs ih =>
    rw [putEntries, ih (by unfold entryOffset at *; omega),
      Block.field_setField_of_disjoint (Or.inl h)]

lemma field_putEntries {i j : Nat} (hj : j < bs.length)
    (hfit : entryOffset (i + bs.length) ≤ bsize) (hbs : ∀ b ∈ bs, b < 2 ^ 32) :
    (putEntries hb i bs).field (entryOffset (i + j)) 4 = bs[j] := by
  induction bs generalizing hb i j with
  | nil => exact absurd hj (Nat.not_lt_zero j)
  | cons b bs ih =>
    have hfit' : entryOffset (i + 1 + bs.length) ≤ bsize := by
      simpa [add_assoc, add_comm 1] using hfit
    cases j with
    | zero =>
      have hin : entryOffset i + 4 ≤ bsize := by
        unfold entryOffset at *
        omega
      rw [putEntries, show entryOffset (i + 0) = entryOffset i from rfl,
        field_putEntries_of_lt (by unfold entryOffset; omega),
        Block.field_setField hin (by simpa using hbs b List.mem_cons_self)]
      rfl
    | succ j =>
      have hj' : j < bs.length := Nat.lt_of_succ_lt_succ hj
      rw [putEntries, ← add_assoc, add_right_comm,
        ih hj' hfit' (fun c hc => hbs c (List.mem_cons_of_mem b hc))]
      rfl

lemma headerCount_putHeader (hlen : lh.length ≤ logBlocks) :
    headerCount (putHeader hb lh) = lh.length := by
  have hn : lh.length < 2 ^ 31 := by rw [logBlocks_eq] at hlen; omega
  have hf : (putHeader hb lh).field 0 4 = lh.length := by
    rw [putHeader, field_putEntries_of_lt (by unfold entryOffset; omega),
      Block.field_setField (by decide) (by omega)]
  rw [headerCount, hf, cint_of_lt hn, Int.toNat_natCast]

lemma getHeader_putHeader (hlen : lh.length ≤ logBlocks)
    (hlh : ∀ b ∈ lh, b < 2 ^ 32) : getHeader (putHeader hb lh) = lh := by
  have hfit : entryOffset (0 + lh.length) ≤ bsize := by
    rw [logBlocks_eq] at hlen
    rw [bsize_eq, entryOffset]
    omega
  rw [getHeader, headerCount_putHeader hlen]
  refine List.ext_getElem (by simp) fun i h1 h2 => ?_
  have hi : (putEntries (hb.setField 0 4 lh.length) 0 lh).field (entryOffset (0 + i)) 4 = lh[i] :=
    field_putEntries h2 hfit hlh
  rw [zero_add] at hi
  simpa [putHeader] using hi

lemma getHeader_eq_nil : getHeader hb = [] ↔ headerCount hb = 0 := by simp [getHeader]
end Xv6.Log
