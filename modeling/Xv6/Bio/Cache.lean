import Xv6.Disk.Block

namespace Xv6.Bio
structure Buf (P : Type) where
  valid : Bool
  dev : Nat
  blockno : Nat
  lock : Option P
  refcnt : Int
  data : Block

structure Cache (P : Type) where
  buf : Fin nbuf → Buf P
  lru : List (Fin nbuf)

namespace Cache
variable {P : Type}

def binit (P : Type) : Cache P :=
  { buf := fun _ =>
      { valid := false, dev := 0, blockno := 0, lock := none, refcnt := 0, data := Block.zero }
    lru := (List.finRange nbuf).reverse }

section
variable (c : Cache P)

def set (i : Fin nbuf) (b : Buf P) : Cache P :=
  { c with buf := Function.update c.buf i b }

def find (dev blockno : Nat) : Option (Fin nbuf) :=
  c.lru.find? fun i => (c.buf i).dev = dev ∧ (c.buf i).blockno = blockno

def unused : Option (Fin nbuf) :=
  c.lru.reverse.find? fun i => (c.buf i).refcnt = 0

def bget (dev blockno : Nat) : Option (Cache P × Fin nbuf) :=
  match c.find dev blockno with
  | some i => some (c.set i { c.buf i with refcnt := (c.buf i).refcnt + 1 }, i)
  | none =>
    match c.unused with
    | some i =>
      some (c.set i { c.buf i with dev := dev, blockno := blockno, valid := false, refcnt := 1 }, i)
    | none => none

def acquiresleep (p : P) (i : Fin nbuf) : Cache P :=
  c.set i { c.buf i with lock := some p }

def fill (d : Disk) (i : Fin nbuf) : Cache P :=
  if (c.buf i).valid then c
  else c.set i { c.buf i with data := d (c.buf i).blockno, valid := true }

section
variable (i : Fin nbuf)

def setData (v : Block) : Cache P :=
  c.set i { c.buf i with data := v }

def releasesleep : Cache P :=
  c.set i { c.buf i with lock := none }

def unref : Cache P :=
  let c' := c.set i { c.buf i with refcnt := (c.buf i).refcnt - 1 }
  if (c.buf i).refcnt - 1 = 0 then { c' with lru := i :: c.lru.erase i } else c'

def bpin : Cache P :=
  c.set i { c.buf i with refcnt := (c.buf i).refcnt + 1 }

def bunpin : Cache P :=
  c.set i { c.buf i with refcnt := (c.buf i).refcnt - 1 }

@[simp] lemma set_buf_self (b : Buf P) : (c.set i b).buf i = b := by simp [set]
end

lemma set_buf_of_ne {i j : Fin nbuf} (b : Buf P) (h : j ≠ i) : (c.set i b).buf j = c.buf j := by
  simp [set, h]

@[simp] lemma set_self (i : Fin nbuf) : c.set i (c.buf i) = c := by simp [set]

lemma unref_buf (i : Fin nbuf) :
    (c.unref i).buf = (c.set i { c.buf i with refcnt := (c.buf i).refcnt - 1 }).buf := by
  simp only [unref]
  split <;> rfl
end
end Cache
end Xv6.Bio
