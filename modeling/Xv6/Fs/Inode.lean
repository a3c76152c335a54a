import Xv6.Fs.Layout
import Xv6.Lib.Wp

namespace Xv6.Fs
inductive Panic where
  | freeingFreeBlock
  | igetNoInodes
  | ilock
  | ilockNoType
  | bmapOutOfRange
  | dirlookupNotDir
  | dirlookupRead
  | dirlinkRead
  | unlinkNlink
  | unlinkWritei
  | isdiremptyReadi
  | tooBig
  deriving DecidableEq

structure Inode where
  inum : Nat
  ref : Nat
  valid : Bool
  copy : Dinode

/-- The inode table and the disk as buffers have it. -/
structure State where
  disk : Disk
  itable : Fin ninode → Inode
  /-- Blocks changed without `log_write`. -/
  unlogged : List Nat
  /-- The blocks given to `log_write`, the last first. -/
  logged : List Nat

namespace State
def logWrite (s : State) (b : Nat) (v : Block) : State :=
  { s with
    disk := Function.update s.disk b v
    unlogged := s.unlogged.filter (· ≠ b)
    logged := b :: s.logged }

def scribble (s : State) (b : Nat) (v : Block) : State :=
  { s with disk := Function.update s.disk b v, unlogged := b :: s.unlogged }

def setInode (s : State) (ip : Fin ninode) (e : Inode) : State :=
  { s with itable := Function.update s.itable ip e }
end State

abbrev FsM := StateT State (Except Panic)
def bread (b : Nat) : FsM Block := do return (← get).disk b
def logWrite (b : Nat) (v : Block) : FsM Unit := modify fun s => s.logWrite b v

def scribble (b : Nat) (v : Block) : FsM Unit := modify fun s => s.scribble b v
def inode (ip : Fin ninode) : FsM Inode := do return (← get).itable ip
def setInode (ip : Fin ninode) (e : Inode) : FsM Unit := modify fun s => s.setInode ip e

variable (sb : Superblock)

def bzero (b : Nat) : FsM Unit := logWrite b .zero

def balloc : FsM Nat := do
  let s ← get
  match (List.range sb.size).find? fun b => !sb.bit s.disk b with
  | none => return 0
  | some b =>
    logWrite (sb.bblock b) ((s.disk (sb.bblock b)).setBit (b % bpb))
    bzero b
    return b

def bfree (b : Nat) : FsM Unit := do
  let bp ← bread (sb.bblock b)
  if bp.getBit (b % bpb) = false then throw .freeingFreeBlock
  else logWrite (sb.bblock b) (bp.clearBit (b % bpb))

def iget (inum : Nat) : FsM (Fin ninode) := do
  let s ← get
  match (List.finRange ninode).find? fun k => 0 < (s.itable k).ref ∧ (s.itable k).inum = inum with
  | some ip =>
    setInode ip { s.itable ip with ref := (s.itable ip).ref + 1 }
    return ip
  | none =>
    match (List.finRange ninode).find? fun k => (s.itable k).ref = 0 with
    | none => throw .igetNoInodes
    | some ip =>
      setInode ip { s.itable ip with inum := inum, ref := 1, valid := false }
      return ip

def idup (ip : Fin ninode) : FsM Unit := do
  let e ← inode ip
  setInode ip { e with ref := e.ref + 1 }

def ialloc (type : Nat) : FsM (Option (Fin ninode)) := do
  let s ← get
  match (List.range' 1 (sb.ninodes - 1)).find? fun i => (sb.dinode s.disk i).type = 0 with
  | none => return none
  | some inum =>
    logWrite (sb.iblock inum) (sb.putDinode s.disk inum { Dinode.zero with type := type })
    let ip ← iget inum
    return some ip

def iupdate (ip : Fin ninode) : FsM Unit := do
  let s ← get
  let e := s.itable ip
  logWrite (sb.iblock e.inum) (sb.putDinode s.disk e.inum e.copy)

def update (ip : Fin ninode) (f : Dinode → Dinode) : FsM Unit := do
  let e ← inode ip
  setInode ip { e with copy := f e.copy }
  iupdate sb ip

def ilock (ip : Fin ninode) : FsM Unit := do
  let s ← get
  let e := s.itable ip
  if e.ref < 1 then throw .ilock
  else if e.valid then return ()
  else
    let x := sb.dinode s.disk e.inum
    setInode ip { e with copy := x, valid := true }
    if x.type = 0 then throw .ilockNoType else return ()

def setAddr (ip : Fin ninode) (k addr : Nat) : FsM Unit := do
  let e ← inode ip
  setInode ip { e with copy := e.copy.setAddr k addr }

def indirect (ip : Fin ninode) : FsM Nat := do
  let e ← inode ip
  if e.copy.addr ndirect = 0 then
    let addr ← balloc sb
    if addr = 0 then return 0
    else
      setAddr ip ndirect addr
      return addr
  else return e.copy.addr ndirect

def bmap (ip : Fin ninode) (bn : Nat) : FsM Nat := do
  let e ← inode ip
  if bn < ndirect then
    if e.copy.addr bn = 0 then
      let addr ← balloc sb
      if addr = 0 then return 0
      else
        setAddr ip bn addr
        return addr
    else return e.copy.addr bn
  else if bn - ndirect < nindirect then
    let ind ← indirect sb ip
    if ind = 0 then return 0
    else
      let bp ← bread ind
      if bp.word (bn - ndirect) = 0 then
        let addr ← balloc sb
        if addr = 0 then return 0
        else
          logWrite ind (bp.setWord (bn - ndirect) addr)
          return addr
      else return bp.word (bn - ndirect)
  else throw .bmapOutOfRange

def itruncDirect (ip : Fin ninode) : List Nat → FsM Unit
  | [] => return ()
  | i :: is => do
    let e ← inode ip
    if e.copy.addr i = 0 then itruncDirect ip is
    else
      bfree sb (e.copy.addr i)
      setAddr ip i 0
      itruncDirect ip is

def bfreeEntries (a : Block) : List Nat → FsM Unit
  | [] => return ()
  | j :: js => do
    if a.word j = 0 then bfreeEntries a js
    else
      bfree sb (a.word j)
      bfreeEntries a js

def itruncIndirect (ip : Fin ninode) : FsM Unit := do
  let e ← inode ip
  if e.copy.addr ndirect = 0 then return ()
  else
    let bp ← bread (e.copy.addr ndirect)
    bfreeEntries sb bp (List.range nindirect)
    bfree sb (e.copy.addr ndirect)
    setAddr ip ndirect 0

def itrunc (ip : Fin ninode) : FsM Unit := do
  itruncDirect sb ip (List.range ndirect)
  itruncIndirect sb ip
  let e ← inode ip
  setInode ip { e with copy := { e.copy with size := 0 } }
  iupdate sb ip

def freeInode (ip : Fin ninode) : FsM Unit := do
  itrunc sb ip
  let e ← inode ip
  setInode ip { e with copy := { e.copy with type := 0 } }
  iupdate sb ip
  let e ← inode ip
  setInode ip { e with valid := false }

def iput (ip : Fin ninode) : FsM Unit := do
  let e ← inode ip
  (if e.ref = 1 ∧ e.valid ∧ e.copy.nlink = 0 then freeInode sb ip else pure ())
  let e ← inode ip
  setInode ip { e with ref := e.ref - 1 }

def ireclaimOne (inum : Nat) : FsM Unit := do
  let s ← get
  let x := sb.dinode s.disk inum
  if x.type ≠ 0 ∧ x.nlink = 0 then
    let ip ← iget inum
    ilock sb ip
    iput sb ip
  else return ()

def ireclaimLoop : List Nat → FsM Unit
  | [] => return ()
  | inum :: is => do
    ireclaimOne sb inum
    ireclaimLoop is

def ireclaim : FsM Unit := ireclaimLoop sb (List.range' 1 (sb.ninodes - 1))

def copyable {α : Type} (mem : Nat → Option α) (k m : Nat) : Nat :=
  ((List.range m).takeWhile fun i => (mem (k + i)).isSome).length

def fill (b : Block) (off len : Nat) (f : Nat → UInt8) : Block :=
  .ofBytes fun i => if off ≤ i ∧ i < off + len then f (i - off) else b.byte i

def readLoop (ip : Fin ninode) (dst : Nat → Option Unit) (n : Nat) :
    Nat → Nat → Nat → List UInt8 → FsM (Int × List UInt8)
  | 0, tot, _, out => return (tot, out)
  | fuel + 1, tot, off, out => do
    if tot < n then
      let addr ← bmap sb ip (off / bsize)
      if addr = 0 then return (tot, out)
      else
        let bp ← bread addr
        let m := min (n - tot) (bsize - off % bsize)
        let len := copyable dst tot m
        let out := out ++ (List.range len).map fun i => bp.byte (off % bsize + i)
        if len < m then return (-1, out)
        else readLoop ip dst n fuel (tot + m) (off + m) out
    else return (tot, out)

def readi (ip : Fin ninode) (dst : Nat → Option Unit) (off n : Nat) : FsM (Int × List UInt8) := do
  let e ← inode ip
  if off > e.copy.size ∨ (off + n) % 2 ^ 32 < off then return (0, [])
  else
    let n := if off + n > e.copy.size then e.copy.size - off else n
    readLoop sb ip dst n n 0 off []

def writeLoop (ip : Fin ninode) (src : Nat → Option UInt8) (n : Nat) :
    Nat → Nat → Nat → FsM (Nat × Nat)
  | 0, tot, off => return (tot, off)
  | fuel + 1, tot, off => do
    if tot < n then
      let addr ← bmap sb ip (off / bsize)
      if addr = 0 then return (tot, off)
      else
        let bp ← bread addr
        let m := min (n - tot) (bsize - off % bsize)
        let len := copyable src tot m
        let bp := fill bp (off % bsize) len fun i => (src (tot + i)).getD 0
        if len < m then
          scribble addr bp
          return (tot, off)
        else
          logWrite addr bp
          writeLoop ip src n fuel (tot + m) (off + m)
    else return (tot, off)

def writei (ip : Fin ninode) (src : Nat → Option UInt8) (off n : Nat) : FsM Int := do
  let e ← inode ip
  if off > e.copy.size ∨ (off + n) % 2 ^ 32 < off then return -1
  else if off + n > maxfile * bsize then return -1
  else
    let r ← writeLoop sb ip src n n 0 off
    let e ← inode ip
    if r.2 > e.copy.size then
      setInode ip { e with copy := { e.copy with size := r.2 } }
    iupdate sb ip
    return r.1
end Xv6.Fs
