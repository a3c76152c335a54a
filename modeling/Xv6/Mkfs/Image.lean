import Xv6.Fs.Dir

namespace Xv6.Mkfs
open Fs

def ninodes : Nat := 200
def fssize : Nat := 2000
def nbitmap : Nat := fssize / bpb + 1
def ninodeblocks : Nat := ninodes / ipb + 1
def nlog : Nat := logBlocks + 1
def nmeta : Nat := 2 + nlog + ninodeblocks + nbitmap
lemma ninodes_eq : ninodes = 200 := rfl
lemma fssize_eq : fssize = 2000 := rfl
lemma nmeta_eq : nmeta = 47 := rfl

def sb : Superblock where
  size := fssize
  nblocks := fssize - nmeta
  ninodes := ninodes
  inodestart := 2 + nlog
  bmapstart := 2 + nlog + ninodeblocks

def fsmagic : Nat := 0x10203040

def superblockFields : List Lib.Field :=
  [⟨0, 4, fsmagic⟩, ⟨4, 4, sb.size⟩, ⟨8, 4, sb.nblocks⟩, ⟨12, 4, sb.ninodes⟩, ⟨16, 4, nlog⟩,
    ⟨20, 4, 2⟩, ⟨24, 4, sb.inodestart⟩, ⟨28, 4, sb.bmapstart⟩]

inductive Fail where
  | die
  | assertion
  deriving DecidableEq

structure State where
  img : Disk
  len : Nat
  freeinode : Nat
  freeblock : Nat
  inodes : List Nat

abbrev MkM := StateT State (Except Fail)
def sector (sec : Nat) : Nat := sec % 2 ^ 22

def wsect (sec : Nat) (b : Block) : MkM Unit := modify fun s =>
  { s with img := Function.update s.img (sector sec) b, len := max s.len (sector sec + 1) }

def rsect (sec : Nat) : MkM Block := do
  let s ← get
  if sector sec < s.len then return s.img (sector sec) else throw .die

def winode (inum : Nat) (x : Dinode) : MkM Unit := do
  let buf ← rsect (sb.iblock inum)
  wsect (sb.iblock inum) (x.write buf (inum % ipb))

def rinode (inum : Nat) : MkM Dinode := do
  let buf ← rsect (sb.iblock inum)
  return .read buf (inum % ipb)

def ialloc (type : Nat) : MkM Nat := do
  let s ← get
  set { s with freeinode := (s.freeinode + 1) % 2 ^ 32, inodes := s.freeinode :: s.inodes }
  winode s.freeinode { Dinode.zero with type := type, nlink := 1 }
  return s.freeinode

def nextBlock : MkM Nat := do
  let s ← get
  set { s with freeblock := (s.freeblock + 1) % 2 ^ 32 }
  return s.freeblock

def usedBits (used : Nat) : Block :=
  (List.range used).foldl (fun b i => b.setBit i) .zero

def balloc (used : Nat) : MkM Unit := do
  if cint used < bpb then wsect sb.bmapstart (usedBits (cint used).toNat)
  else throw .assertion

def blockFor (x : Dinode) (fbn : Nat) : MkM (Dinode × Nat) := do
  if fbn < ndirect then
    if x.addr fbn = 0 then
      let b ← nextBlock
      return (x.setAddr fbn b, b)
    else return (x, x.addr fbn)
  else
    let x ← (if x.addr ndirect = 0 then do
        let b ← nextBlock
        return x.setAddr ndirect b
      else return x)
    let indirect ← rsect (x.addr ndirect)
    if indirect.word (fbn - ndirect) = 0 then
      let b ← nextBlock
      wsect (x.addr ndirect) (indirect.setWord (fbn - ndirect) b)
      return (x, b)
    else return (x, indirect.word (fbn - ndirect))

def iappendLoop : Nat → Dinode → Nat → List UInt8 → MkM (Dinode × Nat)
  | 0, x, off, _ => return (x, off)
  | fuel + 1, x, off, p => do
    if p = [] then return (x, off)
    else
      let fbn := off / bsize
      if maxfile ≤ fbn then throw .assertion
      else
        let r ← blockFor x fbn
        let n1 := min p.length ((fbn + 1) * bsize - off)
        let buf ← rsect r.2
        wsect r.2 (fill buf (off - fbn * bsize) n1 fun k => p.getD k 0)
        iappendLoop fuel r.1 (off + n1) (p.drop n1)

def iappend (inum : Nat) (p : List UInt8) : MkM Unit := do
  let x ← rinode inum
  let r ← iappendLoop p.length x x.size p
  winode inum { r.1 with size := r.2 }

abbrev Chunk := { c : List UInt8 // 0 < c.length ∧ c.length ≤ bsize }

structure Input where
  arg : List UInt8
  string : (0 : UInt8) ∉ arg
  reads : Option (List Chunk)

def userSlash : List UInt8 := [117, 115, 101, 114, 47]

def withoutUser (arg : List UInt8) : List UInt8 :=
  if userSlash <+: arg then arg.drop 5 else arg

def withoutUnderscore (name : List UInt8) : List UInt8 :=
  if name.head? = some 95 then name.drop 1 else name

def shortname (arg : List UInt8) : Name := withoutUnderscore (withoutUser arg)
def direntBytes (de : Dirent) : List UInt8 := (List.range 16).map de.byte

def appendReads (inum : Nat) : List Chunk → MkM Unit
  | [] => return ()
  | c :: cs => do
    iappend inum c.val
    appendReads inum cs

def addFile (rootino : Nat) (f : Input) : MkM Unit := do
  if (47 : UInt8) ∈ withoutUser f.arg then throw .assertion
  else
    match f.reads with
    | none => throw .die
    | some reads =>
      if dirsiz < (shortname f.arg).length then throw .assertion
      else
        let inum ← ialloc tFile
        iappend rootino (direntBytes ⟨inum, shortname f.arg⟩)
        appendReads inum reads

def addFiles (rootino : Nat) : List Input → MkM Unit
  | [] => return ()
  | f :: fs => do
    addFile rootino f
    addFiles rootino fs

def fixRoot (rootino : Nat) : MkM Unit := do
  let x ← rinode rootino
  winode rootino { x with size := (x.size / bsize + 1) * bsize % 2 ^ 32 }

def main (files : List Input) : MkM Unit := do
  wsect 1 (Block.zero.setFields 0 superblockFields)
  let rootino ← ialloc tDir
  if rootino ≠ Xv6.rootino then throw .assertion
  else
    iappend rootino (direntBytes ⟨rootino, [46]⟩)
    iappend rootino (direntBytes ⟨rootino, [46, 46]⟩)
    addFiles rootino files
    fixRoot rootino
    let s ← get
    balloc s.freeblock

def blank : State :=
  { img := fun _ => .zero, len := fssize, freeinode := 1, freeblock := nmeta, inodes := [] }

def mkfs (files : List Input) : Except Fail State := (main files blank).map Prod.snd
end Xv6.Mkfs
