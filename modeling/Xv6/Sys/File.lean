import Xv6.Fs.Contents

namespace Xv6.Sys
open Lib
open Fs (FsM Panic Superblock)

inductive FdType where
  | none
  | pipe
  | inode
  | device
  deriving DecidableEq

structure File where
  type : FdType
  writable : Bool
  ip : Fin ninode
  off : Nat

structure State where
  fs : Fs.State
  ftable : Fin nfile → File

namespace State
def setFile (s : State) (f : Fin nfile) (x : File) : State :=
  { s with ftable := Function.update s.ftable f x }
end State

abbrev FileM := StateT State (Except Panic)

def fsCall {α : Type} (m : FsM α) : FileM α := fun s =>
  (m s.fs).map fun r => (r.1, { s with fs := r.2 })

def file (f : Fin nfile) : FileM File := do return (← get).ftable f
def setFile (f : Fin nfile) (x : File) : FileM Unit := modify fun s => s.setFile f x

variable (sb : Superblock)

def maxWrite : Nat := ((maxOpBlocks - 1 - 1 - 2) / 2) * bsize
def chunk (n i : Nat) : Nat := if n - i > maxWrite then maxWrite else n - i

def filewriteRound (f : Fin nfile) (src : Nat → Option UInt8) (n i : Nat) : FileM Int := do
  let x ← file f
  fsCall (Fs.ilock sb x.ip)
  let r ← fsCall (Fs.writei sb x.ip (fun k => src (i + k)) x.off (chunk n i))
  if r > 0 then setFile f { x with off := (x.off + r.toNat) % 2 ^ 32 }
  return r

section
variable {sb : Superblock} {s : State} {f : Fin nfile} {x : File} {E : Panic → Prop}

lemma wp_fsCall {α : Type} {m : FsM α} {Q : α → State → Prop} :
    wp (fsCall m) s Q E ↔ wp m s.fs (fun a t => Q a { s with fs := t }) E := by
  unfold wp fsCall
  cases m s.fs <;> rfl

@[simp] lemma wp_file {Q : File → State → Prop} : wp (file f) s Q E ↔ Q (s.ftable f) s := by
  simp only [file, wp_bind, wp_get, wp_pure]

@[simp] lemma wp_setFile {Q : Unit → State → Prop} :
    wp (setFile f x) s Q E ↔ Q () (s.setFile f x) := wp_modify

@[simp] lemma ftable_setFile_self : (s.setFile f x).ftable f = x := Function.update_self ..
@[simp] lemma fs_setFile : (s.setFile f x).fs = s.fs := rfl
end
end Xv6.Sys
