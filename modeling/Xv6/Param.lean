import Mathlib

namespace Xv6
def maxOpBlocks : Nat := 10
def logBlocks : Nat := maxOpBlocks * 3
def nbuf : Nat := maxOpBlocks * 3
def nproc : Nat := 64
def nofile : Nat := 16
def nfile : Nat := 100
def bsize : Nat := 1024
def rootdev : Nat := 1
def rootino : Nat := 1
def ndirect : Nat := 12
def nindirect : Nat := bsize / 4
def maxfile : Nat := ndirect + nindirect
def ipb : Nat := bsize / 64
def bpb : Nat := bsize * 8
def dirsiz : Nat := 14
def maxpath : Nat := 128
def ninode : Nat := 50
lemma logBlocks_eq : logBlocks = 30 := rfl

instance : NeZero nproc := ⟨by decide⟩

instance : NeZero nbuf := ⟨by decide⟩

instance : NeZero ninode := ⟨by decide⟩

lemma nfile_pos : 0 < nfile := by decide
lemma bsize_eq : bsize = 1024 := rfl
lemma ndirect_eq : ndirect = 12 := rfl
lemma nindirect_eq : nindirect = 256 := rfl
lemma maxfile_eq : maxfile = 268 := rfl
lemma ipb_eq : ipb = 16 := rfl
lemma bpb_eq : bpb = 8192 := rfl
end Xv6
