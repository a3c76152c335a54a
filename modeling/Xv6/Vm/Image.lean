import Xv6.Vm.User

namespace Xv6.Vm
open Lib

def userstack : Nat := 1
def maxarg : Nat := 32
def elfMagic : Nat := 0x464C457F
def elfhdrSize : Nat := 64
def proghdrSize : Nat := 56
def trapframeSize : Nat := 288
def leBytes (n v : Nat) : List UInt8 := (List.range n).map fun k => UInt8.ofNat (v / 256 ^ k)
def field (bytes : List UInt8) (off n : Nat) : Nat := getLE (fun i => bytes.getD i 0) off n

structure File where
  read : Nat → Nat → List UInt8

def File.readi (f : File) (off n : Nat) : List UInt8 := (f.read off n).take n
abbrev Arg := { s : List UInt8 // s.length < pgsize }

variable (kend tramp : Nat)

def procPagetable (tf : Nat) : VmM (Option Nat) := do
  let r ← uvmcreate
  match r with
  | none => return none
  | some pagetable =>
    let e ← mappages pagetable trampoline pgsize tramp (pteR ||| pteX)
    if e < 0 then
      uvmfree kend pagetable 0
      return none
    else
      let e ← mappages pagetable trapframe pgsize tf (pteR ||| pteW)
      if e < 0 then
        uvmunmap kend pagetable trampoline 1 false
        uvmfree kend pagetable 0
        return none
      else return some pagetable

def procFreepagetable (pagetable sz : Nat) : VmM Unit := do
  uvmunmap kend pagetable trampoline 1 false
  uvmunmap kend pagetable trapframe 1 false
  uvmfree kend pagetable sz

def freeproc (tf pagetable : Option Nat) (sz : Nat) : VmM Unit := do
  (match tf with
    | none => pure ()
    | some tf => kfree kend tf)
  match pagetable with
  | none => pure ()
  | some pagetable => procFreepagetable kend pagetable sz

def allocproc : VmM (Option Proc) := do
  let r ← kalloc
  match r with
  | none =>
    freeproc kend none none 0
    return none
  | some tf =>
    let r ← procPagetable kend tramp tf
    match r with
    | none =>
      freeproc kend (some tf) none 0
      return none
    | some pagetable => return some { pagetable := pagetable, sz := 0, trapframe := tf }

def kfork (p : Proc) : VmM (Option Proc) := do
  let r ← allocproc kend tramp
  match r with
  | none => return none
  | some np =>
    let e ← uvmcopy kend p.pagetable np.pagetable p.sz
    if e < 0 then
      freeproc kend (some np.trapframe) (some np.pagetable) np.sz
      return none
    else
      let regs ← peek p.trapframe trapframeSize
      poke np.trapframe regs
      poke (np.trapframe + 112) (leBytes 8 0)
      return some { np with sz := p.sz }

def flags2perm (flags : Nat) : Nat :=
  (if flags.testBit 0 then pteX else 0) ||| (if flags.testBit 1 then pteW else 0)

def loadsegLoop (f : File) (pagetable va offset sz : Nat) : Nat → Nat → VmM Int
  | 0, _ => return 0
  | k + 1, i => do
    if i < sz then
      let pa ← walkaddr pagetable ((va + i) % 2 ^ 64)
      if pa = 0 then throw .loadseg
      else
        let n := min (sz - i) pgsize
        let bytes := f.readi ((offset + i) % 2 ^ 32) n
        poke pa bytes
        if bytes.length ≠ n then return -1
        else loadsegLoop f pagetable va offset sz k ((i + pgsize) % 2 ^ 32)
    else return 0

def loadseg (f : File) (pagetable va offset sz : Nat) : VmM Int :=
  loadsegLoop f pagetable va (offset % 2 ^ 32) (sz % 2 ^ 32) (sz % 2 ^ 32 / pgsize + 1) 0

def loadSegments (f : File) (pagetable : Nat) : Nat → Nat → Nat → VmM (Bool × Nat)
  | 0, _, sz => return (true, sz)
  | n + 1, off, sz => do
    let ph := f.readi off proghdrSize
    if ph.length ≠ proghdrSize then return (false, sz)
    else if field ph 0 4 ≠ 1 then
      loadSegments f pagetable n ((off + proghdrSize) % 2 ^ 32) sz
    else if field ph 40 8 < field ph 32 8 then return (false, sz)
    else if (field ph 16 8 + field ph 40 8) % 2 ^ 64 < field ph 16 8 then return (false, sz)
    else if field ph 16 8 % pgsize ≠ 0 then return (false, sz)
    else
      let sz1 ← uvmalloc kend pagetable sz ((field ph 16 8 + field ph 40 8) % 2 ^ 64)
        (flags2perm (field ph 4 4))
      if sz1 = 0 then return (false, sz)
      else
        let e ← loadseg f pagetable (field ph 16 8) (field ph 8 8) (field ph 32 8)
        if e < 0 then return (false, sz1)
        else loadSegments f pagetable n ((off + proghdrSize) % 2 ^ 32) sz1

def pushDown (sp n : Nat) : Nat :=
  let sp := (sp + 2 ^ 64 - n) % 2 ^ 64
  sp - sp % 16

def pushArgs (p : Proc) (pagetable stackbase : Nat) :
    List Arg → Nat → List Nat → VmM (Option (Nat × List Nat))
  | [], sp, ustack => return some (sp, ustack)
  | s :: argv, sp, ustack => do
    if maxarg ≤ ustack.length then return none
    else
      let sp := pushDown sp (s.val.length + 1)
      if sp < stackbase then return none
      else
        let e ← copyout kend p pagetable sp (s.val ++ [0])
        if e < 0 then return none
        else pushArgs p pagetable stackbase argv sp (ustack ++ [sp])

def pushStack (p : Proc) (pagetable sz : Nat) (argv : List Arg) : VmM (Option (Nat × Nat)) := do
  let r ← pushArgs kend p pagetable (sz - userstack * pgsize) argv sz []
  match r with
  | none => return none
  | some (sp, ustack) =>
    let sp := pushDown sp ((ustack.length + 1) * 8)
    if sp < sz - userstack * pgsize then return none
    else
      let e ← copyout kend p pagetable sp ((ustack ++ [0]).flatMap (leBytes 8))
      if e < 0 then return none else return some (sp, ustack.length)

def kexecBad (p : Proc) (pagetable sz : Nat) : VmM (Int × Proc) := do
  procFreepagetable kend pagetable sz
  return (-1, p)

def kexecCommit (p : Proc) (entry pagetable sz : Nat) (argv : List Arg) : VmM (Int × Proc) := do
  let sz := pgroundup sz
  let sz1 ← uvmalloc kend pagetable sz ((sz + (userstack + 1) * pgsize) % 2 ^ 64) pteW
  if sz1 = 0 then kexecBad kend p pagetable sz
  else
    uvmclear pagetable (sz1 - (userstack + 1) * pgsize)
    let r ← pushStack kend p pagetable sz1 argv
    match r with
    | none => kexecBad kend p pagetable sz1
    | some (sp, argc) =>
      poke (p.trapframe + 120) (leBytes 8 sp)
      poke (p.trapframe + 24) (leBytes 8 entry)
      poke (p.trapframe + 48) (leBytes 8 sp)
      procFreepagetable kend p.pagetable p.sz
      return (argc, { p with pagetable := pagetable, sz := sz1 })

def kexec (p : Proc) (file : Option File) (argv : List Arg) : VmM (Int × Proc) := do
  match file with
  | none => return (-1, p)
  | some f =>
    let elf := f.readi 0 elfhdrSize
    if elf.length ≠ elfhdrSize then return (-1, p)
    else if field elf 0 4 ≠ elfMagic then return (-1, p)
    else
      let r ← procPagetable kend tramp p.trapframe
      match r with
      | none => return (-1, p)
      | some pagetable =>
        let r ← loadSegments kend f pagetable (field elf 56 2) (field elf 32 8 % 2 ^ 32) 0
        if r.1 = false then kexecBad kend p pagetable r.2
        else kexecCommit kend p (field elf 24 8) pagetable r.2 argv

def kwait (p pp : Proc) (addr xstate : Nat) : VmM Bool := do
  let e ← (if addr ≠ 0 then copyout kend p p.pagetable addr (leBytes 4 xstate) else pure 0)
  if e < 0 then return false
  else
    freeproc kend (some pp.trapframe) (some pp.pagetable) pp.sz
    return true
end Xv6.Vm
