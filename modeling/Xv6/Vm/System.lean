import Xv6.Param
import Xv6.Vm.Image

namespace Xv6.Vm
inductive Slot where
  | unused
  | used (p : Proc)
  | zombie (p : Proc)
  deriving DecidableEq

def Slot.proc : Slot → Option Proc
  | .unused => none
  | .used p => some p
  | .zombie p => some p

structure Pipe where
  readopen : Bool
  writeopen : Bool
  deriving DecidableEq

/-- Memory, the process table and pipes. -/
structure Sys where
  mem : Mem
  proc : Fin nproc → Slot
  pipe : Nat → Option Pipe

def Sys.boot (m : Mem) : Sys := { mem := m, proc := fun _ => .unused, pipe := fun _ => none }

def pipealloc (f0 f1 : Bool) : VmM (Option Nat) :=
  if f0 && f1 then kalloc else pure none

def pipeclose (kend pi : Nat) (q : Pipe) (writable : Bool) : VmM (Option Pipe) := do
  let q := if writable then { q with writeopen := false } else { q with readopen := false }
  if q.readopen = false ∧ q.writeopen = false then
    kfree kend pi
    return none
  else return some q

inductive Op where
  | allocproc
  | sbrk (i : Fin nproc) (n t : BitVec 32)
  | vmfault (i : Fin nproc) (va : Nat)
  | fork (i : Fin nproc)
  | exec (i : Fin nproc) (file : Option File) (argv : List Arg)
  | exit (i : Fin nproc)
  | wait (i j : Fin nproc) (addr xstate : Nat)
  | pipealloc (f0 f1 : Bool)
  | pipeclose (pi : Nat) (writable : Bool)

namespace Sys
def setProc (s : Sys) (i : Fin nproc) (slot : Slot) : Sys :=
  { s with proc := fun j => if j = i then slot else s.proc j }

def setPipe (s : Sys) (pi : Nat) (q : Option Pipe) : Sys :=
  { s with pipe := fun a => if a = pi then q else s.pipe a }

def findUnused (s : Sys) : Option (Fin nproc) :=
  (List.finRange nproc).find? fun i => s.proc i = .unused

def call {α : Type} (s : Sys) (c : VmM α) (keep : Sys → α → Sys) : Except Panic Sys :=
  match c s.mem with
  | .ok (r, m) => .ok (keep { s with mem := m } r)
  | .error e => .error e

def enroll (j : Fin nproc) (s : Sys) : Option Proc → Sys
  | none => s
  | some p => s.setProc j (.used p)

def canClose (q : Pipe) (writable : Bool) : Bool := if writable then q.writeopen else q.readopen

variable (kend tramp : Nat)

def exec (s : Sys) : Op → Except Panic Sys
  | .allocproc =>
    match s.findUnused with
    | none => .ok s
    | some j => s.call (Vm.allocproc kend tramp) (enroll j)
  | .sbrk i n t =>
    match s.proc i with
    | .used p => s.call (sysSbrk kend p n.toInt t.toInt) fun s r => s.setProc i (.used r.2)
    | _ => .ok s
  | .vmfault i va =>
    match s.proc i with
    | .used p => s.call (Vm.vmfault kend p p.pagetable va) fun s _ => s
    | _ => .ok s
  | .fork i =>
    match s.proc i, s.findUnused with
    | .used p, some j => s.call (kfork kend tramp p) (enroll j)
    | _, _ => .ok s
  | .exec i file argv =>
    match s.proc i with
    | .used p => s.call (kexec kend tramp p file argv) fun s r => s.setProc i (.used r.2)
    | _ => .ok s
  | .exit i =>
    match s.proc i with
    | .used p => .ok (s.setProc i (.zombie p))
    | _ => .ok s
  | .wait i j addr xstate =>
    match s.proc i, s.proc j with
    | .used p, .zombie pp => s.call (kwait kend p pp addr xstate) fun s freed =>
        if freed then s.setProc j .unused else s
    | _, _ => .ok s
  | .pipealloc f0 f1 => s.call (Vm.pipealloc f0 f1) fun s r =>
      match r with
      | none => s
      | some pi => s.setPipe pi (some { readopen := true, writeopen := true })
  | .pipeclose pi writable =>
    match s.pipe pi with
    | some q =>
      if canClose q writable then s.call (Vm.pipeclose kend pi q writable) fun s r => s.setPipe pi r
      else .ok s
    | none => .ok s

def deny (s : Sys) (d : List Bool) : Sys := { s with mem := { s.mem with deny := d } }
def step (s : Sys) (l : List Bool × Op) : Except Panic Sys := (s.deny l.1).exec kend tramp l.2
end Sys
end Xv6.Vm
