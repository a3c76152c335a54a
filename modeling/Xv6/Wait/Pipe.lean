import Xv6.Lib.MonitorLogic

namespace Xv6.Wait
open Lib Monitor

structure Answer where
  copyin : Option UInt8 := none
  copyout : Bool := false

def pipeSize : Nat := 512

structure Pipe where
  data : Nat → UInt8
  nread : Nat
  nwrite : Nat
  readopen : Bool
  writeopen : Bool
  taken : List UInt8
  got : List UInt8

namespace Pipe
def pipealloc (data : Nat → UInt8) : Pipe :=
  { data := data
    nread := 0
    nwrite := 0
    readopen := true
    writeopen := true
    taken := []
    got := [] }

def Full (d : Pipe) : Prop := d.nwrite = (d.nread + pipeSize) % 2 ^ 32
def Empty (d : Pipe) : Prop := d.nread = d.nwrite

instance : DecidablePred Full := fun d => inferInstanceAs (Decidable (d.nwrite = _))

instance : DecidablePred Empty := fun d => inferInstanceAs (Decidable (d.nread = _))

def store (d : Pipe) (ch : UInt8) : Pipe :=
  { d with
    data := Function.update d.data (d.nwrite % pipeSize) ch
    nwrite := (d.nwrite + 1) % 2 ^ 32
    taken := d.taken ++ [ch] }

def fetch (d : Pipe) : Pipe :=
  { d with
    nread := (d.nread + 1) % 2 ^ 32
    got := d.got ++ [d.data (d.nread % pipeSize)] }

def close (d : Pipe) (writable : Bool) : Pipe :=
  if writable then { d with writeopen := false } else { d with readopen := false }

inductive Chan where
  | nread
  | nwrite
  deriving DecidableEq

/-- Program points of the pipe code. -/
inductive Loc where
  | writeTest (n : Int) (i : Nat) (stored : Bool)
  | writeKilled (n : Int) (i : Nat) (stored : Bool)
  | writeRoom (n : Int) (i : Nat) (stored : Bool)
  | writeFull (n : Int) (i : Nat) (stored : Bool)
  | writeSleep (n : Int) (i : Nat)
  | writeEnd (i : Nat)
  | writeRet (i : Nat)
  | readTest (n : Int)
  | readKilled (n : Int)
  | readSleep (n : Int)
  | readCopy (n : Int) (i : Nat)
  | readEnd (n v : Int)
  | readRet (n v : Int)
  | closeSet (writable : Bool)
  | closeWake (writable : Bool)
  | closeRet
  | fail
  deriving DecidableEq

def code : Loc → Cmd Pipe Loc Chan Answer
  | .writeTest n i t => .act fun _ d =>
    (d, if (i : Int) < n then if d.readopen then .writeKilled n i t else .fail else .writeEnd i)
  | .writeKilled n i t => .killed .fail (.writeRoom n i t)
  | .writeRoom n i t => .act fun e d =>
    if d.Full then (d, .writeFull n i t)
    else match e.copyin with
      | none => (d, .writeEnd i)
      | some ch => (d.store ch, .writeTest n (i + 1) true)
  | .writeFull n i _ => .wakeup .nread (.writeSleep n i)
  | .writeSleep n i => .sleep .nwrite (.writeTest n i false)
  | .writeEnd i => .wakeup .nread (.writeRet i)
  | .writeRet i => .ret i
  | .readTest n => .act fun _ d =>
    (d, if d.Empty ∧ d.writeopen then .readKilled n else .readCopy n 0)
  | .readKilled n => .killed .fail (.readSleep n)
  | .readSleep n => .sleep .nread (.readTest n)
  | .readCopy n i => .act fun e d =>
    if (i : Int) < n then
      if d.Empty then (d, .readEnd n i)
      else if e.copyout then (d.fetch, .readCopy n (i + 1))
      else (d, .readEnd n (if i = 0 then -1 else i))
    else (d, .readEnd n i)
  | .readEnd n v => .wakeup .nwrite (.readRet n v)
  | .readRet _ v => .ret v
  | .closeSet w => .act fun _ d => (d.close w, .closeWake w)
  | .closeWake w => .wakeup (if w then .nread else .nwrite) .closeRet
  | .closeRet => .ret 0
  | .fail => .ret (-1)

def entry : Loc → Bool
  | .writeTest _ 0 false | .readTest _ | .closeSet _ => true
  | _ => false

def program (nproc : Nat) : Program (Fin nproc) Pipe Loc Chan Answer Unit :=
  { code := fun _ => code
    lock := fun _ => ()
    entry := fun _ => entry
    procs := List.finRange nproc }

variable {nproc : Nat}

lemma program_wellLocked : (program nproc).WellLocked := fun _ k =>
  .of_forall (fun _ => rfl) (code k)
end Pipe
end Xv6.Wait
