import Xv6.Lib.Machine
import Xv6.Param

namespace Xv6
open Function

inductive ProcState where
  | unused
  | used
  | sleeping
  | runnable
  | running
  | zombie
  deriving DecidableEq

inductive Chan where
  | proc (p : Fin nproc)
  | other (n : Nat)
  deriving DecidableEq

structure Proc where
  state : ProcState
  chan : Option Chan
  killed : Bool
  xstate : Int
  pid : Int
  parent : Option (Fin nproc)
  deriving DecidableEq

namespace Proc
def free : Proc :=
  { state := .unused, chan := none, killed := false, xstate := 0, pid := 0, parent := none }

/-- Where a process is in `kfork`, `kexit` or `kwait`. -/
inductive Pc where
  | idle
  | forkScan (i : Nat)
  | forkParent (np : Fin nproc)
  | forkRun (np : Fin nproc)
  | exitStart (status : Int)
  | exitReparent (status : Int) (i : Nat)
  | exitWakeInit (status : Int) (i j : Nat)
  | exitWakeParent (status : Int) (j : Nat)
  | exitZombie (status : Int)
  | waitLock (addr : Bool)
  | waitScan (addr havekids : Bool) (i : Nat)
  | waitSleep (addr : Bool)
  | waitAsleep (addr : Bool)
  deriving DecidableEq

structure Exit where
  id : Nat
  pid : Int
  status : Int
  deriving DecidableEq

structure Reaped where
  id : Nat
  pid : Int
  status : Int
  caller : Fin nproc
  parent : Option (Fin nproc)
  callerId : Nat
  forkedBy : Nat
  deriving DecidableEq

/-- The process table and `wait_lock`. -/
structure Kernel where
  proc : Fin nproc → Proc
  pc : Fin nproc → Pc
  wait_lock : Option (Fin nproc)
  nextpid : Int
  panicked : Bool
  /-- Ghost: numbers the processes. -/
  id : Fin nproc → Nat
  forkedBy : Fin nproc → Nat
  nextId : Nat
  exits : List Exit
  reaped : List Reaped

def initproc : Fin nproc := 0

inductive Syscall where
  | fork
  | exit (status : Int)
  | wait (addr : Bool)

inductive Act where
  | syscall (p : Fin nproc) (c : Syscall)
  | step (p : Fin nproc) (ok : Bool)
  | run (p : Fin nproc)
  | yield (p : Fin nproc)
  | sleep (p : Fin nproc) (n : Nat)
  | wakeup (p : Fin nproc)
  | kill (p : Fin nproc)

namespace Kernel
def asInt (n : Int) : Int := n.bmod (2 ^ 32)

def boot : Kernel :=
  { proc := update (fun _ => free) initproc
      { free with state := .runnable, pid := 1 }
    pc := fun _ => .idle
    wait_lock := none
    nextpid := 2
    panicked := false
    id := fun _ => 0
    forkedBy := fun _ => 0
    nextId := 1
    exits := []
    reaped := [] }

def setPc (s : Kernel) (p : Fin nproc) (c : Pc) : Kernel :=
  { s with pc := update s.pc p c }

def setProc (s : Kernel) (p : Fin nproc) (v : Proc) : Kernel :=
  { s with proc := update s.proc p v }

def slot (i : Nat) : Option (Fin nproc) := if h : i < nproc then some ⟨i, h⟩ else none

section
variable (s : Kernel) (p : Fin nproc)

def forkScan (i : Nat) (ok : Bool) : Kernel :=
  match slot i with
  | none => s.setPc p .idle
  | some np =>
    if (s.proc np).state ≠ .unused then s.setPc p (.forkScan (i + 1))
    else if ok then
      { (s.setProc np { s.proc np with state := .used, pid := s.nextpid }).setPc p
          (.forkParent np) with
        nextpid := s.nextpid + 1
        id := update s.id np s.nextId
        nextId := s.nextId + 1 }
    else { (s.setProc np free).setPc p .idle with nextpid := s.nextpid + 1 }

def wakeOne (chan : Option Chan) (j : Fin nproc) : Kernel :=
  if j ≠ p ∧ (s.proc j).state = .sleeping ∧ (s.proc j).chan = chan then
    s.setProc j { s.proc j with state := .runnable }
  else s

def exitReparent (status : Int) (i : Nat) : Kernel :=
  match slot i with
  | none => s.setPc p (.exitWakeParent status 0)
  | some pp =>
    if (s.proc pp).parent = some p then
      (s.setProc pp { s.proc pp with parent := some initproc }).setPc p (.exitWakeInit status i 0)
    else s.setPc p (.exitReparent status (i + 1))

def exitWakeInit (status : Int) (i j : Nat) : Kernel :=
  match slot j with
  | none => s.setPc p (.exitReparent status (i + 1))
  | some q => (s.wakeOne p (some (.proc initproc)) q).setPc p (.exitWakeInit status i (j + 1))

def exitWakeParent (status : Int) (j : Nat) : Kernel :=
  match slot j with
  | none => s.setPc p (.exitZombie status)
  | some q => (s.wakeOne p ((s.proc p).parent.map .proc) q).setPc p (.exitWakeParent status (j + 1))

def exitZombie (status : Int) : Kernel :=
  { (s.setProc p { s.proc p with xstate := status, state := .zombie }).setPc p .idle with
    wait_lock := none
    exits := s.exits ++ [⟨s.id p, (s.proc p).pid, status⟩] }

def waitScan (addr havekids : Bool) (i : Nat) (ok : Bool) : Kernel :=
  match slot i with
  | none =>
    if !havekids || (s.proc p).killed then { s.setPc p .idle with wait_lock := none }
    else s.setPc p (.waitSleep addr)
  | some pp =>
    if (s.proc pp).parent ≠ some p then s.setPc p (.waitScan addr havekids (i + 1))
    else if (s.proc pp).state ≠ .zombie then s.setPc p (.waitScan addr true (i + 1))
    else if addr && !ok then { s.setPc p .idle with wait_lock := none }
    else
      { (s.setProc pp free).setPc p .idle with
        wait_lock := none
        reaped := s.reaped ++
          [⟨s.id pp, (s.proc pp).pid, (s.proc pp).xstate, p, (s.proc pp).parent, s.id p,
            s.forkedBy pp⟩] }

def waitSleep (addr : Bool) : Kernel :=
  { (s.setProc p { s.proc p with state := .sleeping, chan := some (.proc p) }).setPc p
      (.waitAsleep addr) with
    wait_lock := none }

def step (ok : Bool) : Option Kernel :=
  match s.pc p with
  | .idle | .waitAsleep _ => none
  | .forkScan i => some (s.forkScan p i ok)
  | .forkParent np =>
    if s.wait_lock = none then
      some { (s.setProc np { s.proc np with parent := some p }).setPc p (.forkRun np) with
        forkedBy := update s.forkedBy np (s.id p) }
    else none
  | .forkRun np => some ((s.setProc np { s.proc np with state := .runnable }).setPc p .idle)
  | .exitStart status =>
    if s.wait_lock = none then
      some { s.setPc p (.exitReparent status 0) with wait_lock := some p }
    else none
  | .exitReparent status i => some (s.exitReparent p status i)
  | .exitWakeInit status i j => some (s.exitWakeInit p status i j)
  | .exitWakeParent status j => some (s.exitWakeParent p status j)
  | .exitZombie status => some (s.exitZombie p status)
  | .waitLock addr =>
    if s.wait_lock = none then
      some { s.setPc p (.waitScan addr false 0) with wait_lock := some p }
    else none
  | .waitScan addr havekids i => some (s.waitScan p addr havekids i ok)
  | .waitSleep addr => some (s.waitSleep p addr)

def run : Kernel :=
  let s' := s.setProc p { s.proc p with state := .running, chan := none }
  match s.pc p with
  | .waitAsleep addr => s'.setPc p (.waitLock addr)
  | _ => s'

def syscall : Syscall → Kernel
  | .fork => s.setPc p (.forkScan 0)
  | .exit status =>
    if p = initproc then { s with panicked := true } else s.setPc p (.exitStart status)
  | .wait addr => s.setPc p (.waitLock addr)

def maySleep : Bool :=
  match s.pc p with
  | .idle | .exitStart _ => true
  | _ => false
end

def wakes (v : Proc) : Proc := if v.state = .sleeping then { v with state := .runnable } else v

/-- One critical section of a process. -/
def next (s : Kernel) (a : Act) : Option Kernel :=
  if s.panicked then none
  else match a with
  | .syscall p c =>
    if (s.proc p).state = .running ∧ s.pc p = .idle then some (s.syscall p c) else none
  | .step p ok => if (s.proc p).state = .running then s.step p ok else none
  | .run p => if (s.proc p).state = .runnable then some (s.run p) else none
  | .yield p =>
    if (s.proc p).state = .running ∧ s.wait_lock ≠ some p then
      some (s.setProc p { s.proc p with state := .runnable })
    else none
  | .sleep p n =>
    if (s.proc p).state = .running ∧ s.maySleep p then
      some (s.setProc p { s.proc p with state := .sleeping, chan := some (.other n) })
    else none
  | .wakeup p =>
    match (s.proc p).state, (s.proc p).chan with
    | .sleeping, some (.other _) => some (s.setProc p { s.proc p with state := .runnable })
    | _, _ => none
  | .kill p => some (s.setProc p { wakes (s.proc p) with killed := true })
end Kernel
end Proc
end Xv6
