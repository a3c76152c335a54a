import Xv6.Proc.Kernel

namespace Xv6.Sched
open Function (update)
variable {m n : Nat}

inductive Chan (n : Nat) where
  | proc (p : Fin n)
  | other (i : Nat)
  deriving DecidableEq

inductive Lock (n : Nat) where
  | proc (p : Fin n)
  | wait
  | other (i : Nat)
  deriving DecidableEq

def Lock.cond : Lock n → Bool
  | .proc _ => false
  | _ => true

/-- The scheduler of a CPU, or a process. -/
inductive Thread (m n : Nat) where
  | sched (c : Fin m)
  | proc (p : Fin n)
  deriving DecidableEq

/-- Program points of a thread. -/
inductive Pc (n : Nat) where
  | home
  | intr (k : Pc n)
  | sleepAcquire (ch : Chan n) (lk : Lock n) (k : Pc n)
  | sleepRelease (ch : Chan n) (lk : Lock n) (k : Pc n)
  | sleepChan (ch : Chan n) (lk : Lock n) (k : Pc n)
  | sleepState (ch : Chan n) (lk : Lock n) (k : Pc n)
  | sched (r : Pc n)
  | swtch (r : Pc n)
  | sleepTidy (ch : Chan n) (lk : Lock n) (k : Pc n)
  | sleepUnlock (lk : Lock n) (k : Pc n)
  | sleepReacquire (lk : Lock n) (k : Pc n)
  | wakeLoop (ch : Chan n) (rest : List (Fin n)) (k : Pc n)
  | wakeTest (ch : Chan n) (q : Fin n) (rest : List (Fin n)) (k : Pc n)
  | wakeSet (ch : Chan n) (q : Fin n) (rest : List (Fin n)) (k : Pc n)
  | wakeRelease (ch : Chan n) (q : Fin n) (rest : List (Fin n)) (k : Pc n)
  | yieldAcquire (k : Pc n)
  | yieldState (k : Pc n)
  | yieldRelease (k : Pc n)
  | forkret
  | exitScan (rest : List (Fin n))
  | exitInit (rest : List (Fin n))
  | exitLock
  | exitState
  | exitUnlock
  | zombie
  | waitScan (rest : List (Fin n)) (havekids : Bool)
  | waitTest (q : Fin n) (rest : List (Fin n))
  | waitFree (q : Fin n)
  | waitRelease (q : Fin n)
  | waitKilled
  | waitKilledRelease
  | waitSleep
  | waitDone
  | forkScan (rest : List (Fin n))
  | forkTest (q : Fin n) (rest : List (Fin n))
  | forkUsed (q : Fin n)
  | forkContext (q : Fin n)
  | forkFree (q : Fin n)
  | forkFail (q : Fin n)
  | forkRelease (q : Fin n)
  | forkWait (q : Fin n)
  | forkParent (q : Fin n)
  | forkUnwait (q : Fin n)
  | forkLock (q : Fin n)
  | forkRun (q : Fin n)
  | forkUnlock (q : Fin n)
  | scanLoop (rest : List (Fin n))
  | scanTest (q : Fin n) (rest : List (Fin n))
  | scanRun (q : Fin n) (rest : List (Fin n))
  | scanProc (q : Fin n) (rest : List (Fin n))
  | scanSwtch (q : Fin n) (rest : List (Fin n))
  | scanBack (q : Fin n) (rest : List (Fin n))
  | scanDone (q : Fin n) (rest : List (Fin n))
  | scanRelease (q : Fin n) (rest : List (Fin n))
  deriving DecidableEq

/-- CPUs, locks, threads and the process table. -/
structure State (m n : Nat) where
  holder : Lock n → Option (Fin m)
  held : Fin m → List (Lock n)
  proc : Fin m → Option (Fin n)
  /-- The thread that a CPU executes. -/
  exec : Fin m → Thread m n
  pc : Thread m n → Pc n
  state : Fin n → ProcState
  chan : Fin n → Option (Chan n)
  parent : Fin n → Option (Fin n)
  /-- Ghost: the calls of `sleep` so far. -/
  sleeps : Fin n → Nat

namespace State
section
variable (s : State m n)

@[simps] def setPc (t : Thread m n) (k : Pc n) : State m n :=
  { s with pc := update s.pc t k }

@[simps] def acquire (c : Fin m) (l : Lock n) : State m n :=
  { s with
    holder := update s.holder l (some c)
    held := update s.held c (l :: s.held c) }

@[simps] def release (c : Fin m) (l : Lock n) : State m n :=
  { s with
    holder := update s.holder l none
    held := update s.held c ((s.held c).erase l) }

@[simps] def setState (q : Fin n) (v : ProcState) : State m n :=
  { s with state := update s.state q v }

@[simps] def setChan (q : Fin n) (v : Option (Chan n)) : State m n :=
  { s with chan := update s.chan q v }

@[simps] def setParent (q : Fin n) (v : Option (Fin n)) : State m n :=
  { s with parent := update s.parent q v }

@[simps] def setProc (c : Fin m) (v : Option (Fin n)) : State m n :=
  { s with proc := update s.proc c v }

@[simps] def setExec (c : Fin m) (t : Thread m n) : State m n :=
  { s with exec := update s.exec c t }

def freeproc (q : Fin n) : State m n :=
  ((s.setParent q none).setChan q none).setState q .unused

@[simps] def countSleep (p : Fin n) : State m n :=
  { s with sleeps := update s.sleeps p (s.sleeps p + 1) }
end
end State

inductive Instr (n : Nat) where
  | goto (k : Pc n)
  | acquire (l : Lock n) (k : Pc n)
  | release (l : Lock n) (k : Pc n)
  | state (q : Fin n) (v : ProcState) (k : Pc n)
  | chan (q : Fin n) (v : Option (Chan n)) (k : Pc n)
  | parent (q : Fin n) (v : Option (Fin n)) (k : Pc n)
  | free (q : Fin n) (k : Pc n)
  | context (q : Fin n) (k : Pc n)
  | sleep (p : Fin n) (k : Pc n)
  | proc (v : Option (Fin n)) (k : Pc n)
  | swtchProc (q : Fin n) (k : Pc n)
  | swtchSched (k : Pc n)

def Instr.target : Instr n → Pc n
  | .goto k | .acquire _ k | .release _ k | .state _ _ k | .chan _ _ k | .parent _ _ k
  | .free _ k | .context _ k | .sleep _ k | .proc _ k | .swtchProc _ k | .swtchSched k => k

inductive Op (n : Nat) where
  | go
  | fail
  | interrupt
  | iret
  | acquire (i : Nat)
  | release (i : Nat)
  | wakeup (ch : Chan n)
  | sleep (ch : Chan n) (i : Nat)
  | yield
  | exit
  | wait
  | fork
  | scan

structure Label (m n : Nat) where
  cpu : Fin m
  op : Op n

namespace State
def free (k : Pc n) : Op n → Option (Instr n)
  | .acquire i => some (.acquire (.other i) k)
  | .release i => some (.release (.other i) k)
  | .wakeup ch => some (.goto (.wakeLoop ch (List.finRange n) k))
  | _ => none

section
variable (s : State m n) (c : Fin m)

def sleep (p : Fin n) (ch : Chan n) (lk : Lock n) (k : Pc n) : Option (Instr n) :=
  if s.holder lk = some c then some (.sleep p (.sleepAcquire ch lk k)) else none

def call (initproc p : Fin n) : Op n → Option (Instr n)
  | .sleep ch i => s.sleep c p ch (.other i) .home
  | .exit => if p = initproc then none else some (.acquire .wait (.exitScan (List.finRange n)))
  | .wait => some (.acquire .wait (.waitScan (List.finRange n) false))
  | .fork => some (.goto (.forkScan (List.finRange n)))
  | x => free .home x

def procCode (initproc p : Fin n) (x : Op n) : Pc n → Option (Instr n)
  | .home => s.call c initproc p x
  | .intr k =>
    match x with
    | .iret => if s.held c = [] then some (.goto k) else none
    | .yield => if s.held c = [] then some (.goto (.yieldAcquire (.intr k))) else none
    | x => free (.intr k) x
  | .sleepAcquire ch lk k => some (.acquire (.proc p) (.sleepRelease ch lk k))
  | .sleepRelease ch lk k => some (.release lk (.sleepChan ch lk k))
  | .sleepChan ch lk k => some (.chan p (some ch) (.sleepState ch lk k))
  | .sleepState ch lk k => some (.state p .sleeping (.sched (.sleepTidy ch lk k)))
  | .sched r =>
    if s.holder (.proc p) = some c ∧ (s.held c).length = 1 ∧ s.state p ≠ .running then
      some (.goto (.swtch r))
    else none
  | .swtch r => some (.swtchSched r)
  | .sleepTidy _ lk k => some (.chan p none (.sleepUnlock lk k))
  | .sleepUnlock lk k => some (.release (.proc p) (.sleepReacquire lk k))
  | .sleepReacquire lk k => some (.acquire lk k)
  | .yieldAcquire k => some (.acquire (.proc p) (.yieldState k))
  | .yieldState k => some (.state p .runnable (.sched (.yieldRelease k)))
  | .yieldRelease k => some (.release (.proc p) k)
  | .forkret => some (.release (.proc p) .home)
  | .exitScan [] =>
    match s.parent p with
    | some q => some (.goto (.wakeLoop (.proc q) (List.finRange n) .exitLock))
    | none => some (.goto .exitLock)
  | .exitScan (q :: rest) =>
    if s.parent q = some p then some (.parent q (some initproc) (.exitInit rest))
    else some (.goto (.exitScan rest))
  | .exitInit rest => some (.goto (.wakeLoop (.proc initproc) (List.finRange n) (.exitScan rest)))
  | .exitLock => some (.acquire (.proc p) .exitState)
  | .exitState => some (.state p .zombie .exitUnlock)
  | .exitUnlock => some (.release .wait (.sched .zombie))
  | .waitScan [] havekids => if havekids then some (.goto .waitKilled) else some (.goto .waitDone)
  | .waitScan (q :: rest) havekids =>
    if s.parent q = some p then some (.acquire (.proc q) (.waitTest q rest))
    else some (.goto (.waitScan rest havekids))
  | .waitTest q rest =>
    if s.state q = .zombie then
      match x with
      | .fail => some (.goto (.waitRelease q))
      | _ => some (.goto (.waitFree q))
    else some (.release (.proc q) (.waitScan rest true))
  | .waitFree q => some (.free q (.waitRelease q))
  | .waitRelease q => some (.release (.proc q) .waitDone)
  | .waitKilled => some (.acquire (.proc p) .waitKilledRelease)
  | .waitKilledRelease =>
    match x with
    | .fail => some (.release (.proc p) .waitDone)
    | _ => some (.release (.proc p) .waitSleep)
  | .waitSleep => s.sleep c p (.proc p) .wait (.waitScan (List.finRange n) false)
  | .waitDone => some (.release .wait .home)
  | .forkScan [] => some (.goto .home)
  | .forkScan (q :: rest) => some (.acquire (.proc q) (.forkTest q rest))
  | .forkTest q rest =>
    if s.state q = .unused then some (.goto (.forkUsed q))
    else some (.release (.proc q) (.forkScan rest))
  | .forkUsed q => some (.state q .used (.forkContext q))
  | .forkContext q =>
    match x with
    | .fail => some (.goto (.forkFree q))
    | _ => some (.context q (.forkRelease q))
  | .forkFree q => some (.free q (.forkFail q))
  | .forkFail q => some (.release (.proc q) .home)
  | .forkRelease q =>
    match x with
    | .fail => some (.goto (.forkFree q))
    | _ => some (.release (.proc q) (.forkWait q))
  | .forkWait q => some (.acquire .wait (.forkParent q))
  | .forkParent q => some (.parent q (some p) (.forkUnwait q))
  | .forkUnwait q => some (.release .wait (.forkLock q))
  | .forkLock q => some (.acquire (.proc q) (.forkRun q))
  | .forkRun q => some (.state q .runnable (.forkUnlock q))
  | .forkUnlock q => some (.release (.proc q) .home)
  | _ => none

def schedCode (x : Op n) : Pc n → Option (Instr n)
  | .home =>
    match x with
    | .scan => if s.held c = [] then some (.goto (.scanLoop (List.finRange n))) else none
    | x => free .home x
  | .intr k =>
    match x with
    | .iret => if s.held c = [] then some (.goto k) else none
    | x => free (.intr k) x
  | .scanLoop [] => some (.goto .home)
  | .scanLoop (q :: rest) => some (.acquire (.proc q) (.scanTest q rest))
  | .scanTest q rest =>
    if s.state q = .runnable then some (.goto (.scanRun q rest))
    else some (.goto (.scanRelease q rest))
  | .scanRun q rest => some (.state q .running (.scanProc q rest))
  | .scanProc q rest => some (.proc (some q) (.scanSwtch q rest))
  | .scanSwtch q rest => some (.swtchProc q (.scanBack q rest))
  | .scanBack q rest => some (.proc none (.scanDone q rest))
  | .scanDone q rest | .scanRelease q rest => some (.release (.proc q) (.scanLoop rest))
  | _ => none

def wakeCode : Pc n → Option (Instr n)
  | .wakeLoop _ [] k => some (.goto k)
  | .wakeLoop ch (q :: rest) k =>
    if s.proc c = some q then some (.goto (.wakeLoop ch rest k))
    else some (.acquire (.proc q) (.wakeTest ch q rest k))
  | .wakeTest ch q rest k =>
    if s.state q = .sleeping ∧ s.chan q = some ch then some (.goto (.wakeSet ch q rest k))
    else some (.goto (.wakeRelease ch q rest k))
  | .wakeSet ch q rest k => some (.state q .runnable (.wakeRelease ch q rest k))
  | .wakeRelease ch q rest k => some (.release (.proc q) (.wakeLoop ch rest k))
  | _ => none

def code (initproc : Fin n) (x : Op n) : Option (Instr n) :=
  match x with
  | .interrupt => if s.held c = [] then some (.goto (.intr (s.pc (s.exec c)))) else none
  | x =>
    (s.wakeCode c (s.pc (s.exec c))).or (match s.exec c with
        | .sched _ => s.schedCode c x (s.pc (s.exec c))
        | .proc p => s.procCode c initproc p x (s.pc (s.exec c)))

def step : Instr n → Option (State m n)
  | .goto k => some (s.setPc (s.exec c) k)
  | .acquire l k => if s.holder l = none then some ((s.acquire c l).setPc (s.exec c) k) else none
  | .release l k => if s.holder l = some c then some ((s.release c l).setPc (s.exec c) k) else none
  | .state q v k => some ((s.setState q v).setPc (s.exec c) k)
  | .chan q v k => some ((s.setChan q v).setPc (s.exec c) k)
  | .parent q v k => some ((s.setParent q v).setPc (s.exec c) k)
  | .free q k => some ((s.freeproc q).setPc (s.exec c) k)
  | .context q k => some ((s.setPc (.proc q) .forkret).setPc (s.exec c) k)
  | .sleep p k => some ((s.countSleep p).setPc (s.exec c) k)
  | .proc v k => some ((s.setProc c v).setPc (s.exec c) k)
  | .swtchProc q k => some ((s.setPc (s.exec c) k).setExec c (.proc q))
  | .swtchSched k => some ((s.setPc (s.exec c) k).setExec c (.sched c))
end
end State

def next (initproc : Fin n) (s : State m n) (a : Label m n) : Option (State m n) :=
  (s.code a.cpu initproc a.op).bind (s.step a.cpu)

def boot (initproc : Fin n) : State m n :=
  { holder := fun _ => none
    held := fun _ => []
    proc := fun _ => none
    exec := .sched
    pc := fun t => if t = .proc initproc then .forkret else .home
    state := fun p => if p = initproc then .runnable else .unused
    chan := fun _ => none
    parent := fun _ => none
    sleeps := fun _ => 0 }
end Xv6.Sched
