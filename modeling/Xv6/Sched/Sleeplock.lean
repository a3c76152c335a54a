import Xv6.Sched.Kernel

namespace Xv6.Sleeplock
open Function (update)

inductive Stage where
  | acquire
  | state
  | sched
  | release
  deriving DecidableEq

inductive Pc (P : Type) where
  | out
  | acquire
  | test
  | sleepAcquire
  | sleepRelease
  | sleepChan
  | sleepState
  | sched
  | sleepTidy
  | sleepUnlock
  | sleepReacquire
  | setLocked
  | setPid
  | release
  | held
  | releaseAcquire
  | clearLocked
  | clearPid
  | wakeLoop (rest : List P)
  | wakeTest (q : P) (rest : List P)
  | wakeSet (q : P) (rest : List P)
  | wakeRelease (q : P) (rest : List P)
  | holdingAcquire (k : Pc P)
  | holdingTest (k : Pc P)
  | holdingRelease (r : Bool) (k : Pc P)
  | yield (st : Stage) (k : Pc P)
  deriving DecidableEq

inductive Holder (P : Type) where
  | proc (p : P)
  | other
  deriving DecidableEq

variable {P : Type}

structure State (P : Type) where
  holder : Option P
  locked : Bool
  pid : Nat
  plock : P → Option (Holder P)
  state : P → ProcState
  chan : P → Bool
  pc : P → Pc P
  on : P → Bool

inductive Instr (P : Type) where
  | goto (k : Pc P)
  | acquire (k : Pc P)
  | release (k : Pc P)
  | lock (q : P) (k : Pc P)
  | unlock (q : P) (k : Pc P)
  | locked (b : Bool) (k : Pc P)
  | pid (v : Nat) (k : Pc P)
  | chan (b : Bool) (k : Pc P)
  | state (q : P) (v : ProcState) (k : Pc P)
  | swtch (k : Pc P)

structure Table (P : Type) where
  procs : List P
  mem : ∀ p, p ∈ procs
  pid : P → Nat

section Machine
variable [DecidableEq P] (T : Table P)

def State.code (s : State P) (p : P) : Pc P → Instr P
  | .out => .goto .acquire
  | .acquire => .acquire .test
  | .test => if s.locked then .goto .sleepAcquire else .goto .setLocked
  | .setLocked => .locked true .setPid
  | .setPid => .pid (T.pid p) .release
  | .release => .release .held
  | .sleepAcquire => .lock p .sleepRelease
  | .sleepRelease => .release .sleepChan
  | .sleepChan => .chan true .sleepState
  | .sleepState => .state p .sleeping .sched
  | .sched => .swtch .sleepTidy
  | .sleepTidy => .chan false .sleepUnlock
  | .sleepUnlock => .unlock p .sleepReacquire
  | .sleepReacquire => .acquire .test
  | .held => .goto .releaseAcquire
  | .releaseAcquire => .acquire .clearLocked
  | .clearLocked => .locked false .clearPid
  | .clearPid => .pid 0 (.wakeLoop T.procs)
  | .wakeLoop [] => .release .out
  | .wakeLoop (q :: rest) => if q = p then .goto (.wakeLoop rest) else .lock q (.wakeTest q rest)
  | .wakeTest q rest =>
    if s.state q = .sleeping ∧ s.chan q then .goto (.wakeSet q rest)
    else .goto (.wakeRelease q rest)
  | .wakeSet q rest => .state q .runnable (.wakeRelease q rest)
  | .wakeRelease q rest => .unlock q (.wakeLoop rest)
  | .holdingAcquire k => .acquire (.holdingTest k)
  | .holdingTest k => .goto (.holdingRelease (s.locked && s.pid == T.pid p) k)
  | .holdingRelease _ k => .release k
  | .yield .acquire k => .lock p (.yield .state k)
  | .yield .state k => .state p .runnable (.yield .sched k)
  | .yield .sched k => .swtch (.yield .release k)
  | .yield .release k => .unlock p k

namespace State
@[simps] def setPc (s : State P) (p : P) (k : Pc P) : State P :=
  { s with pc := update s.pc p k }

def exec (s : State P) (p : P) : Instr P → Option (State P)
  | .goto k => some (s.setPc p k)
  | .acquire k => if s.holder = none then some ({ s with holder := some p }.setPc p k) else none
  | .release k => if s.holder = some p then some ({ s with holder := none }.setPc p k) else none
  | .lock q k =>
    if s.plock q = none then
      some ({ s with plock := update s.plock q (some (.proc p)) }.setPc p k)
    else none
  | .unlock q k =>
    if s.plock q = some (.proc p) then
      some ({ s with plock := update s.plock q none }.setPc p k)
    else none
  | .locked b k => some ({ s with locked := b }.setPc p k)
  | .pid v k => some ({ s with pid := v }.setPc p k)
  | .chan b k => some ({ s with chan := update s.chan p b }.setPc p k)
  | .state q v k => some ({ s with state := update s.state q v }.setPc p k)
  | .swtch k =>
    some ({ s with
      on := update s.on p false
      plock := update s.plock p (some .other) }.setPc p k)
end State

def Pc.open : Pc P → Bool
  | .out | .acquire | .sleepReacquire | .held | .releaseAcquire | .holdingAcquire _ => true
  | _ => false

inductive Label (P : Type) where
  | step (p : P)
  | holding (p : P)
  | interrupt (p : P)
  | lock (q : P)
  | kill (q : P)
  | run (q : P)
  | unlock (q : P)

def next (s : State P) : Label P → Option (State P)
  | .step p => if s.on p then s.exec p (s.code T p (s.pc p)) else none
  | .holding p =>
    if s.on p ∧ (s.pc p = .out ∨ s.pc p = .held) then
      some (s.setPc p (.holdingAcquire (s.pc p)))
    else none
  | .interrupt p =>
    if s.on p ∧ (s.pc p).open then some (s.setPc p (.yield .acquire (s.pc p)))
    else none
  | .lock q =>
    if s.plock q = none then
      some { s with plock := update s.plock q (some .other) }
    else none
  | .kill q =>
    if s.plock q = some .other ∧ s.state q = .sleeping then
      some { s with state := update s.state q .runnable }
    else none
  | .run q =>
    if s.plock q = some .other ∧ s.state q = .runnable then
      some { s with
        state := update s.state q .running
        on := update s.on q true
        plock := update s.plock q (some (.proc q)) }
    else none
  | .unlock q =>
    if s.plock q = some .other then
      some { s with plock := update s.plock q none }
    else none

def init : State P :=
  { holder := none
    locked := false
    pid := 0
    plock := fun _ => none
    state := fun _ => .runnable
    chan := fun _ => false
    pc := fun _ => .yield .release .out
    on := fun _ => false }
end Machine
end Xv6.Sleeplock
