import Xv6.Lib.Machine
import Xv6.Log.Phases

namespace Xv6.Log
/-- Where a process is in the log's interface. -/
inductive OpPc where
  | idle
  | beginOp
  | asleep
  | inOp (op : Nat)
  | commit (pc : CommitPc)
  | endCommit
  deriving DecidableEq

def OpPc.inEndOp : Option CommitPc → OpPc
  | some pc => .commit pc
  | none => .endCommit

inductive Panic where
  | logCommitting
  | tooBig
  | outsideTrans
  deriving DecidableEq

structure OpWrite where
  op : Nat
  block : Nat
  data : Block

def OpWrite.toWrite (w : OpWrite) : Nat × Block := (w.block, w.data)

/-- `struct log`, the disk and the processes. -/
structure Kernel (P : Type) where
  store : Store
  outstanding : Int
  committing : Bool
  pc : P → OpPc
  panicked : Option Panic
  recovering : Option RecoverPc
  nextOp : Nat
  /-- Ghost: every `log_write`, in order. -/
  writes : List OpWrite
  /-- Ghost: the operations since the last commit. -/
  group : List Nat
  /-- Ghost: the operations that called `end_op`. -/
  ended : List Nat
  /-- Ghost: the operations whose header is on the disk. -/
  durable : List Nat

inductive Act (P : Type) where
  | beginOp (p : P)
  | beginTry (p : P)
  | logWrite (p : P) (b : Nat) (v : Block)
  | endOp (p : P)
  | commitWrite (p : P)
  | commitEnd (p : P)
  | crash
  | recoverWrite

namespace Kernel
variable {P : Type} [DecidableEq P] {start : Nat} {p : P} {s : Kernel P}

def boot (P : Type) (d : Disk) : Kernel P :=
  { store := { disk := d, lh := [], cache := fun _ => none }
    outstanding := 0
    committing := false
    pc := fun _ => .idle
    panicked := none
    recovering := none
    nextOp := 0
    writes := []
    group := []
    ended := []
    durable := [] }

section
variable (s : Kernel P)

def setPc (p : P) (c : OpPc) : Kernel P :=
  { s with pc := Function.update s.pc p c }

def wakeup : Kernel P :=
  { s with pc := fun p => if s.pc p = .asleep then .beginOp else s.pc p }

def mustWait : Bool :=
  s.committing || decide (s.store.lh.length + (s.outstanding + 1) * maxOpBlocks > logBlocks)

abbrev begun (p : P) : Kernel P :=
  { s.setPc p (.inOp s.nextOp) with
    outstanding := s.outstanding + 1
    nextOp := s.nextOp + 1
    group := s.group ++ [s.nextOp] }

def beginTry (p : P) : Kernel P := if s.mustWait then s.setPc p .asleep else s.begun p

def logWrite (op b : Nat) (v : Block) : Kernel P :=
  if s.store.lh.length ≥ logBlocks then { s with panicked := some .tooBig }
  else if s.outstanding < 1 then { s with panicked := some .outsideTrans }
  else
    { s with
      store := s.store.logWrite b v
      writes := s.writes ++ [{ op := op, block := b, data := v }] }

def endOp (p : P) (op : Nat) : Kernel P :=
  let s := { s with outstanding := s.outstanding - 1, ended := s.ended ++ [op] }
  if s.committing then { s with panicked := some .logCommitting }
  else if s.outstanding = 0 then
    { s.setPc p (.inEndOp (commitEntry s.store)) with committing := true }
  else s.wakeup.setPc p .idle
end

def commitWrite (start : Nat) (s : Kernel P) (p : P) (pc : CommitPc) : Kernel P :=
  let r := commitStep start s.store pc
  { s.setPc p (.inEndOp r.2) with
    store := r.1
    durable := if pc = .writeHead then s.durable ++ s.group else s.durable }

def commitEnd (s : Kernel P) (p : P) : Kernel P :=
  { s.wakeup.setPc p .idle with committing := false, group := [] }

def crash (start : Nat) (s : Kernel P) : Kernel P :=
  let r := recoverEntry start s.store.crash
  { s with
    store := r.1
    outstanding := 0
    committing := false
    pc := fun _ => .idle
    panicked := none
    recovering := some r.2
    group := [] }

def up (s : Kernel P) : Bool := s.recovering.isNone && s.panicked.isNone

/-- One critical section or disk write, or a crash. -/
def next (start : Nat) (s : Kernel P) : Act P → Option (Kernel P)
  | .beginOp p => if s.up ∧ s.pc p = .idle then some (s.setPc p .beginOp) else none
  | .beginTry p => if s.up ∧ s.pc p = .beginOp then some (s.beginTry p) else none
  | .logWrite p b v =>
    match s.up, s.pc p with
    | true, .inOp op => some (s.logWrite op b v)
    | _, _ => none
  | .endOp p =>
    match s.up, s.pc p with
    | true, .inOp op => some (s.endOp p op)
    | _, _ => none
  | .commitWrite p =>
    match s.up, s.pc p with
    | true, .commit pc => some (s.commitWrite start p pc)
    | _, _ => none
  | .commitEnd p => if s.up ∧ s.pc p = .endCommit then some (s.commitEnd p) else none
  | .crash => some (s.crash start)
  | .recoverWrite =>
    match s.recovering with
    | some pc =>
      let r := recoverStep start s.store pc
      some { s with store := r.1, recovering := r.2 }
    | none => none

inductive Step (start : Nat) (s : Kernel P) : Act P → Kernel P → Prop
  | beginOp (p : P) (hup : s.up) (hp : s.pc p = .idle) :
    Step start s (.beginOp p) (s.setPc p .beginOp)
  | beginWait (p : P) (hup : s.up) (hp : s.pc p = .beginOp) (hw : s.mustWait) :
    Step start s (.beginTry p) (s.setPc p .asleep)
  | beginAdmit (p : P) (hup : s.up) (hp : s.pc p = .beginOp) (hw : s.mustWait = false) :
    Step start s (.beginTry p)
      { s.setPc p (.inOp s.nextOp) with
        outstanding := s.outstanding + 1
        nextOp := s.nextOp + 1
        group := s.group ++ [s.nextOp] }
  | logTooBig (p : P) (op b : Nat) (v : Block) (hup : s.up) (hp : s.pc p = .inOp op)
      (hn : logBlocks ≤ s.store.lh.length) :
    Step start s (.logWrite p b v) { s with panicked := some .tooBig }
  | logOutside (p : P) (op b : Nat) (v : Block) (hup : s.up) (hp : s.pc p = .inOp op)
      (hn : s.store.lh.length < logBlocks) (ho : s.outstanding < 1) :
    Step start s (.logWrite p b v) { s with panicked := some .outsideTrans }
  | logWrite (p : P) (op b : Nat) (v : Block) (hup : s.up) (hp : s.pc p = .inOp op)
      (hn : s.store.lh.length < logBlocks) (ho : 1 ≤ s.outstanding) :
    Step start s (.logWrite p b v)
      { s with
        store := s.store.logWrite b v
        writes := s.writes ++ [{ op := op, block := b, data := v }] }
  | endPanic (p : P) (op : Nat) (hup : s.up) (hp : s.pc p = .inOp op)
      (hc : s.committing) :
    Step start s (.endOp p)
      { s with
        outstanding := s.outstanding - 1
        ended := s.ended ++ [op]
        panicked := some .logCommitting }
  | endLast (p : P) (op : Nat) (hup : s.up) (hp : s.pc p = .inOp op)
      (hc : s.committing = false) (ho : s.outstanding - 1 = 0) :
    Step start s (.endOp p)
      { s.setPc p (.inEndOp (commitEntry s.store)) with
        outstanding := s.outstanding - 1
        ended := s.ended ++ [op]
        committing := true }
  | endWake (p : P) (op : Nat) (hup : s.up) (hp : s.pc p = .inOp op)
      (hc : s.committing = false) (ho : s.outstanding - 1 ≠ 0) :
    Step start s (.endOp p)
      { s.wakeup.setPc p .idle with
        outstanding := s.outstanding - 1
        ended := s.ended ++ [op] }
  | commitWrite (p : P) (pc : CommitPc) (hup : s.up) (hp : s.pc p = .commit pc) :
    Step start s (.commitWrite p) (s.commitWrite start p pc)
  | commitEnd (p : P) (hup : s.up) (hp : s.pc p = .endCommit) :
    Step start s (.commitEnd p) (s.commitEnd p)
  | crash : Step start s .crash (s.crash start)
  | recoverWrite (pc : RecoverPc) (hpc : s.recovering = some pc) :
    Step start s .recoverWrite
      { s with
        store := (recoverStep start s.store pc).1
        recovering := (recoverStep start s.store pc).2 }

lemma step_logWrite {op b : Nat} {v : Block} (hup : s.up) (hp : s.pc p = .inOp op) :
    Step start s (.logWrite p b v) (s.logWrite op b v) := by
  rw [Kernel.logWrite]
  split
  · exact .logTooBig p op b v hup hp ‹_›
  split
  · exact .logOutside p op b v hup hp (by omega) ‹_›
  exact .logWrite p op b v hup hp (by omega) (by omega)

lemma step_endOp {op : Nat}
    (hup : s.up) (hp : s.pc p = .inOp op) : Step start s (.endOp p) (s.endOp p op) := by
  simp only [Kernel.endOp]
  split
  · exact .endPanic p op hup hp ‹_›
  have hc : s.committing = false := by simpa using ‹¬s.committing›
  split
  · exact .endLast p op hup hp hc ‹_›
  exact .endWake p op hup hp hc ‹_›

lemma step_of_next {s' : Kernel P} {a : Act P}
    (h : s.next start a = some s') : Step start s a s' := by
  cases a with
  | beginOp p =>
    simp only [next] at h
    split at h <;> cases h
    obtain ⟨hup, hp⟩ := ‹_ ∧ _›
    exact .beginOp p hup hp
  | beginTry p =>
    simp only [next] at h
    split at h <;> cases h
    obtain ⟨hup, hp⟩ := ‹_ ∧ _›
    rw [Kernel.beginTry]
    split
    · exact .beginWait p hup hp ‹_›
    exact .beginAdmit p hup hp (by simpa using ‹¬s.mustWait›)
  | logWrite p b v =>
    simp only [next] at h
    split at h <;> cases h
    exact step_logWrite ‹_› ‹_›
  | endOp p =>
    simp only [next] at h
    split at h <;> cases h
    exact step_endOp ‹_› ‹_›
  | commitWrite p =>
    simp only [next] at h
    split at h <;> cases h
    exact .commitWrite p _ ‹_› ‹_›
  | commitEnd p =>
    simp only [next] at h
    split at h <;> cases h
    obtain ⟨hup, hp⟩ := ‹_ ∧ _›
    exact .commitEnd p hup hp
  | crash => cases h; exact .crash
  | recoverWrite =>
    simp only [next] at h
    split at h <;> cases h
    exact .recoverWrite _ ‹_›
end Kernel
end Xv6.Log
