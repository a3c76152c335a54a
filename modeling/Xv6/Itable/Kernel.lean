import Xv6.Fs.Layout
import Xv6.Lib.Machine

namespace Xv6.Itable
open Fs Function

inductive FileType where
  | dir
  | file
  | device
  deriving DecidableEq

def FileType.code : FileType → Nat
  | dir => 1
  | file => 2
  | device => 3

inductive Panic where
  | igetNoInodes
  | ilock
  | ilockNoType
  | iunlock
  | schedLocks
  deriving DecidableEq

/-- Where a process is in `ialloc`, `ilock` or `iput`. -/
inductive Pc where
  | idle
  | allocScan (dev : Nat) (type : FileType) (inum : Nat)
  | allocGet (dev inum : Nat)
  | load (k : Fin ninode)
  | trunc (k : Fin ninode)
  | clear (k : Fin ninode)
  | release (k : Fin ninode)
  | drop (k : Fin ninode)
  deriving DecidableEq

structure Entry (P : Type) where
  dev : Nat
  inum : Nat
  ref : Nat
  valid : Bool
  copy : Dinode
  lock : Option P
  /-- Ghost: were fields changed since `iupdate`? -/
  dirty : Bool

def Entry.id {P : Type} (e : Entry P) : Nat × Nat := (e.dev, e.inum)

/-- The inode table, the disk and the processes. -/
structure State (P : Type) where
  disk : Nat × Nat → Dinode
  entry : Fin ninode → Entry P
  pc : P → Pc
  panicked : Option Panic
  /-- Ghost: the references that a process has. -/
  held : P → Fin ninode → Nat
  /-- Ghost: how often an inode was allocated. -/
  allocs : Nat × Nat → Nat
  truncs : Nat × Nat → Nat
  frees : Nat × Nat → Nat

inductive Act (P : Type) where
  | iget (p : P) (dev inum : Nat)
  | ialloc (p : P) (dev : Nat) (type : FileType)
  | idup (p : P) (k : Fin ninode)
  | pass (p q : P) (k : Fin ninode)
  | ilock (p : P) (k : Fin ninode)
  | change (p : P) (k : Fin ninode) (f : Dinode → Dinode)
  | iupdate (p : P) (k : Fin ninode)
  | iunlock (p : P) (k : Fin ninode)
  | iput (p : P) (k : Fin ninode)
  | step (p : P)

namespace State
variable {P : Type} [DecidableEq P]

def start (disk : Nat × Nat → Dinode) : State P :=
  { disk := disk
    entry := fun _ =>
      { dev := 0, inum := 0, ref := 0, valid := false, copy := .zero, lock := none, dirty := false }
    pc := fun _ => .idle
    panicked := none
    held := fun _ _ => 0
    allocs := fun _ => 0
    truncs := fun _ => 0
    frees := fun _ => 0 }

@[simps]
def setEntry (s : State P) (k : Fin ninode) (e : Entry P) : State P :=
  { s with entry := update s.entry k e }

@[simps]
def setPc (s : State P) (p : P) (c : Pc) : State P := { s with pc := update s.pc p c }

@[simps]
def setHeld (s : State P) (p : P) (k : Fin ninode) (n : Nat) : State P :=
  { s with held := update s.held p (update (s.held p) k n) }

@[simps]
def setDisk (s : State P) (i : Nat × Nat) (d : Dinode) : State P :=
  { s with disk := update s.disk i d }

@[simps]
def panic (s : State P) (e : Panic) : State P := { s with panicked := some e }

def take (s : State P) (p : P) (k : Fin ninode) (e : Entry P) : State P :=
  (s.setEntry k e).setHeld p k (s.held p k + 1)

def iget (s : State P) (p : P) (dev inum : Nat) : State P :=
  match (List.finRange ninode).find? fun k =>
      0 < (s.entry k).ref ∧ (s.entry k).dev = dev ∧ (s.entry k).inum = inum with
  | some k => s.take p k { s.entry k with ref := (s.entry k).ref + 1 }
  | none =>
    match (List.finRange ninode).find? fun k => (s.entry k).ref = 0 with
    | none => s.panic .igetNoInodes
    | some k => s.take p k { s.entry k with dev := dev, inum := inum, ref := 1, valid := false }

def idup (s : State P) (p : P) (k : Fin ninode) : State P :=
  s.take p k { s.entry k with ref := (s.entry k).ref + 1 }

def allocScan (ninodes : Nat) (s : State P) (p : P) (dev : Nat) (type : FileType) (inum : Nat) :
    State P :=
  if inum < ninodes then
    if (s.disk (dev, inum)).type = 0 then
      { (s.setDisk (dev, inum) { Dinode.zero with type := type.code }).setPc p
          (.allocGet dev inum) with
        allocs := update s.allocs (dev, inum) (s.allocs (dev, inum) + 1) }
    else s.setPc p (.allocScan dev type (inum + 1))
  else s.setPc p .idle

section
variable (s : State P)

def ilock (p : P) (k : Fin ninode) : State P :=
  if (s.entry k).ref < 1 then s.panic .ilock
  else (s.setEntry k { s.entry k with lock := some p }).setPc p (.load k)

def load (p : P) (k : Fin ninode) : State P :=
  if (s.entry k).valid then s.setPc p .idle
  else if (s.disk (s.entry k).id).type = 0 then s.panic .ilockNoType
  else (s.setEntry k { s.entry k with copy := s.disk (s.entry k).id, valid := true }).setPc p .idle

def iupdate (k : Fin ninode) : State P :=
  (s.setDisk (s.entry k).id (s.entry k).copy).setEntry k { s.entry k with dirty := false }

def iunlock (k : Fin ninode) : State P :=
  if (s.entry k).ref < 1 then s.panic .iunlock
  else s.setEntry k { s.entry k with lock := none }

def mustFree (k : Fin ninode) : Prop :=
  (s.entry k).ref = 1 ∧ (s.entry k).valid ∧ (s.entry k).copy.nlink = 0
end

instance (s : State P) (k : Fin ninode) : Decidable (s.mustFree k) :=
  inferInstanceAs (Decidable (_ ∧ _))

def iput (s : State P) (p : P) (k : Fin ninode) : State P :=
  if s.mustFree k then
    if (s.entry k).lock = none then
      ((s.setEntry k { s.entry k with lock := some p }).setHeld p k (s.held p k - 1)).setPc p
        (.trunc k)
    else s.panic .schedLocks
  else
    (s.setEntry k { s.entry k with ref := (s.entry k).ref - 1 }).setHeld p k (s.held p k - 1)

def store (s : State P) (k : Fin ninode) (x : Dinode) : State P :=
  (s.setDisk (s.entry k).id x).setEntry k { s.entry k with copy := x }

def step (ninodes : Nat) (s : State P) (p : P) : Option (State P) :=
  match s.pc p with
  | .idle => none
  | .allocScan dev type inum => some (s.allocScan ninodes p dev type inum)
  | .allocGet dev inum => some ((s.iget p dev inum).setPc p .idle)
  | .load k => some (s.load p k)
  | .trunc k =>
    some { (s.store k { (s.entry k).copy with size := 0, addrs := fun _ => 0 }).setPc p
        (.clear k) with
      truncs := update s.truncs (s.entry k).id (s.truncs (s.entry k).id + 1) }
  | .clear k =>
    some { (s.store k { (s.entry k).copy with type := 0 }).setPc p (.release k) with
      frees := update s.frees (s.entry k).id (s.frees (s.entry k).id + 1) }
  | .release k =>
    some ((s.setEntry k { s.entry k with valid := false, lock := none }).setPc p (.drop k))
  | .drop k => some ((s.setEntry k { s.entry k with ref := (s.entry k).ref - 1 }).setPc p .idle)

def owns (s : State P) (p : P) (k : Fin ninode) : Prop :=
  s.pc p = .idle ∧ (s.entry k).lock = some p

def refers (s : State P) (p : P) (k : Fin ninode) : Prop :=
  s.pc p = .idle ∧ 0 < s.held p k ∧ (s.entry k).lock ≠ some p

instance (s : State P) (p : P) (k : Fin ninode) : Decidable (s.owns p k) :=
  inferInstanceAs (Decidable (_ ∧ _))

instance (s : State P) (p : P) (k : Fin ninode) : Decidable (s.refers p k) :=
  inferInstanceAs (Decidable (_ ∧ _))

def next (ninodes : Nat) (s : State P) (a : Act P) : Option (State P) :=
  if s.panicked.isSome then none
  else match a with
  | .iget p dev inum =>
    if s.pc p = .idle ∧ 0 < (s.disk (dev, inum)).nlink then some (s.iget p dev inum) else none
  | .ialloc p dev type => if s.pc p = .idle then some (s.setPc p (.allocScan dev type 1)) else none
  | .idup p k => if s.pc p = .idle ∧ 0 < s.held p k then some (s.idup p k) else none
  | .pass p q k =>
    if s.refers p k then
      let t := s.setHeld q k (s.held q k + 1)
      some (t.setHeld p k (t.held p k - 1))
    else none
  | .ilock p k => if s.refers p k ∧ (s.entry k).lock = none then some (s.ilock p k) else none
  | .change p k f =>
    if s.owns p k then
      some (s.setEntry k { s.entry k with copy := f (s.entry k).copy, dirty := true })
    else none
  | .iupdate p k => if s.owns p k then some (s.iupdate k) else none
  | .iunlock p k => if s.owns p k ∧ (s.entry k).dirty = false then some (s.iunlock k) else none
  | .iput p k => if s.refers p k then some (s.iput p k) else none
  | .step p => s.step ninodes p
end State
end Xv6.Itable
