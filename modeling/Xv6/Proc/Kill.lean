import Xv6.Proc.Control

namespace Xv6
open Function

def ProcState.dead : ProcState → Bool
  | unused | zombie => true
  | used | sleeping | runnable | running => false

namespace Proc
inductive Call where
  | none
  | look (pid : Int) (i : Nat)
  | returned (r : Int)
  deriving DecidableEq

def Call.looking : Call → Bool
  | look _ _ => true
  | none | returned _ => false

structure Table where
  kernel : Kernel
  ofile : Fin nproc → Fin nofile → Option Nat
  call : Fin nproc → Call

inductive Op where
  | kernel (a : Act)
  | kkill (p : Fin nproc) (pid : Int)
  | look (p : Fin nproc)
  | setkilled (p : Fin nproc)
  | fdalloc (p : Fin nproc) (fd : Fin nofile) (f : Nat)
  | close (p : Fin nproc) (fd : Fin nofile)

namespace Table
def boot : Table :=
  { kernel := .boot, ofile := fun _ _ => none, call := fun _ => .none }

def allocproc (t : Table) (np : Fin nproc) : Option Proc :=
  if (t.kernel.proc np).state = .unused then
    some { t.kernel.proc np with state := .used, pid := t.kernel.nextpid }
  else none

def files (t : Table) : Act → Fin nproc → Fin nofile → Option Nat
  | .step p ok =>
    match t.kernel.pc p with
    | .forkScan i =>
      match Kernel.slot i with
      | none => t.ofile
      | some np =>
        if (t.kernel.proc np).state = .unused ∧ ok then
          update t.ofile np fun fd => (t.ofile p fd).or (t.ofile np fd)
        else t.ofile
    | .exitStart _ => update t.ofile p fun _ => none
    | _ => t.ofile
  | _ => t.ofile

def ready (t : Table) : Act → Bool
  | .syscall p _ | .step p _ | .sleep p _ => !(t.call p).looking
  | .run _ | .yield _ | .wakeup _ => true
  | .kill _ => false

def idle (t : Table) (p : Fin nproc) : Prop :=
  (t.kernel.proc p).state = .running ∧ t.kernel.pc p = .idle ∧ (t.call p).looking = false

instance (t : Table) (p : Fin nproc) : Decidable (t.idle p) :=
  inferInstanceAs (Decidable (_ ∧ _))

def setCall (t : Table) (p : Fin nproc) (c : Call) : Table :=
  { t with call := update t.call p c }

def setFile (t : Table) (p : Fin nproc) (fd : Fin nofile) (f : Option Nat) : Table :=
  { t with ofile := update t.ofile p (update (t.ofile p) fd f) }

def look (t : Table) (p : Fin nproc) : Option Table :=
  match t.call p with
  | .none | .returned _ => none
  | .look pid i =>
    match Kernel.slot i with
    | none => some (t.setCall p (.returned (-1)))
    | some q =>
      if Kernel.asInt (t.kernel.proc q).pid = pid then
        (t.kernel.next (.kill q)).map fun k => { t with kernel := k }.setCall p (.returned 0)
      else some (t.setCall p (.look pid (i + 1)))

def next (t : Table) : Op → Option Table
  | .kernel a =>
    if t.ready a then
      (t.kernel.next a).map fun k => { t with kernel := k, ofile := t.files a }
    else none
  | .kkill p pid => if t.idle p then some (t.setCall p (.look pid 0)) else none
  | .look p => if (t.kernel.proc p).state = .running then t.look p else none
  | .setkilled p =>
    if (t.kernel.proc p).state = .running then
      (t.kernel.next (.kill p)).map fun k => { t with kernel := k }
    else none
  | .fdalloc p fd f =>
    if t.idle p ∧ t.ofile p fd = none then some (t.setFile p fd (some f)) else none
  | .close p fd => if t.idle p then some (t.setFile p fd none) else none
end Table
namespace Kernel
variable {s s' : Kernel} {p q : Fin nproc} {v : Proc} {a : Act} {ok : Bool}

def Tidy (s : Kernel) : Prop :=
  ∀ q, (s.proc q).state = .unused → s.proc q = { free with killed := (s.proc q).killed }

lemma tidy_boot : Tidy boot := by
  intro q hq
  by_cases h : q = initproc
  · rw [h] at hq
    cases hq
  simp [boot, h, free]

lemma Tidy.setProc (h : Tidy s) (hproc : s'.proc = update s.proc q v)
    (hv : v.state = .unused → v = { free with killed := v.killed }) : Tidy s' := by
  intro i hi
  rw [hproc] at hi ⊢
  by_cases hq : i = q
  · rw [hq, update_self] at hi ⊢
    exact hv hi
  rw [update_of_ne hq] at hi ⊢
  exact h i hi

lemma Tidy.wakeOne {chan : Option Chan} (h : Tidy s) : Tidy (s.wakeOne p chan q) := by
  rw [Kernel.wakeOne]
  split
  · exact h.setProc rfl (by simp)
  exact h

lemma Tidy.kill (h : Tidy s) : Tidy (s.setProc p { wakes (s.proc p) with killed := true }) := by
  refine h.setProc rfl fun hu => ?_
  unfold wakes at hu ⊢
  split at hu
  · cases hu
  rw [if_neg ‹_›, h p hu]

lemma Tidy.step (h : Tidy s) (hc : Control s) (hs : Step s s') : Tidy s' := by
  cases hs with
  | forkParent p np hr hp hl =>
    refine h.setProc rfl fun hu => ?_
    have hused := hc.child p np (by rw [hp]; rfl)
    exact absurd (hused.symm.trans hu) nofun
  | reparent p pp st hr hp hpp =>
    refine h.setProc rfl fun hu => ?_
    rw [h pp hu] at hpp
    cases hpp
  | wakeInit p q
  | wakeParent p q => exact h.wakeOne
  | kill p => exact h.kill
  | forkFail | reap => exact h.setProc rfl fun _ => rfl
  | forkFound | forkRun | zombie | waitSleep | resume | run | yield | sleep | wakeup =>
    exact h.setProc rfl nofun
  | _ => exact h

lemma Tidy.used_of_pid (h : Tidy s) (hq : asInt (s.proc q).pid ≠ 0) :
    (s.proc q).state ≠ .unused := by
  intro hu
  rw [h q hu] at hq
  exact hq rfl

def Stained (s : Kernel) (q : Fin nproc) : Prop :=
  (s.proc q).state = .unused ∧ (s.proc q).killed

lemma stained_of_setProc (hproc : s'.proc = update s.proc p v)
    (hv : v.state = .unused ∧ v.killed → s.Stained p) (h : s'.Stained q) : s.Stained q := by
  rw [Stained, hproc] at h
  by_cases hq : q = p
  · rw [hq, update_self] at h
    rw [hq]
    exact hv h
  rwa [update_of_ne hq] at h

lemma stained_of_step (hs : s.step p ok = some s') (h : s'.Stained q) : s.Stained q := by
  unfold Kernel.step forkScan exitReparent exitWakeInit exitWakeParent wakeOne exitZombie waitScan
    waitSleep at hs
  repeat' split at hs
  all_goals first
    | (cases hs; done)
    | (cases hs; exact h)
    | (cases hs
       refine stained_of_setProc rfl (fun hv => ?_) h
       first
         | (cases hv.1; done)
         | cases hv.2
         | exact hv)

lemma step_of_act (h : s.next (.step p ok) = some s') :
    (s.proc p).state = .running ∧ s.step p ok = some s' := by
  unfold Kernel.next at h
  split at h
  · cases h
  dsimp only at h
  split at h
  · exact ⟨‹_›, h⟩
  cases h

lemma stained_of_next (ha : ∀ q, a ≠ .kill q) (hn : s.next a = some s')
    (h : s'.Stained q) : s.Stained q := by
  cases a with
  | step p ok => exact stained_of_step (step_of_act hn).2 h
  | kill i => exact absurd rfl (ha i)
  | _ =>
    dsimp only [Kernel.next, Kernel.syscall, Kernel.run] at hn
    repeat' split at hn
    all_goals first
      | (cases hn; done)
      | (cases hn; exact h)
      | (cases hn; exact stained_of_setProc rfl (fun hv => by cases hv.1) h)

lemma step_pc_of_ne (h : s.step p ok = some s') (hq : q ≠ p) : s'.pc q = s.pc q := by
  unfold Kernel.step forkScan exitReparent exitWakeInit exitWakeParent wakeOne exitZombie waitScan
    waitSleep at h
  repeat' split at h
  all_goals first
    | (cases h; done)
    | (cases h; exact update_of_ne hq _ _)

lemma exitStart_of_next {st : Int} (ha : ∀ ok, a ≠ .step q ok)
    (hq : s.pc q = .exitStart st) (h : s.next a = some s') : s'.pc q = .exitStart st := by
  unfold Kernel.next at h
  split at h
  · cases h
  cases a with
  | step p ok =>
    dsimp only at h
    split at h
    · rw [step_pc_of_ne h fun e => ha ok (e ▸ rfl), hq]
    cases h
  | syscall p c =>
    dsimp only at h
    split at h <;> cases h
    rename_i hp
    have hne : q ≠ p := by
      rintro rfl
      exact nomatch hq.symm.trans hp.2
    dsimp only [Kernel.syscall]
    repeat' split
    all_goals first
      | exact hq
      | exact (update_of_ne hne _ _).trans hq
  | run p =>
    dsimp only [Kernel.run] at h
    repeat' split at h
    all_goals cases h
    · rename_i hp
      have hne : q ≠ p := by
        rintro rfl
        exact nomatch hq.symm.trans hp
      exact (update_of_ne hne _ _).trans hq
    exact hq
  | _ =>
    dsimp only at h
    repeat' split at h
    all_goals first
      | (cases h; done)
      | (cases h; exact hq)
end Kernel

def Pc.closed : Pc → Bool
  | exitReparent _ _ | exitWakeInit _ _ _ | exitWakeParent _ _ | exitZombie _ => true
  | idle | forkScan _ | forkParent _ | forkRun _ | exitStart _ | waitLock _ | waitScan _ _ _
  | waitSleep _ | waitAsleep _ => false

namespace Kernel
variable {s s' : Kernel} {p q : Fin nproc} {v : Proc} {c : Pc}

def Closed (s : Kernel) (q : Fin nproc) : Prop :=
  (s.proc q).state.dead ∨ (s.pc q).closed

def Closes (s s' : Kernel) (q : Fin nproc) : Prop :=
  ∃ st, s.pc q = .exitStart st ∧ s'.pc q ≠ .exitStart st

lemma closed_of_setProc (hproc : s'.proc = update s.proc p v)
    (hv : v.state.dead → s.Closed p) (h : (s'.proc q).state.dead) : s.Closed q := by
  rw [hproc] at h
  by_cases hq : q = p
  · rw [hq, update_self] at h
    rw [hq]
    exact hv h
  rw [update_of_ne hq] at h
  exact .inl h

lemma closed_of_wakeOne {chan : Option Chan} {i : Fin nproc}
    (h : ((s.wakeOne p chan i).proc q).state.dead) : s.Closed q := by
  rw [Kernel.wakeOne] at h
  split at h
  · exact closed_of_setProc rfl (fun hv => by cases hv) h
  exact .inl h

lemma closed_of_dead (hs : Step s s') (h : (s'.proc q).state.dead) : s.Closed q := by
  cases hs with
  | forkFail p np i hr hp hu => exact closed_of_setProc rfl (fun _ => .inl (by rw [hu]; rfl)) h
  | reap p pp addr kids hr hp hpp hz =>
    exact closed_of_setProc rfl (fun _ => .inl (by rw [hz]; rfl)) h
  | zombie p st hr hp => exact closed_of_setProc rfl (fun _ => .inr (by rw [hp]; rfl)) h
  | forkParent p i | reparent p i =>
    refine closed_of_setProc rfl (fun hv => ?_) h
    exact .inl hv
  | wakeInit
  | wakeParent => exact closed_of_wakeOne h
  | kill p =>
    refine closed_of_setProc rfl (fun hv => ?_) h
    unfold wakes at hv
    split at hv
    · cases hv
    exact .inl hv
  | forkFound | forkRun | waitSleep | resume | run | yield | sleep | wakeup =>
    exact closed_of_setProc rfl (fun hv => by cases hv) h
  | _ => exact .inl h

lemma closed_of_setPc (hpc : s'.pc = update s.pc p c)
    (hc : c.closed → (s.pc p).closed ∨ ∃ st, s.pc p = .exitStart st)
    (h : (s'.pc q).closed) : s.Closed q ∨ s.Closes s' q := by
  by_cases hq : q = p
  · have hself : s'.pc q = c := by rw [hpc, hq, update_self]
    rw [hself] at h
    rcases hc h with hp | ⟨st, hp⟩
    · rw [hq]
      exact .inl (.inr hp)
    right
    refine ⟨st, hq ▸ hp, fun e => ?_⟩
    rw [← hself, e] at h
    cases h
  rw [hpc, update_of_ne hq] at h
  exact .inl (.inr h)

lemma closed_of_pc (hs : Step s s') (h : (s'.pc q).closed) : s.Closed q ∨ s.Closes s' q := by
  cases hs with
  | exitLock p st hr hp hl => exact closed_of_setPc rfl (fun _ => .inr ⟨st, hp⟩) h
  | reparentEnd p st i hr hp
  | reparentSkip p pp st hr hp
  | reparent p pp st hr hp
  | wakeInitEnd p st i j hr hp
  | wakeParentEnd p st j hr hp => exact closed_of_setPc rfl (fun _ => .inl (by rw [hp]; rfl)) h
  | wakeInit p i st j hr hp | wakeParent p i st hr hp =>
    exact closed_of_setPc (congrArg (update · p _) wakeOne_pc) (fun _ => .inl (by rw [hp]; rfl)) h
  | initExits | run | yield | sleep | wakeup | kill => exact .inl (.inr h)
  | _ => exact closed_of_setPc rfl nofun h

lemma closed_of_step (hs : Step s s') (h : s'.Closed q) : s.Closed q ∨ s.Closes s' q :=
  h.elim (fun h => .inl (closed_of_dead hs h)) (closed_of_pc hs)

lemma not_closed_forkScan (hc : Control s) {i : Nat} {np : Fin nproc} (hi : slot i = some np)
    (hu : (s.proc np).state = .unused) (hr : (s.proc p).state = .running) :
    ¬(s.forkScan p i true).Closed np := by
  have hne : np ≠ p := by
    rintro rfl
    exact nomatch hu.symm.trans hr
  have hidle : s.pc np = .idle := hc.idle_of (by rw [hu]; rfl)
  rw [Kernel.forkScan, hi]
  simp [hu, Closed, setProc, setPc, hne, hidle, ProcState.dead, Pc.closed]
end Kernel
end Proc
end Xv6
