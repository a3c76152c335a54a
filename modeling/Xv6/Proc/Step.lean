import Xv6.Proc.Kernel

namespace Xv6.Proc.Kernel
inductive Step (s : Kernel) : Kernel → Prop
  | fork (p : Fin nproc) (hr : (s.proc p).state = .running) (hp : s.pc p = .idle) :
    Step s (s.setPc p (.forkScan 0))
  | initExits : Step s { s with panicked := true }
  | exit (p : Fin nproc) (st : Int) (hr : (s.proc p).state = .running) (hp : s.pc p = .idle)
      (hi : p ≠ initproc) : Step s (s.setPc p (.exitStart st))
  | wait (p : Fin nproc) (addr : Bool) (hr : (s.proc p).state = .running) (hp : s.pc p = .idle) :
    Step s (s.setPc p (.waitLock addr))
  | forkNone (p : Fin nproc) (i : Nat) (hr : (s.proc p).state = .running)
      (hp : s.pc p = .forkScan i) : Step s (s.setPc p .idle)
  | forkNext (p : Fin nproc) (i : Nat) (hr : (s.proc p).state = .running)
      (hp : s.pc p = .forkScan i) : Step s (s.setPc p (.forkScan (i + 1)))
  | forkFound (p np : Fin nproc) (i : Nat) (hr : (s.proc p).state = .running)
      (hp : s.pc p = .forkScan i) (hu : (s.proc np).state = .unused) :
    Step s
      { (s.setProc np { s.proc np with state := .used, pid := s.nextpid }).setPc p
          (.forkParent np) with
        nextpid := s.nextpid + 1
        id := Function.update s.id np s.nextId
        nextId := s.nextId + 1 }
  | forkFail (p np : Fin nproc) (i : Nat) (hr : (s.proc p).state = .running)
      (hp : s.pc p = .forkScan i) (hu : (s.proc np).state = .unused) :
    Step s { (s.setProc np free).setPc p .idle with nextpid := s.nextpid + 1 }
  | forkParent (p np : Fin nproc) (hr : (s.proc p).state = .running)
      (hp : s.pc p = .forkParent np) (hl : s.wait_lock = none) :
    Step s { (s.setProc np { s.proc np with parent := some p }).setPc p (.forkRun np) with
        forkedBy := Function.update s.forkedBy np (s.id p) }
  | forkRun (p np : Fin nproc) (hr : (s.proc p).state = .running) (hp : s.pc p = .forkRun np) :
    Step s ((s.setProc np { s.proc np with state := .runnable }).setPc p .idle)
  | exitLock (p : Fin nproc) (st : Int) (hr : (s.proc p).state = .running)
      (hp : s.pc p = .exitStart st) (hl : s.wait_lock = none) :
    Step s { s.setPc p (.exitReparent st 0) with wait_lock := some p }
  | reparentEnd (p : Fin nproc) (st : Int) (i : Nat) (hr : (s.proc p).state = .running)
      (hp : s.pc p = .exitReparent st i) (hi : nproc ≤ i) :
    Step s (s.setPc p (.exitWakeParent st 0))
  | reparentSkip (p pp : Fin nproc) (st : Int) (hr : (s.proc p).state = .running)
      (hp : s.pc p = .exitReparent st pp.val) (hpp : (s.proc pp).parent ≠ some p) :
    Step s (s.setPc p (.exitReparent st (pp.val + 1)))
  | reparent (p pp : Fin nproc) (st : Int) (hr : (s.proc p).state = .running)
      (hp : s.pc p = .exitReparent st pp.val) (hpp : (s.proc pp).parent = some p) :
    Step s ((s.setProc pp { s.proc pp with parent := some initproc }).setPc p
      (.exitWakeInit st pp.val 0))
  | wakeInitEnd (p : Fin nproc) (st : Int) (i j : Nat) (hr : (s.proc p).state = .running)
      (hp : s.pc p = .exitWakeInit st i j) (hj : nproc ≤ j) :
    Step s (s.setPc p (.exitReparent st (i + 1)))
  | wakeInit (p q : Fin nproc) (st : Int) (i : Nat) (hr : (s.proc p).state = .running)
      (hp : s.pc p = .exitWakeInit st i q.val) :
    Step s ((s.wakeOne p (some (.proc initproc)) q).setPc p (.exitWakeInit st i (q.val + 1)))
  | wakeParentEnd (p : Fin nproc) (st : Int) (j : Nat) (hr : (s.proc p).state = .running)
      (hp : s.pc p = .exitWakeParent st j) (hj : nproc ≤ j) :
    Step s (s.setPc p (.exitZombie st))
  | wakeParent (p q : Fin nproc) (st : Int) (hr : (s.proc p).state = .running)
      (hp : s.pc p = .exitWakeParent st q.val) :
    Step s ((s.wakeOne p ((s.proc p).parent.map .proc) q).setPc p (.exitWakeParent st (q.val + 1)))
  | zombie (p : Fin nproc) (st : Int) (hr : (s.proc p).state = .running)
      (hp : s.pc p = .exitZombie st) : Step s (s.exitZombie p st)
  | waitLock (p : Fin nproc) (addr : Bool) (hr : (s.proc p).state = .running)
      (hp : s.pc p = .waitLock addr) (hl : s.wait_lock = none) :
    Step s { s.setPc p (.waitScan addr false 0) with wait_lock := some p }
  | waitReturn (p : Fin nproc) (addr kids : Bool) (i : Nat) (hr : (s.proc p).state = .running)
      (hp : s.pc p = .waitScan addr kids i) :
    Step s { s.setPc p .idle with wait_lock := none }
  | waitEnd (p : Fin nproc) (addr kids : Bool) (i : Nat) (hr : (s.proc p).state = .running)
      (hp : s.pc p = .waitScan addr kids i) (hi : nproc ≤ i) :
    Step s (s.setPc p (.waitSleep addr))
  | waitNext (p pp : Fin nproc) (addr kids kids' : Bool) (hr : (s.proc p).state = .running)
      (hp : s.pc p = .waitScan addr kids pp.val)
      (hpp : (s.proc pp).parent = some p → (s.proc pp).state ≠ .zombie) :
    Step s (s.setPc p (.waitScan addr kids' (pp.val + 1)))
  | reap (p pp : Fin nproc) (addr kids : Bool) (hr : (s.proc p).state = .running)
      (hp : s.pc p = .waitScan addr kids pp.val) (hpp : (s.proc pp).parent = some p)
      (hz : (s.proc pp).state = .zombie) :
    Step s
      { (s.setProc pp free).setPc p .idle with
        wait_lock := none
        reaped := s.reaped ++
          [⟨s.id pp, (s.proc pp).pid, (s.proc pp).xstate, p, (s.proc pp).parent, s.id p,
            s.forkedBy pp⟩] }
  | waitSleep (p : Fin nproc) (addr : Bool) (hr : (s.proc p).state = .running)
      (hp : s.pc p = .waitSleep addr) : Step s (s.waitSleep p addr)
  | resume (p : Fin nproc) (addr : Bool) (hr : (s.proc p).state = .runnable)
      (hp : s.pc p = .waitAsleep addr) :
    Step s ((s.setProc p { s.proc p with state := .running, chan := none }).setPc p
      (.waitLock addr))
  | run (p : Fin nproc) (hr : (s.proc p).state = .runnable)
      (hp : ∀ addr, s.pc p ≠ .waitAsleep addr) :
    Step s (s.setProc p { s.proc p with state := .running, chan := none })
  | yield (p : Fin nproc) (hr : (s.proc p).state = .running) (hl : s.wait_lock ≠ some p) :
    Step s (s.setProc p { s.proc p with state := .runnable })
  | sleep (p : Fin nproc) (n : Nat) (hr : (s.proc p).state = .running)
      (hp : s.maySleep p = true) :
    Step s (s.setProc p { s.proc p with state := .sleeping, chan := some (.other n) })
  | wakeup (p : Fin nproc) (hr : (s.proc p).state = .sleeping) :
    Step s (s.setProc p { s.proc p with state := .runnable })
  | kill (p : Fin nproc) : Step s (s.setProc p { wakes (s.proc p) with killed := true })

variable {p : Fin nproc} {i : Nat}

lemma slot_some (h : slot i = some p) : i = p.val := by
  rw [slot] at h
  split at h
  · cases h
    rfl
  cases h

lemma slot_none (h : slot i = none) : nproc ≤ i := by
  rw [slot] at h
  split at h
  · cases h
  omega

variable {s s' : Kernel}

lemma step_forkScan (ok : Bool) (hr : (s.proc p).state = .running)
    (hp : s.pc p = .forkScan i) : Step s (s.forkScan p i ok) := by
  rw [Kernel.forkScan]
  split
  · exact .forkNone p i hr hp
  split
  · exact .forkNext p i hr hp
  rename_i hu
  rw [ne_eq, not_not] at hu
  split
  · exact .forkFound p _ i hr hp hu
  exact .forkFail p _ i hr hp hu

lemma step_waitScan {addr kids : Bool} (ok : Bool)
    (hr : (s.proc p).state = .running) (hp : s.pc p = .waitScan addr kids i) :
    Step s (s.waitScan p addr kids i ok) := by
  rw [Kernel.waitScan]
  split
  · rename_i hs
    split
    · exact .waitReturn p addr kids i hr hp
    exact .waitEnd p addr kids i hr hp (slot_none hs)
  rename_i pp hs
  obtain rfl := slot_some hs
  split
  · rename_i hne
    exact .waitNext p pp addr kids kids hr hp fun h => absurd h hne
  rename_i hpp
  rw [ne_eq, not_not] at hpp
  split
  · rename_i hz
    exact .waitNext p pp addr kids true hr hp fun _ => hz
  rename_i hz
  rw [ne_eq, not_not] at hz
  split
  · exact .waitReturn p addr kids _ hr hp
  exact .reap p pp addr kids hr hp hpp hz

lemma step_of_step {ok : Bool} (hr : (s.proc p).state = .running)
    (h : s.step p ok = some s') : Step s s' := by
  rw [Kernel.step] at h
  split at h
  · cases h
  · cases h
  · cases h
    exact step_forkScan ok hr ‹_›
  · split at h <;> cases h
    exact .forkParent p _ hr ‹_› ‹_›
  · cases h
    exact .forkRun p _ hr ‹_›
  · split at h <;> cases h
    exact .exitLock p _ hr ‹_› ‹_›
  · cases h
    rw [Kernel.exitReparent]
    split
    · exact .reparentEnd p _ _ hr ‹_› (slot_none ‹_›)
    rename_i hs
    obtain rfl := slot_some hs
    split
    · exact .reparent p _ _ hr ‹_› ‹_›
    exact .reparentSkip p _ _ hr ‹_› ‹_›
  · cases h
    rw [Kernel.exitWakeInit]
    split
    · exact .wakeInitEnd p _ _ _ hr ‹_› (slot_none ‹_›)
    rename_i hs
    obtain rfl := slot_some hs
    exact .wakeInit p _ _ _ hr ‹_›
  · cases h
    rw [Kernel.exitWakeParent]
    split
    · exact .wakeParentEnd p _ _ hr ‹_› (slot_none ‹_›)
    rename_i hs
    obtain rfl := slot_some hs
    exact .wakeParent p _ _ hr ‹_›
  · cases h
    exact .zombie p _ hr ‹_›
  · split at h <;> cases h
    exact .waitLock p _ hr ‹_› ‹_›
  · cases h
    exact step_waitScan ok hr ‹_›
  cases h
  exact .waitSleep p _ hr ‹_›

lemma step_of_next {a : Act} (h : s.next a = some s') : Step s s' := by
  unfold Kernel.next at h
  split at h
  · cases h
  cases a with
  | syscall p c =>
    simp only at h
    split at h <;> cases h
    obtain ⟨hr, hp⟩ := ‹_ ∧ _›
    cases c with
    | fork => exact .fork p hr hp
    | exit st =>
      rw [Kernel.syscall]
      split
      · exact .initExits
      exact .exit p st hr hp ‹_›
    | wait addr => exact .wait p addr hr hp
  | step p ok =>
    simp only at h
    split at h
    · exact step_of_step ‹_› h
    cases h
  | run p =>
    simp only at h
    split at h <;> cases h
    simp only [Kernel.run]
    split
    · exact .resume p _ ‹_› ‹_›
    rename_i hne
    exact .run p ‹_› fun addr ha => hne addr ha
  | yield p =>
    simp only at h
    split at h <;> cases h
    obtain ⟨hr, hl⟩ := ‹_ ∧ _›
    exact .yield p hr hl
  | sleep p n =>
    simp only at h
    split at h <;> cases h
    obtain ⟨hr, hp⟩ := ‹_ ∧ _›
    exact .sleep p n hr hp
  | wakeup p =>
    simp only at h
    split at h <;> cases h
    exact .wakeup p ‹_›
  | kill p =>
    cases h
    exact .kill p
end Xv6.Proc.Kernel
