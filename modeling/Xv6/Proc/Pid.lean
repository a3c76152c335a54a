import Xv6.Proc.Control

namespace Xv6.Proc.Kernel
open Lib Function
variable {s s' : Kernel}

structure Pids (s : Kernel) : Prop where
  range : ∀ i, (s.proc i).state ≠ .unused → 1 ≤ (s.proc i).pid ∧ (s.proc i).pid < s.nextpid
  distinct : ∀ i j, (s.proc i).state ≠ .unused → (s.proc j).state ≠ .unused →
    (s.proc i).pid = (s.proc j).pid → i = j
  next : 1 ≤ s.nextpid

lemma pids_boot : Pids boot := by
  have hinit : ∀ i, (boot.proc i).state ≠ .unused → i = initproc := by
    intro i hi
    by_contra hne
    exact hi (by simp [boot, hne, free])
  refine ⟨fun i hi => ?_, fun i j hi hj _ => (hinit i hi).trans (hinit j hj).symm, by decide⟩
  rw [hinit i hi]
  decide

lemma Pids.keep (h : Pids s) (hn : s.nextpid ≤ s'.nextpid) (hk : ∀ i,
    (s'.proc i).state ≠ .unused → (s.proc i).state ≠ .unused ∧ (s'.proc i).pid = (s.proc i).pid) :
    Pids s' := by
  refine ⟨fun i hi => ?_, fun i j hi hj e => ?_, Int.le_trans h.next hn⟩
  · obtain ⟨hold, hpid⟩ := hk i hi
    obtain ⟨hpos, hlt⟩ := h.range i hold
    rw [hpid]
    exact ⟨hpos, by omega⟩
  rw [(hk i hi).2, (hk j hj).2] at e
  exact h.distinct i j (hk i hi).1 (hk j hj).1 e

lemma Pids.slot (q : Fin nproc) {v : Proc} (h : Pids s) (hn : s.nextpid ≤ s'.nextpid)
    (hproc : s'.proc = update s.proc q v)
    (hv : v.state ≠ .unused → (s.proc q).state ≠ .unused ∧ v.pid = (s.proc q).pid) : Pids s' := by
  refine h.keep hn fun i hi => ?_
  rw [hproc] at hi ⊢
  by_cases hiq : i = q
  · subst hiq
    rw [update_self] at hi ⊢
    exact hv hi
  rw [update_of_ne hiq] at hi ⊢
  exact ⟨hi, rfl⟩

lemma Pids.wakeOne {p q : Fin nproc} {chan : Option Chan} {c : Pc} (h : Pids s) :
    Pids ((s.wakeOne p chan q).setPc p c) := by
  rw [Kernel.wakeOne]
  split
  · rename_i hw
    exact h.slot q (Int.le_refl _) rfl fun _ => ⟨by rw [hw.2.1]; simp, rfl⟩
  exact h.keep (Int.le_refl _) fun i hi => ⟨hi, rfl⟩

lemma Pids.start (np : Fin nproc) {v : Proc} (h : Pids s)
    (hproc : s'.proc = update s.proc np v) (hv : v.pid = s.nextpid)
    (hn : s'.nextpid = s.nextpid + 1) : Pids s' := by
  have hnext := h.next
  have hself : s'.proc np = v := by rw [hproc, update_self]
  have hne : ∀ i ≠ np, s'.proc i = s.proc i := fun i hi => by rw [hproc, update_of_ne hi]
  refine ⟨fun i hi => ?_, fun i j hi hj e => ?_, by omega⟩
  · by_cases hin : i = np
    · rw [hin, hself, hv, hn]
      omega
    · rw [hne i hin] at hi ⊢
      have hrange := h.range i hi
      omega
  by_cases hin : i = np <;> by_cases hjn : j = np
  · exact hin.trans hjn.symm
  · rw [hin, hself, hv, hne j hjn] at e
    have hrange := h.range j (hne j hjn ▸ hj)
    omega
  · rw [hjn, hself, hv, hne i hin] at e
    have hrange := h.range i (hne i hin ▸ hi)
    omega
  rw [hne i hin, hne j hjn] at e
  exact h.distinct i j (hne i hin ▸ hi) (hne j hjn ▸ hj) e

lemma Pids.move (h : Pids s) (hproc : s'.proc = s.proc) (hn : s'.nextpid = s.nextpid) :
    Pids s' := by
  refine h.keep (Int.le_of_eq hn.symm) fun i hi => ?_
  rw [hproc] at hi ⊢
  exact ⟨hi, rfl⟩

lemma Pids.step (h : Pids s) (hcl : Control s) (hs : Step s s') : Pids s' := by
  cases hs with
  | forkFound p np i hr hp hu => exact h.start np rfl rfl rfl
  | forkFail p np i hr hp hu =>
    exact h.slot np (Int.le_add_one (Int.le_refl _)) rfl fun hv => absurd rfl hv
  | forkParent p np hr hp hl => exact h.slot np (Int.le_refl _) rfl fun hv => ⟨hv, rfl⟩
  | forkRun p np hr hp =>
    have hused := hcl.child p np (by rw [hp]; rfl)
    exact h.slot np (Int.le_refl _) rfl fun _ => ⟨by rw [hused]; exact nofun, rfl⟩
  | reparent p pp st hr hp hpp => exact h.slot pp (Int.le_refl _) rfl fun hv => ⟨hv, rfl⟩
  | wakeInit p q st i hr hp
  | wakeParent p q st hr hp => exact h.wakeOne
  | zombie p st hr hp
  | waitSleep p addr hr hp
  | resume p addr hr hp
  | run p hr hp
  | yield p hr hl
  | sleep p n hr hp
  | wakeup p hr => exact h.slot p (Int.le_refl _) rfl fun _ => ⟨by rw [hr]; exact nofun, rfl⟩
  | reap p pp addr kids hr hp hpp hz => exact h.slot pp (Int.le_refl _) rfl fun hv => absurd rfl hv
  | kill p =>
    refine h.slot p (Int.le_refl _) rfl fun hv => ?_
    unfold wakes at hv ⊢
    split
    · rename_i hsl
      exact ⟨by rw [hsl]; exact nofun, rfl⟩
    rename_i hsl
    rw [if_neg hsl] at hv
    exact ⟨hv, rfl⟩
  | _ => exact h.move rfl rfl

lemma pids_of_run {as : List Act} (hr : Lib.run next boot as = some s) : Control s ∧ Pids s :=
  Lib.run_invariant (I := fun t => Control t ∧ Pids t) (fun _ _ _ h hn =>
    ⟨h.1.step (step_of_next hn), h.2.step h.1 (step_of_next hn)⟩) ⟨control_boot, pids_boot⟩ hr

lemma asInt_of_lt {n : Int} (h0 : 0 ≤ n) (h : n < 2 ^ 31) : asInt n = n :=
  Int.bmod_eq_of_le (by omega) (by omega)

theorem pid_unique_of_run (as : List Act) (s : Kernel) (hr : Lib.run next boot as = some s)
    (hn : s.nextpid ≤ 2 ^ 31) (p np : Fin nproc) (hp : s.pc p = .forkRun np) :
    0 < asInt (s.proc np).pid ∧
      ∀ i ≠ np, (s.proc i).state ≠ .unused → asInt (s.proc i).pid ≠ asInt (s.proc np).pid := by
  obtain ⟨hcl, h⟩ := pids_of_run hr
  have hused : (s.proc np).state ≠ .unused := by
    rw [hcl.child p np (by rw [hp]; rfl)]
    exact nofun
  have hvalue : ∀ i, (s.proc i).state ≠ .unused → asInt (s.proc i).pid = (s.proc i).pid := by
    intro i hi
    obtain ⟨hpos, hlt⟩ := h.range i hi
    exact asInt_of_lt (by omega) (by omega)
  have hpos := (h.range np hused).1
  refine ⟨by rw [hvalue np hused]; omega, fun i hne hi e => hne ?_⟩
  rw [hvalue i hi, hvalue np hused] at e
  exact h.distinct i np hi hused e

def firstFork : List Act :=
  [.run 0, .syscall 0 .fork, .step 0 true, .step 0 true, .step 0 true]

lemma run_firstFork : (Lib.run next boot firstFork).map (fun s => (s.pc 0, s.nextpid)) =
    some (.forkRun 1, 3) := by
  decide +kernel

theorem pid_unique_of_run_firstFork : ∃ s, Lib.run next boot firstFork = some s ∧
    s.pc 0 = .forkRun 1 ∧ 0 < asInt (s.proc 1).pid := by
  obtain ⟨s, hs, heq⟩ := Option.map_eq_some_iff.mp run_firstFork
  obtain ⟨hpc, hnext⟩ := Prod.mk.inj heq
  have hle : s.nextpid ≤ 2 ^ 31 := by
    rw [hnext]
    decide
  exact ⟨s, hs, hpc, (pid_unique_of_run firstFork s hs hle 0 1 hpc).1⟩

def initOnly (n : Int) : Kernel :=
  { boot with
    proc := update (fun _ => free) initproc { free with state := .running, pid := 1 }
    nextpid := n }

lemma run_init : Lib.run next boot [.run 0] = some (initOnly 2) := by
  have hproc : update boot.proc 0 { boot.proc 0 with state := .running, chan := none } =
      (initOnly 2).proc := by
    rw [boot, initOnly, initproc, update_idem]
    rfl
  exact congrArg (fun f => some { boot with proc := f }) hproc

def forkFails : List Act := [.syscall 0 .fork, .step 0 true, .step 0 false]

lemma run_forkFails (n : Int) :
    Lib.run next (initOnly n) forkFails = some (initOnly (n + 1)) := by
  have hpc : update (update (update boot.pc 0 (.forkScan 0)) 0 (.forkScan 1)) 0 .idle =
      boot.pc := by
    rw [update_idem, update_idem]
    exact update_eq_self 0 _
  have hproc : update (initOnly n).proc 1 free = (initOnly n).proc :=
    update_eq_self 1 (initOnly n).proc
  exact congrArg₂ (fun f g => some { initOnly (n + 1) with pc := f, proc := g }) hpc hproc

lemma run_forksFail (n : Int) (k : Nat) :
    Lib.run next (initOnly n) (List.replicate k forkFails).flatten = some (initOnly (n + k)) := by
  induction k generalizing n with
  | zero => simp [Lib.run]
  | succ k ih =>
    rw [List.replicate_succ, List.flatten_cons, run_append, run_forkFails, Option.bind_some, ih]
    congr 2
    omega

def forksAfter (k : Nat) : List Act :=
  [.run 0] ++ ((List.replicate k forkFails).flatten ++
    [.syscall 0 .fork, .step 0 true, .step 0 true, .step 0 true])

lemma run_forksAfter (k : Nat) : ∃ s, Lib.run next boot (forksAfter k) = some s ∧
    s.pc 0 = .forkRun 1 ∧ (s.proc 1).pid = 2 + k := by
  rw [forksAfter, run_append, run_init, Option.bind_some, run_append, run_forksFail,
    Option.bind_some]
  exact ⟨_, rfl, rfl, rfl⟩

theorem pid_wraps : ∃ s, Lib.run next boot (forksAfter (2 ^ 31 - 2)) = some s ∧
    s.pc 0 = .forkRun 1 ∧ asInt (s.proc 1).pid < 0 := by
  obtain ⟨s, hs, hpc, hpid⟩ := run_forksAfter (2 ^ 31 - 2)
  refine ⟨s, hs, hpc, ?_⟩
  rw [hpid]
  decide +kernel
end Xv6.Proc.Kernel
