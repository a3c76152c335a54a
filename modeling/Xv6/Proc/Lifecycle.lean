import Xv6.Proc.History

namespace Xv6.Proc.Kernel
open Function List

def Parented (s : Kernel) : Prop :=
  ∀ i ≠ initproc, (s.proc i).state ≠ .unused → (s.proc i).parent = none →
    ∃ p, s.pc p = .forkParent i

lemma parented_boot : Parented boot :=
  fun _ hi hu _ => absurd (boot_state hi) hu

variable {s s' : Kernel} {p q : Fin nproc} {v : Proc} {c : Pc}

lemma Parented.keep (h : Parented s)
    (hproc : ∀ i, (s'.proc i).state ≠ .unused → (s'.proc i).parent = none →
      (s.proc i).state ≠ .unused ∧ (s.proc i).parent = none)
    (hpc : ∀ x i, s.pc x = .forkParent i → s'.pc x = .forkParent i) : Parented s' := by
  intro i hi hu hn
  obtain ⟨hu, hn⟩ := hproc i hu hn
  obtain ⟨x, hx⟩ := h i hi hu hn
  exact ⟨x, hpc x i hx⟩

lemma forkParent_update (hp : ∀ i, s.pc p ≠ .forkParent i) (x i : Fin nproc)
    (hx : s.pc x = .forkParent i) : update s.pc p c x = .forkParent i := by
  have hxp : x ≠ p := fun e => hp i (e ▸ hx)
  rw [update_of_ne hxp, hx]

section
variable (h : Parented s) {l : Option (Fin nproc)} {np : Fin nproc}
include h

lemma Parented.move (hp : ∀ i, s.pc p ≠ .forkParent i) :
    Parented { s.setPc p c with wait_lock := l } :=
  h.keep (fun _ hu hn => ⟨hu, hn⟩) (forkParent_update hp)

lemma Parented.slot {n : Int} {es : List Exit} {rs : List Reaped}
    {f : Fin nproc → Pc} (hv : v.state ≠ .unused → v.parent = none →
      (s.proc q).state ≠ .unused ∧ (s.proc q).parent = none)
    (hpc : ∀ x i, s.pc x = .forkParent i → f x = .forkParent i) :
    Parented { s.setProc q v with
      pc := f, wait_lock := l, nextpid := n, exits := es, reaped := rs } := by
  refine h.keep (fun i hu hn => ?_) hpc
  change (update s.proc q v i).state ≠ .unused at hu
  change (update s.proc q v i).parent = none at hn
  by_cases hi : i = q
  · rw [hi] at hu hn ⊢
    rw [update_self] at hu hn
    exact hv hu hn
  rw [update_of_ne hi] at hu hn
  exact ⟨hu, hn⟩

lemma Parented.wakeOne {chan : Option Chan} (hp : ∀ i, s.pc p ≠ .forkParent i) :
    Parented ((s.wakeOne p chan q).setPc p c) := by
  rw [Kernel.wakeOne]
  split
  · rename_i hw
    exact h.slot (fun _ hn => ⟨by simp [hw.2.1], hn⟩) (forkParent_update hp)
  exact h.move hp

lemma Parented.forkFound (hp : ∀ i, s.pc p ≠ .forkParent i) : Parented
      { (s.setProc np { s.proc np with state := .used, pid := s.nextpid }).setPc p
          (.forkParent np) with
        nextpid := s.nextpid + 1
        id := update s.id np s.nextId
        nextId := s.nextId + 1 } := by
  intro i hi hu hn
  by_cases hin : i = np
  · exact ⟨p, by rw [hin]; exact update_self p _ _⟩
  simp only [setProc, setPc, ne_eq, hin, not_false_eq_true, update_of_ne] at hu hn
  obtain ⟨x, hx⟩ := h i hi hu hn
  exact ⟨x, forkParent_update hp x i hx⟩

lemma Parented.forkParent (hp : s.pc p = .forkParent np) :
    Parented { (s.setProc np { s.proc np with parent := some p }).setPc p (.forkRun np) with
      forkedBy := update s.forkedBy np (s.id p) } := by
  intro i hi hu hn
  have hin : i ≠ np := by
    rintro rfl
    simp [setPc, setProc] at hn
  simp only [setProc, setPc, ne_eq, hin, not_false_eq_true, update_of_ne] at hu hn
  obtain ⟨x, hx⟩ := h i hi hu hn
  have hxp : x ≠ p := by
    rintro rfl
    rw [hp] at hx
    exact hin (Pc.forkParent.inj hx).symm
  exact ⟨x, (update_of_ne hxp _ _).trans hx⟩

lemma Parented.step (hcl : Control s) (hs : Step s s') : Parented s' := by
  cases hs with
  | forkFound p np i hr hp hu => exact h.forkFound (by simp [hp])
  | forkFail p np i hr hp hu
  | reap p pp addr kids hr hp hpp hz =>
    exact h.slot (fun hu _ => absurd rfl hu) (forkParent_update (by simp [hp]))
  | forkParent p np hr hp hl => exact h.forkParent hp
  | forkRun p np hr hp =>
    have hu := hcl.child p np (by rw [hp]; rfl)
    exact h.slot (fun _ hn => ⟨by simp [hu], hn⟩) (forkParent_update (by simp [hp]))
  | reparent p pp st hr hp hpp =>
    exact h.slot (fun _ hn => by cases hn) (forkParent_update (by simp [hp]))
  | wakeInit p q st i hr hp
  | wakeParent p q st hr hp => exact h.wakeOne (by simp [hp])
  | zombie p st hr hp | waitSleep p addr hr hp | resume p addr hr hp =>
    exact h.slot (fun _ hn => ⟨by simp [hr], hn⟩) (forkParent_update (by simp [hp]))
  | run p hr hp | yield p hr hl | sleep p n hr hp | wakeup p hr =>
    exact h.slot (fun _ hn => ⟨by simp [hr], hn⟩) fun _ _ hx => hx
  | kill p =>
    refine h.slot (fun hu hn => ?_) fun _ _ hx => hx
    by_cases hsl : (s.proc p).state = .sleeping
    · simp only [wakes, hsl, if_true] at hn
      exact ⟨by simp [hsl], hn⟩
    simp only [wakes, hsl, if_false] at hu hn
    exact ⟨hu, hn⟩
  | initExits => exact h
  | _ p => exact h.move (by simp [*])
end

structure Inv (s : Kernel) : Prop where
  control : Control s
  family : Family s
  history : History s
  parented : Parented s

lemma inv_of_run {es : List Act} (hr : Lib.run next boot es = some s) : Inv s := by
  refine Lib.run_invariant (fun t a t' ht hn => ?_)
    ⟨control_boot, family_boot, history_boot, parented_boot⟩ hr
  have hs := step_of_next hn
  exact ⟨ht.control.step hs, ht.family.step ht.control hs,
    ht.history.step ht.control ht.family hs, ht.parented.step ht.control hs⟩

structure LifeCycle (s : Kernel) : Prop where
  parent : ∀ i ≠ initproc, (s.proc i).state ≠ .unused → (∀ p, s.pc p ≠ .forkParent i) →
    ∃ q, (s.proc i).parent = some q ∧ (s.proc q).state ≠ .unused ∧ (s.proc q).state ≠ .zombie
  exits : (s.exits.map Exit.id).Nodup
  returned : ∀ e ∈ s.exits,
    ((∃ i, (s.proc i).state = .zombie ∧ s.id i = e.id ∧ (s.proc i).pid = e.pid ∧
        (s.proc i).xstate = e.status) ∧ ∀ w ∈ s.reaped, w.id ≠ e.id) ∨
      ((∀ i, (s.proc i).state ≠ .unused → s.id i ≠ e.id) ∧
        ∃ w, s.reaped.filter (fun w => w.id = e.id) = [w] ∧ w.pid = e.pid ∧ w.status = e.status)
  reaped : ∀ w ∈ s.reaped, ⟨w.id, w.pid, w.status⟩ ∈ s.exits ∧ w.parent = some w.caller ∧
    (w.callerId = w.forkedBy ∨ w.caller = initproc)
  scan : ∀ p addr kids k, s.pc p = .waitScan addr kids k → nproc ≤ k →
    ∀ i, (s.proc i).parent = some p → (s.proc i).state ≠ .zombie
  asleep : ∀ i q, (s.proc i).parent = some q → (s.proc i).state = .zombie → s.asleep q →
    q = initproc ∧ ∃ p, s.wait_lock = some p ∧ (s.pc p).handing

lemma filter_eq_singleton {α : Type} {f : α → Nat} {l : List α} {a : α}
    (hl : (l.map f).Nodup) (ha : a ∈ l) : l.filter (fun b => f b = f a) = [a] := by
  induction l with
  | nil => cases ha
  | cons b l ih =>
    rw [map_cons, nodup_cons] at hl
    rcases mem_cons.mp ha with rfl | ha
    · have hrest : l.filter (fun b => f b = f a) = [] := by
        rw [filter_eq_nil_iff]
        intro c hc hca
        exact hl.1 (mem_map.mpr ⟨c, hc, of_decide_eq_true hca⟩)
      rw [filter_cons_of_pos (by simp), hrest]
    have hb : f b ≠ f a := fun e => hl.1 (e ▸ mem_map_of_mem ha)
    rw [filter_cons_of_neg (by simpa using hb)]
    exact ih hl.2 ha

lemma Inv.returned (h : Inv s) (e : Exit) (he : e ∈ s.exits) :
    ((∃ i, (s.proc i).state = .zombie ∧ s.id i = e.id ∧ (s.proc i).pid = e.pid ∧
        (s.proc i).xstate = e.status) ∧ ∀ w ∈ s.reaped, w.id ≠ e.id) ∨
      ((∀ i, (s.proc i).state ≠ .unused → s.id i ≠ e.id) ∧
        ∃ w, s.reaped.filter (fun w => w.id = e.id) = [w] ∧ w.pid = e.pid ∧
          w.status = e.status) := by
  by_cases hm : e.id ∈ s.reaped.map Reaped.id
  · right
    obtain ⟨w, hw, hwid⟩ := mem_map.mp hm
    have hwe : (⟨w.id, w.pid, w.status⟩ : Exit) = e :=
      inj_on_of_nodup_map h.history.exit_nodup (h.history.reaped_mem w hw) he hwid
    refine ⟨fun i hi hid => ?_, w, ?_, by rw [← hwe], by rw [← hwe]⟩
    · -- a slot with this number would be a zombie that was reaped
      by_cases hz : (s.proc i).state = .zombie
      · exact (h.history.zombie i hz).2 (hid ▸ hm)
      exact h.history.alive i hi hz (mem_map.mpr ⟨e, he, hid.symm⟩)
    rw [← hwid]
    exact filter_eq_singleton h.history.reaped_nodup hw
  left
  obtain ⟨i, hz, hid⟩ := (h.history.settled e he).resolve_left hm
  have hie : (⟨s.id i, (s.proc i).pid, (s.proc i).xstate⟩ : Exit) = e :=
    inj_on_of_nodup_map h.history.exit_nodup (h.history.zombie i hz).1 he hid
  exact ⟨⟨i, hz, hid, by rw [← hie], by rw [← hie]⟩,
    fun w hw hwid => hm (mem_map.mpr ⟨w, hw, hwid⟩)⟩

theorem lifeCycle_of_run (es : List Act) (s : Kernel) (hr : Lib.run next boot es = some s) :
    LifeCycle s := by
  have h := inv_of_run hr
  refine ⟨fun i hi hu hf => ?_, h.history.exit_nodup, h.returned, fun w hw => ?_,
    fun p addr kids k hp hk i hi => ?_, fun i q hi hz ha => ?_⟩
  · cases hq : (s.proc i).parent with
    | none =>
      obtain ⟨p, hp⟩ := h.parented i hi hu hq
      exact absurd hp (hf p)
    | some q =>
      have hl := h.family.live i q hq
      refine ⟨q, rfl, fun e => ?_, fun e => ?_⟩ <;>
        · rw [e] at hl
          cases hl
  · exact ⟨h.history.reaped_mem w hw, h.history.by_parent w hw⟩
  · apply h.family.scanned p i _ hi
    rw [hp]
    exact decide_eq_true (lt_of_lt_of_le i.isLt hk)
  obtain ⟨hq, p, hp⟩ := h.family.zombie i q hi hz ha
  exact ⟨hq, p, (h.control.ok p).lock.mp (Pc.holds_of_handing hp), hp⟩

def steps (p : Fin nproc) (n : Nat) : List Act := replicate n (.step p true)

def handOver : List Act :=
  [.run 0, .syscall 0 .fork] ++ steps 0 4 ++ [.syscall 0 (.wait false)] ++ steps 0 67 ++
  [.run 1, .syscall 1 .fork] ++ steps 1 5 ++
  [.run 2, .syscall 2 (.exit 7)] ++ steps 2 132 ++
  [.syscall 1 (.exit 0)] ++ steps 1 4

def handedOver : List Act :=
  handOver ++ steps 1 193 ++ [.run 0] ++ steps 0 3 ++ [.syscall 0 (.wait false)] ++ steps 0 4

theorem lifeCycle_of_run_handedOver : ∃ s, Lib.run next boot handedOver = some s ∧
      s.reaped.map (fun w => (w.pid, w.status, w.caller)) = [(2, 0, 0), (3, 7, 0)] ∧
      LifeCycle s := by
  have h : (Lib.run next boot handedOver).any (fun s =>
      s.reaped.map (fun w => (w.pid, w.status, w.caller)) = [(2, 0, 0), (3, 7, 0)]) := by
    decide +kernel
  obtain ⟨s, hs, hw⟩ := (Option.any_eq_true _ _).mp h
  exact ⟨s, hs, of_decide_eq_true hw, lifeCycle_of_run handedOver s hs⟩

theorem asleep_over_zombie_handOver :
    ∃ s, Lib.run next boot handOver = some s ∧ (s.proc 2).parent = some 0 ∧
      (s.proc 2).state = .zombie ∧ s.asleep 0 := by
  have h : (Lib.run next boot handOver).any (fun s => (s.proc 2).parent = some 0 ∧
      (s.proc 2).state = .zombie ∧ s.asleep 0) := by decide +kernel
  obtain ⟨s, hs, hz⟩ := (Option.any_eq_true _ _).mp h
  exact ⟨s, hs, of_decide_eq_true hz⟩
end Xv6.Proc.Kernel
