import Xv6.Proc.Step

namespace Xv6
open Function

def ProcState.live : ProcState → Bool
  | sleeping | runnable | running => true
  | unused | used | zombie => false

namespace Proc
namespace Pc
def holds : Pc → Bool
  | exitReparent _ _ | exitWakeInit _ _ _ | exitWakeParent _ _ | exitZombie _
  | waitScan _ _ _ | waitSleep _ => true
  | idle | forkScan _ | forkParent _ | forkRun _ | exitStart _ | waitLock _
  | waitAsleep _ => false

def exiting : Pc → Bool
  | exitStart _ | exitReparent _ _ | exitWakeInit _ _ _ | exitWakeParent _ _ | exitZombie _ => true
  | idle | forkScan _ | forkParent _ | forkRun _ | waitLock _ | waitScan _ _ _ | waitSleep _
  | waitAsleep _ => false

def forks : Pc → Option (Fin nproc)
  | forkParent np | forkRun np => some np
  | idle | forkScan _ | exitStart _ | exitReparent _ _ | exitWakeInit _ _ _ | exitWakeParent _ _
  | exitZombie _ | waitLock _ | waitScan _ _ _ | waitSleep _ | waitAsleep _ => none
end Pc
namespace Kernel
structure PcOk (p : Fin nproc) (v : Proc) (c : Pc) (l : Option (Fin nproc)) : Prop where
  lock : c.holds = true ↔ l = some p
  holder : l = some p → v.state = .running
  live : c ≠ .idle → v.state.live = true
  exiting : c.exiting = true → p ≠ initproc
  asleep : ∀ addr, c = .waitAsleep addr → v.state ≠ .running ∧
    (v.state = .sleeping → v.chan = some (.proc p))

/-- Program points, states and `wait_lock` agree. -/
structure Control (s : Kernel) : Prop where
  ok : ∀ p, PcOk p (s.proc p) (s.pc p) s.wait_lock
  init : (s.proc initproc).state.live = true
  child : ∀ p np, (s.pc p).forks = some np → (s.proc np).state = .used
  forker : ∀ p q np, (s.pc p).forks = some np → (s.pc q).forks = some np → p = q

lemma control_boot : Control boot := by
  refine ⟨fun p => ⟨?_, ?_, ?_, ?_, ?_⟩, rfl, ?_, ?_⟩ <;>
    simp [boot, Pc.holds, Pc.exiting, Pc.forks]

variable {s s' : Kernel} {p q : Fin nproc} {v : Proc} {c : Pc} {l : Option (Fin nproc)}
  {chan : Option Chan}

lemma PcOk.of_lock {l' : Option (Fin nproc)} (h : PcOk q v c l)
    (hl : l' = some q ↔ l = some q) : PcOk q v c l' :=
  ⟨h.lock.trans hl.symm, fun hq => h.holder (hl.mp hq), h.live, h.exiting, h.asleep⟩

lemma PcOk.idle (hl : l ≠ some p) : PcOk p v .idle l :=
  ⟨by simp [Pc.holds, hl], fun h => absurd h hl, fun h => absurd rfl h, by simp [Pc.exiting],
    by simp⟩

section
variable (h : Control s)
include h

lemma Control.act (hproc : s'.proc = update s.proc p v) (hpc : s'.pc = update s.pc p c)
    (hok : PcOk p v c s'.wait_lock)
    (hl : ∀ q, q ≠ p → (s'.wait_lock = some q ↔ s.wait_lock = some q))
    (hinit : p = initproc → v.state.live = true) (hused : (s.proc p).state ≠ .used)
    (hforks : ∀ np, c.forks = some np → np ≠ p ∧ (s.proc np).state = .used ∧
      ∀ q, q ≠ p → (s.pc q).forks ≠ some np) : Control s' := by
  have hne : ∀ q, q ≠ p → s'.proc q = s.proc q ∧ s'.pc q = s.pc q := by
    intro q hq
    rw [hproc, hpc, update_of_ne hq, update_of_ne hq]
    exact ⟨rfl, rfl⟩
  have hself : s'.proc p = v ∧ s'.pc p = c := by
    rw [hproc, hpc, update_self, update_self]
    exact ⟨rfl, rfl⟩
  refine ⟨fun q => ?_, ?_, fun q np hq => ?_, fun q q' np hq hq' => ?_⟩
  · by_cases hqp : q = p
    · rw [hqp, hself.1, hself.2]
      exact hok
    rw [(hne q hqp).1, (hne q hqp).2]
    exact (h.ok q).of_lock (hl q hqp)
  · by_cases hp : p = initproc
    · rw [← hp, hself.1]
      exact hinit hp
    rw [(hne initproc (fun e => hp e.symm)).1]
    exact h.init
  · by_cases hqp : q = p
    · rw [hqp, hself.2] at hq
      obtain ⟨h1, h2, -⟩ := hforks np hq
      rw [(hne np h1).1]
      exact h2
    · rw [(hne q hqp).2] at hq
      have hu := h.child q np hq
      have hnp : np ≠ p := fun e => hused (e ▸ hu)
      rw [(hne np hnp).1]
      exact hu
  by_cases hqp : q = p <;> by_cases hqp' : q' = p
  · rw [hqp, hqp']
  · rw [hqp, hself.2] at hq
    rw [(hne q' hqp').2] at hq'
    exact absurd hq' ((hforks np hq).2.2 q' hqp')
  · rw [hqp', hself.2] at hq'
    rw [(hne q hqp).2] at hq
    exact absurd hq ((hforks np hq').2.2 q hqp)
  rw [(hne q hqp).2] at hq
  rw [(hne q' hqp').2] at hq'
  exact h.forker q q' np hq hq'

lemma Control.move (hproc : s'.proc = s.proc) (hpc : s'.pc = update s.pc p c)
    (hr : (s.proc p).state = .running) (hlock : c.holds = true ↔ s'.wait_lock = some p)
    (hl : ∀ q, q ≠ p → (s'.wait_lock = some q ↔ s.wait_lock = some q))
    (hexit : c.exiting = true → p ≠ initproc) (hasleep : ∀ addr, c ≠ .waitAsleep addr)
    (hforks : ∀ np, c.forks = some np → np ≠ p ∧ (s.proc np).state = .used ∧
      ∀ q, q ≠ p → (s.pc q).forks ≠ some np) : Control s' := by
  have hlive : (s.proc p).state.live = true := by rw [hr]; rfl
  have hproc' : s'.proc = update s.proc p (s.proc p) := by rw [hproc, update_eq_self]
  refine h.act hproc' hpc ⟨hlock, fun _ => hr, fun _ => hlive, hexit, ?_⟩ hl (fun _ => hlive)
    (by simp [hr]) hforks
  intro addr hc
  exact absurd hc (hasleep addr)

lemma Control.other (hproc : s'.proc = update s.proc q v) (hpc : s'.pc = s.pc)
    (hlock : s'.wait_lock = s.wait_lock) (hok : PcOk q v (s.pc q) s.wait_lock)
    (hinit : q = initproc → v.state.live = true)
    (hused : v.state = .used ∨ ∀ p, (s.pc p).forks ≠ some q) : Control s' := by
  have hne : ∀ i, i ≠ q → s'.proc i = s.proc i := by
    intro i hi
    rw [hproc, update_of_ne hi]
  have hself : s'.proc q = v := by rw [hproc, update_self]
  refine ⟨fun i => ?_, ?_, fun p np hp => ?_, fun p p' np hp hp' => ?_⟩
  · rw [hpc, hlock]
    by_cases hi : i = q
    · rw [hi, hself]
      exact hok
    rw [hne i hi]
    exact h.ok i
  · by_cases hq : q = initproc
    · rw [← hq, hself]
      exact hinit hq
    rw [hne initproc (fun e => hq e.symm)]
    exact h.init
  · rw [hpc] at hp
    by_cases hnp : np = q
    · rw [hnp, hself]
      exact hused.resolve_right (fun hno => hno p (hnp ▸ hp))
    rw [hne np hnp]
    exact h.child p np hp
  rw [hpc] at hp hp'
  exact h.forker p p' np hp hp'

lemma Control.not_holder (hp : (s.pc p).holds = false) : s.wait_lock ≠ some p := by
  intro hl
  rw [((h.ok p).lock).mpr hl] at hp
  cases hp

lemma Control.holder (hp : (s.pc p).holds = true) : s.wait_lock = some p :=
  (h.ok p).lock.mp hp

lemma Control.idle_of (hq : (s.proc q).state.live = false) : s.pc q = .idle := by
  by_contra hne
  rw [(h.ok q).live hne] at hq
  cases hq

lemma Control.not_forked (hq : (s.proc q).state ≠ .used) (p : Fin nproc) :
    (s.pc p).forks ≠ some q := fun hp => hq (h.child p q hp)
end

lemma PcOk.wake (h : PcOk q v c l) (hs : v.state = .sleeping) (k : Bool) :
    PcOk q { v with state := .runnable, killed := k } c l := by
  have hl : l ≠ some q := by
    intro hl
    rw [h.holder hl] at hs
    cases hs
  exact ⟨h.lock, fun e => absurd e hl, fun _ => rfl, h.exiting, fun _ _ => ⟨by simp, by simp⟩⟩

lemma wakeOne_pc : (s.wakeOne p chan q).pc = s.pc := by
  rw [Kernel.wakeOne]
  split <;> rfl

lemma wakeOne_running (hr : (s.proc p).state = .running) :
    ((s.wakeOne p chan q).proc p).state = .running := by
  rw [Kernel.wakeOne]
  split
  · rename_i hw
    simpa [setProc, Ne.symm hw.1] using hr
  exact hr

section
variable (h : Control s)
include h

lemma Control.wakeOne (p : Fin nproc) (chan : Option Chan) (q : Fin nproc) :
    Control (s.wakeOne p chan q) := by
  rw [Kernel.wakeOne]
  split
  · rename_i hw
    refine h.other rfl rfl rfl ((h.ok q).wake hw.2.1 _) (fun _ => rfl) (.inr ?_)
    exact h.not_forked (by simp [hw.2.1])
  exact h

lemma Control.kill (p : Fin nproc) :
    Control (s.setProc p { wakes (s.proc p) with killed := true }) := by
  have hok := h.ok p
  by_cases hs : (s.proc p).state = .sleeping
  · simp only [wakes, hs, if_true]
    exact h.other rfl rfl rfl (hok.wake hs true) (fun _ => rfl) (.inr (h.not_forked (by simp [hs])))
  simp only [wakes, hs, if_false]
  refine h.other rfl rfl rfl ⟨hok.lock, hok.holder, hok.live, hok.exiting, hok.asleep⟩ ?_ ?_
  · rintro rfl
    exact h.init
  by_cases hu : (s.proc p).state = .used
  · exact .inl hu
  exact .inr (h.not_forked hu)

lemma Control.setParent (q : Fin nproc) (x : Option (Fin nproc)) :
    Control (s.setProc q { s.proc q with parent := x }) := by
  have hok := h.ok q
  refine h.other rfl rfl rfl ⟨hok.lock, hok.holder, hok.live, hok.exiting, hok.asleep⟩ ?_ ?_
  · rintro rfl
    exact h.init
  by_cases hu : (s.proc q).state = .used
  · exact .inl hu
  exact .inr (h.not_forked hu)

lemma Control.walk (hr : (s.proc p).state = .running) (hp : (s.pc p).holds = false)
    (hc : c.holds = false) (hexit : c.exiting = true → p ≠ initproc)
    (hasleep : ∀ addr, c ≠ .waitAsleep addr) (hforks : c.forks = none) : Control (s.setPc p c) :=
  h.move rfl rfl hr (iff_of_false (by simp [hc]) (h.not_holder hp)) (fun _ _ => Iff.rfl) hexit
    hasleep (by simp [hforks])

lemma Control.loop (hr : (s.proc p).state = .running) (hp : (s.pc p).holds = true)
    (hc : c.holds = true) (hexit : c.exiting = true → (s.pc p).exiting = true)
    (hasleep : ∀ addr, c ≠ .waitAsleep addr) (hforks : c.forks = none) : Control (s.setPc p c) :=
  h.move rfl rfl hr (iff_of_true hc (h.holder hp)) (fun _ _ => Iff.rfl)
    (fun he => (h.ok p).exiting (hexit he)) hasleep (by simp [hforks])

lemma Control.lock (hr : (s.proc p).state = .running) (hl : s.wait_lock = none)
    (hc : c.holds = true) (hexit : c.exiting = true → (s.pc p).exiting = true)
    (hasleep : ∀ addr, c ≠ .waitAsleep addr) (hforks : c.forks = none) :
    Control { s.setPc p c with wait_lock := some p } := by
  refine h.move rfl rfl hr (iff_of_true hc rfl) (fun q hq => ?_)
    (fun he => (h.ok p).exiting (hexit he)) hasleep (by simp [hforks])
  rw [hl]
  simp [Ne.symm hq]

lemma Control.free_lock (hp : (s.pc p).holds = true) (q : Fin nproc) (hq : q ≠ p) :
    none = some q ↔ s.wait_lock = some q := by
  rw [h.holder hp]
  simp [Ne.symm hq]

lemma Control.forkFound {np : Fin nproc} {i : Nat} (hr : (s.proc p).state = .running)
    (hp : s.pc p = .forkScan i) (hu : (s.proc np).state = .unused)
    (hproc : s'.proc = update s.proc np v) (hv : v.state = .used)
    (hpc : s'.pc = update s.pc p (.forkParent np)) (hl : s'.wait_lock = s.wait_lock) :
    Control s' := by
  have hne : p ≠ np := by
    rintro rfl
    rw [hr] at hu
    cases hu
  have hidle : s.pc np = .idle := h.idle_of (by rw [hu]; rfl)
  have hnl : s.wait_lock ≠ some np := h.not_holder (by rw [hidle]; rfl)
  have h1 : Control { s with proc := update s.proc np v } := by
    refine h.other rfl rfl rfl (hidle ▸ PcOk.idle hnl) ?_ (.inl hv)
    rintro rfl
    have := h.init
    rw [hu] at this
    cases this
  refine h1.move (p := p) (c := .forkParent np) hproc hpc ?_ ?_ ?_ (by simp [Pc.exiting])
    (by simp) ?_
  · show (update s.proc np v p).state = .running
    rw [update_of_ne hne, hr]
  · rw [hl]
    exact iff_of_false (by simp [Pc.holds]) (h.not_holder (by rw [hp]; rfl))
  · intro q _
    rw [hl]
  intro np' hnp'
  obtain rfl : np = np' := Option.some.inj hnp'
  refine ⟨hne.symm, ?_, fun q _ => h.not_forked (by simp [hu]) q⟩
  show (update s.proc np v np).state = .used
  rw [update_self, hv]

lemma Control.freeproc (hq : (s.proc q).state = .unused ∨ (s.proc q).state = .zombie) :
    Control (s.setProc q free) := by
  have hdead : (s.proc q).state.live = false := by rcases hq with hq | hq <;> rw [hq] <;> rfl
  have hidle := h.idle_of hdead
  refine h.other rfl rfl rfl (hidle ▸ PcOk.idle (h.not_holder (by rw [hidle]; rfl))) ?_
    (.inr (h.not_forked ?_))
  · rintro rfl
    rw [h.init] at hdead
    cases hdead
  rcases hq with hq | hq <;> simp [hq]

omit h in
lemma setPc_of_ne {c : Pc} (q : Fin nproc) (hq : q ≠ p) : (s.setPc p c).pc q = s.pc q := by
  simp [setPc, hq]

omit h in
lemma ne_of_running (hr : (s.proc p).state = .running) (hq : (s.proc q).state ≠ .running) :
    p ≠ q := by
  rintro rfl
  exact hq hr

lemma Control.childOf (hr : (s.proc p).state = .running) (hp : (s.pc p).forks = some q) :
    (s.proc q).state = .used ∧ q ≠ p ∧ ∀ t, (s.pc t).forks = some q → t = p := by
  have hu := h.child p q hp
  exact ⟨hu, (ne_of_running hr (by simp [hu])).symm, fun t ht => h.forker t p q ht hp⟩

lemma Control.forkParent (hr : (s.proc p).state = .running) (hp : s.pc p = .forkParent q) :
    Control ((s.setProc q { s.proc q with parent := some p }).setPc p (.forkRun q)) := by
  obtain ⟨hu, hne, hforker⟩ := h.childOf hr (by rw [hp]; rfl)
  refine (h.setParent q (some p)).move (p := p) (c := .forkRun q) rfl rfl ?_ ?_ ?_
    (by simp [Pc.exiting]) (by simp) ?_
  · simpa [setProc, hne.symm] using hr
  · exact iff_of_false (by simp [Pc.holds]) (h.not_holder (by rw [hp]; rfl))
  · exact fun _ _ => Iff.rfl
  intro np hnp
  obtain rfl : q = np := Option.some.inj hnp
  exact ⟨hne, by simpa [setProc] using hu, fun t ht hfork => ht (hforker t hfork)⟩

lemma Control.forkRun (hr : (s.proc p).state = .running) (hp : s.pc p = .forkRun q) :
    Control ((s.setPc p .idle).setProc q { s.proc q with state := .runnable }) := by
  obtain ⟨hu, hne, hforker⟩ := h.childOf hr (by rw [hp]; rfl)
  have hwalk : Control (s.setPc p .idle) :=
    h.walk hr (by rw [hp]; rfl) rfl (by simp [Pc.exiting]) (by simp) rfl
  have hidle : s.pc q = .idle := h.idle_of (by rw [hu]; rfl)
  have hok : PcOk q { s.proc q with state := .runnable } ((s.setPc p .idle).pc q)
      s.wait_lock := by
    rw [setPc_of_ne q hne, hidle]
    exact PcOk.idle (h.not_holder (by rw [hidle]; rfl))
  refine hwalk.other rfl rfl rfl hok (fun _ => rfl) (.inr fun t hfork => ?_)
  by_cases ht : t = p
  · simp [setPc, ht, Pc.forks] at hfork
  rw [setPc_of_ne t ht] at hfork
  exact ht (hforker t hfork)

lemma Control.step (hs : Step s s') : Control s' := by
  cases hs with
  | fork p hr hp
  | wait p addr hr hp
  | forkNone p i hr hp
  | forkNext p i hr hp => exact h.walk hr (by rw [hp]; rfl) rfl (by simp [Pc.exiting]) (by simp) rfl
  | initExits => exact ⟨h.ok, h.init, h.child, h.forker⟩
  | exit p st hr hp hi => exact h.walk hr (by rw [hp]; rfl) rfl (fun _ => hi) (by simp) rfl
  | forkFound p np i hr hp hu => exact h.forkFound hr hp hu rfl rfl rfl rfl
  | forkFail p np i hr hp hu =>
    have hne := ne_of_running hr (by simp [hu] : (s.proc np).state ≠ .running)
    have h1 := (h.freeproc (.inl hu)).walk (p := p) (c := .idle)
      (by simpa [setProc, hne] using hr) (by simp [setProc, hp, Pc.holds]) rfl
      (by simp [Pc.exiting]) (by simp) rfl
    exact ⟨h1.ok, h1.init, h1.child, h1.forker⟩
  | forkParent p np hr hp hl =>
    have h1 := h.forkParent hr hp
    exact ⟨h1.ok, h1.init, h1.child, h1.forker⟩
  | forkRun p np hr hp => exact h.forkRun hr hp
  | exitLock p st hr hp hl => exact h.lock hr hl rfl (by simp [hp, Pc.exiting]) (by simp) rfl
  | reparentEnd p st i hr hp hi
  | reparentSkip p pp st hr hp hpp
  | wakeInitEnd p st i j hr hp hj
  | wakeParentEnd p st j hr hp hj =>
    exact h.loop hr (by rw [hp]; rfl) rfl (by simp [hp, Pc.exiting]) (by simp) rfl
  | reparent p pp st hr hp hpp =>
    refine (h.setParent pp (some initproc)).loop ?_ (by simp [setProc, hp, Pc.holds]) rfl
      (by simp [setProc, hp, Pc.exiting]) (by simp) rfl
    by_cases hq : p = pp
    · simp [setProc, ← hq, hr]
    simp [setProc, hq, hr]
  | wakeInit p q st i hr hp =>
    have hpc : (s.wakeOne p (some (.proc initproc)) q).pc = s.pc := wakeOne_pc
    exact (h.wakeOne p _ q).loop (by rw [wakeOne_running hr]) (by rw [hpc, hp]; rfl) rfl
      (by simp [hpc, hp, Pc.exiting]) (by simp) rfl
  | wakeParent p q st hr hp =>
    have hpc : (s.wakeOne p ((s.proc p).parent.map .proc) q).pc = s.pc := wakeOne_pc
    exact (h.wakeOne p _ q).loop (by rw [wakeOne_running hr]) (by rw [hpc, hp]; rfl) rfl
      (by simp [hpc, hp, Pc.exiting]) (by simp) rfl
  | zombie p st hr hp =>
    refine h.act rfl rfl (PcOk.idle (by simp [Kernel.exitZombie])) ?_ ?_ (by simp [hr])
      (by simp [Pc.forks])
    · exact fun q hq => h.free_lock (by rw [hp]; rfl) q hq
    intro hpi
    exact absurd hpi ((h.ok p).exiting (by rw [hp]; rfl))
  | waitLock p addr hr hp hl => exact h.lock hr hl rfl (by simp [Pc.exiting]) (by simp) rfl
  | waitReturn p addr kids i hr hp =>
    refine h.move (p := p) (c := .idle) rfl rfl hr (by simp [Pc.holds]) ?_ (by simp [Pc.exiting])
      (by simp) (by simp [Pc.forks])
    exact fun q hq => h.free_lock (by rw [hp]; rfl) q hq
  | waitEnd p addr kids i hr hp hi
  | waitNext p pp addr kids kids' hr hp hpp =>
    exact h.loop hr (by rw [hp]; rfl) rfl (by simp [Pc.exiting]) (by simp) rfl
  | reap p pp addr kids hr hp hpp hz =>
    have hne := ne_of_running hr (by simp [hz] : (s.proc pp).state ≠ .running)
    refine (h.freeproc (.inr hz)).move (p := p) (c := .idle) rfl rfl ?_ (by simp [Pc.holds]) ?_
      (by simp [Pc.exiting]) (by simp) (by simp [Pc.forks])
    · simpa [setProc, hne] using hr
    exact fun q hq => h.free_lock (by rw [hp]; rfl) q hq
  | waitSleep p addr hr hp =>
    refine h.act rfl rfl ⟨by simp [Pc.holds, Kernel.waitSleep], by simp [Kernel.waitSleep],
      fun _ => rfl, by simp [Pc.exiting], fun _ _ => ⟨by simp, fun _ => rfl⟩⟩ ?_ (fun _ => rfl)
      (by simp [hr]) (by simp [Pc.forks])
    exact fun q hq => h.free_lock (by rw [hp]; rfl) q hq
  | resume p addr hr hp =>
    refine h.act rfl rfl ⟨?_, fun _ => rfl, fun _ => rfl, by simp [Pc.exiting], by simp⟩
      (fun _ _ => Iff.rfl) (fun _ => rfl) (by simp [hr]) (by simp [Pc.forks])
    exact iff_of_false (by simp [Pc.holds]) (h.not_holder (by rw [hp]; rfl))
  | run p hr hp =>
    have hok := h.ok p
    refine h.other rfl rfl rfl ⟨hok.lock, fun _ => rfl, fun _ => rfl, hok.exiting, ?_⟩
      (fun _ => rfl) (.inr (h.not_forked (by simp [hr])))
    exact fun addr ha => absurd ha (hp addr)
  | yield p hr hl =>
    have hok := h.ok p
    refine h.other rfl rfl rfl ⟨hok.lock, fun e => absurd e hl, fun _ => rfl, hok.exiting, ?_⟩
      (fun _ => rfl) (.inr (h.not_forked (by simp [hr])))
    exact fun addr ha => absurd hr (hok.asleep addr ha).1
  | sleep p n hr hp =>
    have hok := h.ok p
    have hnl : s.wait_lock ≠ some p := by
      apply h.not_holder
      rw [maySleep] at hp
      split at hp <;> simp_all [Pc.holds]
    refine h.other rfl rfl rfl ⟨hok.lock, fun e => absurd e hnl, fun _ => rfl, hok.exiting, ?_⟩
      (fun _ => rfl) (.inr (h.not_forked (by simp [hr])))
    exact fun addr ha => absurd hr (hok.asleep addr ha).1
  | wakeup p hr =>
    exact h.other rfl rfl rfl ((h.ok p).wake hr _) (fun _ => rfl)
      (.inr (h.not_forked (by simp [hr])))
  | kill p => exact h.kill p
end
end Kernel
end Proc
end Xv6
