import Xv6.Proc.Control

namespace Xv6.Proc
open Function

namespace Pc
def passed : Pc → Nat → Bool
  | exitReparent _ k, i => i < k
  | exitWakeInit _ k _, i => i ≤ k
  | exitWakeParent _ _, _ | exitZombie _, _ => true
  | _, _ => false

def scanned : Pc → Nat → Bool
  | waitScan _ _ k, i => i < k
  | waitSleep _, _ => true
  | _, _ => false

def woken : Pc → Nat → Bool
  | exitWakeParent _ j, i => i < j
  | exitZombie _, _ => true
  | _, _ => false

def handing : Pc → Bool
  | exitWakeInit _ _ j => j ≤ initproc.val
  | _ => false

def sleeps : Pc → Bool
  | waitAsleep _ => true
  | _ => false

variable {c : Pc} {i : Nat}

lemma exiting_of_passed (h : c.passed i = true) : c.exiting = true := by
  cases c <;> first | rfl | cases h

lemma holds_of_scanned (h : c.scanned i = true) : c.holds = true := by
  cases c <;> first | rfl | cases h

lemma holds_of_woken (h : c.woken i = true) : c.holds = true := by
  cases c <;> first | rfl | cases h

lemma holds_of_handing (h : c.handing = true) : c.holds = true := by
  cases c <;> first | rfl | cases h

lemma idle_of_sleeps (h : c.sleeps = true) : ∃ addr, c = .waitAsleep addr := by
  cases c with
  | waitAsleep addr => exact ⟨addr, rfl⟩
  | _ => cases h
end Pc
namespace Kernel
def asleep (s : Kernel) (q : Fin nproc) : Prop :=
  (s.proc q).state = .sleeping ∧ (s.pc q).sleeps = true

instance (s : Kernel) (q : Fin nproc) : Decidable (s.asleep q) :=
  inferInstanceAs (Decidable (_ ∧ _))

/-- Parents live, and none sleeps over a zombie. -/
structure Family (s : Kernel) : Prop where
  live : ∀ i q, (s.proc i).parent = some q → (s.proc q).state.live = true
  passed : ∀ p i, (s.pc p).passed i.val = true → (s.proc i).parent ≠ some p
  scanned : ∀ p i, (s.pc p).scanned i.val = true → (s.proc i).parent = some p →
    (s.proc i).state ≠ .zombie
  woken : ∀ p q, (s.pc p).woken q.val = true → (s.proc p).parent = some q → ¬s.asleep q
  zombie : ∀ i q, (s.proc i).parent = some q → (s.proc i).state = .zombie → s.asleep q →
    q = initproc ∧ ∃ p, (s.pc p).handing = true

lemma boot_parent (i : Fin nproc) : (boot.proc i).parent = none := by
  by_cases hi : i = initproc
  · rw [hi]
    rfl
  simp [boot, hi, free]

lemma family_boot : Family boot := by refine ⟨?_, ?_, ?_, ?_, ?_⟩ <;> simp [boot_parent]

variable {s s' : Kernel} {p q : Fin nproc} {c : Pc} {v : Proc}

lemma pc_back {b : Pc → Bool} (hpc : s'.pc = update s.pc p c) (hc : b c = false)
    (hq : b (s'.pc q) = true) : q ≠ p ∧ b (s.pc q) = true := by
  rw [hpc] at hq
  by_cases hqp : q = p
  · rw [hqp, update_self, hc] at hq
    cases hq
  rw [update_of_ne hqp] at hq
  exact ⟨hqp, hq⟩

lemma asleep_back (hstate : ∀ i, (s'.proc i).state = (s.proc i).state)
    (hpc : s'.pc = update s.pc p c) (hc : c.sleeps = false) (hq : s'.asleep q) : s.asleep q := by
  obtain ⟨h1, h2⟩ := hq
  rw [hstate] at h1
  exact ⟨h1, (pc_back (b := Pc.sleeps) hpc hc h2).2⟩

structure Calm (s s' : Kernel) : Prop where
  parent : ∀ i, (s'.proc i).parent = (s.proc i).parent
  live : ∀ q, (s.proc q).state.live = true → (s'.proc q).state.live = true
  zombie : ∀ i, (s'.proc i).state = .zombie → (s.proc i).state = .zombie
  asleep : ∀ q, s'.asleep q → s.asleep q

lemma Family.calm (h : Family s) (hc : Calm s s') (hpc : ∀ q, q ≠ p → s'.pc q = s.pc q)
    (hpassed : ∀ i : Fin nproc, (s'.pc p).passed i.val = true → (s.pc p).passed i.val = true ∨
      (s.proc i).parent ≠ some p)
    (hscan : ∀ i : Fin nproc, (s'.pc p).scanned i.val = true → (s.pc p).scanned i.val = true ∨
      ((s.proc i).parent = some p → (s.proc i).state ≠ .zombie))
    (hwoken : ∀ q : Fin nproc, (s'.pc p).woken q.val = true → (s.pc p).woken q.val = true ∨
      ((s.proc p).parent = some q → ¬s'.asleep q))
    (hhand : (s.pc p).handing = true → (s'.pc p).handing = true ∨ ¬s'.asleep initproc) :
    Family s' := by
  refine ⟨fun i q hi => ?_, fun q i hq => ?_, fun q i hq hi hz => ?_, fun q q' hq hi ha => ?_,
    fun i q hi hz ha => ?_⟩
  · rw [hc.parent] at hi
    exact hc.live q (h.live i q hi)
  · rw [hc.parent]
    by_cases hqp : q = p
    · rw [hqp] at hq ⊢
      rcases hpassed i hq with hq | hq
      · exact h.passed p i hq
      exact hq
    rw [hpc q hqp] at hq
    exact h.passed q i hq
  · rw [hc.parent] at hi
    have hz := hc.zombie i hz
    by_cases hqp : q = p
    · rw [hqp] at hq hi
      rcases hscan i hq with hq | hq
      · exact h.scanned p i hq hi hz
      exact hq hi hz
    rw [hpc q hqp] at hq
    exact h.scanned q i hq hi hz
  · rw [hc.parent] at hi
    by_cases hqp : q = p
    · rw [hqp] at hq hi
      rcases hwoken q' hq with hq | hq
      · exact h.woken p q' hq hi (hc.asleep q' ha)
      exact hq hi ha
    rw [hpc q hqp] at hq
    exact h.woken q q' hq hi (hc.asleep q' ha)
  rw [hc.parent] at hi
  obtain ⟨rfl, p', hp'⟩ := h.zombie i q hi (hc.zombie i hz) (hc.asleep q ha)
  refine ⟨rfl, ?_⟩
  by_cases hpp : p' = p
  · rw [hpp] at hp'
    rcases hhand hp' with hh | hh
    · exact ⟨p, hh⟩
    exact absurd ha hh
  exact ⟨p', by rwa [hpc p' hpp]⟩

lemma calm_move (hproc : s'.proc = s.proc) (hpc : s'.pc = update s.pc p c)
    (hc : c.sleeps = false) : Calm s s' := by
  refine ⟨fun i => by rw [hproc], fun q hq => by rwa [hproc], fun i hi => by rwa [hproc] at hi,
    fun q hq => ?_⟩
  obtain ⟨hs, hq⟩ := hq
  rw [hproc] at hs
  exact ⟨hs, (pc_back (b := Pc.sleeps) hpc hc hq).2⟩

lemma calm_slot (hproc : s'.proc = update s.proc q v) (hpar : v.parent = (s.proc q).parent)
    (hlive : (s.proc q).state.live = true → v.state.live = true)
    (hz : v.state = .zombie → (s.proc q).state = .zombie)
    (hpc : ∀ i, i ≠ q → s'.asleep i → (s.pc i).sleeps = true)
    (hsl : s'.asleep q → s.asleep q) : Calm s s' := by
  have hself : s'.proc q = v := by rw [hproc, update_self]
  have hne : ∀ i, i ≠ q → s'.proc i = s.proc i := by
    intro i hi
    rw [hproc, update_of_ne hi]
  refine ⟨fun i => ?_, fun i hi => ?_, fun i hi => ?_, fun i hi => ?_⟩
  · by_cases hiq : i = q
    · rw [hiq, hself, hpar]
    rw [hne i hiq]
  · by_cases hiq : i = q
    · rw [hiq, hself]
      exact hlive (hiq ▸ hi)
    rwa [hne i hiq]
  · by_cases hiq : i = q
    · rw [hiq, hself] at hi
      rw [hiq]
      exact hz hi
    rwa [hne i hiq] at hi
  by_cases hiq : i = q
  · rw [hiq] at hi ⊢
    exact hsl hi
  have hs := hi.1
  rw [hne i hiq] at hs
  exact ⟨hs, hpc i hiq hi⟩

lemma Family.forget (h : Family s) (hc : Calm s s') (hpc : ∀ q, q ≠ p → s'.pc q = s.pc q)
    (hknow : (s'.pc p).holds = false) (hexit : ∀ i, (s'.pc p).passed i = false)
    (hhand : (s.pc p).handing = false) : Family s' := by
  refine h.calm hc hpc (fun i hi => ?_) (fun i hi => ?_) (fun i hi => ?_) fun hi => ?_
  · rw [hexit] at hi
    cases hi
  · rw [Pc.holds_of_scanned hi] at hknow
    cases hknow
  · rw [Pc.holds_of_woken hi] at hknow
    cases hknow
  rw [hhand] at hi
  cases hi

lemma Family.still (h : Family s) (hc : Calm s s') (hpc : s'.pc = s.pc) : Family s' := by
  refine h.calm (p := initproc) hc (fun q _ => by rw [hpc]) (fun i hi => .inl ?_)
    (fun i hi => .inl ?_) (fun i hi => .inl ?_) (fun hi => .inl ?_) <;> rwa [hpc] at *

lemma setPc_self : (s.setPc p c).pc p = c := by simp [setPc]

lemma Family.walk (h : Family s) (hpc : s'.pc = update s.pc p c)
    (hproc : s'.proc = s.proc) (hk : c.holds = false) (hs : c.sleeps = false)
    (hx : ∀ i, c.passed i = false) (hhand : (s.pc p).handing = false) : Family s' := by
  have hself : s'.pc p = c := by rw [hpc, update_self]
  refine h.forget (calm_move hproc hpc hs) (fun q hq => ?_) (by rw [hself]; exact hk)
    (fun i => by rw [hself]; exact hx i) hhand
  rw [hpc, update_of_ne hq]

lemma Control.asleep_chan (h : Control s) (hq : s.asleep q) :
    (s.proc q).chan = some (.proc q) := by
  obtain ⟨addr, ha⟩ := Pc.idle_of_sleeps hq.2
  exact ((h.ok q).asleep addr ha).2 hq.1

lemma Control.unique_holder (h : Control s) (hp : (s.pc p).holds = true)
    (hq : (s.pc q).holds = true) : q = p :=
  Option.some.inj ((h.holder hq).symm.trans (h.holder hp))

lemma calm_wakeOne {chan : Option Chan} (hc : c.sleeps = false) :
    Calm s ((s.wakeOne p chan q).setPc p c) := by
  have hpc : ∀ i, ((s.wakeOne p chan q).setPc p c).asleep i → (s.pc i).sleeps = true := by
    intro i hi
    have hs := (pc_back (b := Pc.sleeps) rfl hc hi.2).2
    rwa [wakeOne_pc] at hs
  by_cases hw : q ≠ p ∧ (s.proc q).state = .sleeping ∧ (s.proc q).chan = chan
  · have hproc : ((s.wakeOne p chan q).setPc p c).proc =
        update s.proc q { s.proc q with state := .runnable } := by
      simp only [Kernel.wakeOne, hw, setPc, setProc, ne_eq, not_false_eq_true, and_self, if_true]
    refine calm_slot hproc rfl (fun _ => rfl) (by simp) (fun i _ => hpc i) fun hq => ?_
    have hs := hq.1
    rw [hproc, update_self] at hs
    cases hs
  have hproc : ((s.wakeOne p chan q).setPc p c).proc = s.proc := by
    simp only [Kernel.wakeOne, if_neg hw, setPc]
  refine ⟨fun i => by rw [hproc], fun i hi => by rwa [hproc], fun i hi => by rwa [hproc] at hi,
    fun i hi => ⟨?_, hpc i hi⟩⟩
  have := hi.1
  rwa [hproc] at this

lemma wakeOne_not_asleep (h : Control s) (hr : (s.proc p).state = .running)
    (hc : c.sleeps = false) : ¬((s.wakeOne p (some (.proc q)) q).setPc p c).asleep q := by
  intro ha
  have hbefore := (calm_wakeOne hc).asleep q ha
  have hne : q ≠ p := by
    rintro rfl
    rw [hbefore.1] at hr
    cases hr
  have hs := ha.1
  simp [Kernel.wakeOne, hne, hbefore.1, h.asleep_chan hbefore, setPc, setProc] at hs

section
variable (h : Family s)
include h

lemma Family.reparent (hcl : Control s) {pp : Fin nproc} {st : Int}
    (hp : s.pc p = .exitReparent st pp.val) :
    Family ((s.setProc pp { s.proc pp with parent := some initproc }).setPc p
      (.exitWakeInit st pp.val 0)) := by
  have hhold : (s.pc p).holds = true := by rw [hp]; rfl
  have hpi : p ≠ initproc := (hcl.ok p).exiting (by rw [hp]; rfl)
  generalize hs' : (s.setProc pp { s.proc pp with parent := some initproc }).setPc p
    (.exitWakeInit st pp.val 0) = s'
  have hstate : ∀ i, (s'.proc i).state = (s.proc i).state := by
    intro i
    by_cases hi : i = pp <;> simp [← hs', setPc, setProc, hi]
  have hpar : ∀ i, i ≠ pp → (s'.proc i).parent = (s.proc i).parent := by
    intro i hi
    simp [← hs', setPc, setProc, hi]
  have hparpp : (s'.proc pp).parent = some initproc := by simp [← hs', setPc, setProc]
  have hpc : s'.pc = update s.pc p (.exitWakeInit st pp.val 0) := by
    rw [← hs']
    rfl
  have hasleep := fun q => asleep_back (q := q) hstate hpc rfl
  refine ⟨fun i q hi => ?_, fun q i hq => ?_, fun q i hq => ?_, fun q q' hq => ?_,
    fun i q hi hz ha => ?_⟩
  · rw [hstate]
    by_cases hip : i = pp
    · rw [hip, hparpp] at hi
      exact Option.some.inj hi ▸ hcl.init
    rw [hpar i hip] at hi
    exact h.live i q hi
  · by_cases hip : i = pp
    · -- the slot belongs to init now, which does not exit
      rw [hip, hparpp]
      intro he
      obtain rfl := Option.some.inj he
      rw [hpc, update_of_ne (fun e => hpi e.symm)] at hq
      exact (hcl.ok initproc).exiting (Pc.exiting_of_passed hq) rfl
    · rw [hpar i hip]
      rw [hpc] at hq
      by_cases hqp : q = p
      · rw [hqp] at hq ⊢
        rw [update_self] at hq
        apply h.passed p i
        rw [hp]
        have hle : i.val ≤ pp.val := by simpa [Pc.passed] using hq
        have hne : i.val ≠ pp.val := fun e => hip (Fin.ext e)
        simp only [Pc.passed, decide_eq_true_eq]
        omega
      rw [update_of_ne hqp] at hq
      exact h.passed q i hq
  · obtain ⟨hqp, hq⟩ := pc_back (b := (·.scanned i.val)) hpc rfl hq
    exact absurd (hcl.unique_holder hhold (Pc.holds_of_scanned hq)) hqp
  · obtain ⟨hqp, hq⟩ := pc_back (b := (·.woken q'.val)) hpc rfl hq
    exact absurd (hcl.unique_holder hhold (Pc.holds_of_woken hq)) hqp
  refine ⟨?_, p, by rw [hpc, update_self]; rfl⟩
  by_cases hip : i = pp
  · rw [hip, hparpp] at hi
    exact (Option.some.inj hi).symm
  rw [hpar i hip] at hi
  rw [hstate] at hz
  exact (h.zombie i q hi hz (hasleep q ha)).1

lemma Family.unlock (hcl : Control s) (hhold : (s.pc p).holds = true)
    (hhand : (s.pc p).handing = false) (hpar : ∀ i, (s'.proc i).parent = (s.proc i).parent)
    (hpc : s'.pc = update s.pc p c) (hc : c.holds = false) (hpassed : ∀ i, c.passed i = false)
    (hlive : ∀ i q, (s.proc i).parent = some q → (s'.proc q).state.live = true)
    (hzombie : ∀ i q, (s.proc i).parent = some q → (s'.proc i).state = .zombie → s'.asleep q →
      (s.proc i).state = .zombie ∧ s.asleep q) : Family s' := by
  have hother : ∀ q, (s'.pc q).holds = true → False := by
    intro q hq
    obtain ⟨hqp, hq⟩ := pc_back (b := Pc.holds) hpc hc hq
    exact hqp (hcl.unique_holder hhold hq)
  refine ⟨fun i q hi => ?_, fun q i hq => ?_, fun q i hq => ?_, fun q q' hq => ?_,
    fun i q hi hz ha => ?_⟩
  · rw [hpar] at hi
    exact hlive i q hi
  · rw [hpar]
    exact h.passed q i (pc_back (b := (·.passed i.val)) hpc (hpassed i) hq).2
  · exact absurd (Pc.holds_of_scanned hq) fun hh => hother q hh
  · exact absurd (Pc.holds_of_woken hq) fun hh => hother q hh
  rw [hpar] at hi
  obtain ⟨hz, ha⟩ := hzombie i q hi hz ha
  obtain ⟨rfl, p', hp'⟩ := h.zombie i q hi hz ha
  have hpp := hcl.unique_holder hhold (Pc.holds_of_handing hp')
  rw [hpp, hhand] at hp'
  cases hp'

lemma Family.exitZombie (hcl : Control s) {st : Int} (hp : s.pc p = .exitZombie st) :
    Family (s.exitZombie p st) := by
  have hhold : (s.pc p).holds = true := by rw [hp]; rfl
  have hkids : ∀ i, (s.proc i).parent ≠ some p := fun i => h.passed p i (by rw [hp]; rfl)
  generalize hs' : s.exitZombie p st = s'
  have hpar : ∀ i, (s'.proc i).parent = (s.proc i).parent := by
    intro i
    by_cases hi : i = p <;> simp [← hs', Kernel.exitZombie, setPc, setProc, hi]
  have hstate : ∀ i, i ≠ p → (s'.proc i).state = (s.proc i).state := by
    intro i hi
    simp [← hs', Kernel.exitZombie, setPc, setProc, hi]
  have hpc : s'.pc = update s.pc p .idle := by
    rw [← hs']
    rfl
  refine h.unlock hcl hhold (by rw [hp]; rfl) hpar hpc rfl (fun _ => rfl) (fun i q hi => ?_)
    fun i q hi hz ha => ?_
  · have hqp : q ≠ p := fun e => hkids i (e ▸ hi)
    rw [hstate q hqp]
    exact h.live i q hi
  obtain ⟨h1, h2⟩ := ha
  obtain ⟨hqp, h2⟩ := pc_back (b := Pc.sleeps) hpc rfl h2
  rw [hstate q hqp] at h1
  by_cases hip : i = p
  · -- its parent was woken under the same hold of `wait_lock`
    rw [hip] at hi
    exact absurd ⟨h1, h2⟩ (h.woken p q (by rw [hp]; rfl) hi)
  rw [hstate i hip] at hz
  exact ⟨hz, h1, h2⟩

lemma Family.clear {x : Fin nproc} (hproc : s'.proc = update s.proc x free)
    (hx : (s.proc x).state.live = false) (hpc : s'.pc = update s.pc p c) (hk : c = .idle)
    (hhand : (s.pc p).handing = false) : Family s' := by
  have hself : s'.proc x = free := by rw [hproc, update_self]
  have hne : ∀ i, i ≠ x → s'.proc i = s.proc i := by
    intro i hi
    rw [hproc, update_of_ne hi]
  rw [hk] at hpc
  have hparent : ∀ i q, (s'.proc i).parent = some q → i ≠ x ∧ (s.proc i).parent = some q := by
    intro i q hi
    by_cases hix : i = x
    · rw [hix, hself] at hi
      cases hi
    rw [hne i hix] at hi
    exact ⟨hix, hi⟩
  have hasleep : ∀ q, s'.asleep q → s.asleep q := by
    intro q hq
    obtain ⟨h1, h2⟩ := hq
    have h2 := (pc_back (b := Pc.sleeps) hpc rfl h2).2
    by_cases hqx : q = x
    · rw [hqx, hself] at h1
      cases h1
    rw [hne q hqx] at h1
    exact ⟨h1, h2⟩
  refine ⟨fun i q hi => ?_, fun q i hq => ?_, fun q i hq hi => ?_, fun q q' hq hi ha => ?_,
    fun i q hi hz ha => ?_⟩
  · obtain ⟨-, hi⟩ := hparent i q hi
    have hl := h.live i q hi
    have hqx : q ≠ x := by
      rintro rfl
      rw [hx] at hl
      cases hl
    rwa [hne q hqx]
  · have hq := (pc_back (b := (·.passed i.val)) hpc rfl hq).2
    exact fun hi => h.passed q i hq (hparent i q hi).2
  · obtain ⟨hix, hi⟩ := hparent i q hi
    rw [hne i hix]
    exact h.scanned q i (pc_back (b := (·.scanned i.val)) hpc rfl hq).2 hi
  · have hq := (pc_back (b := (·.woken q'.val)) hpc rfl hq).2
    exact h.woken q q' hq (hparent q q' hi).2 (hasleep q' ha)
  obtain ⟨hix, hi⟩ := hparent i q hi
  rw [hne i hix] at hz
  obtain ⟨rfl, p', hp'⟩ := h.zombie i q hi hz (hasleep q ha)
  refine ⟨rfl, p', ?_⟩
  have hpp : p' ≠ p := by
    rintro rfl
    rw [hhand] at hp'
    cases hp'
  rwa [hpc, update_of_ne hpp]

lemma Family.forkParent (hcl : Control s) {np : Fin nproc} (hr : (s.proc p).state = .running)
    (hp : s.pc p = .forkParent np) (hproc : s'.proc = update s.proc np v) (hv : v.state = .used)
    (hvp : v.parent = some p) (hpc : s'.pc = update s.pc p (.forkRun np)) : Family s' := by
  have hu := hcl.child p np (by rw [hp]; rfl)
  have hidle : s.pc np = .idle := hcl.idle_of (by rw [hu]; rfl)
  have hself : s'.proc np = v := by rw [hproc, update_self]
  have hne : ∀ i, i ≠ np → s'.proc i = s.proc i := by
    intro i hi
    rw [hproc, update_of_ne hi]
  have hstate : ∀ i, (s'.proc i).state = (s.proc i).state := by
    intro i
    by_cases hi : i = np
    · rw [hi, hself, hv, hu]
    rw [hne i hi]
  have hasleep := fun q => asleep_back (q := q) hstate hpc rfl
  have hold : ∀ i, (s'.proc i).state = .zombie → (s'.proc i).parent = (s.proc i).parent := by
    intro i hi
    by_cases hin : i = np
    · rw [hin, hself, hv] at hi
      cases hi
    rw [hne i hin]
  refine ⟨fun i q hi => ?_, fun q i hq => ?_, fun q i hq hi hz => ?_, fun q q' hq hi ha => ?_,
    fun i q hi hz ha => ?_⟩
  · rw [hstate]
    by_cases hin : i = np
    · rw [hin, hself, hvp] at hi
      rw [← Option.some.inj hi, hr]
      rfl
    rw [hne i hin] at hi
    exact h.live i q hi
  · obtain ⟨hqp, hq⟩ := pc_back (b := (·.passed i.val)) hpc rfl hq
    by_cases hin : i = np
    · rw [hin, hself, hvp]
      exact fun e => hqp (Option.some.inj e).symm
    rw [hne i hin]
    exact h.passed q i hq
  · rw [hold i hz] at hi
    rw [hstate] at hz
    exact h.scanned q i (pc_back (b := (·.scanned i.val)) hpc rfl hq).2 hi hz
  · obtain ⟨hqp, hq⟩ := pc_back (b := (·.woken q'.val)) hpc rfl hq
    have hqn : q ≠ np := by
      rintro rfl
      rw [hidle] at hq
      cases hq
    rw [hne q hqn] at hi
    exact h.woken q q' hq hi (hasleep q' ha)
  rw [hold i hz] at hi
  rw [hstate] at hz
  obtain ⟨rfl, p', hp'⟩ := h.zombie i q hi hz (hasleep q ha)
  refine ⟨rfl, p', ?_⟩
  have hpp : p' ≠ p := by
    rintro rfl
    rw [hp] at hp'
    cases hp'
  rwa [hpc, update_of_ne hpp]

lemma Family.waitSleep (hcl : Control s) {addr : Bool} (hp : s.pc p = .waitSleep addr) :
    Family (s.waitSleep p addr) := by
  have hhold : (s.pc p).holds = true := by rw [hp]; rfl
  generalize hs' : s.waitSleep p addr = s'
  have hpar : ∀ i, (s'.proc i).parent = (s.proc i).parent := by
    intro i
    by_cases hi : i = p <;> simp [← hs', Kernel.waitSleep, setPc, setProc, hi]
  have hne : ∀ i, i ≠ p → s'.proc i = s.proc i := by
    intro i hi
    simp [← hs', Kernel.waitSleep, setPc, setProc, hi]
  have hstp : (s'.proc p).state = .sleeping := by simp [← hs', Kernel.waitSleep, setPc, setProc]
  have hpc : s'.pc = update s.pc p (.waitAsleep addr) := by
    rw [← hs']
    rfl
  refine h.unlock hcl hhold (by rw [hp]; rfl) hpar hpc rfl (fun _ => rfl) (fun i q hi => ?_)
    fun i q hi hz ha => ?_
  · by_cases hqp : q = p
    · rw [hqp, hstp]
      rfl
    rw [hne q hqp]
    exact h.live i q hi
  have hip : i ≠ p := by
    rintro rfl
    rw [hstp] at hz
    cases hz
  rw [hne i hip] at hz
  by_cases hqp : q = p
  · rw [hqp] at hi
    exact absurd hz (h.scanned p i (by rw [hp]; rfl) hi)
  obtain ⟨h1, h2⟩ := ha
  rw [hne q hqp] at h1
  rw [hpc, update_of_ne hqp] at h2
  exact ⟨hz, h1, h2⟩

lemma Family.slot (hproc : s'.proc = update s.proc q v) (hpc : s'.pc = s.pc)
    (hpar : v.parent = (s.proc q).parent)
    (hlive : (s.proc q).state.live = true → v.state.live = true)
    (hz : v.state = .zombie → (s.proc q).state = .zombie)
    (hsl : v.state = .sleeping → (s.pc q).sleeps = true → (s.proc q).state = .sleeping) :
    Family s' := by
  refine h.still (calm_slot hproc hpar hlive hz (fun i _ hi => ?_) (fun hq => ?_)) hpc
  · have := hi.2
    rwa [hpc] at this
  obtain ⟨h1, h2⟩ := hq
  rw [hproc, update_self] at h1
  rw [hpc] at h2
  exact ⟨hsl h1 h2, h2⟩

omit h in
lemma val_lt_or_eq {i : Fin nproc} (hi : i.val < q.val + 1) : i.val < q.val ∨ i = q :=
  (Nat.lt_succ_iff_lt_or_eq.mp hi).imp_right Fin.ext

lemma Family.move {k : Pc} (hp : s.pc p = k) (hproc : s'.proc = s.proc)
    (hpc : s'.pc = update s.pc p c) (hc : c.sleeps = false)
    (hpassed : ∀ i : Fin nproc, c.passed i.val = true → k.passed i.val = true ∨
      (s.proc i).parent ≠ some p)
    (hscan : ∀ i : Fin nproc, c.scanned i.val = true → k.scanned i.val = true ∨
      ((s.proc i).parent = some p → (s.proc i).state ≠ .zombie))
    (hwoken : ∀ q : Fin nproc, c.woken q.val = true → k.woken q.val = true)
    (hhand : k.handing = true → c.handing = true) : Family s' := by
  have hself : s'.pc p = c := by rw [hpc, update_self]
  refine h.calm (calm_move hproc hpc hc) (fun q hq => by rw [hpc, update_of_ne hq]) ?_ ?_ ?_ ?_
  all_goals rw [hself, hp]
  · exact hpassed
  · exact hscan
  · exact fun q hq => .inl (hwoken q hq)
  exact fun hh => .inl (hhand hh)

lemma Family.wakeInit (hcl : Control s) {st : Int} {i : Nat}
    (hr : (s.proc p).state = .running) (hp : s.pc p = .exitWakeInit st i q.val) :
    Family ((s.wakeOne p (some (.proc initproc)) q).setPc p (.exitWakeInit st i (q.val + 1))) := by
  refine h.calm (p := p) (calm_wakeOne rfl) (fun q' hq => ?_) ?_ ?_ ?_ ?_
  · rw [setPc_of_ne q' hq, wakeOne_pc]
  all_goals rw [setPc_self, hp]
  · exact fun _ hk => .inl hk
  · rintro _ ⟨⟩
  · rintro _ ⟨⟩
  intro hh
  have hle : q.val ≤ initproc.val := of_decide_eq_true hh
  rcases hle.eq_or_lt with he | hlt
  · obtain rfl : q = initproc := Fin.ext he
    exact .inr (wakeOne_not_asleep hcl hr rfl)
  exact .inl (decide_eq_true hlt)

lemma Family.wakeParent (hcl : Control s) {st : Int} (hr : (s.proc p).state = .running)
    (hp : s.pc p = .exitWakeParent st q.val) :
    Family ((s.wakeOne p ((s.proc p).parent.map .proc) q).setPc p
      (.exitWakeParent st (q.val + 1))) := by
  refine h.calm (p := p) (calm_wakeOne rfl) (fun q' hq => ?_) ?_ ?_ ?_ ?_
  · rw [setPc_of_ne q' hq, wakeOne_pc]
  all_goals rw [setPc_self, hp]
  · exact fun _ _ => .inl rfl
  · rintro _ ⟨⟩
  · intro q' hq'
    rcases val_lt_or_eq (of_decide_eq_true hq') with hlt | rfl
    · exact .inl (decide_eq_true hlt)
    · refine .inr fun hpar => ?_
      rw [hpar]
      exact wakeOne_not_asleep hcl hr rfl
  rintro ⟨⟩

lemma Family.step (hcl : Control s) (hs : Step s s') : Family s' := by
  cases hs with
  | initExits => exact ⟨h.live, h.passed, h.scanned, h.woken, h.zombie⟩
  | fork p hr hp
  | exit p st hr hp hi
  | wait p addr hr hp
  | forkNone p i hr hp
  | forkNext p i hr hp
  | waitReturn p addr kids i hr hp =>
    exact h.walk (p := p) rfl rfl rfl rfl (fun _ => rfl) (by rw [hp]; rfl)
  | forkFound p np i hr hp hu =>
    have hslot : Family (s.setProc np { s.proc np with state := .used, pid := s.nextpid }) :=
      h.slot rfl rfl rfl (by simp [hu, ProcState.live]) (by simp) (by simp)
    exact hslot.walk (p := p) (c := .forkParent np) rfl rfl rfl rfl (fun _ => rfl)
      (by show (s.pc p).handing = false; rw [hp]; rfl)
  | forkFail p np i hr hp hu =>
    exact h.clear (p := p) rfl (by rw [hu]; rfl) rfl rfl (by rw [hp]; rfl)
  | forkParent p np hr hp hl =>
    exact h.forkParent hcl hr hp rfl (hcl.child p np (by rw [hp]; rfl)) rfl rfl
  | forkRun p np hr hp =>
    have hwalk : Family (s.setPc p .idle) :=
      h.walk (p := p) rfl rfl rfl rfl (fun _ => rfl) (by rw [hp]; rfl)
    exact hwalk.slot rfl rfl rfl (fun _ => rfl) (by simp) (by simp)
  | exitLock p st hr hp hl
  | waitLock p addr hr hp hl =>
    exact h.move hp rfl rfl rfl (by simp [Pc.passed]) (by simp [Pc.scanned]) (by rintro _ ⟨⟩)
      (by rintro ⟨⟩)
  | reparentEnd p st i hr hp hi =>
    exact h.move hp rfl rfl rfl
      (fun j _ => .inl (decide_eq_true (lt_of_lt_of_le j.isLt hi))) (by rintro _ ⟨⟩)
      (by simp [Pc.woken]) (by rintro ⟨⟩)
  | reparentSkip p pp st hr hp hpp =>
    refine h.move hp rfl rfl rfl (fun i hi => ?_) (by rintro _ ⟨⟩) (by rintro _ ⟨⟩)
      (by rintro ⟨⟩)
    rcases val_lt_or_eq (of_decide_eq_true hi) with hlt | rfl
    · exact .inl (decide_eq_true hlt)
    exact .inr hpp
  | reparent p pp st hr hp hpp => exact h.reparent hcl hp
  | wakeInitEnd p st i j hr hp hj =>
    refine h.move hp rfl rfl rfl (fun k hk => .inl (decide_eq_true ?_)) (by rintro _ ⟨⟩)
      (by rintro _ ⟨⟩) fun hh => ?_
    · exact Nat.le_of_lt_succ (of_decide_eq_true hk)
    exact absurd (of_decide_eq_true hh) (not_le.mpr (lt_of_lt_of_le initproc.isLt hj))
  | wakeInit p q st i hr hp => exact h.wakeInit hcl hr hp
  | wakeParentEnd p st j hr hp hj =>
    exact h.move hp rfl rfl rfl (fun _ _ => .inl rfl) (by rintro _ ⟨⟩)
      (fun q _ => decide_eq_true (lt_of_lt_of_le q.isLt hj)) (by rintro ⟨⟩)
  | wakeParent p q st hr hp => exact h.wakeParent hcl hr hp
  | zombie p st hr hp => exact h.exitZombie hcl hp
  | waitEnd p addr kids i hr hp hi =>
    exact h.move hp rfl rfl rfl (by rintro _ ⟨⟩)
      (fun j _ => .inl (decide_eq_true (lt_of_lt_of_le j.isLt hi))) (by rintro _ ⟨⟩)
      (by rintro ⟨⟩)
  | waitNext p pp addr kids kids' hr hp hpp =>
    refine h.move hp rfl rfl rfl (by rintro _ ⟨⟩) (fun i hi => ?_) (by rintro _ ⟨⟩)
      (by rintro ⟨⟩)
    rcases val_lt_or_eq (of_decide_eq_true hi) with hlt | rfl
    · exact .inl (decide_eq_true hlt)
    exact .inr hpp
  | reap p pp addr kids hr hp hpp hz =>
    exact h.clear (p := p) rfl (by rw [hz]; rfl) rfl rfl (by rw [hp]; rfl)
  | waitSleep p addr hr hp => exact h.waitSleep hcl hp
  | resume p addr hr hp =>
    have hslot : Family (s.setProc p { s.proc p with state := .running, chan := none }) :=
      h.slot rfl rfl rfl (fun _ => rfl) (by simp) (by simp)
    exact hslot.walk (p := p) (c := .waitLock addr) rfl rfl rfl rfl (fun _ => rfl)
      (by show (s.pc p).handing = false; rw [hp]; rfl)
  | run p hr hp
  | yield p hr hl
  | wakeup p hr => exact h.slot rfl rfl rfl (fun _ => rfl) (by simp) (by simp)
  | sleep p n hr hp =>
    refine h.slot rfl rfl rfl (fun _ => rfl) (by simp) fun _ hsl => ?_
    obtain ⟨addr, ha⟩ := Pc.idle_of_sleeps hsl
    simp [maySleep, ha] at hp
  | kill p =>
    by_cases hsl : (s.proc p).state = .sleeping
    · simp only [wakes, hsl, if_true]
      exact h.slot rfl rfl rfl (fun _ => rfl) (by simp) (by simp)
    simp only [wakes, hsl, if_false]
    exact h.slot rfl rfl rfl (fun e => e) (fun e => e) fun e => absurd e hsl
end
end Kernel
end Xv6.Proc
