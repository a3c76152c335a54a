import Xv6.Lib.Count
import Xv6.Log.Group

namespace Xv6.Log
open Function

def OpPc.active : OpPc → Bool
  | .inOp _ => true
  | _ => false

def OpPc.inCommit : OpPc → Bool
  | .commit _ | .endCommit => true
  | _ => false

lemma OpPc.active_iff {c : OpPc} : c.active ↔ ∃ op, c = .inOp op := by
  cases c <;> simp [OpPc.active]

lemma OpPc.inEndOp_inCommit (r : Option CommitPc) : (OpPc.inEndOp r).inCommit := by
  cases r <;> rfl

lemma OpPc.inEndOp_active (r : Option CommitPc) : (OpPc.inEndOp r).active = false := by
  cases r <;> rfl

namespace Kernel
variable {P : Type} {start : Nat} {s s' : Kernel P} {a : Act P} {p : P} {op : Nat}

/-- The flags and counts of `struct log`. -/
structure Control (s : Kernel P) : Prop where
  outstanding : Lib.Counts (fun p => (s.pc p).active) s.outstanding
  committer : s.committing → ∃ p, (s.pc p).inCommit
  committing : ∀ p, (s.pc p).inCommit → s.committing
  alone : s.committing → s.outstanding = 0
  unique : ∀ p q, (s.pc p).inCommit → (s.pc q).inCommit → p = q
  panic : s.panicked = none ∨ s.panicked = some .tooBig
  booting : s.recovering ≠ none → ∀ p, s.pc p = .idle

lemma control_boot (d : Disk) : Control (boot P d) where
  outstanding := Lib.counts_zero (fun _ => rfl)
  committer := nofun
  committing := nofun
  alone := nofun
  unique := nofun
  panic := Or.inl rfl
  booting := fun _ _ => rfl

lemma wakeup_active (s : Kernel P) (p : P) : (s.wakeup.pc p).active = (s.pc p).active := by
  simp only [wakeup]
  split
  · rename_i h
    rw [h]
    rfl
  rfl

lemma wakeup_inCommit (s : Kernel P) (p : P) : (s.wakeup.pc p).inCommit = (s.pc p).inCommit := by
  simp only [wakeup]
  split
  · rename_i h
    rw [h]
    rfl
  rfl

lemma up_iff : s.up ↔ s.recovering = none ∧ s.panicked = none := by simp [up]

lemma Control.no_commit (h : Control s) (hc : s.committing = false) (p : P) :
    (s.pc p).inCommit = false := by
  by_contra hp
  have := h.committing p (by simpa using hp)
  simp [hc] at this

lemma Control.not_committing (h : Control s) (hp : s.pc p = .inOp op) : s.committing = false := by
  by_contra hc
  have h0 := h.alone (by simpa using hc)
  have h1 := h.outstanding.pos (p := p) (by simp [hp, OpPc.active])
  omega

lemma control_crash (s : Kernel P) : Control (s.crash start) where
  outstanding := Lib.counts_zero (fun _ => rfl)
  committer := nofun
  committing := nofun
  alone := nofun
  unique := nofun
  panic := Or.inl rfl
  booting := fun _ _ => rfl

lemma Control.keep (h : Control s) (hup : s'.up)
    (hout : s'.outstanding = s.outstanding) (hcom : s'.committing = s.committing)
    (hpanic : s'.panicked = s.panicked) (hact : ∀ q, (s'.pc q).active = (s.pc q).active)
    (hin : ∀ q, (s'.pc q).inCommit = (s.pc q).inCommit) : Control s' where
  outstanding := hout ▸ h.outstanding.congr hact
  committer hc := by
    obtain ⟨q, hq⟩ := h.committer (hcom ▸ hc)
    exact ⟨q, (hin q).trans hq⟩
  committing q hq := hcom ▸ h.committing q ((hin q).symm.trans hq)
  alone hc := hout ▸ h.alone (hcom ▸ hc)
  unique q r hq hr := h.unique q r ((hin q).symm.trans hq) ((hin r).symm.trans hr)
  panic := hpanic ▸ h.panic
  booting hr := absurd (up_iff.mp hup).1 hr

lemma Control.of_noCommit (hout : Lib.Counts (fun p => (s.pc p).active) s.outstanding)
    (hc : s.committing = false) (hno : ∀ q, (s.pc q).inCommit = false)
    (hpanic : s.panicked = none ∨ s.panicked = some .tooBig)
    (hboot : s.recovering ≠ none → ∀ p, s.pc p = .idle) : Control s where
  outstanding := hout
  committer h := by simp [hc] at h
  committing q hq := by simp [hno] at hq
  alone h := by simp [hc] at h
  unique q r hq _ := by simp [hno] at hq
  panic := hpanic
  booting := hboot

lemma committing_of_mustWait (hw : s.mustWait = false) : s.committing = false := by
  simp only [mustWait, Bool.or_eq_false_iff] at hw
  exact hw.1

variable [DecidableEq P]

lemma Control.no_commit_inOp (h : Control s) (hc : s.committing = false) (op : Nat) (q : P) :
    (update s.pc p (.inOp op) q).inCommit = false := by
  by_cases hq : q = p
  · rw [hq, update_self]
    rfl
  rw [update_of_ne hq]
  exact h.no_commit hc q

section
variable (h : Control s) (hup : s.up) {c : OpPc}
include h hup

lemma Control.move (hact : (s.pc p).active = false) (hcom : (s.pc p).inCommit = false)
    (hact' : c.active = false) (hcom' : c.inCommit = false) : Control (s.setPc p c) := by
  refine h.keep hup rfl rfl rfl (fun q => ?_) fun q => ?_
  · by_cases hq : q = p
    · rw [hq]
      simp [setPc, hact, hact']
    simp [setPc, update_of_ne hq]
  by_cases hq : q = p
  · rw [hq]
    simp [setPc, hcom, hcom']
  simp [setPc, update_of_ne hq]

lemma Control.beginAdmit (hp : s.pc p = .beginOp) (hw : s.mustWait = false) :
    Control (s.begun p) := by
  have hc := committing_of_mustWait hw
  refine .of_noCommit (h.outstanding.enter (p := p) (by simp [hp, OpPc.active]) ?_ ?_) hc
    (h.no_commit_inOp hc _) h.panic fun hr => absurd (up_iff.mp hup).1 hr
  · simp [setPc, OpPc.active]
  intro q hq
  simp [setPc, update_of_ne hq]

lemma Control.endLast (hp : s.pc p = .inOp op) (hc : s.committing = false)
    (ho : s.outstanding - 1 = 0) (hcc : c.inCommit) (hca : c.active = false) :
    Control { s.setPc p c with
        outstanding := s.outstanding - 1
        ended := s.ended ++ [op]
        committing := true } := by
  have honly : ∀ q, (update s.pc p c q).inCommit → q = p := by
    intro q hq
    by_contra hne
    rw [update_of_ne hne, h.no_commit hc q] at hq
    cases hq
  refine ⟨h.outstanding.leave (p := p) (by simp [hp, OpPc.active]) ?_ ?_, ?_, fun _ _ => rfl,
    fun _ => ho, ?_, h.panic, fun hr => absurd (up_iff.mp hup).1 hr⟩
  · simpa [setPc] using hca
  · intro q hq
    simp [setPc, update_of_ne hq]
  · exact fun _ => ⟨p, by simpa [setPc] using hcc⟩
  intro q r hq hr
  rw [honly q hq, honly r hr]

lemma Control.endWake (hp : s.pc p = .inOp op) (hc : s.committing = false) :
    Control { s.wakeup.setPc p .idle with
        outstanding := s.outstanding - 1
        ended := s.ended ++ [op] } := by
  have hno : ∀ q, (update s.wakeup.pc p .idle q).inCommit = false := by
    intro q
    by_cases hq : q = p
    · rw [hq, update_self]
      rfl
    rw [update_of_ne hq, wakeup_inCommit, h.no_commit hc q]
  refine .of_noCommit (h.outstanding.leave (p := p) (by simp [hp, OpPc.active]) ?_ ?_) hc hno
    h.panic fun hr => absurd (up_iff.mp hup).1 hr
  · simp [setPc, OpPc.active]
  intro q hq
  simp [setPc, update_of_ne hq, wakeup_active]

lemma Control.commitWrite {pc : CommitPc} (hp : s.pc p = .commit pc) :
    Control (s.commitWrite start p pc) := by
  refine h.keep hup rfl rfl rfl (fun q => ?_) fun q => ?_
  · by_cases hq : q = p
    · rw [hq, hp]
      simp only [Kernel.commitWrite, setPc, update_self, OpPc.inEndOp_active]
      rfl
    simp [Kernel.commitWrite, setPc, update_of_ne hq]
  by_cases hq : q = p
  · rw [hq, hp]
    simp only [Kernel.commitWrite, setPc, update_self, OpPc.inEndOp_inCommit]
    rfl
  simp [Kernel.commitWrite, setPc, update_of_ne hq]

lemma Control.commitEnd (hp : s.pc p = .endCommit) : Control (s.commitEnd p) := by
  have hno : ∀ q, ((s.commitEnd p).pc q).inCommit = false := by
    intro q
    by_cases hq : q = p
    · simp [Kernel.commitEnd, setPc, hq, OpPc.inCommit]
    have hqc : (s.pc q).inCommit = false := by
      by_contra hc
      exact hq (h.unique q p (by simpa using hc) (by simp [hp, OpPc.inCommit]))
    simp [Kernel.commitEnd, setPc, update_of_ne hq, wakeup_inCommit, hqc]
  refine .of_noCommit (h.outstanding.congr fun q => ?_) rfl hno h.panic
    fun hr => absurd (up_iff.mp hup).1 hr
  by_cases hq : q = p
  · simp [Kernel.commitEnd, setPc, hq, hp, OpPc.active]
  simp [Kernel.commitEnd, setPc, update_of_ne hq, wakeup_active]
end

lemma Control.step (h : Control s) (hstep : Step start s a s') : Control s' := by
  cases hstep with
  | beginOp p hup hp
  | beginWait p hup hp _ => exact h.move hup (by rw [hp]; rfl) (by rw [hp]; rfl) rfl rfl
  | beginAdmit p hup hp hw => exact h.beginAdmit hup hp hw
  | logTooBig p op b v hup hp hn =>
    exact ⟨h.outstanding, h.committer, h.committing, h.alone, h.unique, Or.inr rfl, h.booting⟩
  | logOutside p op b v hup hp hn ho =>
    have := h.outstanding.pos (p := p) (by simp [hp, OpPc.active])
    omega
  | logWrite p op b v hup hp hn ho =>
    exact ⟨h.outstanding, h.committer, h.committing, h.alone, h.unique, h.panic, h.booting⟩
  | endPanic p op hup hp hc => simp [h.not_committing hp] at hc
  | endLast p op hup hp hc ho =>
    exact h.endLast hup hp hc ho (OpPc.inEndOp_inCommit _) (OpPc.inEndOp_active _)
  | endWake p op hup hp hc ho => exact h.endWake hup hp hc
  | commitWrite p pc hup hp => exact h.commitWrite hup hp
  | commitEnd p hup hp => exact h.commitEnd hup hp
  | crash => exact control_crash s
  | recoverWrite pc hpc =>
    exact ⟨h.outstanding, h.committer, h.committing, h.alone, h.unique, h.panic,
      fun _ => h.booting (by simp [hpc])⟩

def Waiting (s : Kernel P) : Prop := ∀ p, s.pc p = .asleep → s.mustWait

lemma asleep_of_update {f : P → OpPc} {c : OpPc} {q : P} (hc : c ≠ .asleep)
    (h : update f p c q = .asleep) : f q = .asleep := by
  by_cases hq : q = p
  · rw [hq, update_self] at h
    exact absurd h hc
  rwa [update_of_ne hq] at h

lemma not_asleep_of_wakeup (q : P) : update s.wakeup.pc p .idle q ≠ .asleep := by
  intro hq
  have hw : s.wakeup.pc q = .asleep := asleep_of_update (by simp) hq
  simp only [wakeup] at hw
  split at hw
  · cases hw
  contradiction

lemma Waiting.step (h : Waiting s) (hc : Control s) (hstep : Step start s a s') : Waiting s' := by
  cases hstep with
  | beginOp p hup hp => exact fun q hq => h q (asleep_of_update (by simp) hq)
  | beginWait p hup hp hw => exact fun _ _ => hw
  | beginAdmit p hup hp hw =>
    intro q hq
    have hq' := h q (asleep_of_update (by simp) hq)
    rw [hw] at hq'
    cases hq'
  | logTooBig p op b v hup hp hn
  | logOutside p op b v hup hp hn ho => exact h
  | logWrite p op b v hup hp hn ho =>
    intro q hq
    have hw := h q hq
    have hle : s.store.lh.length ≤ (s.store.logWrite b v).lh.length := by
      simp only [Store.logWrite]
      split <;> simp
    simp only [mustWait, Bool.or_eq_true, decide_eq_true_eq] at hw ⊢
    exact hw.imp_right fun hw => by omega
  | endPanic p op hup hp hcom =>
    rw [hc.not_committing hp] at hcom
    cases hcom
  | endLast p op hup hp hcom ho => exact fun _ _ => rfl
  | endWake p op hup hp hcom ho
  | commitEnd p hup hp => exact fun q hq => absurd hq (not_asleep_of_wakeup q)
  | commitWrite p pc hup hp =>
    have hcom := hc.committing p (by rw [hp]; rfl)
    exact fun _ _ => by simp [mustWait, commitWrite, setPc, hcom]
  | crash => rintro _ ⟨⟩
  | recoverWrite pc hpc =>
    intro q hq
    rw [show s.pc q = .idle from hc.booting (by simp [hpc]) q] at hq
    cases hq

theorem waiting_of_run (start : Nat) (d : Disk) (es : List (Act P))
    (hr : Lib.run (next start) (boot P d) es = some s) (hp : s.pc p = .asleep) :
    s.mustWait ∧ (s.committing → ∃ q, (s.pc q).inCommit) := by
  obtain ⟨hc, h⟩ := Lib.run_invariant (I := fun s => Control s ∧ Waiting s)
    (fun _ _ _ h hn => ⟨h.1.step (step_of_next hn), h.2.step h.1 (step_of_next hn)⟩)
    ⟨control_boot d, by rintro _ ⟨⟩⟩ hr
  exact ⟨h p hp, hc.committer⟩

def fourBegin : List (Act (Fin 4)) := (List.finRange 4).flatMap fun p => [.beginOp p, .beginTry p]

theorem waiting_of_run_fourBegin :
    ∃ s, Lib.run (next 2) (boot (Fin 4) fun _ => Block.zero) fourBegin = some s ∧
      s.pc 3 = .asleep ∧ s.mustWait :=
  ⟨_, rfl, rfl, (waiting_of_run 2 _ fourBegin rfl (p := 3) rfl).1⟩
end Kernel
end Xv6.Log
