import Xv6.Log.GroupControl

namespace Xv6.Log.Kernel
open Function List
open Lib (applyWrites)
variable {P : Type} {start : Nat} {d : Disk} {s s' : Kernel P} {a : Act P} {f : P → OpPc}

def writesOf (s : Kernel P) (ops : List Nat) : List (Nat × Block) :=
  (s.writes.filter (fun w => w.op ∈ ops)).map OpWrite.toWrite

def durableDisk (d : Disk) (s : Kernel P) : Disk := applyWrites d (s.writesOf s.durable)

structure History (s : Kernel P) : Prop where
  write_lt : ∀ w ∈ s.writes, w.op < s.nextOp
  group_lt : ∀ i ∈ s.group, i < s.nextOp
  ended_lt : ∀ i ∈ s.ended, i < s.nextOp
  durable_ended : ∀ i ∈ s.durable, i ∈ s.ended
  current : ∀ p op, s.pc p = .inOp op → op ∈ s.group ∧ op ∉ s.ended
  distinct : ∀ p q op, s.pc p = .inOp op → s.pc q = .inOp op → p = q
  group_ended : ∀ i ∈ s.group, i ∈ s.ended ∨ ∃ p, s.pc p = .inOp i

lemma history_boot (d : Disk) : History (boot P d) where
  write_lt := nofun
  group_lt := nofun
  ended_lt := nofun
  durable_ended := nofun
  current := nofun
  distinct := nofun
  group_ended := nofun

lemma wakeup_inOp (s : Kernel P) (p : P) (op : Nat) :
    s.wakeup.pc p = .inOp op ↔ s.pc p = .inOp op := by
  simp only [wakeup]
  split
  · rename_i h
    simp [h]
  rfl

lemma Control.group_complete (hc : Control s) (h : History s) (hcom : s.committing) :
    ∀ i ∈ s.group, i ∈ s.ended := by
  intro i hi
  rcases h.group_ended i hi with he | ⟨p, hp⟩
  · exact he
  simp [hc.not_committing hp] at hcom

lemma History.move (h : History s)
    (hf : ∀ q op, f q = .inOp op ↔ s.pc q = .inOp op) : History { s with pc := f } where
  write_lt := h.write_lt
  group_lt := h.group_lt
  ended_lt := h.ended_lt
  durable_ended := h.durable_ended
  current := fun p op hp => h.current p op ((hf p op).mp hp)
  distinct := fun p q op hp hq => h.distinct p q op ((hf p op).mp hp) ((hf q op).mp hq)
  group_ended := fun i hi => by simpa only [hf] using h.group_ended i hi

variable [DecidableEq P] {p : P}

lemma update_inOp {c : OpPc} (hp : (f p).active = false)
    (hc : c.active = false) (q : P) (op : Nat) :
    update f p c q = .inOp op ↔ f q = .inOp op := by
  by_cases hq : q = p
  · subst hq
    rw [update_self]
    constructor
    · rintro rfl
      cases hc
    intro h
    rw [h] at hp
    cases hp
  rw [update_of_ne hq]

lemma History.beginAdmit (h : History s) (hp : s.pc p = .beginOp) : History (s.begun p) := by
  have hnew : s.nextOp ∉ s.group := fun hm => lt_irrefl _ (h.group_lt _ hm)
  have hpc : ∀ q op, update s.pc p (.inOp s.nextOp) q = .inOp op →
      (q = p ∧ op = s.nextOp) ∨ (q ≠ p ∧ s.pc q = .inOp op ∧ op ∈ s.group) := by
    intro q op hq
    by_cases hqp : q = p
    · rw [hqp, update_self] at hq
      cases hq
      exact Or.inl ⟨hqp, rfl⟩
    rw [update_of_ne hqp] at hq
    exact Or.inr ⟨hqp, hq, (h.current q op hq).1⟩
  refine ⟨fun w hw => Nat.lt_succ_of_lt (h.write_lt w hw), ?_,
    fun i hi => Nat.lt_succ_of_lt (h.ended_lt i hi), h.durable_ended, ?_, ?_, ?_⟩
  · intro i hi
    rcases mem_append.mp hi with hi | hi
    · exact Nat.lt_succ_of_lt (h.group_lt i hi)
    rw [mem_singleton.mp hi]
    exact Nat.lt_succ_self _
  · intro q op hq
    rcases hpc q op hq with ⟨-, rfl⟩ | ⟨-, hq, hg⟩
    · exact ⟨by simp, fun he => lt_irrefl _ (h.ended_lt _ he)⟩
    exact ⟨mem_append_left _ hg, (h.current q op hq).2⟩
  · intro q r op hq hr
    rcases hpc q op hq with ⟨hqp, rfl⟩ | ⟨-, hq, hg⟩ <;> rcases hpc r _ hr with ⟨hrp, hop⟩ | ⟨-, hr,
      hg'⟩
    · rw [hqp, hrp]
    · exact absurd hg' hnew
    · exact absurd (hop ▸ hg) hnew
    exact h.distinct q r op hq hr
  intro i hi
  rcases mem_append.mp hi with hi | hi
  · refine (h.group_ended i hi).imp_right fun ⟨q, hq⟩ => ⟨q, ?_⟩
    have hqp : q ≠ p := by
      rintro rfl
      rw [hp] at hq
      cases hq
    simpa [setPc, update_of_ne hqp] using hq
  exact Or.inr ⟨p, by simp [setPc, mem_singleton.mp hi]⟩

lemma History.endOp (h : History s) {op : Nat} (hp : s.pc p = .inOp op)
    (hfp : ∀ o, f p ≠ .inOp o) (hf : ∀ q ≠ p, ∀ o, f q = .inOp o ↔ s.pc q = .inOp o)
    {o : Int} {c : Bool} :
    History { s with
      pc := f, outstanding := o, committing := c, ended := s.ended ++ [op] } := by
  have hne : ∀ q o, f q = .inOp o → q ≠ p ∧ s.pc q = .inOp o := by
    intro q o hq
    have hqp : q ≠ p := by
      rintro rfl
      exact hfp o hq
    exact ⟨hqp, (hf q hqp o).mp hq⟩
  refine ⟨h.write_lt, h.group_lt, ?_, fun i hi => mem_append_left _ (h.durable_ended i hi),
    ?_, ?_, ?_⟩
  · intro i hi
    rcases mem_append.mp hi with hi | hi
    · exact h.ended_lt i hi
    rw [mem_singleton.mp hi]
    exact h.group_lt op (h.current p op hp).1
  · intro q o' hq
    obtain ⟨hqp, hq⟩ := hne q o' hq
    obtain ⟨hg, he⟩ := h.current q o' hq
    refine ⟨hg, fun hm => ?_⟩
    rcases mem_append.mp hm with hm | hm
    · exact he hm
    rw [mem_singleton.mp hm] at hq
    exact hqp (h.distinct q p op hq hp)
  · intro q r o' hq hr
    exact h.distinct q r o' (hne q o' hq).2 (hne r o' hr).2
  intro i hi
  rcases h.group_ended i hi with he | ⟨q, hq⟩
  · exact Or.inl (mem_append_left _ he)
  by_cases hqp : q = p
  · rw [hqp, hp] at hq
    cases hq
    exact Or.inl (by simp)
  exact Or.inr ⟨q, (hf q hqp i).mpr hq⟩

lemma History.step (hc : Control s) (h : History s) (hstep : Step start s a s') : History s' := by
  cases hstep with
  | beginOp p hup hp
  | beginWait p hup hp hw => exact h.move (update_inOp (by rw [hp]; rfl) rfl)
  | beginAdmit p hup hp hw => exact h.beginAdmit hp
  | logTooBig p op b v hup hp hn
  | logOutside p op b v hup hp hn ho
  | recoverWrite pc hpc => exact ⟨h.1, h.2, h.3, h.4, h.5, h.6, h.7⟩
  | logWrite p op b v hup hp hn ho =>
    refine ⟨fun w hw => ?_, h.2, h.3, h.4, h.5, h.6, h.7⟩
    rcases mem_append.mp hw with hw | hw
    · exact h.write_lt w hw
    rw [mem_singleton.mp hw]
    exact h.group_lt op (h.current p op hp).1
  | endPanic p op hup hp hcom => simp [hc.not_committing hp] at hcom
  | endLast p op hup hp hcom ho =>
    refine h.endOp hp (fun o ho => ?_) fun q hq o => ?_
    · have hact := OpPc.inEndOp_active (commitEntry s.store)
      simp only [setPc, update_self] at ho
      rw [ho] at hact
      cases hact
    simp [setPc, update_of_ne hq]
  | endWake p op hup hp hcom ho =>
    refine h.endOp hp (fun o => ?_) fun q hq o => ?_
    · simp [setPc]
    simp only [setPc, update_of_ne hq]
    exact wakeup_inOp s q o
  | commitWrite p pc hup hp =>
    have hcom : s.committing = true := hc.committing p (by simp [hp, OpPc.inCommit])
    have hm := h.move (f := (s.commitWrite start p pc).pc)
      (update_inOp (by rw [hp]; rfl) (OpPc.inEndOp_active _))
    refine ⟨hm.1, hm.2, hm.3, fun i hi => ?_, hm.5, hm.6, hm.7⟩
    simp only [Kernel.commitWrite] at hi
    split at hi
    · rcases mem_append.mp hi with hi | hi
      · exact h.durable_ended i hi
      exact hc.group_complete h hcom i hi
    exact h.durable_ended i hi
  | commitEnd p hup hp =>
    have hm := h.move (f := (s.commitEnd p).pc) fun q op => by
      refine (update_inOp ?_ rfl q op).trans (wakeup_inOp s q op)
      rw [wakeup_active, hp]
      rfl
    have h0 := hc.alone (hc.committing p (by simp [hp, OpPc.inCommit]))
    have hnone : ∀ q op, (s.commitEnd p).pc q ≠ .inOp op := by
      intro q op hq
      have hq' : s.pc q = .inOp op := (wakeup_inOp s q op).mp
        ((update_inOp (by rw [wakeup_active, hp]; rfl) rfl q op).mp hq)
      have hact := Lib.Counts.eq_false (h0 ▸ hc.outstanding) q
      rw [hq'] at hact
      cases hact
    exact ⟨hm.1, by rintro _ ⟨⟩, hm.3, hm.4, fun q op hq => absurd hq (hnone q op), hm.6,
      by rintro _ ⟨⟩⟩
  | crash =>
    exact ⟨h.1, by rintro _ ⟨⟩, h.3, h.4, by rintro _ _ ⟨⟩, by rintro _ _ _ ⟨⟩, by rintro _ ⟨⟩⟩
end Xv6.Log.Kernel
