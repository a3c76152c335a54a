import Xv6.Log.GroupData

namespace Xv6.Log.Kernel
open Function Finset
variable {P : Type} {start : Nat} {d : Disk} {s s' : Kernel P} {a : Act P} {p : P} {v : Block}
  {st : Store} {op b : Nat}

def blocksOf (s : Kernel P) (op : Nat) : Finset Nat :=
  ((s.writes.filter (fun w => w.op = op)).map OpWrite.block).toFinset

def held (s : Kernel P) (p : P) : Finset Nat :=
  match s.pc p with
  | .inOp op => s.blocksOf op
  | _ => ∅

def reserved (s : Kernel P) (p : P) : Nat := maxOpBlocks - (s.held p).card

def OpBounded (s : Kernel P) : Act P → Prop
  | .logWrite p b _ => (insert b (s.held p)).card ≤ maxOpBlocks
  | .crash => False
  | _ => True

instance (s : Kernel P) : ∀ a, Decidable (OpBounded s a)
  | .logWrite .. => Nat.decLe ..
  | .crash => instDecidableFalse
  | .beginOp _ | .beginTry _ | .endOp _ | .commitWrite _ | .commitEnd _ | .recoverWrite =>
    instDecidableTrue

def AbsorbRoom (s : Kernel P) : Act P → Prop
  | .logWrite _ b _ => b ∈ s.store.lh → s.store.lh.length < logBlocks
  | _ => True

def Room (s : Kernel P) : Prop :=
  ∃ A : Finset P, (∀ p, p ∈ A ↔ (s.pc p).active) ∧
    s.store.lh.length + ∑ p ∈ A, s.reserved p ≤ logBlocks

/-- Operations keep to what `begin_op` reserved. -/
structure Reserve (s : Kernel P) : Prop where
  nodup : s.store.lh.Nodup
  length_le : s.store.lh.length ≤ logBlocks
  logged : ∀ p, ∀ b ∈ s.held p, b ∈ s.store.lh
  room : s.committing = false → Room s
  running : s.recovering = none

lemma reserve_boot (d : Disk) : Reserve (boot P d) where
  nodup := List.nodup_nil
  length_le := Nat.zero_le _
  logged := fun p b hb => by simp [held, boot] at hb
  room := fun _ => ⟨∅, by simp [boot, OpPc.active], by simp [boot]⟩
  running := rfl

lemma held_of_inactive (hp : (s.pc p).active = false) : s.held p = ∅ := by
  rw [held]
  split
  · rename_i h
    rw [h] at hp
    cases hp
  rfl

lemma blocksOf_logWrite {op' : Nat} : ({ s with
        store := st
        writes := s.writes ++ [{ op := op, block := b, data := v }] } : Kernel P).blocksOf op' =
      if op' = op then insert b (s.blocksOf op') else s.blocksOf op' := by
  by_cases h : op' = op
  · subst h
    rw [if_pos rfl]
    ext x
    simp [blocksOf, List.filter_append]
  rw [if_neg h]
  have hne : ¬op = op' := fun e => h e.symm
  ext x
  simp [blocksOf, List.filter_append, hne]

lemma Room.reserved_le (h : Room s) (hp : (s.pc p).active) :
    s.store.lh.length + s.reserved p ≤ logBlocks := by
  obtain ⟨A, hA, hle⟩ := h
  have hs : s.reserved p ≤ ∑ q ∈ A, s.reserved q :=
    single_le_sum (fun q _ => Nat.zero_le _) ((hA p).mpr hp)
  omega

lemma Reserve.lt_of_new (h : Reserve s) (hc : s.committing = false)
    (hp : (s.pc p).active) (hb : b ∉ s.store.lh)
    (hcard : (insert b (s.held p)).card ≤ maxOpBlocks) :
    s.store.lh.length < logBlocks ∧ (s.held p).card + 1 ≤ maxOpBlocks := by
  have hnew : b ∉ s.held p := fun hm => hb (h.logged p b hm)
  rw [card_insert_of_notMem hnew] at hcard
  have hroom := (h.room hc).reserved_le hp
  rw [reserved] at hroom
  exact ⟨by omega, hcard⟩

section
variable [DecidableEq P] {c : OpPc}

lemma held_update {q : P} (hp : (s.pc p).active = false) (hc : c.active = false) :
    ({ s with pc := update s.pc p c } : Kernel P).held q = s.held q := by
  by_cases hq : q = p
  · subst hq
    rw [held_of_inactive hp]
    exact held_of_inactive (by simpa using hc)
  simp only [held, update_of_ne hq]
  rfl

lemma Reserve.move (h : Reserve s) (hp : (s.pc p).active = false)
    (hc : c.active = false) : Reserve (s.setPc p c) := by
  refine ⟨h.nodup, h.length_le, fun q b hb => ?_, fun hcom => ?_, h.running⟩
  · exact h.logged q b (by rwa [setPc, held_update hp hc] at hb)
  obtain ⟨A, hA, hle⟩ := h.room hcom
  refine ⟨A, fun q => ?_, ?_⟩
  · rw [hA]
    by_cases hq : q = p
    · simp [setPc, hq, hp, hc]
    simp [setPc, update_of_ne hq]
  have hres : ∀ q, (s.setPc p c).reserved q = s.reserved q := by
    intro q
    rw [reserved, reserved, setPc, held_update hp hc]
  simp only [hres]
  exact hle

omit [DecidableEq P] in
lemma mustWait_false (h : s.mustWait = false) : s.committing = false ∧
      (s.store.lh.length : Int) + (s.outstanding + 1) * maxOpBlocks ≤ logBlocks := by
  simpa [mustWait] using h

lemma Reserve.beginAdmit (h : Reserve s) (hcl : Control s) (hh : History s)
    (hp : s.pc p = .beginOp) (hw : s.mustWait = false) :
    Reserve (s.begun p) := by
  obtain ⟨hc, hadmit⟩ := mustWait_false hw
  obtain ⟨A, hA, hout⟩ := hcl.outstanding
  have hpA : p ∉ A := by simp [hA, hp, OpPc.active]
  have hheld : ∀ q, (s.begun p).held q = s.held q := by
    intro q
    by_cases hq : q = p
    · subst hq
      have hin : (s.setPc q (.inOp s.nextOp)).pc q = .inOp s.nextOp := by simp [setPc]
      rw [held_of_inactive (s := s) (by rw [hp]; rfl)]
      have hnone : s.writes.filter (fun w => w.op = s.nextOp) = [] :=
        List.filter_eq_nil_iff.mpr fun w hw => by
          have := hh.write_lt w hw
          simp only [decide_eq_true_eq]
          omega
      simp only [held, hin]
      simp [blocksOf, setPc, hnone]
    simp only [held, setPc, update_of_ne hq]
    rfl
  refine ⟨h.nodup, h.length_le, fun q b hb => h.logged q b (by rwa [hheld] at hb),
    fun _ => ⟨insert p A, fun q => ?_, ?_⟩, h.running⟩
  · by_cases hq : q = p
    · simp [setPc, hq, OpPc.active]
    simp [setPc, hq, hA]
  have hsum : ∀ B : Finset P, ∑ q ∈ B, ({ s.setPc p (.inOp s.nextOp) with
      outstanding := s.outstanding + 1
      nextOp := s.nextOp + 1
      group := s.group ++ [s.nextOp] } : Kernel P).reserved q ≤ B.card * maxOpBlocks := by
    intro B
    refine (sum_le_card_nsmul B _ maxOpBlocks (fun q _ => Nat.sub_le _ _)).trans ?_
    exact le_of_eq (nsmul_eq_mul _ _)
  have hB := hsum (insert p A)
  rw [card_insert_of_notMem hpA] at hB
  have hadm : s.store.lh.length + (A.card + 1) * maxOpBlocks ≤ logBlocks := by
    rw [hout] at hadmit
    exact_mod_cast hadmit
  exact (Nat.add_le_add_left hB _).trans hadm
end

lemma held_logWrite (hh : History s) (hp : s.pc p = .inOp op) (q : P) [Decidable (q = p)] :
    ({ s with
        store := st
        writes := s.writes ++ [{ op := op, block := b, data := v }] } : Kernel P).held q =
      if q = p then insert b (s.held q) else s.held q := by
  by_cases hact : (s.pc q).active
  · obtain ⟨op', hq⟩ := OpPc.active_iff.mp hact
    simp only [held, hq, blocksOf_logWrite]
    by_cases hqp : q = p
    · rw [hqp, hp] at hq
      cases hq
      rw [if_pos rfl, if_pos hqp]
    have hne : op' ≠ op := fun e => hqp (hh.distinct q p op (e ▸ hq) hp)
    rw [if_neg hne, if_neg hqp]
  have hq : (s.pc q).active = false := by simpa using hact
  have hne : q ≠ p := by
    rintro rfl
    rw [hp] at hq
    cases hq
  rw [if_neg hne, held_of_inactive hq]
  exact held_of_inactive hq

lemma logWrite_lh_length (st : Store) (b : Nat) (v : Block) :
    (st.logWrite b v).lh.length = if b ∈ st.lh then st.lh.length else st.lh.length + 1 := by
  simp only [Store.logWrite]
  split <;> simp

lemma logWrite_lh_nodup (h : st.lh.Nodup) (b : Nat) (v : Block) : (st.logWrite b v).lh.Nodup := by
  simp only [Store.logWrite]
  split
  · exact h
  rename_i hb
  exact List.nodup_append.mpr ⟨h, by simp, by rintro x hx y hy rfl; simp_all⟩

section
variable (h : Reserve s) (hcl : Control s) (hh : History s) (hp : s.pc p = .inOp op)
  (hcard : (insert b (s.held p)).card ≤ maxOpBlocks)
include h hcl hh hp hcard

lemma Room.logWrite : Room { s with
        store := s.store.logWrite b v
        writes := s.writes ++ [{ op := op, block := b, data := v }] } := by
  classical
  have hc := hcl.not_committing hp
  have hact : (s.pc p).active := by rw [hp]; rfl
  obtain ⟨A, hA, hle⟩ := h.room hc
  have hpA : p ∈ A := (hA p).mpr hact
  refine ⟨A, hA, ?_⟩
  simp only [reserved, held_logWrite hh hp]
  rw [← add_sum_erase A _ hpA] at hle ⊢
  have hrest : ∑ q ∈ A.erase p, (maxOpBlocks -
        (if q = p then insert b (s.held q) else s.held q).card) =
      ∑ q ∈ A.erase p, s.reserved q :=
    sum_congr rfl fun q hq => by rw [if_neg (ne_of_mem_erase hq), reserved]
  rw [hrest, if_pos rfl, logWrite_lh_length]
  rw [reserved] at hle
  by_cases hb : b ∈ s.store.lh
  · rw [if_pos hb]
    have hmono : (s.held p).card ≤ (insert b (s.held p)).card :=
      card_le_card (subset_insert _ _)
    omega
  obtain ⟨-, hnew⟩ := h.lt_of_new hc hact hb hcard
  have hnot : b ∉ s.held p := fun hm => hb (h.logged p b hm)
  rw [if_neg hb, card_insert_of_notMem hnot]
  omega

lemma Reserve.logWrite : Reserve { s with
        store := s.store.logWrite b v
        writes := s.writes ++ [{ op := op, block := b, data := v }] } := by
  classical
  have hroom := Room.logWrite (v := v) h hcl hh hp hcard
  refine ⟨logWrite_lh_nodup h.nodup b v, ?_, fun q c hq => ?_, fun _ => hroom, h.running⟩
  · obtain ⟨A, -, hle⟩ := hroom
    exact (Nat.le_add_right _ _).trans hle
  refine (Staged.mem_logWrite b v c).mpr ?_
  rw [held_logWrite hh hp] at hq
  split at hq
  · rcases mem_insert.mp hq with rfl | hq
    · exact Or.inr rfl
    exact Or.inl (h.logged q c hq)
  exact Or.inl (h.logged q c hq)
end

lemma reserve_of_idle (hnd : s.store.lh.Nodup) (hle : s.store.lh.length ≤ logBlocks)
    (hidle : ∀ p, (s.pc p).active = false) (hr : s.recovering = none) : Reserve s where
  nodup := hnd
  length_le := hle
  logged := fun p b hb => by simp [held_of_inactive (hidle p)] at hb
  room := fun _ => ⟨∅, fun p => by simp [hidle p], by simpa using hle⟩
  running := hr

variable [DecidableEq P]

lemma Reserve.endWake (h : Reserve s) (hc : s.committing = false) :
    Reserve { s.wakeup.setPc p .idle with
        outstanding := s.outstanding - 1
        ended := s.ended ++ [op] } := by
  have hheld : ∀ q ≠ p, ({ s.wakeup.setPc p .idle with
        outstanding := s.outstanding - 1
        ended := s.ended ++ [op] } : Kernel P).held q = s.held q := by
    intro q hq
    simp only [held, setPc, update_of_ne hq]
    by_cases hact : (s.pc q).active
    · obtain ⟨o, ho⟩ := OpPc.active_iff.mp hact
      rw [(wakeup_inOp s q o).mpr ho, ho]
      rfl
    have hn : (s.pc q).active = false := by simpa using hact
    have hn' : (s.wakeup.pc q).active = false := by rw [wakeup_active, hn]
    exact (held_of_inactive hn').trans (held_of_inactive hn).symm
  have hp : ({ s.wakeup.setPc p .idle with
        outstanding := s.outstanding - 1
        ended := s.ended ++ [op] } : Kernel P).held p = ∅ :=
    held_of_inactive (by simp [setPc, OpPc.active])
  refine ⟨h.nodup, h.length_le, fun q b hb => ?_, fun _ => ?_, h.running⟩
  · by_cases hq : q = p
    · rw [hq, hp] at hb
      simp at hb
    rw [hheld q hq] at hb
    exact h.logged q b hb
  obtain ⟨A, hA, hle⟩ := h.room hc
  refine ⟨A.erase p, fun q => ?_, ?_⟩
  · by_cases hq : q = p
    · simp [setPc, hq, OpPc.active]
    simp [setPc, hq, hA, wakeup_active]
  have hsum : ∑ q ∈ A.erase p, ({ s.wakeup.setPc p .idle with
      outstanding := s.outstanding - 1
      ended := s.ended ++ [op] } : Kernel P).reserved q = ∑ q ∈ A.erase p, s.reserved q :=
    sum_congr rfl fun q hq => by rw [reserved, reserved, hheld q (ne_of_mem_erase hq)]
  have hmono : ∑ q ∈ A.erase p, s.reserved q ≤ ∑ q ∈ A, s.reserved q :=
    sum_le_sum_of_subset (erase_subset p A)
  rw [hsum]
  exact (Nat.add_le_add_left hmono _).trans hle

lemma commitStep_lh_cases (start : Nat) (st : Store) (pc : CommitPc) :
    (commitStep start st pc).1.lh = st.lh ∨ (commitStep start st pc).1.lh = [] := by
  cases pc with
  | writeLog tail
  | writeHead
  | installTrans tail => exact Or.inl rfl
  | eraseHead => exact Or.inr rfl

omit [DecidableEq P] in
lemma Control.idle_of_inCommit (hcl : Control s) (hp : (s.pc p).inCommit)
    (q : P) : (s.pc q).active = false := by
  have h0 := hcl.alone (hcl.committing p hp)
  exact Lib.Counts.eq_false (h0 ▸ hcl.outstanding) q

lemma Reserve.step (h : Reserve s) (hcl : Control s) (hh : History s)
    (hb : OpBounded s a) (hstep : Step start s a s') : Reserve s' := by
  cases hstep with
  | beginOp p hup hp
  | beginWait p hup hp hw => exact h.move (by rw [hp]; rfl) rfl
  | beginAdmit p hup hp hw => exact h.beginAdmit hcl hh hp hw
  | logTooBig p op b v hup hp hn
  | logOutside p op b v hup hp hn ho
  | endPanic p op hup hp hc => exact ⟨h.1, h.2, h.3, h.4, h.5⟩
  | logWrite p op b v hup hp hn ho => exact h.logWrite hcl hh hp hb
  | endLast p op hup hp hc ho =>
    have hcl' := hcl.endLast hup hp hc ho (OpPc.inEndOp_inCommit (commitEntry s.store))
      (OpPc.inEndOp_active _)
    refine reserve_of_idle h.nodup h.length_le (hcl'.idle_of_inCommit (p := p) ?_) h.running
    simpa [setPc] using OpPc.inEndOp_inCommit (commitEntry s.store)
  | endWake p op hup hp hc ho => exact h.endWake hc
  | commitWrite p pc hup hp =>
    have hcl' : Control (s.commitWrite start p pc) := hcl.commitWrite hup hp
    have hidle := hcl'.idle_of_inCommit (p := p)
      (by simpa [Kernel.commitWrite, setPc] using OpPc.inEndOp_inCommit _)
    refine reserve_of_idle ?_ ?_ hidle h.running
    · rcases commitStep_lh_cases start s.store pc with he | he
      · exact he ▸ h.nodup
      exact he ▸ List.nodup_nil
    rcases commitStep_lh_cases start s.store pc with he | he
    · exact (congrArg List.length he).le.trans h.length_le
    exact (congrArg List.length he).le.trans zero_le
  | commitEnd p hup hp =>
    have hidle := hcl.idle_of_inCommit (by rw [hp]; rfl)
    refine reserve_of_idle h.nodup h.length_le (fun q => ?_) h.running
    by_cases hq : q = p
    · simp [Kernel.commitEnd, setPc, hq, OpPc.active]
    simp [Kernel.commitEnd, setPc, hq, wakeup_active, hidle q]
  | crash => exact absurd hb id
  | recoverWrite pc hpc =>
    rw [h.running] at hpc
    cases hpc

structure ReserveInv (s : Kernel P) : Prop where
  control : Control s
  history : History s
  reserve : Reserve s

omit [DecidableEq P] in
lemma reserveInv_boot (d : Disk) : ReserveInv (boot P d) :=
  ⟨control_boot d, history_boot d, reserve_boot d⟩

section
variable (h : ReserveInv s) (hb : OpBounded s a) (hn : s.next start a = some s')
include h hb hn

lemma ReserveInv.step : ReserveInv s' := by
  have hstep := step_of_next hn
  exact ⟨h.control.step hstep, h.history.step h.control hstep,
    h.reserve.step h.control h.history hb hstep⟩

lemma ReserveInv.panics_iff (hs : s.panicked ≠ some .tooBig) :
    s'.panicked ≠ some .tooBig ↔ AbsorbRoom s a := by
  cases step_of_next hn with
  | logTooBig p op b v hup hp hfull =>
    have hin : b ∈ s.store.lh := by
      by_contra hb'
      have hlt := (h.reserve.lt_of_new (h.control.not_committing hp) (by rw [hp]; rfl) hb' hb).1
      omega
    simp only [AbsorbRoom, ne_eq, not_true_eq_false, false_iff]
    intro hroom
    have := hroom hin
    omega
  | logOutside p op b v hup hp hlt ho => exact iff_of_true (by simp) fun _ => hlt
  | logWrite p op b v hup hp hlt ho => exact iff_of_true hs fun _ => hlt
  | endPanic p op hup hp hc => exact iff_of_true (by simp) trivial
  | crash => exact absurd hb id
  | recoverWrite pc hpc
  | _ => exact iff_of_true hs trivial
end

lemma ReserveInv.stuck (h : ReserveInv s) (hp : s.panicked = some .tooBig)
    (hb : OpBounded s a) : s.next start a = none := by
  have hup : s.up = false := by simp [up, hp]
  cases a with
  | crash => exact absurd hb id
  | recoverWrite => simp [next, h.reserve.running]
  | _ => simp [next, hup]

lemma ReserveInv.run_panics_iff {as : List (Act P)} (h : ReserveInv s)
    (hs : s.panicked ≠ some .tooBig) (hb : Lib.Along (next start) OpBounded s as)
    (hr : Lib.run (next start) s as = some s') :
    s'.panicked ≠ some .tooBig ↔ Lib.Along (next start) AbsorbRoom s as := by
  induction as generalizing s with
  | nil =>
    cases hr
    exact iff_of_true hs trivial
  | cons a as ih =>
    obtain ⟨t, ht, hr⟩ := Lib.run_cons hr
    obtain ⟨hba, hb⟩ := (Lib.along_cons ht).mp hb
    rw [Lib.along_cons ht, ← h.panics_iff hba ht hs]
    by_cases htp : t.panicked = some .tooBig
    · -- the machine is stuck in `t`, so the run ends there
      have hend : s' = t := by
        cases as with
        | nil =>
          cases hr
          rfl
        | cons a' as =>
          obtain ⟨u, hu, -⟩ := Lib.run_cons hr
          rw [(h.step hba ht).stuck htp hb.1] at hu
          cases hu
      rw [hend]
      simp [htp]
    rw [ih (h.step hba ht) htp hb hr]
    simp [htp]

theorem reservation_suffices_iff (start : Nat) (d : Disk) (es : List (Act P)) (s : Kernel P)
    (hb : Lib.Along (next start) OpBounded (boot P d) es)
    (hr : Lib.run (next start) (boot P d) es = some s) :
    s.store.lh.length ≤ logBlocks ∧ s.store.lh.Nodup ∧
      (s.panicked ≠ some .tooBig ↔ Lib.Along (next start) AbsorbRoom (boot P d) es) := by
  have h : ReserveInv s :=
    Lib.run_induction (fun _ _ _ h hb hn => h.step hb hn) (reserveInv_boot d) hb hr
  exact ⟨h.reserve.length_le, h.reserve.nodup,
    (reserveInv_boot d).run_panics_iff (by simp [boot]) hb hr⟩

def fillLog : List (Act (Fin 3)) :=
  [.beginOp 0, .beginTry 0, .beginOp 1, .beginTry 1, .beginOp 2, .beginTry 2] ++
    (List.finRange 3).flatMap fun p =>
      (List.range 10).map fun i => .logWrite p (100 + 10 * p + i) Block.zero

theorem reservation_suffices_iff_fillLog :
    ∃ s, Lib.run (next 2) (boot (Fin 3) (fun _ => Block.zero)) fillLog = some s ∧
      s.store.lh.length = logBlocks ∧ s.store.lh.Nodup :=
  ⟨_, rfl, rfl, (reservation_suffices_iff 2 (fun _ => Block.zero) fillLog _
    (by decide +kernel) rfl).2.1⟩

theorem reservation_exceeded_by_absorbed_write :
    ∃ s, Lib.Along (next 2) OpBounded (boot (Fin 3) (fun _ => Block.zero))
        (fillLog ++ [.logWrite 0 100 Block.zero]) ∧
      Lib.run (next 2) (boot (Fin 3) (fun _ => Block.zero))
        (fillLog ++ [.logWrite 0 100 Block.zero]) = some s ∧
      s.panicked = some .tooBig :=
  ⟨_, by decide +kernel, rfl, rfl⟩
end Xv6.Log.Kernel
