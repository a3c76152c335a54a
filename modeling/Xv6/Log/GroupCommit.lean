import Xv6.Log.GroupData

namespace Xv6.Log.Kernel
open Function List
open Lib (applyWrites)
variable {P : Type} {start : Nat} {d : Disk} {s s' : Kernel P} {a : Act P} {ws : List OpWrite}
  {p : P} {f : P → OpPc} {ops : List Nat} {w : OpWrite}

def Split (s : Kernel P) : Prop :=
  ∃ past cur, s.writes = past ++ cur ∧ (∀ w ∈ past, w.op ∉ s.group) ∧ ∀ w ∈ cur, w.op ∈ s.group

structure Staging (start : Nat) (d : Disk) (s : Kernel P) : Prop where
  staged : Staged s.store (s.writesOf s.group)
  length_le : s.store.lh.length ≤ logBlocks
  clean : getHeader (s.store.disk start) = []
  rep : Represents start s.store.disk (s.durableDisk d)
  fresh : ∀ i ∈ s.group, i ∉ s.durable

structure Committing (start : Nat) (d : Disk) (s : Kernel P) (pc : CommitPc) : Prop where
  commit : ∃ L, CommitInv start L (s.writesOf s.group) s.store pc ∧
    s.durableDisk d = pc.outcome L (s.writesOf s.group)
  blocks : ∀ b, b ∈ s.store.lh ↔ b ∈ (s.writesOf s.group).map Prod.fst
  fresh : pc.committed = false → ∀ i ∈ s.group, i ∉ s.durable

structure Erased (start : Nat) (d : Disk) (s : Kernel P) : Prop where
  staged : Staged s.store []
  clean : getHeader (s.store.disk start) = []
  rep : Represents start s.store.disk (s.durableDisk d)

structure Data (start : Nat) (d : Disk) (s : Kernel P) : Prop where
  split : Split s
  home : ∀ w ∈ s.writes, IsHome start w.block
  staging : s.recovering = none → s.committing = false → Staging start d s
  committing : ∀ p pc, s.pc p = .commit pc → Committing start d s pc
  erased : ∀ p, s.pc p = .endCommit → Erased start d s
  recovering : ∀ pc, s.recovering = some pc → RecoverInv start (s.durableDisk d) s.store pc
  booting : s.recovering ≠ none → s.group = []

lemma staging_boot (hd : headerCount (d start) = 0) : Staging start d (boot P d) := by
  have hclean : getHeader (d start) = [] := getHeader_eq_nil.mpr hd
  exact ⟨staged_nil rfl (fun _ => rfl), Nat.zero_le _, hclean,
    represents_of_clean hclean (fun _ _ => rfl), nofun⟩

lemma data_boot (hd : headerCount (d start) = 0) : Data start d (boot P d) where
  split := ⟨[], [], rfl, nofun, nofun⟩
  home := nofun
  staging := fun _ _ => staging_boot hd
  committing := nofun
  erased := nofun
  recovering := nofun
  booting := fun _ => rfl

lemma Data.represents (h : Data start d s) (hc : Control s) :
    Represents start s.store.disk (s.durableDisk d) := by
  cases hr : s.recovering with
  | some pc => exact (h.recovering pc hr).represents
  | none =>
    cases hcom : s.committing with
    | false => exact (h.staging hr hcom).rep
    | true =>
      obtain ⟨p, hp⟩ := hc.committer hcom
      cases hpc : s.pc p with
      | commit pc =>
        obtain ⟨L, hinv, hout⟩ := (h.committing p pc hpc).commit
        rw [hout]
        exact hinv.represents
      | endCommit => exact (h.erased p hpc).rep
      | idle
      | beginOp
      | asleep
      | inOp op => simp [hpc, OpPc.inCommit] at hp

lemma Data.frame (h : Data start d s) {o : Int} {n : Nat} {e : List Nat} {k : Option Panic}
    (hcom : ∀ q, (f q).inCommit → f q = s.pc q) :
    Data start d { s with
      pc := f, outstanding := o, nextOp := n, ended := e, panicked := k } where
  split := h.split
  home := h.home
  staging := fun hr hc =>
    have hs := h.staging hr hc
    ⟨hs.staged, hs.length_le, hs.clean, hs.rep, hs.fresh⟩
  committing := fun q pc hq =>
    have hf : f q = .commit pc := hq
    have hs := h.committing q pc ((hcom q (by rw [hf]; rfl)).symm.trans hf)
    ⟨hs.commit, hs.blocks, hs.fresh⟩
  erased := fun q hq =>
    have hf : f q = .endCommit := hq
    have hs := h.erased q ((hcom q (by rw [hf]; rfl)).symm.trans hf)
    ⟨hs.staged, hs.clean, hs.rep⟩
  recovering := h.recovering
  booting := h.booting

lemma filter_append_of_notMem {ops' : List Nat} (h : ∀ w ∈ ws, w.op ∉ ops') :
    ws.filter (fun w => w.op ∈ ops ++ ops') = ws.filter (fun w => w.op ∈ ops) :=
  filter_congr fun w hw => by simp [h w hw]

lemma filter_concat_of_mem (h : w.op ∈ ops) :
    (ws ++ [w]).filter (fun w => w.op ∈ ops) = ws.filter (fun w => w.op ∈ ops) ++ [w] := by
  rw [filter_append, filter_cons_of_pos (by simpa using h), filter_nil]

lemma filter_concat_of_notMem (h : w.op ∉ ops) :
    (ws ++ [w]).filter (fun w => w.op ∈ ops) = ws.filter (fun w => w.op ∈ ops) := by
  rw [filter_append, filter_cons_of_neg (by simpa using h), filter_nil, append_nil]

lemma writesOf_admit (h : History s) : (s.writes.filter (fun w => w.op ∈ s.group ++ [s.nextOp])) =
      s.writes.filter (fun w => w.op ∈ s.group) :=
  filter_append_of_notMem fun w hw hm => lt_irrefl _ (mem_singleton.mp hm ▸ h.write_lt w hw)

lemma Split.writesOf_group {past cur : List OpWrite} (hw : s.writes = past ++ cur)
    (hp : ∀ w ∈ past, w.op ∉ s.group) (hc : ∀ w ∈ cur, w.op ∈ s.group) :
    s.writesOf s.group = cur.map OpWrite.toWrite := by
  have hpast : past.filter (fun w => w.op ∈ s.group) = [] :=
    filter_eq_nil_iff.mpr fun w hw => by simpa using hp w hw
  have hcur : cur.filter (fun w => w.op ∈ s.group) = cur :=
    filter_eq_self.mpr fun w hw => by simpa using hc w hw
  rw [writesOf, hw, filter_append, hpast, hcur, nil_append]

lemma Split.writesOf_durable (h : Split s) (hfresh : ∀ i ∈ s.group, i ∉ s.durable) :
    s.writesOf (s.durable ++ s.group) = s.writesOf s.durable ++ s.writesOf s.group := by
  obtain ⟨past, cur, hw, hp, hc⟩ := h
  have hcur : ∀ w ∈ cur, w.op ∉ s.durable := fun w hw => hfresh _ (hc w hw)
  have h1 : cur.filter (fun w => w.op ∈ s.durable) = [] :=
    filter_eq_nil_iff.mpr fun w hw => by simpa using hcur w hw
  have h2 : cur.filter (fun w => w.op ∈ s.durable ++ s.group) = cur :=
    filter_eq_self.mpr fun w hw => by simp [hc w hw]
  rw [Split.writesOf_group hw hp hc, writesOf, writesOf, hw, filter_append,
    filter_append, filter_append_of_notMem hp, h1, h2, append_nil, map_append]

lemma Data.logWrite (h : Data start d s) (hcl : Control s) (hh : History s)
    {op b : Nat} {v : Block} (hup : s.up) (hp : s.pc p = .inOp op) (hb : IsHome start b)
    (hn : s.store.lh.length < logBlocks) :
    Data start d { s with
        store := s.store.logWrite b v
        writes := s.writes ++ [{ op := op, block := b, data := v }] } := by
  have hc := hcl.not_committing hp
  have hs := h.staging (up_iff.mp hup).1 hc
  have hop := (hh.current p op hp).1
  have hdur := hs.fresh op hop
  refine ⟨?_, ?_, fun _ _ => ⟨?_, ?_, hs.clean, ?_, hs.fresh⟩, ?_, ?_, ?_, h.booting⟩
  · obtain ⟨past, cur, hw, hpast, hcur⟩ := h.split
    refine ⟨past, cur ++ [{ op := op, block := b, data := v }], ?_, hpast, fun w hw => ?_⟩
    · rw [hw, append_assoc]
    rcases mem_append.mp hw with hw | hw
    · exact hcur w hw
    rwa [mem_singleton.mp hw]
  · intro w hw
    rcases mem_append.mp hw with hw | hw
    · exact h.home w hw
    rwa [mem_singleton.mp hw]
  · have hst := hs.staged.logWrite b v
    rwa [writesOf, filter_concat_of_mem hop, map_append]
  · simp only [Store.logWrite]
    split
    · exact hs.length_le
    rwa [length_append, length_singleton]
  · rw [durableDisk, writesOf, filter_concat_of_notMem hdur]
    exact hs.rep
  · intro q pc hq
    have hno := hcl.no_commit hc q
    rw [show s.pc q = .commit pc from hq] at hno
    cases hno
  · intro q hq
    have hno := hcl.no_commit hc q
    rw [show s.pc q = .endCommit from hq] at hno
    cases hno
  intro pc hpc
  rw [show s.recovering = none from (up_iff.mp hup).1] at hpc
  cases hpc

variable [DecidableEq P]

lemma Data.beginAdmit (h : Data start d s) (hcl : Control s) (hh : History s)
    (hup : s.up) (hw : s.mustWait = false) :
    Data start d (s.begun p) := by
  have hc := committing_of_mustWait hw
  have hs := h.staging (up_iff.mp hup).1 hc
  have hno := hcl.no_commit_inOp (p := p) hc s.nextOp
  refine ⟨?_, h.home, fun _ _ => ⟨?_, hs.length_le, hs.clean, hs.rep, ?_⟩, ?_, ?_, h.recovering,
    fun hr => absurd (up_iff.mp hup).1 hr⟩
  · obtain ⟨past, cur, hpc, hpast, hcur⟩ := h.split
    refine ⟨past, cur, hpc, fun w hw hm => ?_, fun w hw => mem_append_left _ (hcur w hw)⟩
    rcases mem_append.mp hm with hm | hm
    · exact hpast w hw hm
    have hlt := hh.write_lt w (by rw [hpc]; exact mem_append_left _ hw)
    rw [mem_singleton.mp hm] at hlt
    exact lt_irrefl _ hlt
  · have hst := hs.staged
    simp only [writesOf] at hst
    simp only [writesOf, setPc, writesOf_admit hh]
    exact hst
  · intro i hi hdur
    rcases mem_append.mp hi with hi | hi
    · exact hs.fresh i hi hdur
    have hlt := hh.ended_lt i (hh.durable_ended i hdur)
    rw [mem_singleton.mp hi] at hlt
    exact lt_irrefl _ hlt
  · intro q pc hq
    have hq' := hno q
    rw [show update s.pc p (.inOp s.nextOp) q = .commit pc from hq] at hq'
    cases hq'
  intro q hq
  have hq' := hno q
  rw [show update s.pc p (.inOp s.nextOp) q = .endCommit from hq] at hq'
  cases hq'

lemma Data.endLast (h : Data start d s) (hcl : Control s) {op : Nat}
    (hup : s.up) (hc : s.committing = false) :
    Data start d { s.setPc p (.inEndOp (commitEntry s.store)) with
        outstanding := s.outstanding - 1
        ended := s.ended ++ [op]
        committing := true } := by
  have hs := h.staging (up_iff.mp hup).1 hc
  have hlh : ∀ b ∈ s.store.lh, IsHome start b := by
    intro b hb
    obtain ⟨x, hx, rfl⟩ := mem_map.mp ((hs.staged.mem_iff b).mp hb)
    obtain ⟨w, hw, rfl⟩ := mem_map.mp hx
    exact h.home w (mem_of_mem_filter hw)
  have honly : ∀ q c c', update s.pc p c q = c' → c'.inCommit → q = p := by
    intro q c c' hq hc'
    by_contra hne
    rw [update_of_ne hne] at hq
    rw [← hq, hcl.no_commit hc q] at hc'
    cases hc'
  refine ⟨h.split, h.home, nofun, ?_, ?_, h.recovering, h.booting⟩
  · intro q pc hq
    have hqp := honly q _ _ hq rfl
    subst hqp
    have hq' : update s.pc q (.inEndOp (commitEntry s.store)) q = .commit pc := hq
    rw [update_self] at hq'
    cases hpc : commitEntry s.store with
    | none =>
      rw [hpc] at hq'
      cases hq'
    | some pc' =>
      rw [hpc] at hq'
      cases hq'
      obtain ⟨hinv, hnc⟩ :=
        commitInv_entry hs.staged hlh hs.length_le hs.clean hs.rep hpc
      refine ⟨⟨s.durableDisk d, hinv, ?_⟩, hs.staged.mem_iff, fun _ => hs.fresh⟩
      rw [CommitPc.outcome, if_neg (by simp [hnc])]
      rfl
  intro q hq
  have hqp := honly q _ _ hq rfl
  subst hqp
  have hq' : update s.pc q (.inEndOp (commitEntry s.store)) q = .endCommit := hq
  rw [update_self] at hq'
  cases hpc : commitEntry s.store with
  | some pc =>
    rw [hpc] at hq'
    cases hq'
  | none =>
    have hnil : s.store.lh = [] := by simpa [commitEntry] using hpc
    refine ⟨staged_nil hnil (fun b => hs.staged.unpinned b (by simp [hnil])), hs.clean, hs.rep⟩

lemma commitStep_lh {s s' : Store} {pc pc' : CommitPc}
    (h : commitStep start s pc = (s', some pc')) : s'.lh = s.lh := by
  have hs : (commitStep start s pc).1 = s' := by rw [h]
  subst hs
  cases pc with
  | eraseHead => simp [commitStep] at h
  | writeLog tail => rfl
  | writeHead => rfl
  | installTrans tail => rfl

lemma Data.commitWrite (h : Data start d s) (hcl : Control s) {pc : CommitPc}
    (hup : s.up) (hp : s.pc p = .commit pc) : Data start d (s.commitWrite start p pc) := by
  have hc := h.committing p pc hp
  obtain ⟨L, hinv, hout⟩ := hc.commit
  have hcom : s.committing := hcl.committing p (by rw [hp]; rfl)
  have honly : ∀ q c, (s.commitWrite start p pc).pc q = c → c.inCommit → q = p := by
    intro q c hq hcc
    by_contra hne
    have hq' : s.pc q = c := by simpa [Kernel.commitWrite, setPc, update_of_ne hne] using hq
    exact hne (hcl.unique q p (by rwa [hq']) (by rw [hp]; rfl))
  have hdur : (s.commitWrite start p pc).durableDisk d =
      if pc = .writeHead then applyWrites (s.durableDisk d) (s.writesOf s.group)
      else s.durableDisk d := by
    by_cases hw : pc = .writeHead
    · subst hw
      have hd := h.split.writesOf_durable (hc.fresh rfl)
      rw [if_pos rfl, durableDisk, durableDisk, ← Lib.applyWrites_append, ← hd]
      rfl
    rw [if_neg hw]
    simp [Kernel.commitWrite, hw, durableDisk, writesOf, setPc]
  refine ⟨h.split, h.home, fun _ hcf => ?_, fun q pc' hq => ?_, fun q hq => ?_, ?_, h.booting⟩
  · rw [show s.committing = false from hcf] at hcom
    cases hcom
  · have hqp := honly q _ hq rfl
    subst hqp
    rcases hr : commitStep start s.store pc with ⟨st, r⟩
    have hq' : OpPc.inEndOp r = .commit pc' := by simpa [Kernel.commitWrite, setPc, hr] using hq
    cases r with
    | none => cases hq'
    | some r =>
      cases hq'
      have hst : (s.commitWrite start q pc).store = st := by simp [Kernel.commitWrite, hr]
      have hcs := committed_step hr
      refine ⟨⟨L, ?_, ?_⟩, ?_, ?_⟩
      · rw [hst]
        exact hinv.step hr
      · show (s.commitWrite start q pc).durableDisk d = pc'.outcome L (s.writesOf s.group)
        rw [hdur, hout, CommitPc.outcome, CommitPc.outcome]
        by_cases hw : pc = .writeHead
        · have hpc' : pc'.committed := hcs.mpr (Or.inl hw)
          rw [if_pos hw, if_pos hpc', hw]
          rfl
        simp only [hcs, hw, false_or, if_false]
      · intro b
        rw [hst, commitStep_lh hr]
        exact hc.blocks b
      intro hnc i hi
      have hpc : pc ≠ .writeHead ∧ pc.committed = false := by
        have : ¬(pc = .writeHead ∨ pc.committed) := fun h' => by
          rw [hcs.mpr h'] at hnc
          cases hnc
        simpa using this
      have hfresh := hc.fresh hpc.2 i hi
      simpa [Kernel.commitWrite, hpc.1, setPc] using hfresh
  · have hqp := honly q _ hq rfl
    subst hqp
    rcases hr : commitStep start s.store pc with ⟨st, r⟩
    have hq' : OpPc.inEndOp r = .endCommit := by simpa [Kernel.commitWrite, setPc, hr] using hq
    cases r with
    | some r => cases hq'
    | none =>
      have hst : (s.commitWrite start q pc).store = st := by simp [Kernel.commitWrite, hr]
      obtain ⟨hclean, hrep, hstaged⟩ := hinv.done hr
      have he : pc = .eraseHead := by cases pc <;> simp [commitStep] at hr ⊢
      have hout' : (s.commitWrite start q pc).durableDisk d =
          applyWrites L (s.writesOf s.group) := by
        rw [hdur, hout, he]
        rfl
      exact ⟨hst ▸ hstaged, hst ▸ hclean, by rwa [hst, hout']⟩
  intro pc' hpc'
  rw [show (s.commitWrite start p pc).recovering = none from (up_iff.mp hup).1] at hpc'
  cases hpc'

lemma Data.commitEnd (h : Data start d s) (hcl : Control s) (hup : s.up)
    (hp : s.pc p = .endCommit) : Data start d (s.commitEnd p) := by
  have he := h.erased p hp
  have hno : ∀ q, ((s.commitEnd p).pc q).inCommit = false := by
    have hcn := hcl.commitEnd hup hp
    exact fun q => hcn.no_commit rfl q
  have hnil : (s.commitEnd p).writesOf (s.commitEnd p).group = [] := by
    simp [writesOf, Kernel.commitEnd]
  refine ⟨⟨s.writes, [], (append_nil _).symm, by rintro _ _ ⟨⟩, by simp⟩, h.home, fun _ _ => ?_,
    fun q pc hq => ?_, fun q hq => ?_, h.recovering, fun _ => rfl⟩
  · have hlh : s.store.lh = [] := eq_nil_iff_forall_not_mem.mpr
      fun b hb => by simpa using (he.staged.mem_iff b).mp hb
    refine ⟨by rw [hnil]; exact he.staged, ?_, he.clean, he.rep, by rintro _ ⟨⟩⟩
    show s.store.lh.length ≤ logBlocks
    rw [hlh]
    exact Nat.zero_le _
  · have hq' := hno q
    rw [hq] at hq'
    cases hq'
  have hq' := hno q
  rw [hq] at hq'
  cases hq'

omit [DecidableEq P] in
lemma Data.crash (h : Data start d s) (hcl : Control s) : Data start d (s.crash start) := by
  have hr := recoverInv_entry (h.represents hcl)
  rw [Kernel.crash]
  generalize recoverEntry start s.store.crash = r at hr ⊢
  refine ⟨⟨s.writes, [], (append_nil _).symm, nofun, nofun⟩, h.home, nofun, nofun, nofun,
    fun pc hpc => ?_, fun _ => rfl⟩
  have hpc' : r.2 = pc := Option.some.inj hpc
  rwa [← hpc']

omit [DecidableEq P] in
lemma Data.recoverWrite (h : Data start d s) (hcl : Control s) {pc : RecoverPc}
    (hpc : s.recovering = some pc) :
    Data start d { s with
        store := (recoverStep start s.store pc).1
        recovering := (recoverStep start s.store pc).2 } := by
  have hidle := hcl.booting (by simp [hpc])
  have hgroup := h.booting (by simp [hpc])
  have hinv := h.recovering pc hpc
  rcases hr : recoverStep start s.store pc with ⟨st, r⟩
  refine ⟨h.split, h.home, fun hrec _ => ?_, fun q c hq => ?_, fun q hq => ?_, fun pc' hpc' => ?_,
    fun _ => hgroup⟩
  · have hr0 : r = none := hrec
    subst hr0
    obtain ⟨hclean, hrep, hst⟩ := hinv.done hr
    have hnil : s.writesOf s.group = [] := by simp [writesOf, hgroup]
    have hlh : st.lh = [] := eq_nil_iff_forall_not_mem.mpr
      fun b hb => by simpa using (hst.mem_iff b).mp hb
    refine ⟨?_, ?_, hclean, hrep, ?_⟩
    · show Staged st (s.writesOf s.group)
      rwa [hnil]
    · rw [hlh]
      exact Nat.zero_le _
    intro i hi
    rw [show ({ s with store := st, recovering := none } : Kernel P).group = [] from hgroup] at hi
    cases hi
  · rw [show s.pc q = .idle from hidle q] at hq
    cases hq
  · rw [show s.pc q = .idle from hidle q] at hq
    cases hq
  have hr' : r = some pc' := hpc'
  subst hr'
  exact hinv.step hr

lemma update_eq_of_inCommit {p q : P} {c : OpPc} (hc : c.inCommit = false)
    (hq : (update f p c q).inCommit) : update f p c q = f q := by
  by_cases hqp : q = p
  · rw [hqp, update_self, hc] at hq
    cases hq
  rw [update_of_ne hqp]

def HomeWrite (start : Nat) (_ : Kernel P) : Act P → Prop
  | .logWrite _ b _ => IsHome start b
  | _ => True

instance (start : Nat) (s : Kernel P) (a : Act P) : Decidable (HomeWrite start s a) := by
  cases a <;> unfold HomeWrite <;> infer_instance

lemma Data.step (h : Data start d s) (hcl : Control s) (hh : History s)
    (hhome : HomeWrite start s a) (hstep : Step start s a s') : Data start d s' := by
  cases hstep with
  | beginOp p hup hp
  | beginWait p hup hp hw => exact h.frame fun q hq => update_eq_of_inCommit rfl hq
  | beginAdmit p hup hp hw => exact h.beginAdmit hcl hh hup hw
  | logTooBig p op b v hup hp hn
  | logOutside p op b v hup hp hn ho
  | endPanic p op hup hp hc => exact h.frame fun q _ => rfl
  | logWrite p op b v hup hp hn ho => exact h.logWrite hcl hh hup hp hhome hn
  | endLast p op hup hp hc ho => exact h.endLast hcl hup hc
  | endWake p op hup hp hc ho =>
    refine h.frame fun q hq => absurd hq ?_
    rw [show (s.wakeup.setPc p .idle).pc q = s.wakeup.pc q from update_eq_of_inCommit rfl hq,
      wakeup_inCommit, hcl.no_commit hc q]
    exact Bool.false_ne_true
  | commitWrite p pc hup hp => exact h.commitWrite hcl hup hp
  | commitEnd p hup hp => exact h.commitEnd hcl hup hp
  | crash => exact h.crash hcl
  | recoverWrite pc hpc => exact h.recoverWrite hcl hpc

/-- The invariant of every run. -/
structure Inv (start : Nat) (d : Disk) (s : Kernel P) : Prop where
  control : Control s
  history : History s
  data : Data start d s

lemma Inv.step (h : Inv start d s) (hhome : HomeWrite start s a)
    (hn : s.next start a = some s') : Inv start d s' := by
  have hstep := step_of_next hn
  exact ⟨h.control.step hstep, h.history.step h.control hstep,
    h.data.step h.control h.history hhome hstep⟩

structure AllOrNothing (start : Nat) (d : Disk) (s : Kernel P) : Prop where
  commit_alone : ∀ p pc, s.pc p = .commit pc → s.outstanding = 0 ∧ s.committing
  no_logWrite : ∀ p, (s.pc p).inCommit → ∀ q b v, s.next start (.logWrite q b v) = none
  no_begin : ∀ p, (s.pc p).inCommit →
    ∀ q s', s.next start (.beginTry q) = some s' → s'.pc q = .asleep
  no_panic : s.panicked ≠ some .logCommitting ∧ s.panicked ≠ some .outsideTrans
  commit_blocks : ∀ p pc, s.pc p = .commit pc →
    ∀ b, b ∈ s.store.lh ↔ ∃ w ∈ s.writes, w.op ∈ s.group ∧ w.block = b
  commit_complete : ∀ p pc, s.pc p = .commit pc → ∀ i ∈ s.group, i ∈ s.ended ∧ ∀ q, s.pc q ≠ .inOp i
  recovered : ∀ s', s.next start .recoverWrite = some s' → s'.recovering = none →
    (∀ b, IsHome start b → s'.store.disk b = applyWrites d (s'.writesOf s'.durable) b) ∧
      ∀ i ∈ s'.durable, i ∈ s'.ended ∧ ∀ q, s'.pc q ≠ .inOp i

omit [DecidableEq P] in
lemma Inv.not_inOp (h : Inv start d s) {i : Nat} (hi : i ∈ s.ended) (q : P) : s.pc q ≠ .inOp i :=
  fun hq => (h.history.current q i hq).2 hi

lemma Inv.no_logWrite (h : Inv start d s) (hp : (s.pc p).inCommit)
    (q : P) (b : Nat) (v : Block) : s.next start (.logWrite q b v) = none := by
  have h0 := h.control.alone (h.control.committing p hp)
  have hact := Lib.Counts.eq_false (h0 ▸ h.control.outstanding) q
  simp only [next]
  split
  · rename_i hq
    rw [hq] at hact
    cases hact
  rfl

lemma Inv.no_begin (h : Inv start d s) (hp : (s.pc p).inCommit)
    {q : P} (hn : s.next start (.beginTry q) = some s') : s'.pc q = .asleep := by
  have hc := h.control.committing p hp
  simp only [next] at hn
  split at hn <;> cases hn
  simp [beginTry, mustWait, hc, setPc]

lemma Inv.recovered (h : Inv start d s) (hn : s.next start .recoverWrite = some s')
    (hr : s'.recovering = none) {b : Nat} (hb : IsHome start b) :
    s'.store.disk b = applyWrites d (s'.writesOf s'.durable) b := by
  have h' : Inv start d s' := h.step (a := .recoverWrite) trivial hn
  have hc : s'.committing = false := by
    cases hpc : s.recovering with
    | none => simp [next, hpc] at hn
    | some pc =>
      simp only [next, hpc, Option.some.injEq] at hn
      subst hn
      by_contra hcom
      obtain ⟨p, hp⟩ := h.control.committer (by simpa using hcom)
      rw [h.control.booting (by simp [hpc]) p] at hp
      cases hp
  have hs := h'.data.staging hr hc
  exact hs.rep.of_clean hs.clean hb

lemma Inv.allOrNothing (h : Inv start d s) : AllOrNothing start d s where
  commit_alone := fun p pc hp => by
    have hc := h.control.committing p (by rw [hp]; rfl)
    exact ⟨h.control.alone hc, hc⟩
  no_logWrite := fun p hp => h.no_logWrite hp
  no_begin := fun p hp q s' hn => h.no_begin hp hn
  no_panic := by rcases h.control.panic with hp | hp <;> simp [hp]
  commit_blocks := fun p pc hp b => by
    rw [(h.data.committing p pc hp).blocks b]
    simp [writesOf, OpWrite.toWrite, and_assoc]
  commit_complete := fun p pc hp i hi => by
    have hc := h.control.committing p (by rw [hp]; rfl)
    have he := h.control.group_complete h.history hc i hi
    exact ⟨he, h.not_inOp he⟩
  recovered := fun s' hn hr => by
    have h' : Inv start d s' := h.step (a := .recoverWrite) trivial hn
    refine ⟨fun b hb => h.recovered hn hr hb, fun i hi => ?_⟩
    have he := h'.history.durable_ended i hi
    exact ⟨he, h'.not_inOp he⟩

theorem allOrNothing_of_run (start : Nat) (d : Disk) (hd : headerCount (d start) = 0)
    (es : List (Act P)) (s : Kernel P)
    (hhome : Lib.Along (next start) (HomeWrite start) (boot P d) es)
    (hr : Lib.run (next start) (boot P d) es = some s) : AllOrNothing start d s :=
  (Lib.run_induction (I := Inv start d) (fun _ _ _ h hp hn => h.step hp hn)
    ⟨control_boot d, history_boot d, data_boot hd⟩ hhome hr).allOrNothing

def sampleRun : List (Act (Fin 2)) :=
  [.beginOp 0, .beginTry 0, .beginOp 1, .beginTry 1, .logWrite 0 40 (fun _ => 1),
    .logWrite 1 41 (fun _ => 2), .endOp 0, .endOp 1, .commitWrite 1, .commitWrite 1,
    .commitWrite 1, .commitWrite 1, .crash, .recoverWrite, .crash, .recoverWrite]

theorem allOrNothing_of_run_sample :
    ∃ s, Lib.run (next 2) (boot (Fin 2) (fun _ => Block.zero)) sampleRun = some s ∧
      s.durable = [0, 1] ∧ AllOrNothing 2 (fun _ => Block.zero) s :=
  ⟨_, rfl, rfl, allOrNothing_of_run 2 (fun _ => Block.zero) rfl sampleRun _ (by decide) rfl⟩
end Xv6.Log.Kernel
