import Xv6.Bio.Contents
import Xv6.Lib.Count

namespace Xv6.Bio.Kernel
open Function List Bool
variable {P : Type} {start : Nat} {s s' : Kernel P} {p : P}

/-- The invariant of the machine. -/
structure Inv (start : Nat) (s : Kernel P) : Prop where
  tracked : Tracked start s
  data : Data start s
  clients : ∀ r ∈ s.refs, Log.IsHome start r.blockno
  outstanding : Lib.Counts s.inOp s.outstanding
  committing : s.committing = s.thread.isSome
  alone : s.thread.isSome → s.outstanding = 0

lemma counted_binit : Counted (Cache.binit P) 0 [] := by
  refine ⟨nodup_reverse.mpr (nodup_finRange nbuf), fun i => ?_, fun i => ?_,
    fun i j hi => ?_, by simp⟩
  · exact mem_reverse.mpr (mem_finRange i)
  · exact ⟨by simp [Cache.binit, refsTo, pinned], rfl, by simp [refsTo], by simp [refsTo],
      by simp [refsTo], by simp [refsTo]⟩
  cases hi

lemma inv_of_idle (hth : s.thread = none) (hc : Counted s.cache (s.refs : Multiset (Ref P)) s.lh)
    (hd : Coherent s.cache s.disk s.last (s.refs : Multiset (Ref P)) s.lh [])
    (hnodup : s.lh.Nodup) (hhome : ∀ b ∈ s.lh, Log.IsHome start b)
    (hle : s.lh.length ≤ logBlocks) (hr : ∀ r ∈ s.refs, Log.IsHome start r.blockno)
    (hout : Lib.Counts s.inOp s.outstanding) (hcom : s.committing = false) : Inv start s := by
  have hrefs : s.allRefs start = s.refs := by
    simp only [allRefs, commitRefs, hth, Multiset.coe_nil, Multiset.add_zero]
  refine ⟨⟨?_, hnodup, hhome, hle, ?_⟩, ?_, hr, hout, ?_, ?_⟩
  · rw [hrefs]
    simpa only [pins, hth] using hc
  · intro t ht
    rw [hth] at ht
    cases ht
  · rw [Data, hrefs]
    simpa only [lag, copies, hth] using hd
  · rw [hcom, hth]
    rfl
  intro h
  rw [hth] at h
  cases h

lemma inv_boot (d : Disk) : Inv start (boot P d) := by
  refine inv_of_idle rfl counted_binit ⟨?_, fun b => .inl rfl, ?_⟩ nodup_nil (by simp [boot])
    (by simp [boot]) (by simp [boot]) (Lib.counts_zero (fun _ => rfl)) rfl
  · intro i _ hv
    cases hv
  intro l n hm
  cases hm

structure SameLog (s s' : Kernel P) : Prop where
  lh : s'.lh = s.lh
  thread : s'.thread = s.thread
  committing : s'.committing = s.committing
  outstanding : s'.outstanding = s.outstanding
  inOp : s'.inOp = s.inOp

lemma Inv.client (h : Inv start s) (hs : SameLog s s')
    (hc : Counted s'.cache (s'.refs + (s.commitRefs start : Multiset (Ref P))) s.pins)
    (hd : Coherent s'.cache s'.disk s'.last
      (s'.refs + (s.commitRefs start : Multiset (Ref P))) s.lag (s.copies start))
    (hr : ∀ r ∈ s'.refs, Log.IsHome start r.blockno) : Inv start s' := by
  have hrefs : s'.commitRefs start = s.commitRefs start := by
    simp only [commitRefs, hs.thread, hs.lh]
  have hpins : s'.pins = s.pins := by simp only [pins, hs.thread, hs.lh]
  have hlag : s'.lag = s.lag := by simp only [lag, hs.thread, hs.lh]
  have hcopies : s'.copies start = s.copies start := by simp only [copies, hs.thread, hs.lh]
  refine ⟨⟨?_, hs.lh ▸ h.tracked.nodup, hs.lh ▸ h.tracked.home, hs.lh ▸ h.tracked.length_le, ?_⟩,
    ?_, hr, ?_, ?_, ?_⟩
  · rwa [allRefs, hrefs, hpins]
  · rw [hs.thread, hs.lh]
    exact h.tracked.thread
  · rwa [Data, allRefs, hrefs, hlag, hcopies]
  · rw [hs.inOp, hs.outstanding]
    exact h.outstanding
  · rw [hs.committing, hs.thread]
    exact h.committing
  rw [hs.thread, hs.outstanding]
  exact h.alone

lemma Inv.panic (h : Inv start s) (w : Panic) : Inv start { s with panicked := some w } :=
  ⟨⟨h.tracked.counted, h.tracked.nodup, h.tracked.home, h.tracked.length_le, h.tracked.thread⟩,
    h.data, h.clients, h.outstanding, h.committing, h.alone⟩

lemma Inv.no_commit (h : Inv start s) (hp : s.inOp p) : s.thread = none := by
  have hpos := h.outstanding.pos hp
  by_contra hne
  have := h.alone (Option.isSome_iff_ne_none.mpr hne)
  omega

variable [DecidableEq P] {r : Ref P} {x : Bool}

def others (start : Nat) (s : Kernel P) (r : Ref P) : Multiset (Ref P) :=
  (s.refs.erase r : Multiset (Ref P)) + (s.commitRefs start : Multiset (Ref P))

lemma allRefs_eq_cons (hr : r ∈ s.refs) : s.allRefs start = r ::ₘ s.others start r := by
  rw [allRefs, others, ← Multiset.cons_add, Multiset.cons_coe,
    Multiset.coe_eq_coe.mpr (perm_cons_erase hr)]

lemma replaced_refs (r r' : Ref P) : ((r' :: s.refs.erase r : List (Ref P)) : Multiset (Ref P)) +
      (s.commitRefs start : Multiset (Ref P)) = r' ::ₘ s.others start r := by
  rw [others, ← Multiset.cons_coe, Multiset.cons_add]

section
variable (h : Inv start s) (hr : r ∈ s.refs)
include h hr

lemma Inv.home_replace (st : Stage) :
    ∀ r' ∈ ({ r with stage := st } :: s.refs.erase r : List (Ref P)),
      Log.IsHome start r'.blockno := by
  intro r' hr'
  rcases mem_cons.mp hr' with rfl | hr'
  · exact h.clients r hr
  exact h.clients r' (mem_of_mem_erase hr')

lemma Inv.replace {st : Stage} {c : Cache P} {d last : Disk}
    (hc : Counted c ({ r with stage := st } ::ₘ s.others start r) s.pins)
    (hd : Coherent c d last ({ r with stage := st } ::ₘ s.others start r) s.lag (s.copies start)) :
    Inv start { s.replace r st with cache := c, disk := d, last := last } := by
  refine h.client ⟨rfl, rfl, rfl, rfl, rfl⟩ ?_ ?_ (h.home_replace hr st)
  · show Counted c (((_ :: s.refs.erase r : List (Ref P)) : Multiset (Ref P)) + _) _
    rw [replaced_refs]
    exact hc
  show Coherent c d last (((_ :: s.refs.erase r : List (Ref P)) : Multiset (Ref P)) + _) _ _
  rwa [replaced_refs]

lemma Inv.counted_cons : Counted s.cache (r ::ₘ s.others start r) s.pins := by
  rw [← allRefs_eq_cons hr]
  exact h.tracked.counted

lemma Inv.coherent_cons :
    Coherent s.cache s.disk s.last (r ::ₘ s.others start r) s.lag (s.copies start) := by
  rw [← allRefs_eq_cons hr]
  exact h.data
end

lemma Stage.holds_iff {st : Stage} : st.holds ↔ ∃ x, st = .hold x := by
  cases st <;> simp [Stage.holds]

def ClientRules (s : Kernel P) : Act P → Prop
  | .logWrite r => s.inOp r.proc
  | .brelse r => r.stage ≠ .hold true
  | _ => True

def LogRules (start : Nat) (s : Kernel P) : Act P → Prop
  | .bread _ dev b => dev = rootdev ∧ Log.IsHome start b
  | .bwrite r => r.stage = .hold true → ∀ c ∈ s.copies start, c.2 ≠ r.blockno
  | _ => True

omit [DecidableEq P] in
lemma Inv.bread (h : Inv start s) {b : Nat} (hb : Log.IsHome start b) :
    Inv start (s.bread p rootdev b) := by
  rw [Kernel.bread]
  split
  · rename_i c i hg
    refine h.client ⟨rfl, rfl, rfl, rfl, rfl⟩ ?_ ?_ ?_
    · simp only [← Multiset.cons_coe, Multiset.cons_add]
      exact h.tracked.counted.bget hg p
    · simp only [← Multiset.cons_coe, Multiset.cons_add]
      exact Coherent.bget h.data hg _
    intro r hr
    rcases mem_cons.mp hr with rfl | hr
    · exact hb
    exact h.clients r hr
  exact h.panic _

lemma Inv.acquiresleep (h : Inv start s) (hr : r ∈ s.refs) (hst : r.stage = .wait)
    (hl : (s.cache.buf r.buf).lock = none) :
    Inv start { s.replace r .fill with cache := s.cache.acquiresleep r.proc r.buf } :=
  h.replace hr ((h.counted_cons hr).acquiresleep hl) ((h.coherent_cons hr).acquiresleep hst)

lemma Inv.fill (h : Inv start s) (hr : r ∈ s.refs) (hst : r.stage = .fill) :
    Inv start { s.replace r (.hold false) with cache := s.cache.fill s.disk r.buf } :=
  h.replace hr ((h.counted_cons hr).fill hst s.disk)
    ((h.coherent_cons hr).fill (h.counted_cons hr) s.lag_sub hst)

lemma Inv.store (h : Inv start s) (hr : r ∈ s.refs) (hst : r.stage = .hold x) (v : Block) :
    Inv start { s.replace r (.hold true) with
      cache := s.cache.setData r.buf v
      last := update s.last (s.cache.buf r.buf).blockno v } := by
  have hc := h.counted_cons hr
  rw [hc.blockno_eq (Multiset.mem_cons_self r _)]
  refine h.replace hr ((hc.mark hst true).setData r.buf v)
    ((h.coherent_cons hr).store hc (fun l n hm => ?_) v)
  obtain ⟨k, hk, rfl⟩ := (h.tracked.mem_copies hm).1
  exact ((h.clients r hr).ne_logBlock hk).symm

lemma Inv.bwrite (h : Inv start s) (hr : r ∈ s.refs)
    (hst : r.stage = .hold x) (hlog : LogRules start s (.bwrite r)) : Inv start (s.bwrite r) := by
  have hc := h.counted_cons hr
  rw [Kernel.bwrite]
  split
  · rw [hc.blockno_eq (Multiset.mem_cons_self r _)]
    refine h.replace hr (hc.mark hst false) ((h.coherent_cons hr).bwrite hc hst ?_)
    cases x with
    | false => exact .inl rfl
    | true => exact .inr fun l n hm => hlog hst (l, n) hm
  exact h.panic _

lemma Inv.brelse (h : Inv start s) (hr : r ∈ s.refs)
    (hst : r.stage = .hold false) : Inv start (s.brelse r) := by
  rw [Kernel.brelse]
  split
  · exact h.replace hr ((h.counted_cons hr).releasesleep hst)
      ((h.coherent_cons hr).releasesleep hst)
  exact h.panic _

lemma Inv.unref (h : Inv start s) (hr : r ∈ s.refs) (hst : r.stage = .drop) :
    Inv start { s with cache := s.cache.unref r.buf, refs := s.refs.erase r } :=
  h.client ⟨rfl, rfl, rfl, rfl, rfl⟩ ((h.counted_cons hr).unref hst)
    ((h.coherent_cons hr).unref hst) fun r' hr' => h.clients r' (mem_of_mem_erase hr')

lemma Inv.logWrite (h : Inv start s) (hr : r ∈ s.refs)
    (hst : r.stage = .hold x) (hop : s.inOp r.proc) : Inv start (s.logWrite r) := by
  have hth := h.no_commit hop
  have hc := h.counted_cons hr
  have hd := h.coherent_cons hr
  have hmem := Multiset.mem_cons_self r (s.others start r)
  have hpins : s.pins = s.lh := by simp only [pins, hth]
  have hlag : s.lag = s.lh := by simp only [lag, hth]
  have hcopies : s.copies start = [] := by simp only [copies, hth]
  have hno : (s.cache.buf r.buf).blockno = r.blockno := hc.blockno_eq hmem
  rw [Kernel.logWrite]
  split
  · exact h.panic _
  rename_i hfull
  split
  · exact h.panic _
  split
  · -- absorbed: the block is in the header and pinned already
    rename_i hin
    rw [hno] at hin
    refine h.replace hr (hc.mark hst false) ?_
    rw [hcopies] at hd ⊢
    exact hd.log (fun b hb => hb) (hlag ▸ hin)
  rename_i hnew
  rw [hno] at hnew ⊢
  rw [hpins] at hc
  rw [hlag, hcopies] at hd
  have hrefs : ∀ r' : Ref P, r' ::ₘ s.others start r =
      ((r' :: s.refs.erase r : List (Ref P)) : Multiset (Ref P)) := by
    intro r'
    simp only [others, commitRefs, hth, Multiset.coe_nil, Multiset.add_zero, Multiset.cons_coe]
  have hc' := (hc.mark hst false).bpin (Multiset.mem_cons_self _ _) rfl hnew
  have hd' : Coherent s.cache s.disk s.last
      ({ r with stage := .hold false } ::ₘ s.others start r) (s.lh ++ [r.blockno]) [] :=
    hd.log (fun b hb => mem_append_left _ hb) (by simp)
  rw [hrefs] at hc' hd'
  refine inv_of_idle hth hc' (hd'.bpin r.buf) ?_ ?_ ?_ (h.home_replace hr _) h.outstanding ?_
  · exact nodup_append.mpr ⟨h.tracked.nodup, by simp, by
      intro b hb b' hb'
      rw [mem_singleton.mp hb']
      exact fun e => hnew (e ▸ hb)⟩
  · intro b hb
    rcases mem_append.mp hb with hb | hb
    · exact h.tracked.home b hb
    rw [mem_singleton.mp hb]
    exact h.clients r hr
  · rw [length_append, length_singleton]
    omega
  have := h.committing
  rwa [hth] at this

lemma Inv.beginOp (h : Inv start s) (hp : s.inOp p = false) (hw : s.mustWait = false) : Inv start
      { s with outstanding := s.outstanding + 1, inOp := update s.inOp p true } := by
  have hcom : s.committing = false := (or_eq_false_iff.mp hw).1
  have hth : s.thread = none := by
    have := h.committing
    rw [hcom] at this
    simpa using this.symm
  refine ⟨⟨h.tracked.counted, h.tracked.nodup, h.tracked.home, h.tracked.length_le,
    h.tracked.thread⟩, h.data, h.clients, ?_, h.committing, ?_⟩
  · exact h.outstanding.enter hp (update_self p true s.inOp)
      fun q hq => update_of_ne hq true s.inOp
  intro hs
  rw [hth] at hs
  cases hs

lemma Inv.endOp (h : Inv start s) (hp : s.inOp p) : Inv start (s.endOp p) := by
  have hth := h.no_commit hp
  have hcom : s.committing = false := by
    have := h.committing
    rwa [hth] at this
  have hout : Lib.Counts (update s.inOp p false) (s.outstanding - 1) :=
    h.outstanding.leave hp (update_self p false s.inOp) fun q hq => update_of_ne hq false s.inOp
  have hc := h.tracked.counted
  have hd := h.data
  simp only [Kernel.endOp, hcom, false_eq_true, if_false]
  simp only [allRefs, commitRefs, pins, hth] at hc
  simp only [Data, allRefs, commitRefs, lag, copies, hth] at hd
  split
  · rename_i ho
    have hpc : (if 0 < s.lh.length then CommitAt.logTo 0 else .ret).Ok s.lh.length := by
      split
      · assumption
      show s.lh.length = 0
      omega
    refine ⟨⟨?_, h.tracked.nodup, h.tracked.home, h.tracked.length_le, ?_⟩, ?_, h.clients, ?_, rfl,
      fun _ => ho⟩
    · simp only [allRefs, commitRefs, pins, Thread.refs]
      split <;> exact hc
    · rintro t ⟨⟩
      exact .of_none hpc
    · simp only [Data, allRefs, commitRefs, lag, copies, Thread.refs]
      split
      · exact hd
      rename_i hn
      have hnil : s.lh = [] := length_eq_zero_iff.mp (by omega)
      rw [hnil] at hd ⊢
      exact hd
    exact hout
  refine inv_of_idle hth ?_ ?_ h.tracked.nodup h.tracked.home h.tracked.length_le h.clients hout rfl
  · simpa using hc
  simpa using hd

omit [DecidableEq P] in
lemma Inv.commitEnd (h : Inv start s) (ht : s.thread = some ⟨p, .ret, .none⟩) :
    Inv start { s with committing := false, thread := none } := by
  have hnil : s.lh = [] := length_eq_zero_iff.mp (h.tracked.thread _ ht).pc
  have hc := h.tracked.counted
  have hd := h.data
  rw [allRefs_of_thread ht, pins_of_thread ht, hnil] at hc
  rw [Data, allRefs_of_thread ht, lag_of_thread ht, copies_of_thread ht, hnil] at hd
  refine inv_of_idle rfl ?_ ?_ h.tracked.nodup h.tracked.home h.tracked.length_le h.clients
    h.outstanding rfl
  · rw [hnil]
    simpa [Thread.refs, CommitAt.held] using hc
  rw [hnil]
  simpa [Thread.refs, CommitAt.held, window, CommitAt.copied] using hd

lemma Inv.commit (h : Inv start s) {t : Thread P} (ht : s.thread = some t)
    (hcan : s.canStep t) : Inv start (s.commitStep start t) := by
  obtain ⟨p, pc, call⟩ := t
  have hstep := h.tracked.commitStep_cases ht hcan
  have htr := h.tracked.commit ht hstep
  have hd := h.data.commit h.tracked ht hstep
  have hsome : s.thread.isSome := by rw [ht]; rfl
  have hcom : s.committing := by rw [h.committing, hsome]
  have hout := h.alone hsome
  generalize s.commitStep start ⟨p, pc, call⟩ = s1 at hstep htr hd
  cases hstep with
  | noBuffers b hb hg => exact h.panic _
  | _ => exact ⟨htr, hd, h.clients, h.outstanding, hcom, fun _ => hout⟩

lemma Inv.step {a : Act P} (h : Inv start s) (hcl : ClientRules s a) (hlog : LogRules start s a)
    (hn : s.next start a = some s') : Inv start s' := by
  obtain ⟨-, hen, rfl⟩ := next_some hn
  cases a with
  | beginOp p =>
    simp only [enabled, and_eq_true, not_eq_true'] at hen
    exact h.beginOp hen.1.2 hen.2
  | endOp p =>
    simp only [enabled, and_eq_true] at hen
    exact h.endOp hen.2
  | bread p dev b =>
    obtain ⟨rfl, hb⟩ := hlog
    exact h.bread hb
  | acquiresleep r =>
    simp only [enabled, and_eq_true, decide_eq_true_eq, Option.isNone_iff_eq_none] at hen
    exact h.acquiresleep hen.1.1 hen.1.2 hen.2
  | fill r =>
    simp only [enabled, and_eq_true, decide_eq_true_eq] at hen
    exact h.fill hen.1 hen.2
  | store r v =>
    simp only [enabled, and_eq_true, decide_eq_true_eq] at hen
    obtain ⟨x, hx⟩ := Stage.holds_iff.mp hen.2
    exact h.store hen.1.2 hx v
  | logWrite r =>
    simp only [enabled, and_eq_true, decide_eq_true_eq] at hen
    obtain ⟨x, hx⟩ := Stage.holds_iff.mp hen.2
    exact h.logWrite hen.1.2 hx hcl
  | bwrite r =>
    simp only [enabled, and_eq_true, decide_eq_true_eq] at hen
    obtain ⟨x, hx⟩ := Stage.holds_iff.mp hen.2
    exact h.bwrite hen.1.2 hx hlog
  | brelse r =>
    simp only [enabled, and_eq_true, decide_eq_true_eq] at hen
    obtain ⟨x, hx⟩ := Stage.holds_iff.mp hen.2
    cases x with
    | false => exact h.brelse hen.1.2 hx
    | true => exact absurd hx hcl
  | unref r =>
    simp only [enabled, and_eq_true, decide_eq_true_eq] at hen
    exact h.unref hen.1 hen.2
  | commit =>
    obtain ⟨t, ht, hcan⟩ := (Option.any_eq_true _ _).mp hen
    simp only [effect, ht]
    exact h.commit ht hcan
  | commitEnd =>
    obtain ⟨⟨p, pc, call⟩, ht, hret⟩ := (Option.any_eq_true _ _).mp hen
    simp only [and_eq_true, decide_eq_true_eq] at hret
    obtain ⟨rfl, rfl⟩ := hret
    exact h.commitEnd ht

structure Transparent (start : Nat) (s : Kernel P) : Prop where
  reads : ∀ r ∈ s.refs, r.stage.holds →
    (s.cache.buf r.buf).dev = r.dev ∧ (s.cache.buf r.buf).blockno = r.blockno ∧
      (s.cache.buf r.buf).data = s.last r.blockno
  pinned : ∀ b ∈ s.pins, ∃ i, (s.cache.buf i).dev = rootdev ∧ (s.cache.buf i).blockno = b ∧
    (s.cache.buf i).valid ∧ 1 ≤ (s.cache.buf i).refcnt ∧ (s.cache.buf i).data = s.last b
  refcnt : ∀ i, (s.cache.buf i).refcnt =
    (refsTo (s.allRefs start) i).card + (Bio.pinned s.cache s.pins i).toNat
  hit : ∀ p tail dst i, s.thread = some ⟨p, .logFrom tail dst, .fill i⟩ →
    (s.cache.buf i).valid
  logged : ∀ p tail dst src, s.thread = some ⟨p, .logCopy tail dst src, .none⟩ →
    (s.cache.buf src).data = s.last (s.lh.getD tail 0)
  unpinned : ∀ p call, s.thread = some ⟨p, .clear, .none⟩ ∨
    s.thread = some ⟨p, .head true, call⟩ → s.pins = []

omit [DecidableEq P] in
lemma Inv.transparent (h : Inv start s) : Transparent start s := by
  have hc := h.tracked.counted
  have hd : Coherent s.cache s.disk s.last (s.allRefs start) s.lag (s.copies start) := h.data
  refine ⟨fun r hr hst => ?_, fun b hb => ?_, fun i => (hc.buf i).refcnt, ?_, ?_, ?_⟩
  · have hmem : r ∈ s.allRefs start := Multiset.mem_add.mpr (.inl hr)
    obtain ⟨x, hx⟩ := Stage.holds_iff.mp hst
    exact ⟨((hc.buf r.buf).dev r (mem_refsTo hmem)).1, hc.blockno_eq hmem, hd.data_eq hc hmem hx⟩
  · obtain ⟨i, h1, h2, h3⟩ := hc.cached b hb
    have hp : Bio.pinned s.cache s.pins i := by simp [Bio.pinned, h1, h2, hb]
    have hcnt := (hc.buf i).refcnt
    rw [hp, toNat_true] at hcnt
    exact ⟨i, h1, h2, h3, by omega, h2 ▸ hd.cached i h1 h3⟩
  · intro p tail dst i ht
    have hok : tail < s.lh.length := (h.tracked.thread _ ht).pc
    have hpin : s.lh.getD tail 0 ∈ s.pins := by
      rw [pins_of_thread ht]
      exact getD_mem hok
    have hmem : rootRef p i (s.lh.getD tail 0) .fill ∈ s.allRefs start := by
      rw [allRefs_of_thread ht]
      exact Multiset.mem_add.mpr (.inr mem_cons_self)
    obtain ⟨j, h1, h2, h3⟩ := hc.cached _ hpin
    have hji : j = i := hc.unique j i h1 (hc.dev_eq hmem) (h2.trans (hc.blockno_eq hmem).symm)
    exact hji ▸ h3
  · intro p tail dst src ht
    have hmem : rootRef p src (s.lh.getD tail 0) (.hold false) ∈ s.allRefs start :=
      mem_allRefs_held ht (by simp [CommitAt.held])
    exact hd.data_eq hc hmem rfl
  rintro p call (ht | ht)
  · rw [pins_of_thread ht]
    exact drop_length
  have hnil : s.lh.length = 0 := (h.tracked.thread _ ht).pc
  rw [pins_of_thread ht, length_eq_zero_iff.mp hnil]
  rfl

theorem transparent_of_run (start : Nat) (d : Disk) (es : List (Act P)) (s : Kernel P)
    (hcl : Lib.Along (next start) ClientRules (boot P d) es)
    (hlog : Lib.Along (next start) (LogRules start) (boot P d) es)
    (hr : Lib.run (next start) (boot P d) es = some s) : Transparent start s := by
  have hinv : Inv start s :=
    Lib.run_induction (fun _ _ _ h hP hn => h.step hP.1 hP.2 hn) (inv_boot d) (hcl.and hlog) hr
  exact hinv.transparent

instance (s : Kernel P) : (a : Act P) → Decidable (ClientRules s a)
  | .logWrite r => inferInstanceAs (Decidable (s.inOp r.proc))
  | .brelse r => inferInstanceAs (Decidable (r.stage ≠ .hold true))
  | .beginOp _ | .endOp _ | .bread _ _ _ | .acquiresleep _ | .fill _ | .store _ _ | .bwrite _
  | .unref _ | .commit | .commitEnd => inferInstanceAs (Decidable True)

instance (s : Kernel P) : (a : Act P) → Decidable (LogRules start s a)
  | .bread _ dev b => inferInstanceAs (Decidable (dev = rootdev ∧ Log.IsHome start b))
  | .bwrite r =>
    inferInstanceAs (Decidable (r.stage = .hold true → ∀ c ∈ s.copies start, c.2 ≠ r.blockno))
  | .beginOp _ | .endOp _ | .logWrite _ | .acquiresleep _ | .fill _ | .store _ _ | .brelse _
  | .unref _ | .commit | .commitEnd => inferInstanceAs (Decidable True)

def readIn (p : P) (i : Fin nbuf) (dev b : Nat) : List (Act P) :=
  [.bread p dev b, .acquiresleep ⟨p, i, dev, b, .wait⟩, .fill ⟨p, i, dev, b, .fill⟩]

def giveBack (p : P) (i : Fin nbuf) (dev b : Nat) : List (Act P) :=
  [.brelse ⟨p, i, dev, b, .hold false⟩, .unref ⟨p, i, dev, b, .drop⟩]

def change (p : P) (i : Fin nbuf) (b : Nat) (v : Block) (put : Ref P → Act P) : List (Act P) :=
  readIn p i rootdev b ++
    [.store ⟨p, i, rootdev, b, .hold false⟩ v, put ⟨p, i, rootdev, b, .hold true⟩] ++
    giveBack p i rootdev b

def update100 : List (Act Bool) :=
  .beginOp true :: change true 0 100 (fun _ => 1) .logWrite

def commit100 : List (Act Bool) :=
  update100 ++ [.endOp true] ++ replicate 40 .commit ++ [.commitEnd] ++ readIn false 0 rootdev 100

theorem transparent_of_run_commit100 :
    ∃ s, Lib.run (next 2) (boot Bool fun _ => Block.zero) commit100 = some s ∧ Transparent 2 s :=
  ⟨_, rfl, transparent_of_run 2 (fun _ => Block.zero) commit100 _ (by decide +kernel)
    (by decide +kernel) rfl⟩

def interfere (es : List (Act Bool)) : List (Act Bool) :=
  update100 ++ [.endOp true] ++ replicate 19 .commit ++ es ++ replicate 13 .commit ++
    readIn false 0 rootdev 100

def ReadsStale (es : List (Act Bool)) (r : Ref Bool) : Prop :=
  Lib.Along (next 2) ClientRules (boot Bool fun _ => Block.zero) es ∧
  ∃ s, Lib.run (next 2) (boot Bool fun _ => Block.zero) es = some s ∧ r ∈ s.refs ∧
    r.stage = .hold false ∧ (s.cache.buf r.buf).data ≠ s.last r.blockno

theorem stale_without_logRules : ReadsStale (interfere (change false 0 100 (fun _ => 2) .bwrite))
        ⟨false, 0, rootdev, 100, .hold false⟩ ∧
      ReadsStale (interfere (change false 1 3 (fun _ => 2) .bwrite))
        ⟨false, 0, rootdev, 100, .hold false⟩ ∧
      ReadsStale (update100 ++ readIn false 1 2 100) ⟨false, 1, 2, 100, .hold false⟩ := by
  refine ⟨⟨by decide +kernel, _, rfl, by decide +kernel, rfl, fun h => ?_⟩,
    ⟨by decide +kernel, _, rfl, by decide +kernel, rfl, fun h => ?_⟩,
    ⟨by decide +kernel, _, rfl, by decide +kernel, rfl, fun h => ?_⟩⟩
  · exact absurd (congrFun h ⟨0, by decide⟩) (by decide +kernel)
  · exact absurd (congrFun h ⟨0, by decide⟩) (by decide +kernel)
  exact absurd (congrFun h ⟨0, by decide⟩) (by decide +kernel)
end Xv6.Bio.Kernel
