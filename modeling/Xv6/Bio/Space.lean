import Xv6.Bio.Tracked

namespace Xv6.Bio
open List
variable {P : Type} {start : Nat} {lh : List Nat} {pc : CommitAt} {b : Nat} {i : Fin nbuf} {p : P}

section
variable {c : Cache P} {R : Multiset (Ref P)} {pins : List Nat} {b : Nat} {i : Fin nbuf}

lemma Cache.bget_none (h : c.bget rootdev b = none) :
    c.find rootdev b = none ∧ c.unused = none := by
  rw [Cache.bget] at h
  split at h
  · cases h
  split at h
  · cases h
  exact ⟨‹_›, ‹_›⟩

lemma Cache.bget_of_full (hf : c.find rootdev b = none) (hu : c.unused = none) :
    c.bget rootdev b = none := by
  rw [Cache.bget, hf, hu]

lemma Counted.unused_none (h : Counted c R pins) :
    c.unused = none ↔ ∀ i, (c.buf i).refcnt ≠ 0 := by
  rw [Cache.unused, find?_eq_none]
  constructor
  · intro hu i
    simpa using hu i (mem_reverse.mpr (h.lru i))
  intro hu i _
  simpa using hu i

lemma Counted.bget_pinned (h : Counted c R pins) (hb : b ∈ pins) : c.bget rootdev b ≠ none := by
  obtain ⟨i, hi, -⟩ := h.find_pinned hb
  intro hg
  rw [(Cache.bget_none hg).1] at hi
  cases hi

lemma Counted.bget_free (h : Counted c 0 pins) (hlt : pins.length < nbuf) :
    c.bget rootdev b ≠ none := by
  intro hg
  have huse := (h.unused_none).mp (Cache.bget_none hg).2
  have hpin : ∀ i, (c.buf i).dev = rootdev ∧ (c.buf i).blockno ∈ pins := by
    intro i
    by_contra hi
    apply huse i
    rw [(h.buf i).refcnt]
    simp [refsTo, pinned, hi]
  have hinj : Function.Injective fun i => (c.buf i).blockno :=
    fun i j hij => h.unique i j (hpin i).1 (hpin j).1 hij
  have hsub : Finset.univ.image (fun i => (c.buf i).blockno) ⊆ pins.toFinset := by
    intro n hn
    obtain ⟨i, -, rfl⟩ := Finset.mem_image.mp hn
    exact mem_toFinset.mpr (hpin i).2
  have hcard := Finset.card_le_card hsub
  rw [Finset.card_image_of_injective _ hinj, Finset.card_univ, Fintype.card_fin] at hcard
  have := pins.toFinset_card_le
  omega

section
variable (h : Counted c R pins) (hn : pins.Nodup) (hle : nbuf ≤ pins.length)
include h hn hle

lemma Counted.all_pinned (i : Fin nbuf) : (c.buf i).dev = rootdev ∧ (c.buf i).blockno ∈ pins := by
  choose f hf using h.cached
  let g : Fin pins.length → Fin nbuf := fun k => f (pins.get k) (pins.get_mem k)
  have hg : ∀ k, (c.buf (g k)).dev = rootdev ∧ (c.buf (g k)).blockno = pins.get k :=
    fun k => ⟨(hf _ _).1, (hf _ _).2.1⟩
  have hinj : Function.Injective g := by
    intro j k hjk
    apply hn.injective_get
    rw [← (hg j).2, ← (hg k).2, hjk]
  have hsurj : Function.Surjective g := by
    apply ((Fintype.bijective_iff_injective_and_card g).mpr ⟨hinj, ?_⟩).2
    rw [Fintype.card_fin, Fintype.card_fin]
    have hcard := Fintype.card_le_of_injective g hinj
    rw [Fintype.card_fin, Fintype.card_fin] at hcard
    omega
  obtain ⟨k, rfl⟩ := hsurj i
  exact ⟨(hg k).1, (hg k).2 ▸ pins.get_mem k⟩

lemma Counted.bget_full (hb : b ∉ pins) : c.bget rootdev b = none := by
  have hall := h.all_pinned hn hle
  apply Cache.bget_of_full
  · rw [Cache.find, find?_eq_none]
    intro i _ hi
    simp only [decide_eq_true_eq] at hi
    exact hb (hi.2 ▸ (hall i).2)
  rw [h.unused_none]
  intro i
  have hp : pinned c pins i := by simpa [pinned] using hall i
  rw [(h.buf i).refcnt, hp]
  show ((refsTo R i).card : Int) + 1 ≠ 0
  omega
end
end

def CommitAt.rank (n : Nat) : CommitAt → Nat
  | .ret => 0
  | .headRel true _ => 1
  | .headWrite true _ => 2
  | .headFill true _ => 3
  | .head true => 4
  | .clear => 5
  | .instRelHome tail _ => 7 * (n - tail) - 1
  | .instRelLog tail _ _ => 7 * (n - tail)
  | .instUnpin tail _ _ => 7 * (n - tail) + 1
  | .instWrite tail _ _ => 7 * (n - tail) + 2
  | .instCopy tail _ _ => 7 * (n - tail) + 3
  | .instHome tail _ => 7 * (n - tail) + 4
  | .instLog tail => 7 * (n - tail) + 5
  | .headRel false _ => 7 * n + 6
  | .headWrite false _ => 7 * n + 7
  | .headFill false _ => 7 * n + 8
  | .head false => 7 * n + 9
  | .logRelTo tail _ => 7 * n + 6 * (n - tail) + 4
  | .logRelFrom tail _ _ => 7 * n + 6 * (n - tail) + 5
  | .logWrite tail _ _ => 7 * n + 6 * (n - tail) + 6
  | .logCopy tail _ _ => 7 * n + 6 * (n - tail) + 7
  | .logFrom tail _ => 7 * n + 6 * (n - tail) + 8
  | .logTo tail => 7 * n + 6 * (n - tail) + 9

def Call.rank : Call → Nat
  | .none => 3
  | .wait _ => 2
  | .fill _ => 1
  | .drop _ => 1

def Thread.rank (n : Nat) (t : Thread P) : Nat := 4 * t.pc.rank n + t.call.rank

lemma CommitAt.got_rank
    (h : pc.reads start lh = some b) (n : Nat) : (pc.got i).rank n < pc.rank n := by
  cases pc with
  | head erase => cases erase <;> simp [got, rank]
  | logTo | logFrom | instLog | instHome => simp [got, rank]
  | _ => cases h

lemma CommitAt.releases_rank {pc pc' : CommitAt} {n : Nat} (hok : pc.Ok n)
    (h : pc.releases n = some (i, pc')) : pc'.rank n < pc.rank n := by
  cases pc with
  | logRelFrom => cases h; simp [rank]
  | logRelTo tail dst
  | instRelHome tail dbuf =>
    cases h
    have ht : tail < n := hok
    split <;> simp only [rank] <;> omega
  | headRel erase buf => cases erase <;> cases h <;> simp [rank]
  | instRelLog tail lbuf dbuf =>
    cases h
    have ht : tail < n := hok
    simp only [rank]
    omega
  | _ => cases h

lemma CommitAt.held_ne_reads {r : Ref P}
    (hok : pc.Ok lh.length) (hle : lh.length ≤ logBlocks) (hhome : ∀ b ∈ lh, Log.IsHome start b)
    (hb : pc.reads start lh = some b) (hr : r ∈ pc.held start lh p) : r.blockno ≠ b := by
  have key : ∀ tail < lh.length, start + tail + 1 ≠ lh.getD tail 0 := by
    intro tail ht
    have hm : lh.getD tail 0 ∈ lh := by simp [ht]
    exact ((hhome _ hm).ne_logBlock (by omega)).symm
  cases pc with
  | logFrom tail dst
  | instHome tail lbuf =>
    cases hb
    obtain rfl := mem_singleton.mp hr
    exact key tail hok
  | logTo | head | instLog => cases hr
  | _ => cases hb

lemma CommitAt.reads_cases (hok : pc.Ok lh.length) (hb : pc.reads start lh = some b) :
    b ∈ lh.drop (pc.unpinned lh.length) ∨ pc.held start lh p = [] := by
  have key : ∀ k tail, k ≤ tail → tail < lh.length → lh.getD tail 0 ∈ lh.drop k := by
    intro k tail hk ht
    rw [mem_drop_iff_getElem]
    exact ⟨tail - k, by omega, by simp [ht, show k + (tail - k) = tail by omega]⟩
  cases pc with
  | logFrom tail dst =>
    cases hb
    exact .inl (key 0 tail zero_le hok)
  | instHome tail lbuf =>
    cases hb
    exact .inl (key tail tail le_rfl hok)
  | logTo | head | instLog => exact .inr rfl
  | _ => cases hb

namespace Kernel
variable {s s' : Kernel P} {pc : CommitAt} {p : P} {call : Call}

structure Alone (start : Nat) (s : Kernel P) : Prop where
  tracked : Tracked start s
  refs : s.refs = []
  panicked : s.panicked = none
  space : s.lh.length < nbuf

lemma Alone.bget (h : Alone start s)
    (ht : s.thread = some ⟨p, pc, .none⟩) (hb : pc.reads start s.lh = some b) :
    s.cache.bget rootdev b ≠ none := by
  have hok := h.tracked.thread _ ht
  have hc := h.tracked.counted
  rw [allRefs_of_thread ht, pins_of_thread ht, h.refs, Multiset.coe_nil, Multiset.zero_add] at hc
  rcases CommitAt.reads_cases (p := p) hok.pc hb with hpin | hheld
  · exact hc.bget_pinned hpin
  simp only [Thread.refs, hheld, Multiset.coe_nil] at hc
  apply hc.bget_free
  have := h.space
  rw [length_drop]
  omega

lemma Alone.canStep (h : Alone start s)
    (ht : s.thread = some ⟨p, pc, call⟩) (hne : pc ≠ .ret ∨ call ≠ .none) :
    s.canStep ⟨p, pc, call⟩ := by
  have hok := h.tracked.thread _ ht
  cases call with
  | none => simpa [Kernel.canStep] using hne
  | fill i => rfl
  | drop i => rfl
  | wait i =>
    obtain ⟨b, hb⟩ := hok.wait i (.inl rfl)
    have hb' : pc.reads start s.lh = some b := hb
    have hc := h.tracked.counted
    rw [allRefs_of_thread ht, h.refs, Multiset.coe_nil, Multiset.zero_add] at hc
    simp only [Thread.refs, hb', Option.getD_some] at hc
    have hfree : lockers (refsTo ((rootRef p i b .wait :: pc.held start s.lh p : List (Ref P)) :
        Multiset (Ref P)) i) = 0 := by
      rw [lockers_eq_zero]
      intro r hr
      obtain ⟨hmem, hri⟩ := Multiset.mem_filter.mp hr
      rcases mem_cons.mp (Multiset.mem_coe.mp hmem) with rfl | hheld
      · rfl
      have hbr := hc.blockno_eq hmem
      have hbi := hc.blockno_eq (Multiset.mem_coe.mpr mem_cons_self)
      rw [hri] at hbr
      exact absurd (hbr.symm.trans hbi) (CommitAt.held_ne_reads hok.pc h.tracked.length_le
        h.tracked.home hb hheld)
    have hlock := (hc.buf i).lock
    rw [hfree] at hlock
    cases hl : (s.cache.buf i).lock with
    | none => simp [Kernel.canStep, hl]
    | some q => simp [hl] at hlock

variable [DecidableEq P]

lemma Alone.step (h : Alone start s)
    (ht : s.thread = some ⟨p, pc, call⟩) (hne : pc ≠ .ret ∨ call ≠ .none) :
    ∃ s' t', s.next start .commit = some s' ∧ Alone start s' ∧ s'.thread = some t' ∧
      t'.rank s'.lh.length < Thread.rank s.lh.length ⟨p, pc, call⟩ := by
  have hcan := h.canStep ht hne
  have hstep := h.tracked.commitStep_cases ht hcan
  have hnext : s.next start .commit = some (s.commitStep start ⟨p, pc, call⟩) := by
    simp [next, h.panicked, enabled, ht, hcan, effect]
  have hok : pc.Ok s.lh.length := (h.tracked.thread _ ht).pc
  have htr := h.tracked.commit ht hstep
  rw [hnext]
  generalize s.commitStep start ⟨p, pc, call⟩ = s1 at hstep htr
  refine ⟨s1, ?_⟩
  cases hstep with
  | acquire b hb hl
  | bread b c i hb hg
  | brelse i pc' hr =>
    exact ⟨_, rfl, ⟨htr, h.refs, h.panicked, h.space⟩, rfl, by simp [Thread.rank, Call.rank]⟩
  | @fill _ i b hb =>
    have := CommitAt.got_rank (i := i) hb s.lh.length
    refine ⟨_, rfl, ⟨htr, h.refs, h.panicked, h.space⟩, rfl, ?_⟩
    simp only [Thread.rank, Call.rank]
    omega
  | drop pc' hr =>
    have := CommitAt.releases_rank hok hr
    refine ⟨_, rfl, ⟨htr, h.refs, h.panicked, h.space⟩, rfl, ?_⟩
    simp only [Thread.rank, Call.rank]
    omega
  | noBuffers b hb hg => exact absurd hg (h.bget ht hb)
  | clear =>
    exact ⟨_, rfl, ⟨htr, h.refs, h.panicked, Nat.zero_lt_succ _⟩, rfl,
      by simp [Thread.rank, CommitAt.rank]⟩
  | headFill erase i | headWrite erase i =>
    cases erase <;> exact ⟨_, rfl, ⟨htr, h.refs, h.panicked, h.space⟩, rfl,
      by simp [Thread.rank, CommitAt.rank]⟩
  | _ =>
    exact ⟨_, rfl, ⟨htr, h.refs, h.panicked, h.space⟩, rfl, by simp [Thread.rank, CommitAt.rank]⟩

def Completed (s : Kernel P) : Prop :=
  s.panicked = none ∧ ∃ p, s.thread = some ⟨p, .ret, .none⟩

lemma Alone.completes {t : Thread P} (h : Alone start s) (ht : s.thread = some t) :
    ∃ k s', Lib.run (next start) s (replicate k .commit) = some s' ∧ s'.Completed := by
  generalize hm : t.rank s.lh.length = m
  induction m using Nat.strong_induction_on generalizing s t with
  | _ m ih =>
    obtain ⟨p, pc, call⟩ := t
    by_cases hret : pc = .ret ∧ call = .none
    · obtain ⟨rfl, rfl⟩ := hret
      exact ⟨0, s, rfl, h.panicked, p, ht⟩
    have hne : pc ≠ .ret ∨ call ≠ .none := by
      by_contra hcon
      push Not at hcon
      exact hret hcon
    obtain ⟨s1, t1, hn, h1, ht1, hlt⟩ := h.step ht hne
    obtain ⟨k, s2, hr, hdone⟩ := ih _ (hm ▸ hlt) h1 ht1 rfl
    refine ⟨k + 1, s2, ?_, hdone⟩
    rwa [replicate_succ, Lib.run, hn]

def inCommit (p : P) (c : Cache P) (d last : Disk) (lh : List Nat) : Kernel P :=
  { disk := d
    cache := c
    lh := lh
    outstanding := 0
    committing := true
    inOp := fun _ => false
    refs := []
    thread := some ⟨p, .logTo 0, .none⟩
    panicked := none
    last := last }

variable {p : P} {c : Cache P} {d last : Disk} {lh : List Nat}

omit [DecidableEq P] in
lemma alone_inCommit (hn : 1 ≤ lh.length) (hle : lh.length ≤ logBlocks) (hnodup : lh.Nodup)
    (hhome : ∀ b ∈ lh, Log.IsHome start b) (hc : Counted c 0 lh) (hlt : lh.length < nbuf) :
    Alone start (inCommit p c d last lh) := by
  refine ⟨⟨?_, hnodup, hhome, hle, ?_⟩, rfl, rfl, hlt⟩
  · exact hc
  rintro t ⟨⟩
  have hpc : (CommitAt.logTo 0).Ok lh.length := hn
  exact .of_none hpc

section
variable (hnodup : lh.Nodup) (hhome : ∀ b ∈ lh, Log.IsHome start b) (hc : Counted c 0 lh)
  (hle : nbuf ≤ lh.length)
include hnodup hhome hc hle

lemma inCommit_panics : (inCommit p c d last lh).next start .commit =
      some { inCommit p c d last lh with panicked := some .noBuffers } := by
  have hb : start + 0 + 1 ∉ lh := fun hm =>
    absurd rfl ((hhome _ hm).ne_logBlock (i := 0) (by decide))
  have hg : c.bget rootdev (start + 0 + 1) = none := hc.bget_full hnodup hle hb
  simp only [next, inCommit, enabled, effect, commitStep, CommitAt.reads, commitBread, hg]
  rfl

lemma not_completed_of_full {k : Nat}
    (hr : Lib.run (next start) (inCommit p c d last lh) (replicate k .commit) = some s') :
    ¬s'.Completed := by
  rintro ⟨hp, q, hq⟩
  cases k with
  | zero =>
    cases hr
    cases hq
  | succ k =>
    rw [replicate_succ, Lib.run, inCommit_panics hnodup hhome hc hle] at hr
    cases k with
    | zero =>
      cases hr
      cases hp
    | succ k => cases hr
end

theorem commit_completes_iff (start : Nat) (p : P) (c : Cache P) (d last : Disk) (lh : List Nat)
    (hn : 1 ≤ lh.length) (hle : lh.length ≤ logBlocks) (hnodup : lh.Nodup)
    (hhome : ∀ b ∈ lh, Log.IsHome start b) (hc : Counted c 0 lh) :
    (∃ k s', Lib.run (next start) (inCommit p c d last lh) (replicate k .commit) = some s' ∧
      s'.Completed) ↔ lh.length < nbuf := by
  constructor
  · rintro ⟨k, s', hr, hdone⟩
    by_contra hge
    exact not_completed_of_full hnodup hhome hc (by omega) hr hdone
  intro hlt
  exact (alone_inCommit hn hle hnodup hhome hc hlt).completes rfl

def pinnedFrom100 (n : Nat) : Cache Unit :=
  { buf := fun i =>
      { valid := true, dev := rootdev, blockno := 100 + i, lock := none
        refcnt := if i.val < n then 1 else 0, data := Block.zero }
    lru := finRange nbuf }

lemma counted_pinnedFrom100 {n : Nat} (hn : n ≤ nbuf) :
    Counted (pinnedFrom100 n) 0 (range' 100 n) := by
  refine ⟨nodup_finRange nbuf, mem_finRange, fun i => ?_, fun i j _ _ hij => ?_, fun b hb => ?_⟩
  · refine ⟨?_, rfl, ?_, ?_, ?_, ?_⟩
    · by_cases hi : i.val < n <;> simp [pinnedFrom100, pinned, refsTo, hi]
    all_goals simp [refsTo]
  · have hij' : 100 + i.val = 100 + j.val := hij
    exact Fin.ext (by omega)
  obtain ⟨h1, h2⟩ := mem_range'_1.mp hb
  refine ⟨⟨b - 100, by omega⟩, rfl, ?_, rfl⟩
  show 100 + (b - 100) = b
  omega

theorem commit_completes_iff_three :
    ∃ k s', Lib.run (next 2) (inCommit () (pinnedFrom100 3) (fun _ => Block.zero)
      (fun _ => Block.zero) (range' 100 3)) (replicate k .commit) = some s' ∧
      s'.Completed :=
  (commit_completes_iff 2 () (pinnedFrom100 3) _ _ (range' 100 3) (by decide) (by decide)
    (by decide) (by decide) (counted_pinnedFrom100 (by decide))).mpr (by decide)

theorem commit_panics_thirty : (range' 100 30).length ≤ logBlocks ∧ (range' 100 30).Nodup ∧
      (∀ b ∈ range' 100 30, Log.IsHome 2 b) ∧
      Counted (pinnedFrom100 30) 0 (range' 100 30) ∧
      ¬∃ k s', Lib.run (next 2) (inCommit () (pinnedFrom100 30) (fun _ => Block.zero)
        (fun _ => Block.zero) (range' 100 30)) (replicate k .commit) = some s' ∧
        s'.Completed := by
  have hnodup : (range' 100 30).Nodup := by decide
  have hhome : ∀ b ∈ range' 100 30, Log.IsHome 2 b := by decide
  have hc := counted_pinnedFrom100 (n := 30) (by decide)
  refine ⟨by decide, hnodup, hhome, hc, ?_⟩
  rintro ⟨k, s', hr, hdone⟩
  exact not_completed_of_full hnodup hhome hc (by decide) hr hdone
end Kernel
end Xv6.Bio
