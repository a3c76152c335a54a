import Xv6.Bio.Commit

namespace Xv6.Bio.Kernel
open Function Multiset
variable {P : Type} {start : Nat} {s s' : Kernel P} {t : Thread P} {pc : CommitAt} {p : P}
  {call : Call} {r : Ref P}

/-- The references and the log during `commit`. -/
structure Tracked (start : Nat) (s : Kernel P) : Prop where
  counted : Counted s.cache (s.allRefs start) s.pins
  nodup : s.lh.Nodup
  home : ∀ b ∈ s.lh, Log.IsHome start b
  length_le : s.lh.length ≤ logBlocks
  thread : ∀ t, s.thread = some t → t.Ok start s.lh

lemma allRefs_of_thread (ht : s.thread = some t) :
    s.allRefs start = s.refs + (t.refs start s.lh : Multiset (Ref P)) := by
  simp only [allRefs, commitRefs, ht]

lemma pins_of_thread (ht : s.thread = some t) :
    s.pins = s.lh.drop (t.pc.unpinned s.lh.length) := by
  simp only [pins, ht]

lemma Tracked.lock_of_mem (h : Tracked start s) (hr : r ∈ s.allRefs start)
    (hst : r.stage.locked) : (s.cache.buf r.buf).lock = some r.proc :=
  (h.counted.buf r.buf).owner r (mem_refsTo hr) hst

lemma mem_allRefs_held (ht : s.thread = some ⟨p, pc, .none⟩)
    (hr : r ∈ pc.held start s.lh p) : r ∈ s.allRefs start := by
  rw [allRefs_of_thread ht, mem_add]
  exact .inr hr

lemma Counted.commit_mark {c : Cache P} {K : Multiset (Ref P)} {pins : List Nat}
    {i : Fin nbuf} {b : Nat} {x : Bool} {H : List (Ref P)}
    (h : Counted c (K + ((rootRef p i b (.hold x) :: H : List (Ref P)) : Multiset (Ref P))) pins)
    (y : Bool) :
    Counted c (K + ((rootRef p i b (.hold y) :: H : List (Ref P)) : Multiset (Ref P))) pins := by
  rw [← cons_coe, add_cons] at *
  exact h.mark rfl y

lemma Tracked.of_counted (h : Tracked start s) {t' : Thread P} (ht' : s'.thread = some t')
    (hlh : s'.lh = s.lh) (hok : t'.Ok start s.lh)
    (hc : Counted s'.cache (s'.refs + (t'.refs start s.lh : Multiset (Ref P)))
      (s.lh.drop (t'.pc.unpinned s.lh.length))) : Tracked start s' := by
  refine ⟨?_, hlh ▸ h.nodup, hlh ▸ h.home, hlh ▸ h.length_le, ?_⟩
  · rwa [allRefs_of_thread ht', pins_of_thread ht', hlh]
  intro t'' ht''
  rw [ht'] at ht''
  cases ht''
  exact hlh ▸ hok

lemma getD_notMem_drop {lh : List Nat} {tail : Nat} (h : tail < lh.length) (hn : lh.Nodup) :
    lh.drop tail = lh.getD tail 0 :: lh.drop (tail + 1) ∧
      lh.getD tail 0 ∉ lh.drop (tail + 1) := by
  have he : lh.drop tail = lh.getD tail 0 :: lh.drop (tail + 1) := by
    rw [List.drop_eq_getElem_cons h]
    simp [h]
  refine ⟨he, ?_⟩
  have hd : (lh.drop tail).Nodup := hn.sublist (List.drop_sublist tail lh)
  rw [he] at hd
  exact (List.nodup_cons.mp hd).1

inductive CommitStep (start : Nat) (s : Kernel P) (p : P) : CommitAt → Call → Kernel P → Prop
  | acquire {pc : CommitAt} {i : Fin nbuf} (b : Nat) (hb : pc.reads start s.lh = some b)
      (hl : (s.cache.buf i).lock = none) :
    CommitStep start s p pc (.wait i)
      { s with cache := s.cache.acquiresleep p i, thread := some ⟨p, pc, .fill i⟩ }
  | fill {pc : CommitAt} {i : Fin nbuf} (b : Nat) (hb : pc.reads start s.lh = some b) :
    CommitStep start s p pc (.fill i)
      { s with cache := s.cache.fill s.disk i, thread := some ⟨p, pc.got i, .none⟩ }
  | drop {pc : CommitAt} {i : Fin nbuf} (pc' : CommitAt)
      (hr : pc.releases s.lh.length = some (i, pc')) :
    CommitStep start s p pc (.drop i)
      { s with cache := s.cache.unref i, thread := some ⟨p, pc', .none⟩ }
  | bread {pc : CommitAt} (b : Nat) (c : Cache P) (i : Fin nbuf)
      (hb : pc.reads start s.lh = some b) (hg : s.cache.bget rootdev b = some (c, i)) :
    CommitStep start s p pc .none { s with cache := c, thread := some ⟨p, pc, .wait i⟩ }
  | noBuffers {pc : CommitAt} (b : Nat) (hb : pc.reads start s.lh = some b)
      (hg : s.cache.bget rootdev b = none) :
    CommitStep start s p pc .none { s with panicked := some .noBuffers }
  | brelse {pc : CommitAt} (i : Fin nbuf) (pc' : CommitAt)
      (hr : pc.releases s.lh.length = some (i, pc')) :
    CommitStep start s p pc .none
      { s with cache := s.cache.releasesleep i, thread := some ⟨p, pc, .drop i⟩ }
  | logCopy (tail : Nat) (dst src : Fin nbuf) :
    CommitStep start s p (.logCopy tail dst src) .none
      { s with
        cache := s.cache.setData dst (s.cache.buf src).data
        last := update s.last (s.cache.buf dst).blockno (s.cache.buf src).data
        thread := some ⟨p, .logWrite tail dst src, .none⟩ }
  | logWrite (tail : Nat) (dst src : Fin nbuf) :
    CommitStep start s p (.logWrite tail dst src) .none
      { s with
        disk := update s.disk (s.cache.buf dst).blockno (s.cache.buf dst).data
        thread := some ⟨p, .logRelFrom tail dst src, .none⟩ }
  | headFill (erase : Bool) (i : Fin nbuf) :
    CommitStep start s p (.headFill erase i) .none
      { s with
        cache := s.cache.setData i (Log.putHeader (s.cache.buf i).data s.lh)
        last := update s.last (s.cache.buf i).blockno (Log.putHeader (s.cache.buf i).data s.lh)
        thread := some ⟨p, .headWrite erase i, .none⟩ }
  | headWrite (erase : Bool) (i : Fin nbuf) :
    CommitStep start s p (.headWrite erase i) .none
      { s with
        disk := update s.disk (s.cache.buf i).blockno (s.cache.buf i).data
        thread := some ⟨p, .headRel erase i, .none⟩ }
  | instCopy (tail : Nat) (lbuf dbuf : Fin nbuf) :
    CommitStep start s p (.instCopy tail lbuf dbuf) .none
      { s with
        cache := s.cache.setData dbuf (s.cache.buf lbuf).data
        thread := some ⟨p, .instWrite tail lbuf dbuf, .none⟩ }
  | instWrite (tail : Nat) (lbuf dbuf : Fin nbuf) :
    CommitStep start s p (.instWrite tail lbuf dbuf) .none
      { s with
        disk := update s.disk (s.cache.buf dbuf).blockno (s.cache.buf dbuf).data
        thread := some ⟨p, .instUnpin tail lbuf dbuf, .none⟩ }
  | instUnpin (tail : Nat) (lbuf dbuf : Fin nbuf) :
    CommitStep start s p (.instUnpin tail lbuf dbuf) .none
      { s with
        cache := s.cache.bunpin dbuf
        thread := some ⟨p, .instRelLog tail lbuf dbuf, .none⟩ }
  | clear :
    CommitStep start s p .clear .none { s with lh := [], thread := some ⟨p, .head true, .none⟩ }

lemma Tracked.commit (h : Tracked start s)
    (ht : s.thread = some ⟨p, pc, call⟩) (hstep : CommitStep start s p pc call s') :
    Tracked start s' := by
  have hok := h.thread _ ht
  have hc := h.counted
  rw [allRefs_of_thread ht, pins_of_thread ht] at hc
  cases hstep with
  | acquire b hb hl =>
    refine h.of_counted rfl rfl ⟨hok.pc, fun _ _ => ⟨b, hb⟩, by simp⟩ ?_
    simp only [Thread.refs, ← cons_coe, add_cons] at hc ⊢
    exact hc.acquiresleep hl
  | @fill _ i b hb =>
    refine h.of_counted rfl rfl (.of_none hok.pc.got) ?_
    simp only [Thread.refs, ← cons_coe, add_cons, hb, Option.getD_some] at hc
    show Counted _ ((s.refs : Multiset (Ref P)) + (((pc.got i).held start s.lh p : List (Ref P)) :
      Multiset (Ref P))) _
    rw [CommitAt.held_got hb, add_cons, (CommitAt.got_progress s.lh.length i pc).1]
    exact hc.fill rfl s.disk
  | drop pc' hr =>
    refine h.of_counted rfl rfl (.of_none (hok.pc.releases hr)) ?_
    have hr' : pc.releases s.lh.length = some (_, pc') := hr
    simp only [Thread.refs, ← cons_coe, add_cons, hr', Option.map_some, Option.getD_some] at hc
    rw [(CommitAt.releases_progress hok.pc hr).1]
    exact hc.unref rfl
  | bread b c i hb hg =>
    refine h.of_counted rfl rfl ⟨hok.pc, fun _ _ => ⟨b, hb⟩, by simp⟩ ?_
    simp only [Thread.refs, ← cons_coe, add_cons, hb, Option.getD_some]
    exact hc.bget hg p
  | noBuffers b hb hg => exact ⟨h.counted, h.nodup, h.home, h.length_le, h.thread⟩
  | brelse i pc' hr =>
    refine h.of_counted rfl rfl ⟨hok.pc, by simp, fun j hj => ?_⟩ ?_
    · cases hj
      exact ⟨pc', hr⟩
    have hc' : Counted s.cache (s.refs + (pc.held start s.lh p : Multiset (Ref P)))
        (s.lh.drop (pc.unpinned s.lh.length)) := hc
    rw [CommitAt.held_releases hr, add_cons] at hc'
    simp only [Thread.refs, ← cons_coe, add_cons, hr, Option.map_some, Option.getD_some]
    exact hc'.releasesleep rfl
  | logCopy tail dst src
  | headFill erase i =>
    exact h.of_counted rfl rfl (.of_none hok.pc) ((Counted.commit_mark hc true).setData _ _)
  | logWrite tail dst src
  | headWrite erase i => exact h.of_counted rfl rfl (.of_none hok.pc) (Counted.commit_mark hc false)
  | instCopy tail lbuf dbuf => exact h.of_counted rfl rfl (.of_none hok.pc) (hc.setData _ _)
  | instWrite tail lbuf dbuf => exact h.of_counted rfl rfl (.of_none hok.pc) hc
  | instUnpin tail lbuf dbuf =>
    refine h.of_counted rfl rfl (.of_none hok.pc) ?_
    obtain ⟨hdrop, hnot⟩ := getD_notMem_drop hok.pc h.nodup
    have hc' : Counted s.cache (s.refs + ((CommitAt.instUnpin tail lbuf dbuf).held start s.lh p :
        Multiset (Ref P))) (s.lh.drop tail) := hc
    rw [hdrop] at hc'
    refine hc'.bunpin (r := rootRef p dbuf (s.lh.getD tail 0) (.hold false)) ?_ rfl hnot
    rw [mem_add]
    exact .inr (by simp [CommitAt.held])
  | clear =>
    refine ⟨?_, List.nodup_nil, by simp, by simp, ?_⟩
    · have hz : s.lh.drop (CommitAt.clear.unpinned s.lh.length) = [] := List.drop_length
      simp only [hz] at hc
      exact hc
    rintro t ⟨⟩
    have hpc : (CommitAt.head true).Ok ([] : List Nat).length := rfl
    exact .of_none hpc

variable [DecidableEq P]

lemma Tracked.commitStep_cases (h : Tracked start s)
    (ht : s.thread = some ⟨p, pc, call⟩) (hc : s.canStep ⟨p, pc, call⟩) :
    CommitStep start s p pc call (s.commitStep start ⟨p, pc, call⟩) := by
  have hok := h.thread _ ht
  cases call with
  | wait i =>
    obtain ⟨b, hb⟩ := hok.wait i (.inl rfl)
    exact .acquire b hb (by simpa [canStep] using hc)
  | fill i =>
    obtain ⟨b, hb⟩ := hok.wait i (.inr rfl)
    exact .fill b hb
  | drop i =>
    obtain ⟨pc', hr⟩ := hok.drop i rfl
    have hr' : pc.releases s.lh.length = some (i, pc') := hr
    simp only [commitStep, hr', Option.map_some, Option.getD_some]
    exact .drop pc' hr
  | none =>
    have hlock : ∀ i b x, rootRef p i b (.hold x) ∈ pc.held start s.lh p →
        (s.cache.buf i).lock = some p := fun i b x hm =>
      h.lock_of_mem (mem_allRefs_held ht hm) rfl
    simp only [commitStep]
    split
    · rename_i b hb
      rw [commitBread]
      split
      · exact .bread b _ _ hb ‹_›
      exact .noBuffers b hb ‹_›
    · rename_i i pc' _ hr
      have hm : rootRef p i (pc.relBlock start s.lh) (.hold false) ∈ pc.held start s.lh p := by
        rw [← mem_coe, CommitAt.held_releases hr]
        exact mem_cons_self _ _
      simp only [commitBrelse, hlock _ _ _ hm, if_true]
      exact .brelse i pc' hr
    rename_i hread hrel
    cases pc with
    | logCopy tail dst src => exact .logCopy tail dst src
    | logWrite tail dst src =>
      simp only [commitStmt, commitBwrite,
        hlock dst (start + tail + 1) true (by simp [CommitAt.held]), if_true]
      exact .logWrite tail dst src
    | headFill erase i => exact .headFill erase i
    | headWrite erase i =>
      simp only [commitStmt, commitBwrite, hlock i start true (by simp [CommitAt.held]), if_true]
      exact .headWrite erase i
    | instCopy tail lbuf dbuf => exact .instCopy tail lbuf dbuf
    | instWrite tail lbuf dbuf =>
      simp only [commitStmt, commitBwrite,
        hlock dbuf (s.lh.getD tail 0) false (by simp [CommitAt.held]), if_true]
      exact .instWrite tail lbuf dbuf
    | instUnpin tail lbuf dbuf => exact .instUnpin tail lbuf dbuf
    | clear => exact .clear
    | ret => simp [canStep] at hc
    | logTo => cases hread
    | logFrom => cases hread
    | head => cases hread
    | instLog => cases hread
    | instHome => cases hread
    | logRelFrom => cases hrel
    | logRelTo => cases hrel
    | headRel erase => cases erase <;> cases hrel
    | instRelLog => cases hrel
    | instRelHome => cases hrel
end Xv6.Bio.Kernel
