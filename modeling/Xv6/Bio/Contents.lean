import Xv6.Bio.Coherent
import Xv6.Bio.Tracked

namespace Xv6.Bio.Kernel
open Function Multiset
variable {P : Type} {start : Nat} {s s' : Kernel P} {t : Thread P} {pc : CommitAt}
  {lh : List Nat} {i j l n : Nat}

/-- The contents during `commit`. -/
def Data (start : Nat) (s : Kernel P) : Prop :=
  Coherent s.cache s.disk s.last (s.allRefs start) s.lag (s.copies start)

lemma lag_of_thread (ht : s.thread = some t) : s.lag = s.lh.drop (t.pc.written s.lh.length) := by
  simp only [lag, ht]

lemma copies_of_thread (ht : s.thread = some t) : s.copies start =
    window start s.lh (t.pc.installed s.lh.length) (t.pc.copied s.lh.length) := by
  simp only [copies, ht]

lemma CommitAt.Ok.copied_le (h : pc.Ok n) : pc.copied n ≤ n := by
  cases pc with
  | logTo | logFrom | logCopy => exact le_of_lt h
  | logWrite | logRelFrom | logRelTo => exact h
  | _ => exact le_refl n

lemma CommitAt.unpinned_le_written (pc : CommitAt) (n : Nat) : pc.unpinned n ≤ pc.written n := by
  cases pc <;> simp [CommitAt.unpinned, CommitAt.written]

lemma Tracked.mem_copies (h : Tracked start s) (hm : (l, n) ∈ s.copies start) :
    (∃ k < logBlocks, l = start + k + 1) ∧ n ∈ s.lh := by
  cases ht : s.thread with
  | none =>
    simp only [copies, ht] at hm
    cases hm
  | some t =>
    rw [copies_of_thread ht, mem_window] at hm
    obtain ⟨k, -, hk, rfl, rfl⟩ := hm
    have hlt := lt_of_lt_of_le hk (CommitAt.Ok.copied_le (h.thread t ht).pc)
    exact ⟨⟨k, lt_of_lt_of_le hlt h.length_le, rfl⟩, by simp [hlt]⟩

lemma lag_sub (s : Kernel P) : ∀ b ∈ s.lag, b ∈ s.pins := by
  intro b hb
  cases ht : s.thread with
  | none => simpa only [lag, pins, ht] using hb
  | some t =>
    rw [lag_of_thread ht] at hb
    rw [pins_of_thread ht]
    exact List.drop_subset_drop_left s.lh (CommitAt.unpinned_le_written _ _) hb

lemma data_of_coherent {t' : Thread P} (ht' : s'.thread = some t') (hlh : s'.lh = s.lh)
    (hc : Coherent s'.cache s'.disk s'.last (s'.refs + (t'.refs start s.lh : Multiset (Ref P)))
      (s.lh.drop (t'.pc.written s.lh.length))
      (window start s.lh (t'.pc.installed s.lh.length) (t'.pc.copied s.lh.length))) :
    Data start s' := by
  rwa [Data, allRefs_of_thread ht', lag_of_thread ht', copies_of_thread ht', hlh]

lemma getD_mem (h : n < lh.length) : lh.getD n 0 ∈ lh := by
  simp [h]

lemma mem_window_succ (h : (l, n) ∈ window start lh i (j + 1)) :
    (l, n) ∈ window start lh i j ∨ l = start + j + 1 ∧ n = lh.getD j 0 := by
  obtain ⟨k, h0, hk, rfl, rfl⟩ := mem_window.mp h
  rcases Nat.lt_succ_iff_lt_or_eq.mp hk with hk | rfl
  · exact .inl (mem_window.mpr ⟨k, h0, hk, rfl, rfl⟩)
  exact .inr ⟨rfl, rfl⟩

lemma mem_window_of_succ (h : (l, n) ∈ window start lh (i + 1) j) :
    (l, n) ∈ window start lh i j := by
  obtain ⟨k, h0, hk, rfl, rfl⟩ := mem_window.mp h
  exact mem_window.mpr ⟨k, Nat.le_of_succ_le h0, hk, rfl, rfl⟩

lemma Data.held {p : P} (h : Data start s) (htr : Tracked start s)
    (ht : s.thread = some ⟨p, pc, .none⟩) (i : Fin nbuf) (b : Nat) (x : Bool)
    (hm : rootRef p i b (.hold x) ∈ pc.held start s.lh p) :
    (s.cache.buf i).blockno = b ∧ (s.cache.buf i).data = s.last b := by
  have hmem : rootRef p i b (.hold x) ∈ s.allRefs start := mem_allRefs_held ht hm
  exact ⟨htr.counted.blockno_eq hmem, Coherent.data_eq h htr.counted hmem rfl⟩

lemma Data.commit {p : P} {call : Call} (h : Data start s)
    (htr : Tracked start s) (ht : s.thread = some ⟨p, pc, call⟩)
    (hstep : CommitStep start s p pc call s') : Data start s' := by
  have hok := htr.thread _ ht
  have hpc : pc.Ok s.lh.length := hok.pc
  have hc := htr.counted
  have hsub := s.lag_sub
  have hcp {l n} := htr.mem_copies (l := l) (n := n)
  have hD := h
  rw [allRefs_of_thread ht] at hc
  rw [lag_of_thread ht] at hsub
  rw [copies_of_thread ht] at hcp
  rw [Data, allRefs_of_thread ht, lag_of_thread ht, copies_of_thread ht] at h
  cases hstep with
  | acquire b hb hl =>
    refine data_of_coherent rfl rfl ?_
    simp only [Thread.refs, ← cons_coe, add_cons] at h ⊢
    exact h.acquiresleep rfl
  | @fill _ i b hb =>
    refine data_of_coherent rfl rfl ?_
    obtain ⟨-, hw, hi, hcd⟩ := CommitAt.got_progress s.lh.length i pc
    simp only [Thread.refs, ← cons_coe, add_cons, hb, Option.getD_some] at h hc
    show Coherent (P := P) _ _ _ (↑s.refs + ↑((pc.got i).held start s.lh p)) _ _
    rw [CommitAt.held_got hb, add_cons, hw, hi, hcd]
    exact h.fill hc hsub rfl
  | drop pc' hr =>
    refine data_of_coherent rfl rfl ?_
    obtain ⟨-, hw, hi, hcd⟩ := CommitAt.releases_progress hpc hr
    simp only [Thread.refs, ← cons_coe, add_cons, hr, Option.map_some, Option.getD_some] at h
    rw [hw, hi, hcd]
    exact h.unref rfl
  | bread b c i hb hg =>
    refine data_of_coherent rfl rfl ?_
    simp only [Thread.refs, ← cons_coe, add_cons]
    exact h.bget hg _
  | noBuffers b hb hg => exact data_of_coherent ht rfl h
  | brelse i pc' hr =>
    refine data_of_coherent rfl rfl ?_
    have h' : Coherent s.cache s.disk s.last
        (s.refs + (pc.held start s.lh p : Multiset (Ref P))) _ _ := h
    rw [CommitAt.held_releases hr, add_cons] at h'
    simp only [Thread.refs, ← cons_coe, add_cons, hr, Option.map_some, Option.getD_some]
    exact h'.releasesleep rfl
  | logCopy tail dst src =>
    refine data_of_coherent rfl rfl ?_
    have hlt : tail < s.lh.length := hpc
    have hsrc := (hD.held htr ht src (s.lh.getD tail 0) false (by simp [CommitAt.held])).2
    have hno := (hD.held htr ht dst (start + tail + 1) false (by simp [CommitAt.held])).1
    have hne : s.lh.getD tail 0 ≠ start + tail + 1 :=
      (htr.home _ (getD_mem hlt)).ne_logBlock (lt_of_lt_of_le hlt htr.length_le)
    simp only [Thread.refs, CommitAt.held, ← cons_coe, add_cons] at h hc ⊢
    have hst := h.store hc (fun l n hm => ?_) (s.cache.buf src).data
    · rw [hno]
      refine hst.of_copies fun l n hm => ?_
      refine (mem_window_succ hm).imp_right ?_
      rintro ⟨rfl, rfl⟩
      show update s.last (start + tail + 1) _ _ = update s.last (start + tail + 1) _ _
      rwa [update_self, update_of_ne hne]
    obtain ⟨k, -, hk, rfl, -⟩ := mem_window.mp hm
    have hk' : k < tail := hk
    show start + k + 1 ≠ start + tail + 1
    omega
  | logWrite tail dst src =>
    refine data_of_coherent rfl rfl ?_
    have hno := (hD.held htr ht dst (start + tail + 1) true (by simp [CommitAt.held])).1
    have hlt : tail < s.lh.length := hpc
    simp only [Thread.refs, CommitAt.held, ← cons_coe, add_cons] at h hc ⊢
    rw [hno]
    refine h.bwrite hc rfl (.inr fun l n hm => ?_)
    exact (htr.home n (hcp hm).2).ne_logBlock (lt_of_lt_of_le hlt htr.length_le)
  | headFill erase i =>
    refine data_of_coherent rfl rfl ?_
    have hno := (hD.held htr ht i start false (by simp [CommitAt.held])).1
    simp only [Thread.refs, CommitAt.held, ← cons_coe, add_cons] at h hc ⊢
    rw [hno]
    refine h.store hc (fun l n hm => ?_) _
    obtain ⟨k, -, rfl⟩ := (hcp hm).1
    show start + k + 1 ≠ start
    omega
  | headWrite erase i =>
    refine data_of_coherent rfl rfl ?_
    have hno := (hD.held htr ht i start true (by simp [CommitAt.held])).1
    simp only [Thread.refs, CommitAt.held, ← cons_coe, add_cons] at h hc ⊢
    rw [hno]
    refine h.bwrite hc rfl (.inr fun l n hm => ?_)
    exact (htr.home n (hcp hm).2).ne_start
  | instCopy tail lbuf dbuf =>
    refine data_of_coherent rfl rfl ?_
    have hlt : tail < s.lh.length := hpc
    have hl := (hD.held htr ht lbuf (start + tail + 1) false (by simp [CommitAt.held])).2
    simp only [Thread.refs, CommitAt.held, ← cons_coe, add_cons] at h hc ⊢
    rw [cons_swap] at h hc ⊢
    have hm : (start + tail + 1, s.lh.getD tail 0) ∈ window start s.lh tail s.lh.length :=
      mem_window.mpr ⟨tail, le_rfl, hlt, rfl, rfl⟩
    exact (h.reinstall hc rfl hm hl).of_copies fun l n hm => .inl (mem_window_of_succ hm)
  | instWrite tail lbuf dbuf =>
    refine data_of_coherent rfl rfl ?_
    obtain ⟨hdrop, -⟩ := getD_notMem_drop hpc htr.nodup
    obtain ⟨hno, hd⟩ := hD.held htr ht dbuf (s.lh.getD tail 0) false (by simp [CommitAt.held])
    simp only [Thread.refs, CommitAt.held, ← cons_coe, add_cons] at h hc ⊢
    rw [cons_swap] at h hc ⊢
    have hw := h.bwrite hc rfl (.inl rfl)
    simp only [CommitAt.written] at hw
    rw [hdrop] at hw
    rw [hno]
    refine hw.settle ?_
    show update s.disk (s.lh.getD tail 0) _ (s.lh.getD tail 0) = _
    rwa [update_self]
  | instUnpin tail lbuf dbuf => exact data_of_coherent rfl rfl (h.bunpin dbuf)
  | clear =>
    have hw : s.lh.drop (CommitAt.clear.written s.lh.length) = [] := List.drop_length
    have hi : window start s.lh (CommitAt.clear.installed s.lh.length)
        (CommitAt.clear.copied s.lh.length) = [] := by
      simp [window, CommitAt.installed, CommitAt.copied]
    simp only [hw, hi] at h
    exact h
end Xv6.Bio.Kernel
