import Xv6.Bio.Counted

namespace Xv6.Bio
open Function Multiset
variable {P : Type}

def Dirty (R : Multiset (Ref P)) (b : Nat) : Prop :=
  ∃ r ∈ R, r.blockno = b ∧ r.stage = .hold true

/-- Buffers hold what was last stored. -/
structure Coherent (c : Cache P) (d last : Disk) (R : Multiset (Ref P)) (lag : List Nat)
    (copies : List (Nat × Nat)) : Prop where
  cached : ∀ i, (c.buf i).dev = rootdev → (c.buf i).valid →
    (c.buf i).data = last (c.buf i).blockno
  disk : ∀ b, d b = last b ∨ b ∈ lag ∨ Dirty R b
  copies : ∀ l h, (l, h) ∈ copies → last l = last h ∨ Dirty R h

section
variable {c c' : Cache P} {d last : Disk} {R R' : Multiset (Ref P)} {pins lag : List Nat}
  {copies : List (Nat × Nat)} {r : Ref P} {i : Fin nbuf} {b : Nat}

lemma Dirty.cons (r : Ref P) (h : Dirty R b) : Dirty (r ::ₘ R) b := by
  obtain ⟨r', hr', hb⟩ := h
  exact ⟨r', mem_cons_of_mem hr', hb⟩

lemma Dirty.change (h : Dirty (r ::ₘ R) b) (hr : r.stage ≠ .hold true ∨ r.blockno ≠ b)
    (r' : Ref P) : Dirty (r' ::ₘ R) b := by
  obtain ⟨q, hq, hb, hd⟩ := h
  rcases mem_cons.mp hq with rfl | hq
  · rcases hr with hr | hr
    · exact absurd hd hr
    exact absurd hb hr
  exact ⟨q, mem_cons_of_mem hq, hb, hd⟩

lemma Coherent.frame (h : Coherent c d last R lag copies)
    (hbuf : ∀ i, (c'.buf i).dev = rootdev → (c'.buf i).valid →
      (c.buf i).dev = rootdev ∧ (c.buf i).valid ∧ (c'.buf i).data = (c.buf i).data ∧
        (c'.buf i).blockno = (c.buf i).blockno)
    (hdirty : ∀ b, Dirty R b → Dirty R' b) : Coherent c' d last R' lag copies := by
  refine ⟨fun i hd hv => ?_, fun b => ?_, fun l n hm => ?_⟩
  · obtain ⟨h1, h2, h3, h4⟩ := hbuf i hd hv
    rw [h3, h4]
    exact h.cached i h1 h2
  · exact (h.disk b).imp_right (Or.imp_right (hdirty b))
  exact (h.copies l n hm).imp_right (hdirty n)

lemma set_frame {b : Buf P} (hdev : b.dev = (c.buf i).dev) (hno : b.blockno = (c.buf i).blockno)
    (hv : b.valid = (c.buf i).valid) (hdata : b.data = (c.buf i).data) (j : Fin nbuf)
    (hjd : ((c.set i b).buf j).dev = rootdev) (hjv : ((c.set i b).buf j).valid) :
    (c.buf j).dev = rootdev ∧ (c.buf j).valid ∧ ((c.set i b).buf j).data = (c.buf j).data ∧
        ((c.set i b).buf j).blockno = (c.buf j).blockno := by
  by_cases hj : j = i
  · subst hj
    rw [Cache.set_buf_self] at *
    exact ⟨hdev ▸ hjd, hv ▸ hjv, hdata, hno⟩
  rw [Cache.set_buf_of_ne c b hj] at *
  exact ⟨hjd, hjv, rfl, rfl⟩

lemma Coherent.bget (h : Coherent c d last R lag copies)
    (hg : c.bget rootdev b = some (c', i)) (r : Ref P) :
    Coherent c' d last (r ::ₘ R) lag copies := by
  refine h.frame (fun j hd hv => ?_) fun b hb => hb.cons r
  rw [Cache.bget] at hg
  split at hg
  · cases hg
    exact set_frame (b := { c.buf i with refcnt := (c.buf i).refcnt + 1 }) rfl rfl rfl rfl j hd hv
  split at hg
  · cases hg
    by_cases hj : j = i
    · -- a recycled buffer is not valid
      subst hj
      simp at hv
    rw [Cache.set_buf_of_ne c _ hj] at *
    exact ⟨hd, hv, rfl, rfl⟩
  cases hg

section
variable (h : Coherent c d last (r ::ₘ R) lag copies)
include h

lemma Coherent.acquiresleep (hr : r.stage = .wait) :
    Coherent (c.acquiresleep r.proc r.buf) d last ({ r with stage := .fill } ::ₘ R) lag copies :=
  h.frame (set_frame rfl rfl rfl rfl) fun b hb => hb.change (.inl (by simp [hr])) _

lemma Coherent.releasesleep (hr : r.stage = .hold false) :
    Coherent (c.releasesleep r.buf) d last ({ r with stage := .drop } ::ₘ R) lag copies :=
  h.frame (set_frame rfl rfl rfl rfl) fun b hb => hb.change (.inl (by simp [hr])) _

lemma Coherent.unref (hr : r.stage = .drop) : Coherent (c.unref r.buf) d last R lag copies := by
  refine h.frame (fun j => ?_) fun b hb => ?_
  · rw [Cache.unref_buf]
    exact set_frame (b := { c.buf r.buf with refcnt := (c.buf r.buf).refcnt - 1 }) rfl rfl rfl rfl j
  obtain ⟨q, hq, hb, hd⟩ := hb
  rcases mem_cons.mp hq with rfl | hq
  · rw [hr] at hd
    cases hd
  exact ⟨q, hq, hb, hd⟩
end

lemma Coherent.bpin (h : Coherent c d last R lag copies) (i : Fin nbuf) :
    Coherent (c.bpin i) d last R lag copies :=
  h.frame (set_frame rfl rfl rfl rfl) fun _ hb => hb

lemma Coherent.bunpin (h : Coherent c d last R lag copies) (i : Fin nbuf) :
    Coherent (c.bunpin i) d last R lag copies :=
  h.frame (set_frame rfl rfl rfl rfl) fun _ hb => hb

section
variable (h : Coherent c d last (r ::ₘ R) lag copies) (hc : Counted c (r ::ₘ R) pins)
include h hc

lemma Coherent.fill (hlag : ∀ b ∈ lag, b ∈ pins) (hr : r.stage = .fill) :
    Coherent (c.fill d r.buf) d last ({ r with stage := .hold false } ::ₘ R) lag copies := by
  have hmem := mem_cons_self r R
  have hdirty : ∀ b, Dirty (r ::ₘ R) b → Dirty ({ r with stage := .hold false } ::ₘ R) b :=
    fun b hb => hb.change (.inl (by simp [hr])) _
  rw [Cache.fill]
  split
  · exact h.frame (fun i hd hv => ⟨hd, hv, rfl, rfl⟩) hdirty
  rename_i hv
  have hdisk : d (c.buf r.buf).blockno = last (c.buf r.buf).blockno := by
    rcases h.disk (c.buf r.buf).blockno with hd | hl | ⟨q, hq, hb, hd⟩
    · exact hd
    · obtain ⟨j, h1, h2, h3⟩ := hc.cached _ (hlag _ hl)
      rw [hc.unique j r.buf h1 (hc.dev_eq hmem) h2] at h3
      exact absurd h3 hv
    have hbuf := hc.buf_eq hq hmem (hb.trans (hc.blockno_eq hmem))
    have hvq := (hc.buf q.buf).valid q (mem_refsTo hq) (by rw [hd]; rfl)
    rw [hbuf] at hvq
    exact absurd hvq hv
  refine ⟨fun j hjd hjv => ?_, fun b => (h.disk b).imp_right (Or.imp_right (hdirty b)),
    fun l n hm => (h.copies l n hm).imp_right (hdirty n)⟩
  by_cases hj : j = r.buf
  · subst hj
    simpa using hdisk
  rw [Cache.set_buf_of_ne c _ hj] at *
  exact h.cached j hjd hjv

lemma Coherent.store (hl : ∀ l n, (l, n) ∈ copies → l ≠ r.blockno) (v : Block) :
    Coherent (c.setData r.buf v) d (update last r.blockno v)
      ({ r with stage := .hold true } ::ₘ R) lag copies := by
  have hmem := mem_cons_self r R
  have hself : Dirty ({ r with stage := .hold true } ::ₘ R) r.blockno :=
    ⟨_, mem_cons_self _ R, rfl, rfl⟩
  refine ⟨fun j hjd hjv => ?_, fun b => ?_, fun l n hm => ?_⟩
  · rw [Cache.setData] at *
    by_cases hj : j = r.buf
    · subst hj
      rw [Cache.set_buf_self]
      rw [hc.blockno_eq hmem, update_self]
    rw [Cache.set_buf_of_ne c _ hj] at *
    have hne : (c.buf j).blockno ≠ r.blockno := by
      intro hb
      exact hj (hc.unique j r.buf hjd (hc.dev_eq hmem) (hb.trans (hc.blockno_eq hmem).symm))
    rw [update_of_ne hne]
    exact h.cached j hjd hjv
  · by_cases hb : b = r.blockno
    · exact .inr (.inr (hb ▸ hself))
    rw [update_of_ne hb]
    exact (h.disk b).imp_right (Or.imp_right fun hd => hd.change (.inr fun e => hb e.symm) _)
  by_cases hn : n = r.blockno
  · exact .inr (hn ▸ hself)
  rw [update_of_ne (hl l n hm), update_of_ne hn]
  exact (h.copies l n hm).imp_right fun hd => hd.change (.inr fun e => hn e.symm) _

lemma Coherent.bwrite {x : Bool} (hr : r.stage = .hold x)
    (hcopy : x = false ∨ ∀ l n, (l, n) ∈ copies → n ≠ r.blockno) :
    Coherent c (update d r.blockno (c.buf r.buf).data) last
      ({ r with stage := .hold false } ::ₘ R) lag copies := by
  have hmem := mem_cons_self r R
  have hdata : (c.buf r.buf).data = last r.blockno := by
    have hv := (hc.buf r.buf).valid r (mem_refsTo hmem) (by rw [hr]; rfl)
    rw [h.cached r.buf (hc.dev_eq hmem) hv, hc.blockno_eq hmem]
  refine ⟨h.cached, fun b => ?_, fun l n hm => ?_⟩
  · by_cases hb : b = r.blockno
    · subst hb
      rw [update_self]
      exact .inl hdata
    rw [update_of_ne hb]
    exact (h.disk b).imp_right (Or.imp_right fun hd => hd.change (.inr fun e => hb e.symm) _)
  refine (h.copies l n hm).imp_right fun hd => hd.change ?_ _
  rcases hcopy with rfl | hcopy
  · exact .inl (by simp [hr])
  exact .inr fun e => hcopy l n hm e.symm
end

lemma Coherent.settle (h : Coherent c d last R (b :: lag) copies)
    (hb : d b = last b) : Coherent c d last R lag copies := by
  refine ⟨h.cached, fun n => ?_, h.copies⟩
  rcases h.disk n with hd | hl | hd
  · exact .inl hd
  · rcases List.mem_cons.mp hl with rfl | hl
    · exact .inl hb
    exact .inr (.inl hl)
  exact .inr (.inr hd)

lemma Coherent.log {lag' : List Nat} (h : Coherent c d last (r ::ₘ R) lag [])
    (hlag : ∀ b ∈ lag, b ∈ lag') (hb : r.blockno ∈ lag') :
    Coherent c d last ({ r with stage := .hold false } ::ₘ R) lag' [] := by
  refine ⟨h.cached, fun n => ?_, fun l n hm => absurd hm List.not_mem_nil⟩
  by_cases hn : n = r.blockno
  · exact .inr (.inl (hn ▸ hb))
  rcases h.disk n with hd | hl | hd
  · exact .inl hd
  · exact .inr (.inl (hlag n hl))
  exact .inr (.inr (hd.change (.inr fun e => hn e.symm) _))

lemma Coherent.data_eq {x : Bool} (h : Coherent c d last R lag copies)
    (hc : Counted c R pins) (hr : r ∈ R) (hst : r.stage = .hold x) :
    (c.buf r.buf).data = last r.blockno := by
  have hv := (hc.buf r.buf).valid r (mem_refsTo hr) (by rw [hst]; rfl)
  rw [h.cached r.buf (hc.dev_eq hr) hv, hc.blockno_eq hr]

lemma Counted.not_dirty (hc : Counted c (r ::ₘ R) pins) (hst : r.stage = .hold false) :
    ¬Dirty (r ::ₘ R) r.blockno := by
  rintro ⟨q, hq, hb, hd⟩
  rcases mem_cons.mp hq with rfl | hq
  · rw [hst] at hd
    cases hd
  have := hc.not_locked (by rw [hst]; rfl) hq hb
  rw [hd] at this
  cases this

lemma Coherent.reinstall (h : Coherent c d last (r ::ₘ R) lag copies)
    (hc : Counted c (r ::ₘ R) pins) (hst : r.stage = .hold false) {l : Nat}
    (hm : (l, r.blockno) ∈ copies) {v : Block} (hv : v = last l) :
    Coherent (c.setData r.buf v) d last (r ::ₘ R) lag copies := by
  have hmem := mem_cons_self r R
  have heq : last l = last r.blockno := (h.copies l _ hm).resolve_right (hc.not_dirty hst)
  refine ⟨fun j hjd hjv => ?_, h.disk, h.copies⟩
  rw [Cache.setData] at *
  by_cases hj : j = r.buf
  · subst hj
    rw [Cache.set_buf_self]
    rw [hc.blockno_eq hmem, hv, heq]
  rw [Cache.set_buf_of_ne c _ hj] at *
  exact h.cached j hjd hjv

lemma Coherent.of_copies {copies' : List (Nat × Nat)} (h : Coherent c d last R lag copies)
    (hcp : ∀ l n, (l, n) ∈ copies' → (l, n) ∈ copies ∨ last l = last n) :
    Coherent c d last R lag copies' := by
  refine ⟨h.cached, h.disk, fun l n hm => ?_⟩
  rcases hcp l n hm with hm | he
  · exact h.copies l n hm
  exact .inl he
end
end Xv6.Bio
