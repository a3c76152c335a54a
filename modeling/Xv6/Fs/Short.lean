import Xv6.Fs.Contents

namespace Xv6.Fs
open State Lib List
variable {sb : Superblock} {s t t' : State} {ip : Fin ninode} {i off n tot k : Nat}
  {src : Nat → Option UInt8}

structure Logs (sb : Superblock) (i off : Nat) (s : State) (tot : Nat) (t : State) : Prop where
  subset : s.logged ⊆ t.logged
  changed : ∀ b, t.disk b ≠ s.disk b → b ∈ t.logged
  fresh : ∀ k, s.slot sb (i, k) = 0 → t.slot sb (i, k) ≠ 0 → t.slot sb (i, k) ∈ t.logged
  ahead : ∀ bn, s.slot sb (i, fileSlot bn) ≠ 0 → tot = 0 ∨ off + tot ≤ bn * bsize →
    s.slot sb (i, fileSlot bn) ∈ t.logged → s.slot sb (i, fileSlot bn) ∈ s.logged

lemma logs_start : Logs sb i off s 0 s :=
  ⟨List.Subset.refl _, fun _ hb => absurd rfl hb, fun _ h0 hne => absurd h0 hne,
    fun _ _ _ hmem => hmem⟩

lemma Logs.grow (ok : sb.Ok) (hip : s.Open ip i) (ht : (s.itable ip).copy.type ≠ 0)
    (hw : Writing sb ip i src off s tot (off + tot) t) (hl : Logs sb i off s tot t)
    (hg : Grow sb ip t k t') (hgrew : Grew sb ip i k t t') : Logs sb i off s tot t' := by
  have hopen := hw.kept.open_iff.mpr hip
  have htype : (t.itable ip).copy.type ≠ 0 := by rwa [hw.kept.type]
  obtain ⟨b, hb, hfree, hbits, hmem, hsub, hchanged, hnew⟩ := hg.log ok hw.owned hopen htype
  have hdata := hw.owned.inData_of_free hb hfree
  refine ⟨fun c hc => hsub (hl.subset hc), fun c hc => ?_, fun j h0 hne => ?_,
    fun bn hne hahead hc => ?_⟩
  · by_cases hct : t'.disk c = t.disk c
    · rw [hct] at hc
      exact hsub (hl.changed c hc)
    exact hchanged c hct
  · by_cases hj : (i, j) = (i, k)
    · rwa [hj, hgrew.slot_eq hw.owned hbits]
    rw [hgrew.slot_ne _ hj] at hne ⊢
    exact hsub (hl.fresh j h0 hne)
  have hslot := hw.slot (i, fileSlot bn) (.inl hne)
  have hne' : t.slot sb (i, fileSlot bn) ≠ 0 := by rwa [hslot]
  have hin := hw.owned.ledger.slot_area _ hne'
  rw [← hslot] at hc
  rcases hnew _ hc with hc | hc | hc | ⟨hc, -⟩
  · rw [hslot] at hc
    exact hl.ahead bn hne hahead hc
  · exact absurd hc (hw.owned.slot_ne_of_free hdata hfree _)
  · exact absurd hc.symm (ok.bblock_ne_data hb hin)
  have hleaf := hw.owned.leaf fileSlot_ne hne' i
    (hw.owned.table.lt ip i hopen) (hw.owned.type_ino hopen htype)
  exact absurd hc.symm hleaf

lemma Logs.round {m : Nat} {v : Block} (hw : Writing sb ip i src off s tot (off + tot) t)
    (hl : Logs sb i off s tot t) (hm : 0 < m)
    (hb : t.slot sb (i, fileSlot ((off + tot) / bsize)) ≠ 0)
    (hslot : ∀ p, (t.logWrite (t.slot sb (i, fileSlot ((off + tot) / bsize))) v).slot sb p =
      t.slot sb p) :
    Logs sb i off s (tot + m) (t.logWrite (t.slot sb (i, fileSlot ((off + tot) / bsize))) v) := by
  refine ⟨fun c hc => .tail _ (hl.subset hc), fun c hc => ?_, fun j h0 hne => ?_,
    fun bn hne hahead hc => ?_⟩
  · by_cases hcb : c = t.slot sb (i, fileSlot ((off + tot) / bsize))
    · exact mem_cons.mpr (.inl hcb)
    rw [disk_logWrite_of_ne hcb] at hc
    exact .tail _ (hl.changed c hc)
  · rw [hslot] at hne ⊢
    exact .tail _ (hl.fresh j h0 hne)
  have hle : off + tot + m ≤ bn * bsize := by omega
  have hold := hw.slot (i, fileSlot bn) (.inl hne)
  rcases mem_cons.mp hc with hc | hc
  · have hpair := hw.owned.ledger.inj _ _ hb (hc.symm.trans hold.symm)
    have hbn := fileSlot_inj (congrArg Prod.snd hpair)
    have : bn * bsize ≤ off + tot := by
      rw [← hbn]
      exact Nat.div_mul_le_self _ _
    omega
  exact hl.ahead bn hne (.inr (by omega)) hc

def RestKept (sb : Superblock) (ip : Fin ninode) (off tot : Nat) (s t : State) : Prop :=
  (∀ o, o + 1 < 2 ^ 32 → o < off ∨ off + tot ≤ o →
    (readi sb ip (fun _ => some ()) o 1 t).map Prod.fst =
      (readi sb ip (fun _ => some ()) o 1 s).map Prod.fst) ∧
  ∀ b, t.disk b ≠ s.disk b → b ∈ t.logged

def HarmlessCopy (sb : Superblock) (s : State) (i : Nat) (src : Nat → Option UInt8)
    (off tot len : Nat) : Prop :=
  ∀ k < len, s.slot sb (i, fileSlot ((off + tot) / bsize)) ≠ 0 →
    s.content sb i (off + tot + k) = (src (tot + k)).getD 0 ∨ (s.ino sb i).size ≤ off + tot + k ∧
        s.slot sb (i, fileSlot ((off + tot) / bsize)) ∈ s.logged

def chunkStart (off c : Nat) : Nat := (off + c) / bsize * bsize - off

def Harmless (sb : Superblock) (s : State) (i : Nat) (src : Nat → Option UInt8) (off n : Nat) :
    Prop :=
  ∀ c < n, src c = none → (∀ k < c, (src k).isSome) →
    s.need sb i off (chunkStart off c) ≤ sb.nfree s.disk →
    HarmlessCopy sb s i src off (chunkStart off c) (c - chunkStart off c)

lemma readi_byte (h : Good sb s) (hip : s.Open ip i) {o : Nat} (ho : o + 1 < 2 ^ 32) :
    (readi sb ip (fun _ => some ()) o 1 s).map Prod.fst =
      .ok ((((s.contents sb i)[o]?.toList.length : Nat) : Int), (s.contents sb i)[o]?.toList) := by
  have hone : ((s.contents sb i).drop o).take 1 = (s.contents sb i)[o]?.toList := by
    rw [take_one, head?_drop]
  by_cases hle : o ≤ (s.ino sb i).size
  · rw [readi_ok h hip (fun _ _ => rfl) hle ho, hone]
    have hlen : (s.contents sb i)[o]?.toList.length = min 1 ((s.ino sb i).size - o) := by
      rw [← hone, length_take, length_drop, contents_length]
    rw [hlen]
    rfl
  have hnone : (s.contents sb i)[o]? = none := by rw [getElem?_contents, if_neg (by omega)]
  rw [readi_refused h hip (by decide) (fun e => hle e.1) (by omega), hnone]
  rfl

lemma readi_byte_eq_iff (h : Good sb s) (hip : s.Open ip i) (h' : Good sb t) (hip' : t.Open ip i)
    {o : Nat} (ho : o + 1 < 2 ^ 32) :
    (readi sb ip (fun _ => some ()) o 1 t).map Prod.fst =
      (readi sb ip (fun _ => some ()) o 1 s).map Prod.fst ↔
    (t.contents sb i)[o]? = (s.contents sb i)[o]? := by
  rw [readi_byte h hip ho, readi_byte h' hip' ho]
  constructor
  · intro he
    have hlist : (t.contents sb i)[o]?.toList = (s.contents sb i)[o]?.toList :=
      congrArg Prod.snd (Except.ok.inj he)
    rw [← Option.head?_toList (o := (t.contents sb i)[o]?), hlist, Option.head?_toList]
  intro he
  rw [he]

structure Returned (sb : Superblock) (ip : Fin ninode) (i : Nat) (src : Nat → Option UInt8)
    (off n : Nat) (s : State) (tot : Nat) (t0 t1 t : State) : Prop
    extends Progress sb ip i src off n s tot (off + tot) t0 where
  fits : off + n ≤ maxfile * bsize
  off_le : off ≤ (s.ino sb i).size
  logs : Logs sb i off s tot t0
  ends : Ends sb i src off n tot t0 t1
  good : Good sb t
  isOpen : t.Open ip i
  size : (t.ino sb i).size = max (s.ino sb i).size (off + tot)
  content : ∀ o, t.content sb i o = t1.content sb i o
  disk : ∀ c ≠ sb.iblock i, t.disk c = t1.disk c
  logged : t.logged = sb.iblock i :: t1.logged

lemma wp_writei_returned (ok : sb.Ok) (h : Good sb s) (hip : s.Open ip i) :
    wp (writei sb ip src off n) s (fun r t => ∀ tot : Nat, r = tot →
      ∃ t0 t1, Returned sb ip i src off n s tot t0 t1 t) (fun _ => False) := by
  refine wp_imp (wp_writei_ends (K := Logs sb i off s) ok h hip logs_start ?_ ?_) ?_
  · intro tot k t t' _ _ hp hl hg hgrew
    exact hl.grow ok hip (h.typed ip i hip) hp.writing hg hgrew
  · rintro tot m t t' htot hm _ hp hl hb rfl
    have hd := hp.writing.owned.dataStep_logWrite hb
      (t.fillAt src (t.slot sb (i, fileSlot ((off + tot) / bsize))) (off + tot) tot m)
    have hpos : 0 < m := by
      have : (off + tot) % bsize < bsize := Nat.mod_lt _ (by decide)
      omega
    exact hl.round hp.writing hpos hb (hd.slot ok hp.writing.owned)
  rintro r t (⟨rfl, -, -⟩ | ⟨tot, t0, t1, rfl, hle, hoff, hmax, hp, hl, he, rfl⟩) tot' htot
  · omega
  cases Int.ofNat.inj htot
  obtain ⟨stop, hs⟩ := hp.stopped ok hmax he
  have hoff' := hoff
  rw [ino_of_open h.owned.table hip] at hoff ⊢
  have hfin := hs.writing.finish ok h hip (by omega) hoff
  have hbusy := hs.writing.busy h hip
  have hopen := hbusy.isOpen
  have hfits := hs.writing.fits h hip (by omega)
  generalize hx : ({ (t1.itable ip).copy with
    size := max (s.itable ip).copy.size (off + tot) } : Dinode) = x at hfits hfin ⊢
  have haddrs : x.addrs = (t1.itable ip).copy.addrs := by rw [← hx]
  have htype : x.type = 0 ↔ (t1.itable ip).copy.type = 0 := by rw [← hx]
  have hdisk : ∀ c ≠ sb.iblock i, (t1.put sb ip x).disk c = t1.disk c := by
    intro c hc
    rw [← hopen.2.2, ← inum_setCopy (x := x)] at hc
    exact disk_logWrite_of_ne hc
  refine ⟨t0, t1, hp, hmax, hoff', hl, he, hfin.good, hfin.refs.open_iff.mpr hip, ?_,
    fun o => content_put ok hs.writing.owned hopen hfits haddrs htype i o, hdisk, logged_put hopen⟩
  rw [hfin.ino, ino_of_open h.owned.table hip]

namespace Returned
variable {t0 t1 : State}

lemma contents_eq_iff (hr : Returned sb ip i src off n s tot t0 t1 t) {o : Nat}
    (hout : o < off ∨ off + tot ≤ o) : (t.contents sb i)[o]? = (s.contents sb i)[o]? ↔
      (o < (s.ino sb i).size → t1.content sb i o = s.content sb i o) := by
  have hoff := hr.off_le
  rw [getElem?_contents, getElem?_contents, hr.content, hr.size]
  by_cases hlt : o < (s.ino sb i).size
  · rw [if_pos hlt, if_pos (by omega), Option.some.injEq]
    exact ⟨fun h _ => h, fun h => h hlt⟩
  rw [if_neg hlt, if_neg (by omega)]
  exact iff_of_true rfl fun h => absurd h hlt

section
variable (h : Good sb s) (hip : s.Open ip i) (hr : Returned sb ip i src off n s tot t0 t1 t)
include h hip hr

lemma restKept_iff :
    RestKept sb ip off tot s t ↔ (∀ o < (s.ino sb i).size, o < off ∨ off + tot ≤ o →
        t1.content sb i o = s.content sb i o) ∧
      ∀ c ≠ sb.iblock i, t1.disk c ≠ s.disk c → c ∈ t1.logged := by
  have hsize : (s.ino sb i).size + 1 < 2 ^ 32 := by
    have hle := h.size_le hip
    have hb : maxfile * bsize + 1 < 2 ^ 32 := by decide
    omega
  have hfile : ∀ o, o + 1 < 2 ^ 32 → o < off ∨ off + tot ≤ o →
      ((readi sb ip (fun _ => some ()) o 1 t).map Prod.fst =
        (readi sb ip (fun _ => some ()) o 1 s).map Prod.fst ↔
      (o < (s.ino sb i).size → t1.content sb i o = s.content sb i o)) := fun o ho hout =>
    (readi_byte_eq_iff h hip hr.good hr.isOpen ho).trans (hr.contents_eq_iff hout)
  constructor
  · rintro ⟨hread, hlog⟩
    refine ⟨fun o ho hout => (hfile o (by omega) hout).mp (hread o (by omega) hout) ho,
      fun c hc hne => ?_⟩
    have hmem := hlog c (by rwa [hr.disk c hc])
    rw [hr.logged] at hmem
    exact (mem_cons.mp hmem).resolve_left hc
  rintro ⟨hsame, hlog⟩
  refine ⟨fun o ho hout => (hfile o ho hout).mpr (fun hlt => hsame o hlt hout), fun c hne => ?_⟩
  rw [hr.logged]
  by_cases hc : c = sb.iblock i
  · exact mem_cons.mpr (.inl hc)
  rw [hr.disk c hc] at hne
  exact .tail _ (hlog c hc hne)

lemma restKept_of_eq (he : t1 = t0) : RestKept sb ip off tot s t := by
  rw [hr.restKept_iff h hip, he]
  exact ⟨fun o _ hout => hr.writing.unwritten o hout, fun c _ hne => hr.logs.changed c hne⟩
end

lemma byte_of_slot (hb : s.slot sb (i, fileSlot ((off + tot) / bsize)) ≠ 0)
    (hk : (off + tot) % bsize + k < bsize) : s.content sb i (off + tot + k) =
      (s.disk (s.slot sb (i, fileSlot ((off + tot) / bsize)))).byte ((off + tot) % bsize + k) := by
  have hdiv : (off + tot + k) / bsize = (off + tot) / bsize := by
    rw [bsize_eq] at *
    omega
  have hmod : (off + tot + k) % bsize = (off + tot) % bsize + k := by
    rw [bsize_eq] at *
    omega
  rw [State.content, hdiv, hmod, if_neg hb]

section Failed
variable {m : Nat} (ok : sb.Ok) (hr : Returned sb ip i src off n s tot t0 t1 t)
  (hm : m = min (n - tot) (bsize - (off + tot) % bsize))
  (hb : t0.slot sb (i, fileSlot ((off + tot) / bsize)) ≠ 0) (hlen : copyable src tot m < m)
  (ht1 : t1 = t0.scribble (t0.slot sb (i, fileSlot ((off + tot) / bsize)))
    (t0.fillAt src (t0.slot sb (i, fileSlot ((off + tot) / bsize))) (off + tot) tot
      (copyable src tot m)))
include ok hr hm hb hlen ht1

lemma content_failed (o : Nat) : t1.content sb i o =
    if off + tot ≤ o ∧ o < off + tot + copyable src tot m then (src (o - off)).getD 0
    else t0.content sb i o := by
  have hfit := round_fits hm
  rw [ht1, content_round ok hr.writing.owned hb (by omega)
    (hr.writing.owned.dataStep_scribble hb _) disk_scribble_self]
  simp only [true_and]

lemma harmless_of_restKept (h : Good sb s) (hip : s.Open ip i) (htot : tot < n)
    (hkept : RestKept sb ip off tot s t) :
    HarmlessCopy sb s i src off tot (copyable src tot m) := by
  obtain ⟨hsame, hlog⟩ := (hr.restKept_iff h hip).mp hkept
  have hcontent := hr.content_failed ok hm hb hlen ht1
  have hfit := round_fits hm
  intro k hk hs0
  have hslot := hr.writing.slot (i, fileSlot ((off + tot) / bsize)) (.inl hs0)
  by_cases heq : s.content sb i (off + tot + k) = (src (tot + k)).getD 0
  · exact .inl heq
  have hnew : t1.content sb i (off + tot + k) = (src (tot + k)).getD 0 := by
    rw [hcontent, if_pos (by omega), add_assoc, Nat.add_sub_cancel_left]
  refine .inr ⟨Nat.le_of_not_lt fun hlt => heq ?_, ?_⟩
  · rw [← hsame _ hlt (.inr (by omega)), hnew]
  rw [hslot] at hb
  have hin := h.owned.ledger.slot_area _ hs0
  have hi := h.owned.table.lt ip i hip
  have hne : t1.disk (s.slot sb (i, fileSlot ((off + tot) / bsize))) ≠
      s.disk (s.slot sb (i, fileSlot ((off + tot) / bsize))) := by
    intro e
    refine heq ?_
    rw [byte_of_slot hs0 (by omega), ← e, ht1, hslot]
    rw [disk_scribble_self, State.fillAt, byte_fill (by omega), if_pos (by omega)]
    congr 2
    omega
  have hmem := hlog _ (ok.iblock_ne_data hi hin).symm hne
  rw [ht1] at hmem
  refine hr.logs.ahead _ hs0 ?_ hmem
  rcases hr.bound with h0 | hn | hmod
  · exact .inl h0
  · omega
  exact .inr (by rw [Nat.div_mul_cancel (Nat.dvd_of_mod_eq_zero hmod)])

lemma restKept_of_harmless (h : Good sb s) (hip : s.Open ip i)
    (hharm : HarmlessCopy sb s i src off tot (copyable src tot m)) :
    RestKept sb ip off tot s t := by
  have hcontent := hr.content_failed ok hm hb hlen ht1
  have hfit := round_fits hm
  refine (hr.restKept_iff h hip).mpr ⟨fun o hlt hout => ?_, fun c _ hne => ?_⟩
  · rw [hcontent]
    by_cases hin : off + tot ≤ o ∧ o < off + tot + copyable src tot m
    · -- a byte of the file, so its block is an old one
      obtain ⟨k, rfl⟩ := Nat.exists_eq_add_of_le hin.1
      have hdiv : (off + tot + k) / bsize = (off + tot) / bsize := by
        rw [bsize_eq] at *
        omega
      have hfull := h.full i (h.owned.table.lt ip i hip)
        (h.owned.type_ino hip (h.typed ip i hip)) _ hlt
      rw [hdiv] at hfull
      rw [if_pos hin]
      rcases hharm k (by omega) hfull.2 with heq | ⟨hle, -⟩
      · rw [heq, add_assoc, Nat.add_sub_cancel_left]
      omega
    rw [if_neg hin]
    exact hr.writing.unwritten o hout
  have hlogged : t1.logged = t0.logged := by rw [ht1]; rfl
  rw [hlogged]
  by_cases hc : c = t0.slot sb (i, fileSlot ((off + tot) / bsize))
  · rw [hc] at hne ⊢
    by_cases hs0 : s.slot sb (i, fileSlot ((off + tot) / bsize)) = 0
    · exact hr.logs.fresh _ hs0 hb
    have hslot := hr.writing.slot (i, fileSlot ((off + tot) / bsize)) (.inl hs0)
    rw [hslot] at hne ht1 ⊢
    by_cases hin : s.slot sb (i, fileSlot ((off + tot) / bsize)) ∈ s.logged
    · exact hr.logs.subset hin
    by_cases hd : t0.disk (s.slot sb (i, fileSlot ((off + tot) / bsize))) =
        s.disk (s.slot sb (i, fileSlot ((off + tot) / bsize)))
    · -- the copy has not changed the block
      refine absurd (Block.ext (fun o ho => ?_)) hne
      rw [ht1]
      rw [disk_scribble_self, State.fillAt, byte_fill ho, hd]
      split
      · rename_i hmid
        obtain ⟨k, rfl⟩ := Nat.exists_eq_add_of_le hmid.1
        have heq := (hharm k (by omega) hs0).resolve_right fun e => hin e.2
        rw [byte_of_slot hs0 (by omega)] at heq
        rw [heq, Nat.add_sub_cancel_left]
      rfl
    exact hr.logs.changed _ hd
  refine hr.logs.changed c ?_
  rw [ht1] at hne
  exact fun e => hne ((disk_scribble_of_ne hc).trans e)
end Failed

lemma le_chunkStart (hr : Returned sb ip i src off n s tot t0 t1 t) {c : Nat} (htot : tot < n)
    (hc : tot ≤ c) : tot ≤ chunkStart off c := by
  have := hr.bound
  rw [chunkStart]
  rw [bsize_eq] at *
  omega

lemma harmless_iff {m : Nat} (hr : Returned sb ip i src off n s tot t0 t1 t) (htot : tot < n)
    (hm : m = min (n - tot) (bsize - (off + tot) % bsize)) (hlen : copyable src tot m < m) :
    Harmless sb s i src off n ↔ HarmlessCopy sb s i src off tot (copyable src tot m) := by
  have hnone := eq_none_of_copyable_lt hlen
  have hsome : ∀ k < tot + copyable src tot m, (src k).isSome := fun k hk => by
    by_cases hlt : k < tot
    · exact hr.read k hlt
    obtain ⟨l, rfl⟩ := Nat.exists_eq_add_of_le (Nat.le_of_not_lt hlt)
    exact isSome_of_lt_copyable (m := m) (by omega)
  have hstart : chunkStart off (tot + copyable src tot m) = tot := by
    refine le_antisymm ?_ (hr.le_chunkStart htot (by omega))
    have := round_fits hm
    rw [chunkStart]
    rw [bsize_eq] at *
    omega
  constructor
  · intro h
    have hroom := hr.spent tot
    rw [hr.writing.need_eq_zero] at hroom
    have := h _ (by omega) hnone hsome (by rw [hstart]; omega)
    rwa [hstart, Nat.add_sub_cancel_left] at this
  intro h c _ hc hbefore _
  have heq : c = tot + copyable src tot m := by
    rcases Nat.lt_trichotomy c (tot + copyable src tot m) with hlt | he | hgt
    · have := hsome c hlt
      rw [hc] at this
      cases this
    · exact he
    · have := hbefore _ hgt
      rw [hnone] at this
      cases this
  rwa [heq, hstart, Nat.add_sub_cancel_left]

lemma harmless_of_full (hr : Returned sb ip i src off n s tot t0 t1 t) (htot : tot < n)
    (h0 : t0.slot sb (i, fileSlot ((off + tot) / bsize)) = 0) (hfull : sb.Exhausted t0.disk) :
    Harmless sb s i src off n := by
  intro c hcn hc _ hroom k _ hne
  have htc : tot ≤ c := Nat.le_of_not_lt fun hlt => by
    have := hr.read c hlt
    rw [hc] at this
    cases this
  rcases Nat.lt_or_eq_of_le (hr.le_chunkStart htot htc) with hlt | heq
  · exact absurd h0 (slot_ne_of_exhausted (hr.room _ hlt hroom) hfull
      (mem_span (mem_spanBlocks hlt (div_lt_maxfile hr.fits htot)) (.inl rfl)))
  · rw [← heq] at hne
    rw [hr.writing.slot _ (.inl hne)] at h0
    exact absurd h0 hne
end Returned

theorem writei_restKept_iff (ok : sb.Ok) (h : Good sb s) (hip : s.Open ip i)
    (hrun : writei sb ip src off n s = .ok ((tot : Int), t)) :
    RestKept sb ip off tot s t ↔ Harmless sb s i src off n := by
  obtain ⟨t0, t1, hr⟩ := wp_ok (wp_writei_returned ok h hip) hrun tot rfl
  cases he : hr.ends with
  | all hn =>
    refine iff_of_true (hr.restKept_of_eq h hip rfl) fun c hcn hc => ?_
    have := hr.read c (by omega)
    rw [hc] at this
    cases this
  | full htot h0 hfull =>
    exact iff_of_true (hr.restKept_of_eq h hip rfl) (hr.harmless_of_full htot h0 hfull)
  | failed m htot hm hb hlen =>
    rw [hr.harmless_iff htot hm hlen]
    exact ⟨hr.harmless_of_restKept ok hm hb hlen rfl h hip htot,
      hr.restKept_of_harmless ok hm hb hlen rfl h hip⟩

def faultAfter (v : UInt8) : Nat → Option UInt8 := fun k => if k = 0 then some v else none

def twoBytes : List Op :=
  [.ialloc tFile, .ilock entry0, .writei entry0 oneByte 0 2, .reboot, .iget 1, .ilock entry0]

theorem writei_restKept_iff_two : ∃ s t, run (next tiny) (boot (tinyDisk .zero)) twoBytes = some s ∧
    writei tiny entry0 (faultAfter 7) 0 2 s = .ok (0, t) ∧
      RestKept tiny entry0 0 0 s t := by
  obtain ⟨s, hs, hopen, hbyte, hwrite⟩ : ∃ s,
      run (next tiny) (boot (tinyDisk .zero)) twoBytes = some s ∧ s.Open entry0 1 ∧
      s.content tiny 1 0 = 7 ∧ (writei tiny entry0 (faultAfter 7) 0 2 s).map (·.1) = .ok 0 :=
    exists_of_any (by decide +kernel)
  cases hw : writei tiny entry0 (faultAfter 7) 0 2 s with
  | error e =>
    rw [hw] at hwrite
    cases hwrite
  | ok r =>
    rw [hw] at hwrite
    have hret : r = (0, r.2) := Prod.ext (Except.ok.inj hwrite) rfl
    rw [hret] at hw
    refine ⟨s, r.2, hs, hw, (writei_restKept_iff tiny_ok (image_tiny.good_of_run hs) hopen hw).mpr
      fun c hc hnone _ _ k hk _ => ?_⟩
    have hc1 : c = 1 := by
      by_contra hne
      cases (show c = 0 by omega)
      cases hnone
    have h0 : chunkStart 0 1 = 0 := by decide
    rw [hc1, h0] at hk ⊢
    cases Nat.lt_one_iff.mp hk
    exact .inl hbyte

theorem writei_scribbles : ∃ s t, run (next tiny) (boot (tinyDisk .zero)) twoBytes = some s ∧
    Good tiny s ∧ s.Open entry0 1 ∧ writei tiny entry0 (faultAfter 8) 0 2 s = .ok (0, t) ∧
    (readi tiny entry0 (fun _ => some ()) 0 1 s).map Prod.fst = .ok (1, [7]) ∧
    (readi tiny entry0 (fun _ => some ()) 0 1 t).map Prod.fst = .ok (1, [8]) ∧
    ∃ b, t.disk b ≠ s.disk b ∧ b ∉ t.logged := by
  have hrun : ((run (next tiny) (boot (tinyDisk .zero)) twoBytes).map fun s =>
      decide (s.Open entry0 1 ∧
        (readi tiny entry0 (fun _ => some ()) 0 1 s).map Prod.fst = .ok (1, [7]) ∧
        (writei tiny entry0 (faultAfter 8) 0 2 s).map (fun r => (r.1,
          (readi tiny entry0 (fun _ => some ()) 0 1 r.2).map Prod.fst,
          decide ((r.2.disk 4).byte 0 ≠ (s.disk 4).byte 0 ∧ 4 ∉ r.2.logged))) =
            .ok (0, .ok (1, [8]), true))) = some true := by decide +kernel
  obtain ⟨s, hs, hvals⟩ := Option.map_eq_some_iff.mp hrun
  obtain ⟨hopen, hread, hwrite⟩ := of_decide_eq_true hvals
  cases hw : writei tiny entry0 (faultAfter 8) 0 2 s with
  | error e =>
    rw [hw] at hwrite
    cases hwrite
  | ok r =>
    rw [hw] at hwrite
    have hr := Except.ok.inj hwrite
    rw [Prod.mk.injEq, Prod.mk.injEq, decide_eq_true_eq] at hr
    obtain ⟨hret, hread', hbyte, hlog⟩ := hr
    refine ⟨s, r.2, hs, image_tiny.good_of_run hs, hopen, ?_, hread, hread', 4,
      fun e => hbyte (by rw [e]), hlog⟩
    rw [hw, ← hret]
end Xv6.Fs
