import Xv6.Fs.Write

namespace Xv6.Fs
open State Lib List Dinode
variable {sb : Superblock} {s s' t : State} {ip : Fin ninode} {E : Panic → Prop} {i b : Nat}
  {spare rest : List Nat} {x : Dinode} {a : Block}

lemma Owned.clearAddr (h : Owned sb s spare) (hip : s.Open ip i)
    (ht : (s.itable ip).copy.type ≠ 0) {k : Nat} (hk : k < ndirect)
    (h0 : (s.itable ip).copy.addr k ≠ 0) :
    Owned sb (s.setCopy ip ((s.itable ip).copy.setAddr k 0)) ((s.itable ip).copy.addr k :: spare) :=
      by
  have hslot := slot_setAddr (b := 0) h hip ht (le_of_lt hk) (fun e => by omega) (by decide)
  have hkn : k < nslot := lt_trans hk (by decide)
  have hself : s.slot sb (i, k) = (s.itable ip).copy.addr k := by
    rw [slot_open h hip ht _ rfl, if_pos hkn, slot_direct (le_of_lt hk)]
  refine h.setCopy_of hip ((h.table.fits ip i hip).setAddr (by decide)) ?_ fun c hc htype => ?_
  · refine h.ledger.drop (fun p => ?_) (nodup_singleton _) fun c => ?_
    · rw [hslot]
      split
      · exact .inr rfl
      exact .inl rfl
    · rw [mem_singleton]
      constructor
      · rintro rfl
        exact ⟨h0, (i, k), hself, (hslot _).trans (if_pos rfl)⟩
      rintro ⟨hc0, p, hp, hp'⟩
      rw [hslot] at hp'
      by_cases he : p = (i, k)
      · rw [← hp, he, hself]
      rw [if_neg he, hp] at hp'
      exact absurd hp' hc0
  have hold := (h.unlogged c hc).2 i (h.table.lt ip i hip) (h.type_ino hip ht)
  rw [ino_of_open h.table hip] at hold
  rwa [addr_ne_of_addrs (le_refl _) (by omega)]

def entries (a : Block) (js : List Nat) : List Nat := (js.filter fun j => a.word j ≠ 0).map a.word

lemma mem_entries {js : List Nat} {c : Nat} :
    c ∈ entries a js ↔ c ≠ 0 ∧ ∃ j ∈ js, a.word j = c := by
  simp only [entries, mem_map, mem_filter, decide_eq_true_eq]
  constructor
  · rintro ⟨j, ⟨hj, h0⟩, rfl⟩
    exact ⟨h0, j, hj, rfl⟩
  rintro ⟨h0, j, hj, rfl⟩
  exact ⟨j, ⟨hj, h0⟩, rfl⟩

lemma Owned.clearIndirect (h : Owned sb s spare) (hip : s.Open ip i)
    (ht : (s.itable ip).copy.type ≠ 0) (h0 : (s.itable ip).copy.addr ndirect ≠ 0) :
    Owned sb (s.setCopy ip ((s.itable ip).copy.setAddr ndirect 0))
      (entries (s.disk ((s.itable ip).copy.addr ndirect)) (range nindirect) ++
        (s.itable ip).copy.addr ndirect :: spare) := by
  generalize hind : (s.itable ip).copy.addr ndirect = ind at h0 ⊢
  generalize hx : (s.itable ip).copy.setAddr ndirect 0 = x
  have hfits : x.Fits := hx ▸ (h.table.fits ip i hip).setAddr (by decide)
  have hxt : x.type ≠ 0 := hx ▸ ht
  have hslot : ∀ p, (s.setCopy ip x).slot sb p =
      if p.1 = i ∧ ndirect ≤ p.2 then 0 else s.slot sb p := by
    intro p
    rw [slot_setCopy_eq h hip hfits hxt]
    by_cases hp : p.1 = i
    · rw [if_pos hp, slot_open h hip ht p hp, ← hx, slot_clear_indirect]
      by_cases hk : ndirect ≤ p.2
      · simp [hp, hk]
      simp [hk]
    rw [if_neg hp, if_neg (fun e => hp e.1)]
  have hptr : s.slot sb (i, ndirect) = ind := by
    rw [slot_open h hip ht _ rfl, if_pos (show ndirect < nslot by decide),
      slot_direct le_rfl, hind]
  have hentry : ∀ j < nindirect, s.slot sb (i, ndirect + 1 + j) = (s.disk ind).word j := by
    intro j hj
    have hjs : ndirect + 1 + j < nslot := Nat.add_lt_add_left hj _
    rw [slot_open h hip ht _ rfl, if_pos hjs, slot_entry (by omega) (hind ▸ h0), hind,
      Nat.add_sub_cancel_left]
  have hinj : ∀ j l, j < nindirect → l < nindirect → (s.disk ind).word j ≠ 0 →
      (s.disk ind).word j = (s.disk ind).word l → j = l := by
    intro j l hj hl hj0 he
    rw [← hentry j hj] at hj0 he
    rw [← hentry l hl] at he
    have hpair := h.ledger.inj _ _ hj0 he
    rw [Prod.mk.injEq] at hpair
    omega
  have hnodup : (entries (s.disk ind) (range nindirect) ++ [ind]).Nodup := by
    refine nodup_append.mpr ⟨?_, nodup_singleton _, fun c hc e he hce => ?_⟩
    · refine List.Nodup.map_on (fun j hj l hl he => ?_) (nodup_range.filter _)
      rw [mem_filter, mem_range, decide_eq_true_eq] at hj hl
      exact hinj j l hj.1 hl.1 hj.2 he
    rw [mem_singleton.mp he] at hce
    obtain ⟨hc0, j, hj, hw⟩ := mem_entries.mp hc
    have hj := mem_range.mp hj
    have hpair := h.ledger.inj (i, ndirect + 1 + j) (i, ndirect)
      (by rwa [hentry j hj, hw]) (by rw [hentry j hj, hw, hptr, hce])
    rw [Prod.mk.injEq] at hpair
    omega
  have hmem : ∀ c, c ∈ entries (s.disk ind) (range nindirect) ++ [ind] ↔
      c ≠ 0 ∧ ∃ p, s.slot sb p = c ∧ (s.setCopy ip x).slot sb p = 0 := by
    intro c
    rw [mem_append, mem_entries, mem_singleton]
    constructor
    · rintro (⟨hc0, j, hj, rfl⟩ | rfl)
      · exact ⟨hc0, _, hentry j (mem_range.mp hj), (hslot _).trans (if_pos ⟨rfl, by
          omega⟩)⟩
      exact ⟨h0, _, hptr, (hslot _).trans (if_pos ⟨rfl, le_rfl⟩)⟩
    rintro ⟨hc0, ⟨l, k⟩, hp, hp'⟩
    rw [hslot] at hp'
    by_cases he : l = i ∧ ndirect ≤ k
    · obtain ⟨rfl, hk⟩ := he
      by_cases hkn : k = ndirect
      · rw [hkn, hptr] at hp
        exact .inr hp.symm
      have hks : k < nslot := by
        by_contra hks
        rw [slot_open h hip ht _ rfl, if_neg hks] at hp
        exact hc0 hp.symm
      have hj : k - (ndirect + 1) < nindirect := by
        rw [nslot] at hks
        omega
      have hk' : k = ndirect + 1 + (k - (ndirect + 1)) := by omega
      rw [hk', hentry _ hj] at hp
      exact .inl ⟨hc0, _, mem_range.mpr hj, hp⟩
    rw [if_neg he, hp] at hp'
    exact absurd hp' hc0
  refine h.setCopy_of hip hfits ?_ fun c hc htype => ?_
  · have hsub : ∀ p, (s.setCopy ip x).slot sb p = s.slot sb p ∨ (s.setCopy ip x).slot sb p = 0 :=
      fun p => by
        rw [hslot]
        split
        · exact .inr rfl
        exact .inl rfl
    have hledger := h.ledger.drop hsub hnodup hmem
    rwa [append_assoc, singleton_append] at hledger
  have hzero : x.addr ndirect = 0 := by rw [← hx, addr_setAddr (by omega), if_pos rfl]
  rw [hzero]
  exact fun e => h.ledger.zero (e ▸ (h.unlogged c hc).1)

structure Freed (sb : Superblock) (s s' : State) : Prop where
  same : SameInodes sb s s'
  data : ∀ c, sb.InData c → s'.disk c = s.disk c

lemma Freed.refl : Freed sb s s := ⟨⟨rfl, fun _ _ => rfl⟩, fun _ _ => rfl⟩

lemma Freed.trans (h : Freed sb s t) (h' : Freed sb t s') : Freed sb s s' :=
  ⟨h.same.trans h'.same, fun c hc => (h'.data c hc).trans (h.data c hc)⟩

lemma freed_free (ok : sb.Ok) (hb : sb.InData b) : Freed sb s (s.free sb b) :=
  ⟨sameInodes_free ok, fun _ hc => disk_free_of_data ok hb hc⟩

lemma wp_bfree_spare (ok : sb.Ok) (h : Owned sb (s.setCopy ip x) (b :: rest)) :
    wp (bfree sb b) s (fun _ t => Owned sb (t.setCopy ip x) rest ∧ Freed sb s t) E := by
  have hbit : sb.bit s.disk b := h.ledger.taken_of_spare mem_cons_self
  rw [wp_bfree hbit]
  exact ⟨h.free ok, freed_free ok (h.ledger.spare_area b mem_cons_self)⟩

lemma wp_bfreeEntries (ok : sb.Ok) (js : List Nat) :
    ∀ s, Owned sb (s.setCopy ip x) (entries a js ++ rest) →
      wp (bfreeEntries sb a js) s (fun _ t => Owned sb (t.setCopy ip x) rest ∧ Freed sb s t) E := by
  induction js with
  | nil =>
    intro s h
    rw [bfreeEntries, wp_pure]
    exact ⟨h, .refl⟩
  | cons j js ih =>
    intro s h
    rw [bfreeEntries]
    refine wp_ite (fun h0 => ?_) fun h0 => ?_
    · rw [entries, filter_cons_of_neg (by simp [h0])] at h
      exact ih s h
    rw [entries, filter_cons_of_pos (by simp [h0]), map_cons, cons_append] at h
    refine wp_bind_of (wp_bfree_spare ok h) fun _ t ht => ?_
    exact wp_imp (ih t ht.1) fun _ u hu => ⟨hu.1, ht.2.trans hu.2⟩

structure Cleared (sb : Superblock) (ip : Fin ninode) (i : Nat) (s s' : State) : Prop where
  kept : Kept sb ip s s'
  owned : Owned sb s' []
  data : ∀ c, sb.InData c → s'.disk c = s.disk c
  slot : ∀ p, p.1 ≠ i → s'.slot sb p = s.slot sb p
  zero : ∀ k, (s.itable ip).copy.addr k = 0 → (s'.itable ip).copy.addr k = 0

lemma Cleared.refl (h : Owned sb s []) : Cleared sb ip i s s :=
  ⟨.refl, h, fun _ _ => rfl, fun _ _ => rfl, fun _ h0 => h0⟩

lemma Cleared.trans (h : Cleared sb ip i s t) (h' : Cleared sb ip i t s') :
    Cleared sb ip i s s' :=
  ⟨h.kept.trans h'.kept, h'.owned, fun c hc => (h'.data c hc).trans (h.data c hc),
    fun p hp => (h'.slot p hp).trans (h.slot p hp), fun k h0 => h'.zero k (h.zero k h0)⟩

lemma Freed.cleared (hs : Owned sb s []) (hf : Freed sb s t) (hip : s.Open ip i) {k : Nat}
    (ho : Owned sb (t.setCopy ip ((s.itable ip).copy.setAddr k 0)) []) :
    Cleared sb ip i s (t.setCopy ip ((s.itable ip).copy.setAddr k 0)) := by
  have htable := hs.table.congr hf.same.itable
  have hopen : t.Open ip i := (open_congr hf.same.itable).mpr hip
  have hfits : ((s.itable ip).copy.setAddr k 0).Fits := (hs.table.fits ip i hip).setAddr (by decide)
  refine ⟨⟨fun l hl => ?_, ?_, hf.same.dinode⟩, ho, hf.data, fun p hp => ?_, fun j h0 => ?_⟩
  · rw [itable_setCopy_of_ne hl, hf.same.itable]
  · rw [itable_setCopy_self, hf.same.itable]
    rfl
  · refine slot_congr (fun hlt => ?_) fun hlt htp hap => hf.data _ (hs.indirect_data hlt htp hap)
    rw [ino_setCopy htable hopen hfits, if_neg hp, hf.same.ino hs.table hlt]
  rw [itable_setCopy_self]
  by_cases hj : j < ndirect + 1
  · rw [addr_setAddr hj, h0, ite_self]
  exact addr_of_ge (by omega)

lemma Cleared.isOpen (h : Cleared sb ip i s s') (hip : s.Open ip i) : s'.Open ip i :=
  h.kept.open_iff.mpr hip

lemma Cleared.type (h : Cleared sb ip i s s') (ht : (s.itable ip).copy.type ≠ 0) :
    (s'.itable ip).copy.type ≠ 0 := by
  rwa [h.kept.type]

lemma wp_itruncDirect (ok : sb.Ok) (ks : List Nat) (hks : ∀ k ∈ ks, k < ndirect) :
    ∀ s, Owned sb s [] → s.Open ip i → (s.itable ip).copy.type ≠ 0 →
      wp (itruncDirect sb ip ks) s (fun _ t => Cleared sb ip i s t ∧
        ∀ k ∈ ks, (t.itable ip).copy.addr k = 0) E := by
  induction ks with
  | nil =>
    intro s h hip ht
    rw [itruncDirect, wp_pure]
    exact ⟨.refl h, fun k hk => by cases hk⟩
  | cons k ks ih =>
    intro s h hip ht
    have ih := ih fun l hl => hks l (mem_cons_of_mem k hl)
    have hk := hks k mem_cons_self
    rw [itruncDirect, wp_bind, wp_inode]
    refine wp_ite (fun h0 => ?_) fun h0 => ?_
    · refine wp_imp (ih s h hip ht) fun _ t hc => ⟨hc.1, fun l hl => ?_⟩
      rcases mem_cons.mp hl with rfl | hl
      · exact hc.1.zero l h0
      exact hc.2 l hl
    refine wp_bind_of (wp_bfree_spare ok (h.clearAddr hip ht hk h0)) fun _ t hf => ?_
    rw [wp_bind, wp_setAddr, hf.2.same.itable]
    have hc := hf.2.cleared h hip hf.1
    refine wp_imp (ih _ hc.owned (hc.isOpen hip) (hc.type ht)) fun _ u hu =>
      ⟨hc.trans hu.1, fun l hl => ?_⟩
    rcases mem_cons.mp hl with rfl | hl
    · refine hu.1.zero l ?_
      rw [itable_setCopy_self, addr_setAddr (by omega), if_pos rfl]
    exact hu.2 l hl

lemma wp_itruncIndirect (ok : sb.Ok) (h : Owned sb s []) (hip : s.Open ip i)
    (ht : (s.itable ip).copy.type ≠ 0) :
    wp (itruncIndirect sb ip) s (fun _ t => Cleared sb ip i s t ∧
      (t.itable ip).copy.addr ndirect = 0) E := by
  unfold itruncIndirect
  rw [wp_bind, wp_inode]
  refine wp_ite (fun h0 => wp_pure.mpr ?_) fun h0 => ?_
  · exact ⟨.refl h, h0⟩
  rw [wp_bind, wp_bread]
  refine wp_bind_of (wp_bfreeEntries ok _ s (h.clearIndirect hip ht h0)) fun _ t hf => ?_
  refine wp_bind_of (wp_bfree_spare ok hf.1) fun _ u hu => ?_
  have hfreed := hf.2.trans hu.2
  rw [wp_setAddr, hfreed.same.itable]
  refine ⟨hfreed.cleared h hip hu.1, ?_⟩
  rw [itable_setCopy_self, addr_setAddr (by omega), if_pos rfl]

structure Truncated (sb : Superblock) (ip : Fin ninode) (i : Nat) (s s' : State) : Prop where
  good : Good sb s'
  refs : SameRefs s s'
  ino : s'.ino sb i = { s.ino sb i with size := 0, addrs := fun _ => 0 }
  ino_other : ∀ j < sb.ninodes, j ≠ i → s'.ino sb j = s.ino sb j
  other : ∀ j ≠ i, ∀ o, s'.content sb j o = s.content sb j o
  slot_other : ∀ p : Nat × Nat, p.1 ≠ i → s'.slot sb p = s.slot sb p

lemma Cleared.busy (h : Good sb s) (hip : s.Open ip i) (hc : Cleared sb ip i s t) :
    Busy sb ip i t := by
  refine ⟨hc.owned, hc.isOpen hip, fun k j hk => ?_, fun k j hk hkp => ?_,
    fun j hj hji ht o ho => ?_⟩
  · by_cases hkp : k = ip
    · rw [hkp]
      exact hc.type (h.typed ip i hip)
    rw [hc.kept.other k hkp]
    exact h.typed k j (hc.kept.open_iff.mp hk)
  · have hk := hc.kept.open_iff.mp hk
    rw [hc.kept.other k hkp, h.synced k j hk, hc.kept.dinode j (h.owned.table.lt k j hk)]
  rw [hc.kept.ino_other h.owned.table hc.owned.table hip hj hji] at ht ho
  rw [hc.slot _ hji]
  exact h.full j hj ht o ho

lemma Cleared.finish (ok : sb.Ok) (h : Good sb s) (hip : s.Open ip i) (hc : Cleared sb ip i s t)
    (hzero : ∀ k ≤ ndirect, (t.itable ip).copy.addr k = 0) :
    Truncated sb ip i s (t.put sb ip { (t.itable ip).copy with size := 0 }) := by
  have hbusy := hc.busy h hip
  have hf := hc.owned.table.fits ip i hbusy.isOpen
  have hfits : ({ (t.itable ip).copy with size := 0 } : Dinode).Fits :=
    ⟨hf.type, hf.major, hf.minor, hf.nlink, Nat.two_pow_pos 32, hf.addrs⟩
  have htype := hbusy.typed ip i hbusy.isOpen
  have haddrs : (t.itable ip).copy.addrs = fun _ => 0 := by
    funext k
    have hk := hzero k.val (Nat.le_of_lt_succ k.isLt)
    rwa [Dinode.addr, dif_pos k.isLt] at hk
  have hino : ∀ j, (t.put sb ip { (t.itable ip).copy with size := 0 }).ino sb j =
      if j = i then { (t.itable ip).copy with size := 0 } else t.ino sb j := fun _ =>
    ino_put hc.owned.table hbusy.isOpen hfits
  refine ⟨hbusy.put ok hfits rfl htype (fun o ho => absurd ho (Nat.not_lt_zero o)),
    hc.kept.sameRefs.trans sameRefs_put, ?_, fun j hj hji => ?_, fun j hj o => ?_, fun p hp => ?_⟩
  · rw [hino, if_pos rfl, ino_of_open h.owned.table hip]
    dsimp only
    rw [haddrs, hc.kept.self]
  · rw [hino, if_neg hji, hc.kept.ino_other h.owned.table hc.owned.table hip hj hji]
  · rw [content_put ok hc.owned hbusy.isOpen hfits rfl Iff.rfl]
    unfold State.content
    rw [hc.slot _ hj]
    by_cases h0 : s.slot sb (j, fileSlot (o / bsize)) = 0
    · rw [if_pos h0, if_pos h0]
    rw [if_neg h0, if_neg h0, hc.data _ (h.owned.ledger.slot_area _ h0)]
  rw [slot_put ok hc.owned hbusy.isOpen hfits rfl Iff.rfl, hc.slot p hp]

lemma wp_itrunc (ok : sb.Ok) (h : Good sb s) (hip : s.Open ip i) :
    wp (itrunc sb ip) s (fun _ t => Truncated sb ip i s t) E := by
  have ht := h.typed ip i hip
  unfold itrunc
  refine wp_bind_of (wp_itruncDirect ok _ (fun k hk => mem_range.mp hk) s h.owned hip ht)
    fun _ t hc => ?_
  refine wp_bind_of (wp_itruncIndirect ok hc.1.owned (hc.1.isOpen hip) (hc.1.type ht))
    fun _ u hu => ?_
  simp only [wp_bind, wp_inode, wp_setInode, wp_iupdate]
  refine (hc.1.trans hu.1).finish ok h hip fun k hk => ?_
  rcases Nat.lt_or_eq_of_le hk with hk | hk
  · exact hu.1.zero k (hc.2 k (mem_range.mpr hk))
  rw [hk]
  exact hu.2
end Xv6.Fs
