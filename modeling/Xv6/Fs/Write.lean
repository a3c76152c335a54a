import Xv6.Fs.Good
import Xv6.Fs.Map

namespace Xv6.Fs
open State Lib Finset
variable {sb : Superblock} {s s' t : State} {ip : Fin ninode} {E : Panic → Prop} {i b bn : Nat}
  {spare : List Nat} {k : Nat} {v : Block}

lemma block_eq_slot (h : Owned sb s spare) (hip : s.Open ip i) (ht : (s.itable ip).copy.type ≠ 0)
    (hbn : bn < maxfile) : s.block ip bn = s.slot sb (i, fileSlot bn) := by
  rw [slot_of_lt (h.table.lt ip i hip) (fileSlot_lt hbn) (h.type_ino hip ht),
    ino_of_open h.table hip]
  rfl

lemma Owned.leaf (h : Owned sb s spare) {p : Nat × Nat} (hp : p.2 ≠ ndirect)
    (hb : s.slot sb p ≠ 0) (j : Nat) (hj : j < sb.ninodes) (ht : (s.ino sb j).type ≠ 0) :
    (s.ino sb j).addr ndirect ≠ s.slot sb p := by
  intro e
  have hslot : s.slot sb (j, ndirect) = (s.ino sb j).addr ndirect :=
    (slot_of_lt hj (by decide) ht).trans (Dinode.slot_direct le_rfl)
  have hpair := h.ledger.inj p (j, ndirect) hb (e.symm.trans hslot.symm)
  exact hp (congrArg Prod.snd hpair)

structure Kept (sb : Superblock) (ip : Fin ninode) (s s' : State) : Prop where
  other : ∀ k ≠ ip, s'.itable k = s.itable k
  self : s'.itable ip = { s.itable ip with
    copy := { (s.itable ip).copy with addrs := (s'.itable ip).copy.addrs } }
  dinode : ∀ i < sb.ninodes, sb.dinode s'.disk i = sb.dinode s.disk i

lemma Kept.refl : Kept sb ip s s := ⟨fun _ _ => rfl, rfl, fun _ _ => rfl⟩

lemma Kept.trans (h : Kept sb ip s t) (h' : Kept sb ip t s') : Kept sb ip s s' := by
  refine ⟨fun k hk => (h'.other k hk).trans (h.other k hk), ?_,
    fun i hi => (h'.dinode i hi).trans (h.dinode i hi)⟩
  have hself := h'.self
  rwa [h.self] at hself

lemma Kept.of_same (h : SameInodes sb s s') : Kept sb ip s s' :=
  ⟨fun k _ => by rw [h.itable], by rw [h.itable], h.dinode⟩

lemma Kept.open_iff (h : Kept sb ip s s') {k : Fin ninode} : s'.Open k i ↔ s.Open k i := by
  unfold State.Open
  by_cases hk : k = ip
  · rw [hk, h.self]
  rw [h.other k hk]

lemma Kept.type (h : Kept sb ip s s') : (s'.itable ip).copy.type = (s.itable ip).copy.type := by
  rw [h.self]

structure Grew (sb : Superblock) (ip : Fin ninode) (i k : Nat) (s s' : State) : Prop where
  kept : Kept sb ip s s'
  owned : Owned sb s' []
  empty : s.slot sb (i, k) = 0
  filled : s'.slot sb (i, k) ≠ 0
  slot_ne : ∀ p ≠ (i, k), s'.slot sb p = s.slot sb p
  taken : ∃ b < sb.size, sb.bit s.disk b = false ∧
    ∀ c < sb.size, sb.bit s'.disk c = (decide (c = b) || sb.bit s.disk c)
  data : ∀ p, p.2 ≠ ndirect → s.slot sb p ≠ 0 → s'.disk (s.slot sb p) = s.disk (s.slot sb p)
  fresh : ∀ p, p.2 ≠ ndirect → s.slot sb p = 0 → s'.slot sb p ≠ 0 → s'.disk (s'.slot sb p) = .zero

section
variable (ok : sb.Ok) (h : Owned sb s []) (hip : s.Open ip i) (ht : (s.itable ip).copy.type ≠ 0)
include ok h hip ht

lemma Owned.grow_addr (hk : k ≤ ndirect) (h0 : (s.itable ip).copy.addr k = 0) (hb : b < sb.size)
    (hfree : sb.bit s.disk b = false) :
    Grew sb ip i k s ((s.alloc sb b).setCopy ip ((s.itable ip).copy.setAddr k b)) := by
  have hdata := h.inData_of_free hb hfree
  have halloc := h.alloc ok hb hfree
  have hsame := sameInodes_alloc (s := s) ok hdata
  have hzero : k = ndirect → (s.alloc sb b).disk b = .zero := fun _ => disk_alloc_self
  have hun : b ∉ (s.alloc sb b).unlogged := fun hmem => by simpa using (List.mem_filter.mp hmem).2
  have hslot : ∀ p, ((s.alloc sb b).setCopy ip ((s.itable ip).copy.setAddr k b)).slot sb p =
      if p = (i, k) then b else s.slot sb p := fun p => by
    rw [← slot_alloc ok h hdata hfree]
    exact slot_setAddr halloc hip ht hk (fun e => ⟨h0, hzero e⟩) (ok.lt_two_pow hdata) p
  have hempty : s.slot sb (i, k) = 0 := by
    rw [slot_of_lt (h.table.lt ip i hip) (lt_of_le_of_lt hk (by decide)) (h.type_ino hip ht),
      Dinode.slot_direct hk, ino_of_open h.table hip, h0]
  refine ⟨⟨fun l hl => itable_setCopy_of_ne hl, ?_, hsame.dinode⟩,
    halloc.putAddr ok hip ht hk h0 hzero hun, hempty, ?_, fun p hp => ?_,
    ⟨b, hb, hfree, fun c hc => bit_alloc ok hdata hc⟩, fun p _ hp => ?_, fun p _ hp hp' => ?_⟩
  · rw [itable_setCopy_self]
    rfl
  · rw [hslot, if_pos rfl]
    exact fun e => h.ledger.zero (e ▸ hdata)
  · rw [hslot, if_neg hp]
  · exact disk_alloc_of_ne ok hdata (h.ledger.slot_area p hp) (h.slot_ne_of_free hdata hfree p)
  rw [hslot] at hp' ⊢
  by_cases he : p = (i, k)
  · rw [if_pos he]
    exact disk_alloc_self
  rw [if_neg he] at hp'
  exact absurd hp hp'

lemma Owned.grow_word {j : Nat} (hj : j < nindirect) (ha : (s.itable ip).copy.addr ndirect ≠ 0)
    (h0 : (s.disk ((s.itable ip).copy.addr ndirect)).word j = 0) (hb : b < sb.size)
    (hfree : sb.bit s.disk b = false) :
    Grew sb ip i (ndirect + 1 + j) s ((s.alloc sb b).logWrite ((s.itable ip).copy.addr ndirect)
      ((s.disk ((s.itable ip).copy.addr ndirect)).setWord j b)) := by
  have hi := h.table.lt ip i hip
  have hti := h.type_ino hip ht
  have hdata := h.inData_of_free hb hfree
  have halloc := h.alloc ok hb hfree
  have hsame := sameInodes_alloc (s := s) ok hdata
  rw [← ino_of_open h.table hip] at ha h0 ⊢
  have hind := h.indirect_data hi hti ha
  have hne := h.indirect_ne_of_free hdata hfree hi hti
  have hino : (s.alloc sb b).ino sb i = s.ino sb i := hsame.ino h.table hi
  have hdisk : (s.alloc sb b).disk ((s.ino sb i).addr ndirect) =
      s.disk ((s.ino sb i).addr ndirect) := disk_alloc_of_ne ok hdata hind hne
  rw [← hino] at ha hti hdisk h0 hind ⊢
  rw [← hdisk] at h0 ⊢
  have hslot : ∀ p, ((s.alloc sb b).logWrite (((s.alloc sb b).ino sb i).addr ndirect)
      (((s.alloc sb b).disk (((s.alloc sb b).ino sb i).addr ndirect)).setWord j b)).slot sb p =
      if p = (i, ndirect + 1 + j) then b else s.slot sb p := fun p => by
    rw [← slot_alloc ok h hdata hfree]
    exact slot_setWord ok halloc hi hti ha hj (ok.lt_two_pow hdata) p
  have hempty : s.slot sb (i, ndirect + 1 + j) = 0 := by
    rw [← slot_alloc ok h hdata hfree, slot_of_lt hi (Nat.add_lt_add_left hj _) hti,
      Dinode.slot_entry (by omega) ha, Nat.add_sub_cancel_left, h0]
  refine ⟨Kept.of_same (hsame.trans (sameInodes_logWrite fun _ hl => ok.iblock_ne_data hl hind)),
    halloc.putWord ok hi hti ha hj h0, hempty, ?_, fun p hp => ?_, ⟨b, hb, hfree, fun c hc => ?_⟩,
    fun p hp2 hp => ?_, fun p hp2 hp hp' => ?_⟩
  · rw [hslot, if_pos rfl]
    exact fun e => h.ledger.zero (e ▸ hdata)
  · rw [hslot, if_neg hp]
  · rw [bit_logWrite_data ok hind hc, bit_alloc ok hdata hc]
  · have hleaf := h.leaf hp2 hp i hi (hino ▸ hti)
    rw [disk_logWrite_of_ne (by rw [hino]; exact hleaf.symm)]
    exact disk_alloc_of_ne ok hdata (h.ledger.slot_area p hp) (h.slot_ne_of_free hdata hfree p)
  rw [hslot] at hp' ⊢
  by_cases he : p = (i, ndirect + 1 + j)
  · rw [if_pos he, disk_logWrite_of_ne (by rw [hino]; exact hne.symm)]
    exact disk_alloc_self
  rw [if_neg he] at hp'
  exact absurd hp hp'

lemma Grow.spec (hg : Grow sb ip s k s') : Grew sb ip i k s s' := by
  cases hg with
  | addr k b hk h0 hb hfree => exact h.grow_addr ok hip ht hk h0 hb hfree
  | word j b hj ha h0 hb hfree => exact h.grow_word ok hip ht hj ha h0 hb hfree
end

lemma Grew.slot (h : Grew sb ip i k s s') (p : Nat × Nat)
    (hp : s.slot sb p ≠ 0 ∨ p.1 ≠ i) : s'.slot sb p = s.slot sb p := by
  refine h.slot_ne p ?_
  rintro rfl
  exact hp.elim (fun hne => hne h.empty) fun hne => hne rfl

lemma Grew.content (h : Grew sb ip i k s s') (j o : Nat) :
    s'.content sb j o = s.content sb j o := by
  unfold State.content
  generalize hp : (j, fileSlot (o / bsize)) = p
  have hp2 : p.2 ≠ ndirect := by
    rw [← hp]
    exact fileSlot_ne
  by_cases h0 : s.slot sb p = 0
  · rw [if_pos h0]
    by_cases h1 : s'.slot sb p = 0
    · rw [if_pos h1]
    rw [if_neg h1, h.fresh p hp2 h0 h1, Block.byte_zero]
  rw [h.slot p (.inl h0), if_neg h0, if_neg h0, h.data p hp2 h0]

lemma content_data (ok : sb.Ok) (h : Owned sb s spare)
    (hd : DataStep sb s s' (s.slot sb (i, fileSlot bn)))
    (hv : s'.disk (s.slot sb (i, fileSlot bn)) = v) (h0 : s.slot sb (i, fileSlot bn) ≠ 0)
      (j o : Nat) :
    s'.content sb j o =
      if j = i ∧ o / bsize = bn then v.byte (o % bsize) else s.content sb j o := by
  unfold State.content
  rw [hd.slot ok h]
  by_cases hji : j = i ∧ o / bsize = bn
  · rw [if_pos hji, hji.1, hji.2, if_neg h0, hv]
  rw [if_neg hji]
  by_cases hz : s.slot sb (j, fileSlot (o / bsize)) = 0
  · rw [if_pos hz, if_pos hz]
  have hne : s.slot sb (j, fileSlot (o / bsize)) ≠ s.slot sb (i, fileSlot bn) := fun e => by
    have hpair := h.ledger.inj _ _ hz e
    rw [Prod.mk.injEq] at hpair
    exact hji ⟨hpair.1, fileSlot_inj hpair.2⟩
  rw [if_neg hz, if_neg hz, hd.disk _ hne]

lemma byte_fill {off len k : Nat} {f : Nat → UInt8} (hk : k < bsize) :
    (fill v off len f).byte k = if off ≤ k ∧ k < off + len then f (k - off) else v.byte k :=
  Block.byte_ofBytes hk

structure Writing (sb : Superblock) (ip : Fin ninode) (i : Nat) (src : Nat → Option UInt8)
    (off : Nat) (s0 : State) (tot stop : Nat) (t : State) : Prop where
  kept : Kept sb ip s0 t
  owned : Owned sb t []
  slot : ∀ p, s0.slot sb p ≠ 0 ∨ p.1 ≠ i → t.slot sb p = s0.slot sb p
  mapped : ∀ o, off ≤ o → o < off + tot →
    o / bsize < maxfile ∧ t.slot sb (i, fileSlot (o / bsize)) ≠ 0
  other : ∀ j ≠ i, ∀ o, t.content sb j o = s0.content sb j o
  written : ∀ o, off ≤ o → o < off + tot → t.content sb i o = (src (o - off)).getD 0
  unwritten : ∀ o, o < off ∨ stop ≤ o → t.content sb i o = s0.content sb i o

section
variable {src : Nat → Option UInt8} {off tot stop m : Nat} {s0 : State} {len : Nat}

lemma writing_start (h : Owned sb s []) : Writing sb ip i src off s 0 off s where
  kept := .refl
  owned := h
  slot := fun _ _ => rfl
  mapped := fun o h1 h2 => by omega
  other := fun _ _ _ => rfl
  written := fun o h1 h2 => by omega
  unwritten := fun _ _ => rfl

lemma Writing.grew (ok : sb.Ok) (hip : s0.Open ip i)
    (ht : (s0.itable ip).copy.type ≠ 0) (h : Writing sb ip i src off s0 tot stop t)
    (hg : Grow sb ip t k s') : Grew sb ip i k t s' :=
  hg.spec ok h.owned (h.kept.open_iff.mpr hip) (by rwa [h.kept.type])

lemma Writing.grow (h : Writing sb ip i src off s0 tot stop t)
    (hg : Grew sb ip i k t s') : Writing sb ip i src off s0 tot stop s' := by
  refine ⟨h.kept.trans hg.kept, hg.owned, fun p hp => ?_, fun o h1 h2 => ?_, fun j hj o => ?_,
    fun o h1 h2 => ?_, fun o ho => ?_⟩
  · have hs := h.slot p hp
    rw [← hs]
    apply hg.slot
    rwa [hs]
  · obtain ⟨hlt, hne⟩ := h.mapped o h1 h2
    rw [hg.slot _ (.inl hne)]
    exact ⟨hlt, hne⟩
  · rw [hg.content, h.other j hj]
  · rw [hg.content, h.written o h1 h2]
  rw [hg.content, h.unwritten o ho]

section
variable (h : Owned sb t []) (hb : t.slot sb (i, fileSlot bn) ≠ 0)
include h hb

lemma Owned.dataStep (hitable : s'.itable = t.itable)
    (hdisk : ∀ c ≠ t.slot sb (i, fileSlot bn), s'.disk c = t.disk c)
    (hun : ∀ c ∈ s'.unlogged, c ∈ t.unlogged ∨ c = t.slot sb (i, fileSlot bn)) :
    DataStep sb t s' (t.slot sb (i, fileSlot bn)) :=
  ⟨h.ledger.slot_area _ hb, h.leaf fileSlot_ne hb, hitable, hdisk, hun⟩

lemma Owned.dataStep_logWrite (v : Block) :
    DataStep sb t (t.logWrite (t.slot sb (i, fileSlot bn)) v) (t.slot sb (i, fileSlot bn)) :=
  h.dataStep hb rfl (fun _ hc => disk_logWrite_of_ne hc)
    (fun _ hc => .inl (mem_unlogged_logWrite hc))

lemma Owned.dataStep_scribble (v : Block) :
    DataStep sb t (t.scribble (t.slot sb (i, fileSlot bn)) v) (t.slot sb (i, fileSlot bn)) :=
  h.dataStep hb rfl (fun _ hc => disk_scribble_of_ne hc) fun _ hc => (List.mem_cons.mp hc).symm
end

lemma content_round (ok : sb.Ok) (h : Owned sb t [])
    (hb : t.slot sb (i, fileSlot ((off + tot) / bsize)) ≠ 0)
    (hfit : (off + tot) % bsize + len ≤ bsize)
    (hd : DataStep sb t s' (t.slot sb (i, fileSlot ((off + tot) / bsize))))
    (hv : s'.disk (t.slot sb (i, fileSlot ((off + tot) / bsize))) =
      t.fillAt src (t.slot sb (i, fileSlot ((off + tot) / bsize))) (off + tot) tot len)
        (j o : Nat) :
    s'.content sb j o = if j = i ∧ off + tot ≤ o ∧ o < off + tot + len then (src (o - off)).getD 0
      else t.content sb j o := by
  rw [content_data ok h hd hv hb]
  by_cases ho : j = i ∧ o / bsize = (off + tot) / bsize
  · obtain ⟨rfl, ho⟩ := ho
    have hlt : o % bsize < bsize := Nat.mod_lt _ (by decide)
    have hiff : (off + tot) % bsize ≤ o % bsize ∧ o % bsize < (off + tot) % bsize + len ↔
        off + tot ≤ o ∧ o < off + tot + len := by
      rw [bsize_eq] at *
      omega
    rw [if_pos ⟨rfl, ho⟩, State.fillAt, byte_fill hlt]
    by_cases hin : off + tot ≤ o ∧ o < off + tot + len
    · rw [if_pos (hiff.mpr hin), if_pos ⟨rfl, hin⟩]
      congr 2
      rw [bsize_eq] at *
      omega
    rw [if_neg (fun h => hin (hiff.mp h)), if_neg (fun h => hin h.2), State.content, ho,
      if_neg hb]
  have hout : ¬(j = i ∧ off + tot ≤ o ∧ o < off + tot + len) := by
    rintro ⟨hj, h1, h2⟩
    refine ho ⟨hj, ?_⟩
    rw [bsize_eq] at *
    omega
  rw [if_neg ho, if_neg hout]

lemma Writing.round (ok : sb.Ok) (h : Writing sb ip i src off s0 tot (off + tot) t)
    (hbn : (off + tot) / bsize < maxfile) (hb : t.slot sb (i, fileSlot ((off + tot) / bsize)) ≠ 0)
    (hfit : (off + tot) % bsize + len ≤ bsize) (hm : m ≤ len)
    (hd : DataStep sb t s' (t.slot sb (i, fileSlot ((off + tot) / bsize))))
    (hv : s'.disk (t.slot sb (i, fileSlot ((off + tot) / bsize))) =
      t.fillAt src (t.slot sb (i, fileSlot ((off + tot) / bsize))) (off + tot) tot len) :
    Writing sb ip i src off s0 (tot + m) (off + tot + len) s' := by
  have hcontent := content_round ok h.owned hb hfit hd hv
  refine ⟨h.kept.trans (.of_same (hd.same ok)), h.owned.data ok hd, fun p hp => ?_,
    fun o h1 h2 => ?_,
    fun j hj o => ?_, fun o h1 h2 => ?_, fun o ho => ?_⟩
  · rw [hd.slot ok h.owned, h.slot p hp]
  · rw [hd.slot ok h.owned]
    by_cases hold : o < off + tot
    · exact h.mapped o h1 hold
    have he : o / bsize = (off + tot) / bsize := by
      rw [bsize_eq] at *
      omega
    rw [he]
    exact ⟨hbn, hb⟩
  · rw [hcontent, if_neg (fun e => hj e.1), h.other j hj]
  · rw [hcontent]
    by_cases hin : off + tot ≤ o
    · rw [if_pos ⟨rfl, hin, by omega⟩]
    rw [if_neg (fun e => hin e.2.1)]
    exact h.written o h1 (by omega)
  rw [hcontent, if_neg (by omega)]
  exact h.unwritten o (by omega)
end

lemma Kept.sameRefs (h : Kept sb ip s s') : SameRefs s s' := by
  intro k
  by_cases hk : k = ip
  · rw [hk, h.self]
    exact ⟨rfl, rfl, rfl⟩
  rw [h.other k hk]
  exact ⟨rfl, rfl, rfl⟩

lemma Kept.ino_other (h : Kept sb ip s s') (ht : Table s sb) (ht' : Table s' sb)
    (hip : s.Open ip i) {j : Nat} (hj : j < sb.ninodes) (hji : j ≠ i) :
    s'.ino sb j = s.ino sb j := by
  refine ino_congr ht ht' (fun _ => h.open_iff) (fun k hk => ?_) fun _ => h.dinode j hj
  have hkp : k ≠ ip := fun e => hji (by rw [e] at hk; exact hk.2.2.symm.trans hip.2.2)
  rw [h.other k hkp]

structure Wrote (sb : Superblock) (i : Nat) (src : Nat → Option UInt8) (off tot stop : Nat)
    (s s' : State) : Prop where
  good : Good sb s'
  refs : SameRefs s s'
  ino : s'.ino sb i = { s.ino sb i with
    size := max (s.ino sb i).size (off + tot), addrs := (s'.ino sb i).addrs }
  ino_other : ∀ j < sb.ninodes, j ≠ i → s'.ino sb j = s.ino sb j
  other : ∀ j ≠ i, ∀ o, s'.content sb j o = s.content sb j o
  written : ∀ o, off ≤ o → o < off + tot → s'.content sb i o = (src (o - off)).getD 0
  unwritten : ∀ o, o < off ∨ stop ≤ o → s'.content sb i o = s.content sb i o
  slot : ∀ p, s.slot sb p ≠ 0 ∨ p.1 ≠ i → s'.slot sb p = s.slot sb p

section
variable {src : Nat → Option UInt8} {off tot stop n : Nat} {k : Nat}

section
variable (h : Good sb s) (hip : s.Open ip i) (hw : Writing sb ip i src off s tot stop t)
include h hip hw

lemma Writing.busy : Busy sb ip i t := by
  refine ⟨hw.owned, hw.kept.open_iff.mpr hip, fun k j hk => ?_, fun k j hk hkp => ?_,
    fun j hj hji ht o ho => ?_⟩
  · by_cases hkp : k = ip
    · rw [hkp, hw.kept.type]
      exact h.typed ip i hip
    rw [hw.kept.other k hkp]
    exact h.typed k j (hw.kept.open_iff.mp hk)
  · have hk := hw.kept.open_iff.mp hk
    rw [hw.kept.other k hkp, h.synced k j hk, hw.kept.dinode j (h.owned.table.lt k j hk)]
  rw [hw.kept.ino_other h.owned.table hw.owned.table hip hj hji] at ht ho
  obtain ⟨hlt, hne⟩ := h.full j hj ht o ho
  rw [hw.slot _ (.inl hne)]
  exact ⟨hlt, hne⟩

lemma Writing.fits (hbound : off + tot ≤ maxfile * bsize) :
    Dinode.Fits { (t.itable ip).copy with size := max (s.itable ip).copy.size (off + tot) } := by
  have hf := hw.owned.table.fits ip i (hw.busy h hip).isOpen
  have hs := (h.owned.table.fits ip i hip).size
  have hb : maxfile * bsize < 2 ^ 32 := by decide
  exact ⟨hf.type, hf.major, hf.minor, hf.nlink, max_lt hs (by omega), hf.addrs⟩
end

lemma Writing.finish (ok : sb.Ok) (h : Good sb s) (hip : s.Open ip i)
    (hw : Writing sb ip i src off s tot stop t) (hbound : off + tot ≤ maxfile * bsize)
    (hoff : off ≤ (s.itable ip).copy.size) :
    Wrote sb i src off tot stop s (t.put sb ip
      { (t.itable ip).copy with size := max (s.itable ip).copy.size (off + tot) }) := by
  have hbusy := hw.busy h hip
  have hsino := ino_of_open h.owned.table hip
  have hi := h.owned.table.lt ip i hip
  have hfits := hw.fits h hip hbound
  generalize hx : ({ (t.itable ip).copy with
    size := max (s.itable ip).copy.size (off + tot) } : Dinode) = x at hfits ⊢
  have hxaddrs : x.addrs = (t.itable ip).copy.addrs := by rw [← hx]
  have htype : x.type ≠ 0 := by
    rw [← hx]
    exact hbusy.typed ip i hbusy.isOpen
  have hiff : x.type = 0 ↔ (t.itable ip).copy.type = 0 :=
    iff_of_false htype (hbusy.typed ip i hbusy.isOpen)
  have hfull : t.Full sb i x.size := by
    intro o ho
    rw [← hx] at ho
    by_cases hold : o < (s.itable ip).copy.size
    · have hf := h.full i hi (by rw [hsino]; exact h.typed ip i hip) o (by rwa [hsino])
      rwa [hw.slot _ (.inl hf.2)]
    have hlt := (lt_max_iff.mp ho).resolve_left hold
    exact hw.mapped o (by omega) hlt
  have hcontent := content_put ok hw.owned hbusy.isOpen hfits hxaddrs hiff
  have hino : ∀ j, (t.put sb ip x).ino sb j = if j = i then x else t.ino sb j := fun _ =>
    ino_put hw.owned.table hbusy.isOpen hfits
  refine ⟨hbusy.put ok hfits hxaddrs htype hfull, hw.kept.sameRefs.trans sameRefs_put, ?_,
    fun j hj hji => ?_, fun j hj o => ?_, fun o h1 h2 => ?_, fun o ho => ?_, fun p hp => ?_⟩
  · rw [hino, if_pos rfl, hsino, ← hx, hw.kept.self]
  · rw [hino, if_neg hji, hw.kept.ino_other h.owned.table hw.owned.table hip hj hji]
  · rw [hcontent, hw.other j hj]
  · rw [hcontent, hw.written o h1 h2]
  · rw [hcontent, hw.unwritten o ho]
  rw [slot_put ok hw.owned hbusy.isOpen hfits hxaddrs hiff, hw.slot p hp]

lemma Wrote.stop_le {stop' : Nat} (h : Wrote sb i src off tot stop s s') (hle : stop ≤ stop') :
    Wrote sb i src off tot stop' s s' :=
  ⟨h.good, h.refs, h.ino, h.ino_other, h.other, h.written,
    fun o ho => h.unwritten o (ho.imp_right hle.trans), h.slot⟩

def Superblock.nfree (sb : Superblock) (d : Disk) : Nat :=
  ((range sb.size).filter fun b => sb.bit d b = false).card

def spanBlocks (off n : Nat) : Finset Nat :=
  (range maxfile).filter fun bn => 0 < n ∧ off < (bn + 1) * bsize ∧ bn * bsize < off + n

def span (off n : Nat) : Finset Nat :=
  (spanBlocks off n).image fileSlot ∪
    if ∃ bn ∈ spanBlocks off n, ndirect ≤ bn then {ndirect} else ∅

def State.need (s : State) (sb : Superblock) (i off n : Nat) : Nat :=
  ((span off n).filter fun k => s.slot sb (i, k) = 0).card

lemma mem_spanBlocks (h : tot < n) (hbn : (off + tot) / bsize < maxfile) :
    (off + tot) / bsize ∈ spanBlocks off n := by
  rw [spanBlocks, mem_filter, mem_range]
  rw [bsize_eq] at *
  exact ⟨hbn, by omega, by omega, by omega⟩

lemma mem_span (h : bn ∈ spanBlocks off n) (hk : Uses bn k) : k ∈ span off n := by
  rw [span, mem_union]
  rcases hk with rfl | ⟨hge, rfl⟩
  · exact .inl (mem_image_of_mem _ h)
  refine .inr ?_
  rw [if_pos ⟨bn, h, hge⟩, mem_singleton]

lemma Grew.need_erase (h : Grew sb ip i k t s') (f : Nat) :
    s'.need sb i off f = (((span off f).filter fun j => t.slot sb (i, j) = 0).erase k).card := by
  rw [State.need]
  congr 1
  ext j
  rw [mem_erase, mem_filter, mem_filter]
  by_cases hj : j = k
  · simp [hj, h.filled]
  have hne : (i, j) ≠ (i, k) := fun e => hj (congrArg Prod.snd e)
  rw [h.slot_ne _ hne]
  simp [hj]

lemma Grew.nfree (h : Grew sb ip i k t s') : sb.nfree s'.disk + 1 = sb.nfree t.disk := by
  obtain ⟨b, hb, hfree, hbits⟩ := h.taken
  have hfreed : ((range sb.size).filter fun c => sb.bit s'.disk c = false) =
      ((range sb.size).filter fun c => sb.bit t.disk c = false).erase b := by
    ext c
    rw [mem_erase, mem_filter, mem_filter, mem_range]
    by_cases hc : c < sb.size
    · rw [hbits c hc]
      simp [hc]
    simp [hc]
  rw [Superblock.nfree, hfreed]
  exact card_erase_add_one (mem_filter.mpr ⟨mem_range.mpr hb, hfree⟩)

lemma Grew.need_le (h : Grew sb ip i k t s') (f : Nat) :
    t.need sb i off f ≤ s'.need sb i off f + 1 := by
  rw [h.need_erase, ← Nat.sub_le_iff_le_add]
  exact pred_card_le_card_erase

lemma Grew.room (h : Grew sb ip i k t s') (hk : k ∈ span off n)
    (hroom : t.need sb i off n ≤ sb.nfree t.disk) : s'.need sb i off n ≤ sb.nfree s'.disk := by
  have hneed : s'.need sb i off n + 1 = t.need sb i off n := by
    rw [h.need_erase]
    exact card_erase_add_one (mem_filter.mpr ⟨hk, h.empty⟩)
  have := h.nfree
  omega

section
variable (hd : DataStep sb t s' b) (ok : sb.Ok)
include hd ok

lemma DataStep.nfree : sb.nfree s'.disk = sb.nfree t.disk :=
  congrArg card (filter_congr fun c hc => by
    rw [Superblock.bit_congr (hd.disk _ (ok.bblock_ne_data (mem_range.mp hc) hd.inData))])

lemma DataStep.need (h : Owned sb t spare) (f : Nat) : s'.need sb i off f = t.need sb i off f :=
  congrArg card (filter_congr fun j _ => by rw [hd.slot ok h])
end

lemma slot_ne_of_exhausted (hroom : t.need sb i off n ≤ sb.nfree t.disk)
    (hfull : sb.Exhausted t.disk) (hk : k ∈ span off n) : t.slot sb (i, k) ≠ 0 := by
  have hnone : sb.nfree t.disk = 0 := by
    rw [Superblock.nfree, card_eq_zero, filter_eq_empty_iff]
    intro c hc
    rw [hfull c (mem_range.mp hc)]
    exact Bool.noConfusion
  intro h0
  have hpos : 0 < t.need sb i off n := card_pos.mpr ⟨k, mem_filter.mpr ⟨hk, h0⟩⟩
  omega

lemma slot_ndirect_ne (hk : ndirect < k) (hne : t.slot sb (i, k) ≠ 0) :
    t.slot sb (i, ndirect) ≠ 0 := by
  by_cases hc : i < sb.ninodes ∧ k < nslot ∧ (t.ino sb i).type ≠ 0
  · rw [slot_of_lt hc.1 hc.2.1 hc.2.2] at hne
    rw [slot_of_lt hc.1 (by decide) hc.2.2, Dinode.slot_direct le_rfl]
    exact fun h0 => hne (Dinode.slot_none hk h0)
  rw [State.slot, if_neg hc] at hne
  exact absurd rfl hne

lemma Writing.need_eq_zero (hw : Writing sb ip i src off s tot (off + tot) t) :
    t.need sb i off tot = 0 := by
  have hblock : ∀ bn ∈ spanBlocks off tot, t.slot sb (i, fileSlot bn) ≠ 0 := by
    intro bn hbn
    rw [spanBlocks, mem_filter] at hbn
    have hdiv : max off (bn * bsize) / bsize = bn := by
      rw [bsize_eq] at *
      omega
    have := (hw.mapped (max off (bn * bsize)) (by omega) (by omega)).2
    rwa [hdiv] at this
  rw [State.need, card_eq_zero, filter_eq_empty_iff]
  intro k hk
  rcases mem_union.mp hk with hk | hk
  · obtain ⟨bn, hbn, rfl⟩ := mem_image.mp hk
    exact hblock bn hbn
  by_cases hex : ∃ bn ∈ spanBlocks off tot, ndirect ≤ bn
  · obtain ⟨bn, hbn, hge⟩ := hex
    rw [if_pos ⟨bn, hbn, hge⟩, mem_singleton] at hk
    rw [hk]
    exact slot_ndirect_ne (by rw [fileSlot, if_neg (by omega)]; omega) (hblock bn hbn)
  rw [if_neg hex] at hk
  exact absurd hk (notMem_empty k)

lemma setCopy_self : s.setCopy ip (s.itable ip).copy = s := by
  show ({ s with itable := Function.update s.itable ip (s.itable ip) } : State) = s
  rw [Function.update_eq_self]

structure Progress (sb : Superblock) (ip : Fin ninode) (i : Nat) (src : Nat → Option UInt8)
    (off n : Nat) (s : State) (tot stop : Nat) (t : State) : Prop where
  writing : Writing sb ip i src off s tot stop t
  bound : tot = 0 ∨ tot = n ∨ (off + tot) % bsize = 0
  read : ∀ j < tot, (src j).isSome
  room : ∀ f, tot < f → s.need sb i off f ≤ sb.nfree s.disk → t.need sb i off f ≤ sb.nfree t.disk
  spent : ∀ f, s.need sb i off f + sb.nfree t.disk ≤ t.need sb i off f + sb.nfree s.disk

inductive Ends (sb : Superblock) (i : Nat) (src : Nat → Option UInt8) (off n tot : Nat)
    (t : State) :
    State → Prop
  | all (h : tot = n) : Ends sb i src off n tot t t
  | full (htot : tot < n) (h0 : t.slot sb (i, fileSlot ((off + tot) / bsize)) = 0)
      (hfull : sb.Exhausted t.disk) : Ends sb i src off n tot t t
  | failed (m : Nat) (htot : tot < n) (hm : m = min (n - tot) (bsize - (off + tot) % bsize))
      (hb : t.slot sb (i, fileSlot ((off + tot) / bsize)) ≠ 0) (hlen : copyable src tot m < m) :
    Ends sb i src off n tot t (t.scribble (t.slot sb (i, fileSlot ((off + tot) / bsize)))
      (t.fillAt src (t.slot sb (i, fileSlot ((off + tot) / bsize))) (off + tot) tot
        (copyable src tot m)))

lemma div_lt_maxfile (hbound : off + n ≤ maxfile * bsize) (htot : tot < n) :
    (off + tot) / bsize < maxfile := by
  rw [Nat.div_lt_iff_lt_mul (by decide)]
  omega

lemma round_fits {m : Nat} (hm : m = min (n - tot) (bsize - (off + tot) % bsize)) :
    (off + tot) % bsize + m ≤ bsize := by
  have : (off + tot) % bsize < bsize := Nat.mod_lt _ (by decide)
  omega

section Loop
variable {K : Nat → State → Prop} (ok : sb.Ok) (h : Good sb s) (hip : s.Open ip i) (hstart : K 0 s)
  (hgrow : ∀ tot k t t', tot < n → k ∈ span off n → Progress sb ip i src off n s tot (off + tot) t →
    K tot t → Grow sb ip t k t' → Grew sb ip i k t t' → K tot t')
  (hround : ∀ tot m t t', tot < n → m = min (n - tot) (bsize - (off + tot) % bsize) →
    fileSlot ((off + tot) / bsize) ∈ span off n →
    Progress sb ip i src off n s tot (off + tot) t → K tot t →
    t.slot sb (i, fileSlot ((off + tot) / bsize)) ≠ 0 →
    t' = t.logWrite (t.slot sb (i, fileSlot ((off + tot) / bsize)))
      (t.fillAt src (t.slot sb (i, fileSlot ((off + tot) / bsize))) (off + tot) tot m) →
    K (tot + m) t')
include ok h hip hstart hgrow hround

lemma wp_writeLoop_ends (hbound : off + n ≤ maxfile * bsize) :
    wp (writeLoop sb ip src n n 0 off) s (fun r t => ∃ t0,
      Progress sb ip i src off n s r.1 (off + r.1) t0 ∧ K r.1 t0 ∧ Ends sb i src off n r.1 t0 t ∧
      r.1 ≤ n ∧ r.2 = off + r.1) E := by
  have hblock : ∀ tot t, Writing sb ip i src off s tot (off + tot) t → tot < n →
      t.block ip ((off + tot) / bsize) = t.slot sb (i, fileSlot ((off + tot) / bsize)) := by
    intro tot t hw htot
    have hbusy := hw.busy h hip
    exact block_eq_slot hw.owned hbusy.isOpen (hbusy.typed ip i hbusy.isOpen)
      (div_lt_maxfile hbound htot)
  refine wp_imp (wp_writeLoop (I := fun tot t => Progress sb ip i src off n s tot (off + tot) t ∧
    K tot t)
    (J := fun tot t => ∃ t0, Progress sb ip i src off n s tot (off + tot) t0 ∧ K tot t0 ∧
      Ends sb i src off n tot t0 t) ok hbound
    ?_ ?_ ?_ ?_ ?_ ?_ n 0 s ⟨⟨writing_start h.owned, .inl rfl, fun _ hj => absurd hj (by omega),
      fun _ _ => id, fun _ => le_refl _⟩, hstart⟩ zero_le (by omega)) ?_
  · rintro tot k t t' htot hk ⟨hp, hK⟩ hg
    have hg' := hp.writing.grew ok hip (h.typed ip i hip) hg
    have hspan : ∀ f, tot < f → k ∈ span off f := fun f hf =>
      mem_span (mem_spanBlocks hf (div_lt_maxfile hbound htot)) hk
    refine ⟨⟨hp.writing.grow hg', hp.bound, hp.read,
      fun f hf hroom => hg'.room (hspan f hf) (hp.room f hf hroom), fun f => ?_⟩,
      hgrow tot k t t' htot (hspan n htot) hp hK hg hg'⟩
    have := hp.spent f
    have := hg'.nfree
    have : t.need sb i off f ≤ _ := hg'.need_le f
    omega
  · rintro tot t ⟨hp, -⟩
    exact hp.writing.owned.low 0 ok.dataStart_pos
  · rintro tot t m ⟨hp, hK⟩ htot hm hb hlen
    rw [hblock tot t hp.writing htot] at hb ⊢
    have hd := hp.writing.owned.dataStep_logWrite hb
      (t.fillAt src (t.slot sb (i, fileSlot ((off + tot) / bsize))) (off + tot) tot m)
    have hneed (f) : _ = t.need sb i off f := hd.need ok hp.writing.owned f
    refine ⟨⟨?_, ?_, fun j hj => ?_, fun f hf hroom => ?_, fun f => ?_⟩,
      hround tot m t _ htot hm (mem_span (mem_spanBlocks htot (div_lt_maxfile hbound htot))
        (.inl rfl))
        hp hK hb rfl⟩
    · rw [← add_assoc]
      exact hp.writing.round ok (div_lt_maxfile hbound htot) hb (round_fits hm) (le_refl m) hd
        disk_logWrite_self
    · rw [bsize_eq] at *
      omega
    · by_cases hlt : j < tot
      · exact hp.read j hlt
      obtain ⟨l, rfl⟩ := Nat.exists_eq_add_of_le (Nat.le_of_not_lt hlt)
      exact isSome_of_lt_copyable (m := m) (by omega)
    · rw [hneed, hd.nfree ok]
      exact hp.room f (by omega) hroom
    rw [hneed, hd.nfree ok]
    exact hp.spent f
  · rintro tot t m ⟨hp, hK⟩ htot hm hb hlen
    rw [hblock tot t hp.writing htot] at hb ⊢
    exact ⟨t, hp, hK, .failed m htot hm hb hlen⟩
  · rintro tot t ⟨hp, hK⟩ htot hb hfull
    rw [hblock tot t hp.writing htot] at hb
    exact ⟨t, hp, hK, .full htot hb hfull⟩
  · rintro t ⟨hp, hK⟩
    exact ⟨t, hp, hK, .all rfl⟩
  rintro r t ⟨⟨t0, hp, hK, he⟩, hle, hr⟩
  exact ⟨t0, hp, hK, he, hle, hr⟩

lemma wp_writei_ends : wp (writei sb ip src off n) s (fun r t =>
    r = -1 ∧ t = s ∧ ((s.ino sb i).size < off ∨ (off + n) % 2 ^ 32 < off ∨
      maxfile * bsize < off + n) ∨
    ∃ (tot : Nat) (t0 t1 : State), r = tot ∧ tot ≤ n ∧ off ≤ (s.ino sb i).size ∧
      off + n ≤ maxfile * bsize ∧ Progress sb ip i src off n s tot (off + tot) t0 ∧ K tot t0 ∧
      Ends sb i src off n tot t0 t1 ∧ t = t1.put sb ip
        { (t1.itable ip).copy with size := max (s.ino sb i).size (off + tot) }) E := by
  unfold writei
  rw [wp_bind, wp_inode, ← ino_of_open h.owned.table hip]
  by_cases hoff : off > (s.ino sb i).size ∨ (off + n) % 2 ^ 32 < off
  · rw [if_pos hoff, wp_pure]
    exact .inl ⟨rfl, rfl, hoff.elim .inl (fun h => .inr (.inl h))⟩
  by_cases hmax : off + n > maxfile * bsize
  · rw [if_neg hoff, if_pos hmax, wp_pure]
    exact .inl ⟨rfl, rfl, .inr (.inr hmax)⟩
  have hoff' : off ≤ (s.ino sb i).size := by omega
  have hmax' : off + n ≤ maxfile * bsize := Nat.le_of_not_lt hmax
  rw [if_neg hoff, if_neg hmax]
  refine wp_bind_of (wp_writeLoop_ends ok h hip hstart hgrow hround hmax') fun r t hr => ?_
  obtain ⟨t0, hp, hK, he, hle, hend⟩ := hr
  have hsize : (t.itable ip).copy.size = (s.ino sb i).size := by
    have hself : (t.itable ip).copy.size = (t0.itable ip).copy.size := by cases he <;> rfl
    rw [hself, hp.writing.kept.self, ino_of_open h.owned.table hip]
  rw [wp_bind, wp_inode, hend]
  by_cases hgt : off + r.1 > (t.itable ip).copy.size
  · simp only [hgt, if_true, wp_bind, wp_setInode, wp_iupdate, wp_pure]
    refine .inr ⟨r.1, t0, t, rfl, hle, hoff', hmax', hp, hK, he, ?_⟩
    rw [max_eq_right (by omega)]
    rfl
  simp only [hgt, if_false, wp_bind, wp_iupdate, wp_pure]
  refine .inr ⟨r.1, t0, t, rfl, hle, hoff', hmax', hp, hK, he, ?_⟩
  rw [max_eq_left (by omega), ← hsize, State.put, setCopy_self]
end Loop

structure Stopped (sb : Superblock) (ip : Fin ninode) (i : Nat) (src : Nat → Option UInt8)
    (off n : Nat) (s : State) (tot stop : Nat) (t : State) : Prop where
  writing : Writing sb ip i src off s tot stop t
  stop_le : stop ≤ off + n
  readable : (∀ k < n, (src k).isSome) →
    stop = off + tot ∧ (s.need sb i off n ≤ sb.nfree s.disk → tot = n)

lemma Progress.stopped {t1 : State} (ok : sb.Ok) (hbound : off + n ≤ maxfile * bsize)
    (hp : Progress sb ip i src off n s tot (off + tot) t) (he : Ends sb i src off n tot t t1) :
    ∃ stop, Stopped sb ip i src off n s tot stop t1 := by
  cases he with
  | all hn => exact ⟨off + tot, hp.writing, by omega, fun _ => ⟨rfl, fun _ => hn⟩⟩
  | full htot h0 hfull =>
    refine ⟨off + tot, hp.writing, by omega, fun _ => ⟨rfl, fun hroom => ?_⟩⟩
    exact absurd h0 (slot_ne_of_exhausted (hp.room n htot hroom) hfull
      (mem_span (mem_spanBlocks htot (div_lt_maxfile hbound htot)) (.inl rfl)))
  | failed m htot hm hb hlen =>
    have hfit := round_fits hm
    refine ⟨off + tot + copyable src tot m, ?_, by omega, fun hall => ?_⟩
    · exact hp.writing.round ok (div_lt_maxfile hbound htot) hb (by omega) zero_le
        (hp.writing.owned.dataStep_scribble hb _) disk_scribble_self
    rw [copyable_eq (fun i hi => hall i (by omega))] at hlen
    omega

lemma wp_writei (ok : sb.Ok) (h : Good sb s) (hip : s.Open ip i) :
    wp (writei sb ip src off n) s (fun r t =>
      r = -1 ∧ t = s ∧ ((s.ino sb i).size < off ∨ (off + n) % 2 ^ 32 < off ∨
        maxfile * bsize < off + n) ∨
      ∃ tot stop : Nat, r = tot ∧ tot ≤ n ∧ stop ≤ off + n ∧ ((∀ k, k < n → (src k).isSome = true) →
          stop = off + tot ∧ (s.need sb i off n ≤ sb.nfree s.disk → tot = n)) ∧
        (tot = 0 ∨ tot = n ∨ (off + tot) % bsize = 0) ∧ off ≤ (s.ino sb i).size ∧
        off + n ≤ maxfile * bsize ∧ Wrote sb i src off tot stop s t) E := by
  refine wp_imp (wp_writei_ends (K := fun _ _ => True) ok h hip trivial
    (fun _ _ _ _ _ _ _ _ _ _ => trivial) (fun _ _ _ _ _ _ _ _ _ _ _ => trivial)) (fun r t hr => ?_)
  rcases hr with hno | ⟨tot, t0, t1, rfl, hle, hoff, hmax, hp, -, he, rfl⟩
  · exact .inl hno
  obtain ⟨stop, hs⟩ := hp.stopped ok hmax he
  refine .inr ⟨tot, stop, rfl, hle, hs.stop_le, hs.readable, hp.bound, hoff, hmax, ?_⟩
  rw [ino_of_open h.owned.table hip] at hoff ⊢
  exact hs.writing.finish ok h hip (by omega) hoff
end

lemma wp_readi {dst : Nat → Option Unit} {off n : Nat} (h : Good sb s) (hip : s.Open ip i) :
    wp (readi sb ip dst off n) s (fun r t => t = s ∧ ((∀ k < n, (dst k).isSome) →
      off ≤ (s.ino sb i).size → off + n < 2 ^ 32 →
      r = (((min n ((s.ino sb i).size - off) : Nat) : Int),
        (List.range (min n ((s.ino sb i).size - off))).map fun k => s.content sb i (off + k)))) E :=
          by
  have hsino := ino_of_open h.owned.table hip
  have ht := h.typed ip i hip
  have hi := h.owned.table.lt ip i hip
  unfold readi
  rw [wp_bind, wp_inode]
  refine wp_ite (fun hoff => wp_pure.mpr ?_) fun hoff => ?_
  · refine ⟨rfl, fun _ hle hlt => ?_⟩
    rw [hsino] at hle
    rw [Nat.mod_eq_of_lt hlt] at hoff
    omega
  rw [hsino]
  have hn : (if off + n > (s.itable ip).copy.size then (s.itable ip).copy.size - off else n) =
      min n ((s.itable ip).copy.size - off) := by
    split <;> omega
  rw [hn]
  generalize hn' : min n ((s.itable ip).copy.size - off) = n'
  have hmap : ∀ o, off ≤ o → o < off + n' →
      o / bsize < maxfile ∧ s.block ip (o / bsize) = s.slot sb (i, fileSlot (o / bsize)) ∧
        s.slot sb (i, fileSlot (o / bsize)) ≠ 0 := by
    intro o _ ho
    obtain ⟨hlt, hne⟩ := h.full i hi (by rwa [hsino]) o (by rw [hsino]; omega)
    exact ⟨hlt, block_eq_slot h.owned hip ht hlt, hne⟩
  have hblock : ∀ o, off ≤ o → o < off + n' → o / bsize < maxfile ∧ s.block ip (o / bsize) ≠ 0 := by
    intro o h1 h2
    obtain ⟨hlt, he, hne⟩ := hmap o h1 h2
    exact ⟨hlt, by rwa [he]⟩
  refine wp_imp (wp_readLoop hblock n' 0 [] zero_le (by omega))
    fun r t hr => ⟨hr.1, fun hall _ _ => ?_⟩
  rw [hr.2 (fun k hk => hall k (by omega))]
  refine congrArg (Prod.mk _) (List.map_congr_left (fun k hk => ?_))
  have hkn := List.mem_range.mp hk
  obtain ⟨-, he, hne⟩ := hmap (off + k) (by omega) (by omega)
  rw [State.byte, State.content, add_zero, he, if_neg hne]
end Xv6.Fs
