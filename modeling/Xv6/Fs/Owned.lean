import Xv6.Fs.View

namespace Xv6.Fs
open Superblock

namespace State
variable {s s' : State} {sb : Superblock} {ip k : Fin ninode} {i j b c : Nat} {x : Dinode}
    {v : Block}
  {e : Inode}

def alloc (s : State) (sb : Superblock) (b : Nat) : State :=
  (s.logWrite (sb.bblock b) ((s.disk (sb.bblock b)).setBit (b % bpb))).logWrite b .zero

def free (s : State) (sb : Superblock) (b : Nat) : State :=
  s.logWrite (sb.bblock b) ((s.disk (sb.bblock b)).clearBit (b % bpb))

def setCopy (s : State) (ip : Fin ninode) (x : Dinode) : State :=
  s.setInode ip { s.itable ip with copy := x }

def iupdate (s : State) (sb : Superblock) (ip : Fin ninode) : State :=
  s.logWrite (sb.iblock (s.itable ip).inum)
    (sb.putDinode s.disk (s.itable ip).inum (s.itable ip).copy)

lemma open_congr (h : s'.itable = s.itable) : s'.Open k i ↔ s.Open k i := by
  unfold Open
  rw [h]

lemma Table.congr (h : Table s sb) (ht : s'.itable = s.itable) : Table s' sb := by
  refine ⟨?_, fun k i hk => h.lt k i ((open_congr ht).mp hk), fun k i hk => ?_⟩
  · rw [ht]
    exact h.unique
  rw [ht]
  exact h.fits k i ((open_congr ht).mp hk)

lemma disk_logWrite_of_ne (h : c ≠ b) : (s.logWrite b v).disk c = s.disk c := by
  show Function.update s.disk b v c = s.disk c
  rw [Function.update_of_ne h]

lemma disk_scribble_of_ne (h : c ≠ b) : (s.scribble b v).disk c = s.disk c :=
  Function.update_of_ne h _ _

lemma disk_scribble_self : (s.scribble b v).disk b = v :=
  Function.update_self _ _ _

lemma disk_logWrite_self : (s.logWrite b v).disk b = v := by
  show Function.update s.disk b v b = v
  rw [Function.update_self]

structure SameInodes (sb : Superblock) (s s' : State) : Prop where
  itable : s'.itable = s.itable
  dinode : ∀ i < sb.ninodes, sb.dinode s'.disk i = sb.dinode s.disk i

lemma SameInodes.trans {s'' : State} (h : SameInodes sb s s') (h' : SameInodes sb s' s'') :
    SameInodes sb s s'' :=
  ⟨h'.itable.trans h.itable, fun i hi => (h'.dinode i hi).trans (h.dinode i hi)⟩

lemma SameInodes.ino (h : SameInodes sb s s') (ht : Table s sb) (hi : i < sb.ninodes) :
    s'.ino sb i = s.ino sb i :=
  ino_congr ht (ht.congr h.itable) (fun _ => open_congr h.itable) fun k _ => by rw [h.itable]
    fun _ => h.dinode i hi

lemma sameInodes_logWrite (h : ∀ i < sb.ninodes, sb.iblock i ≠ b) :
    SameInodes sb s (s.logWrite b v) :=
  ⟨rfl, fun i hi => dinode_congr (disk_logWrite_of_ne (h i hi))⟩

lemma sameInodes_alloc (ok : sb.Ok) (hb : sb.InData b) : SameInodes sb s (s.alloc sb b) :=
  (sameInodes_logWrite fun _ hi => ok.iblock_ne_bblock hi).trans
    (sameInodes_logWrite fun _ hi => ok.iblock_ne_data hi hb)

lemma sameInodes_free (ok : sb.Ok) : SameInodes sb s (s.free sb b) :=
  sameInodes_logWrite fun _ hi => ok.iblock_ne_bblock hi

lemma itable_alloc : (s.alloc sb b).itable = s.itable := rfl
lemma itable_logWrite : (s.logWrite b v).itable = s.itable := rfl
lemma disk_alloc_self : (s.alloc sb b).disk b = .zero := disk_logWrite_self

lemma disk_alloc_of_ne (ok : sb.Ok) (hb : sb.InData b) (hc : sb.InData c) (h : c ≠ b) :
    (s.alloc sb b).disk c = s.disk c := by
  have hcb : c ≠ sb.bblock b := (ok.bblock_ne_data hb.2 hc).symm
  rw [alloc, disk_logWrite_of_ne h, disk_logWrite_of_ne hcb]

lemma bit_alloc (ok : sb.Ok) (hb : sb.InData b) (hc : c < sb.size) :
    sb.bit (s.alloc sb b).disk c = (decide (c = b) || sb.bit s.disk c) := by
  have hcb : sb.bblock c ≠ b := ok.bblock_ne_data hc hb
  exact (bit_congr (disk_logWrite_of_ne hcb)).trans bit_setBit

lemma bit_free : sb.bit (s.free sb b).disk c = (!decide (c = b) && sb.bit s.disk c) :=
  bit_clearBit

lemma disk_free_of_data (ok : sb.Ok) (hb : sb.InData b) (hc : sb.InData c) :
    (s.free sb b).disk c = s.disk c :=
  disk_logWrite_of_ne (ok.bblock_ne_data hb.2 hc).symm

lemma bit_logWrite_data (ok : sb.Ok) (hb : sb.InData b) (hc : c < sb.size) :
    sb.bit (s.logWrite b v).disk c = sb.bit s.disk c :=
  bit_congr (disk_logWrite_of_ne (ok.bblock_ne_data hc hb))

lemma itable_setCopy_self : (s.setCopy ip x).itable ip = { s.itable ip with copy := x } :=
  Function.update_self ip _ s.itable

lemma itable_setCopy_of_ne (h : k ≠ ip) : (s.setCopy ip x).itable k = s.itable k :=
  Function.update_of_ne h _ s.itable

lemma ref_setCopy : ((s.setCopy ip x).itable k).ref = (s.itable k).ref := by
  by_cases h : k = ip
  · rw [h, itable_setCopy_self]
  rw [itable_setCopy_of_ne h]

lemma inum_setCopy : ((s.setCopy ip x).itable k).inum = (s.itable k).inum := by
  by_cases h : k = ip
  · rw [h, itable_setCopy_self]
  rw [itable_setCopy_of_ne h]

lemma open_setCopy : (s.setCopy ip x).Open k i ↔ s.Open k i := by
  unfold Open
  rw [ref_setCopy, inum_setCopy]
  by_cases h : k = ip
  · rw [h, itable_setCopy_self]
  rw [itable_setCopy_of_ne h]

lemma Table.setCopy (h : Table s sb) (hx : x.Fits) : Table (s.setCopy ip x) sb := by
  refine ⟨fun k l hk hl hkl => ?_, fun k i hk => h.lt k i (open_setCopy.mp hk), fun k i hk => ?_⟩
  · rw [ref_setCopy] at hk hl
    rw [inum_setCopy, inum_setCopy] at hkl
    exact h.unique k l hk hl hkl
  by_cases hkp : k = ip
  · rwa [hkp, itable_setCopy_self]
  rw [itable_setCopy_of_ne hkp]
  exact h.fits k i (open_setCopy.mp hk)

lemma ino_setCopy (h : Table s sb) (hip : s.Open ip i) (hx : x.Fits) :
    (s.setCopy ip x).ino sb j = if j = i then x else s.ino sb j := by
  have h' : Table (s.setCopy ip x) sb := h.setCopy hx
  by_cases hj : j = i
  · rw [if_pos hj, hj, ino_of_open h' (open_setCopy.mpr hip), itable_setCopy_self]
  rw [if_neg hj]
  refine ino_congr h h' (fun _ => open_setCopy) (fun k hk => ?_) fun _ => rfl
  have hkp : k ≠ ip := fun e => hj (hk.2.2.symm.trans ((congrArg (fun k =>
    (s.itable k).inum) e).trans
    hip.2.2))
  rw [itable_setCopy_of_ne hkp]

lemma dinode_iupdate (hip : s.Open ip i) (hx : (s.itable ip).copy.Fits) :
    sb.dinode (s.iupdate sb ip).disk j = if j = i then (s.itable ip).copy else sb.dinode s.disk j :=
      by
  rw [← hip.2.2]
  exact dinode_putDinode hx

lemma ino_iupdate (h : Table s sb) (hip : s.Open ip i) :
    (s.iupdate sb ip).ino sb j = s.ino sb j := by
  refine ino_congr h (h.congr rfl) (fun _ => Iff.rfl) (fun _ _ => rfl) fun hno => ?_
  have hj : j ≠ i := fun e => hno ip (e ▸ hip)
  rw [dinode_iupdate hip (h.fits ip i hip), if_neg hj]

lemma disk_iupdate_of_data (ok : sb.Ok) (h : Table s sb) (hip : s.Open ip i) (hc : sb.InData c) :
    (s.iupdate sb ip).disk c = s.disk c := by
  refine disk_logWrite_of_ne (ok.iblock_ne_data ?_ hc).symm
  rw [hip.2.2]
  exact h.lt ip i hip

lemma bit_iupdate (ok : sb.Ok) (h : Table s sb) (hip : s.Open ip i) :
    sb.bit (s.iupdate sb ip).disk c = sb.bit s.disk c := by
  refine bit_congr (disk_logWrite_of_ne (ok.iblock_ne_bblock ?_).symm)
  rw [hip.2.2]
  exact h.lt ip i hip
end State

open State
variable {sb : Superblock} {s s' : State} {spare : List Nat} {ip : Fin ninode} {i b c : Nat}
  {x : Dinode} {j : Nat}

section
variable (h : Owned sb s spare)
include h

lemma Owned.indirect_data (hi : i < sb.ninodes) (ht : (s.ino sb i).type ≠ 0)
    (ha : (s.ino sb i).addr ndirect ≠ 0) : sb.InData ((s.ino sb i).addr ndirect) := by
  have hslot : s.slot sb (i, ndirect) = (s.ino sb i).addr ndirect :=
    (slot_of_lt hi (by decide) ht).trans (Dinode.slot_direct le_rfl)
  rw [← hslot] at ha ⊢
  exact h.ledger.slot_area _ ha

lemma Owned.indirect_ne_of_free (hb : sb.InData b) (hfree : sb.bit s.disk b = false)
    (hi : i < sb.ninodes) (ht : (s.ino sb i).type ≠ 0) : (s.ino sb i).addr ndirect ≠ b := by
  intro e
  have hslot : s.slot sb (i, ndirect) = (s.ino sb i).addr ndirect :=
    (slot_of_lt hi (by decide) ht).trans (Dinode.slot_direct le_rfl)
  have htaken := (h.ledger.taken_iff b hb).mpr (.inr ⟨(i, ndirect), hslot.trans e⟩)
  rw [hfree] at htaken
  cases htaken

lemma Owned.slot_ne_of_free (hb : sb.InData b) (hfree : sb.bit s.disk b = false) (p : Nat × Nat) :
    s.slot sb p ≠ b := by
  intro e
  have htaken := (h.ledger.taken_iff b hb).mpr (.inr ⟨p, e⟩)
  rw [hfree] at htaken
  cases htaken

lemma Owned.inData_of_free (hb : b < sb.size) (hfree : sb.bit s.disk b = false) :
    sb.InData b := by
  refine ⟨?_, hb⟩
  by_contra hlt
  rw [h.low b (by omega)] at hfree
  cases hfree

lemma Owned.of_sameInodes {spare' : List Nat} (hsame : SameInodes sb s s')
    (hledger : Lib.Ledger sb.InData (s'.slot sb) (fun b => sb.bit s'.disk b) spare')
    (hlow : ∀ c < sb.dataStart, sb.bit s.disk c → sb.bit s'.disk c)
    (hun : ∀ c ∈ s'.unlogged, c ∈ s.unlogged ∨ sb.InData c ∧
      ∀ i < sb.ninodes, (s.ino sb i).type ≠ 0 → (s.ino sb i).addr ndirect ≠ c) :
    Owned sb s' spare' := by
  refine ⟨h.table.congr hsame.itable, hledger, fun c hc => hlow c hc (h.low c hc), fun c hc => ?_⟩
  have hold : sb.InData c ∧
      ∀ i < sb.ninodes, (s.ino sb i).type ≠ 0 → (s.ino sb i).addr ndirect ≠ c :=
    (hun c hc).elim (h.unlogged c) fun hc => hc
  refine ⟨hold.1, fun i hi ht => ?_⟩
  rw [hsame.ino h.table hi] at ht ⊢
  exact hold.2 i hi ht
end

lemma mem_unlogged_logWrite {v : Block} (h : c ∈ (s.logWrite b v).unlogged) : c ∈ s.unlogged :=
  (List.mem_filter.mp h).1

lemma slot_alloc (ok : sb.Ok) (h : Owned sb s spare) (hb : sb.InData b)
    (hfree : sb.bit s.disk b = false) (p : Nat × Nat) : (s.alloc sb b).slot sb p = s.slot sb p :=
  slot_congr (fun hp => (sameInodes_alloc ok hb).ino h.table hp) fun hp ht ha =>
    disk_alloc_of_ne ok hb (h.indirect_data hp ht ha) (h.indirect_ne_of_free hb hfree hp ht)

lemma Owned.alloc (ok : sb.Ok) (h : Owned sb s spare) (hb : b < sb.size)
    (hfree : sb.bit s.disk b = false) : Owned sb (s.alloc sb b) (b :: spare) := by
  have hdata := h.inData_of_free hb hfree
  have hledger : Lib.Ledger sb.InData (s.slot sb) (fun c => sb.bit (s.alloc sb b).disk c = true)
      (b :: spare) :=
    h.ledger.take hdata (by simp [hfree]) (fun c hc => by rw [bit_alloc ok hdata hc.2]; simp)
  refine h.of_sameInodes (sameInodes_alloc ok hdata)
    (hledger.congr (slot_alloc ok h hdata hfree) (fun _ _ => Iff.rfl)) (fun c hc hbit => ?_)
    fun c hc => .inl (mem_unlogged_logWrite (mem_unlogged_logWrite hc))
  rw [bit_alloc ok hdata (lt_of_lt_of_le hc (Nat.sub_le _ _)), hbit, Bool.or_true]

lemma Owned.free (ok : sb.Ok) (h : Owned sb s (b :: spare)) : Owned sb (s.free sb b) spare := by
  have hdata : sb.InData b := h.ledger.spare_area b List.mem_cons_self
  have hsame := sameInodes_free (s := s) (b := b) ok
  have hledger : Lib.Ledger sb.InData (s.slot sb) (fun c => sb.bit (s.free sb b).disk c)
      spare :=
    h.ledger.give fun c _ => by rw [bit_free]; simp
  have hslot : ∀ p, (s.free sb b).slot sb p = s.slot sb p := fun p =>
    slot_congr (fun hp => hsame.ino h.table hp) fun hp ht ha =>
      disk_free_of_data ok hdata (h.indirect_data hp ht ha)
  refine h.of_sameInodes hsame (hledger.congr hslot (fun _ _ => Iff.rfl)) (fun c hc hbit => ?_)
    fun c hc => .inl (mem_unlogged_logWrite hc)
  have hcb : c ≠ b := by
    have := hdata.1
    omega
  rw [bit_free, hbit]
  simp [hcb]

section
variable (h : Owned sb s spare) (hip : s.Open ip i)
include h hip

lemma slot_setCopy_eq (hx : x.Fits) (hxt : x.type ≠ 0) (p : Nat × Nat) :
    (s.setCopy ip x).slot sb p =
      if p.1 = i then (if p.2 < nslot then x.slot s.disk p.2 else 0) else s.slot sb p := by
  have hino := ino_setCopy (j := p.1) h.table hip hx
  by_cases hp : p.1 = i
  · rw [if_pos hp] at hino ⊢
    have hi : p.1 < sb.ninodes := by
      rw [hp]
      exact h.table.lt ip i hip
    by_cases hk : p.2 < nslot
    · rw [if_pos hk]
      refine (slot_of_lt hi hk (by rwa [hino])).trans ?_
      rw [hino]
      rfl
    rw [if_neg hk, State.slot, if_neg (fun h => hk h.2.1)]
  rw [if_neg hp] at hino ⊢
  exact slot_congr (fun _ => hino) fun _ _ _ => rfl

section
variable (ht : (s.itable ip).copy.type ≠ 0)
include ht

lemma slot_open (p : Nat × Nat) (hp : p.1 = i) :
    s.slot sb p = if p.2 < nslot then (s.itable ip).copy.slot s.disk p.2 else 0 := by
  have hino := ino_of_open h.table hip
  unfold State.slot
  rw [hp, hino]
  have hi := h.table.lt ip i hip
  simp [hi, ht]

lemma slot_setAddr {k : Nat} (hk : k ≤ ndirect)
    (hind : k = ndirect → (s.itable ip).copy.addr k = 0 ∧ s.disk b = .zero) (hb : b < 2 ^ 32)
    (p : Nat × Nat) :
    (s.setCopy ip ((s.itable ip).copy.setAddr k b)).slot sb p =
      if p = (i, k) then b else s.slot sb p := by
  rw [slot_setCopy_eq h hip ((h.table.fits ip i hip).setAddr hb) ht]
  by_cases hp : p.1 = i
  · rw [if_pos hp, slot_open h hip ht p hp]
    have hkn : k < nslot := lt_of_le_of_lt hk (by decide)
    by_cases hp2 : p.2 < nslot
    · rw [if_pos hp2, if_pos hp2, Dinode.slot_setAddr hk hind]
      have hiff : p.2 = k ↔ p = (i, k) := by
        rw [Prod.ext_iff]
        simp [hp]
      simp only [hiff]
    have hne : p ≠ (i, k) := by
      rintro rfl
      exact hp2 hkn
    rw [if_neg hp2, if_neg hp2, if_neg hne]
  have hne : p ≠ (i, k) := by
    rintro rfl
    exact hp rfl
  rw [if_neg hp, if_neg hne]

lemma Owned.type_ino : (s.ino sb i).type ≠ 0 := by rwa [ino_of_open h.table hip]
end

lemma Owned.setCopy_of {spare' : List Nat} (hx : x.Fits)
    (hledger : Lib.Ledger sb.InData ((s.setCopy ip x).slot sb) (fun b => sb.bit s.disk b) spare')
    (hun : ∀ b ∈ s.unlogged, x.type ≠ 0 → x.addr ndirect ≠ b) :
    Owned sb (s.setCopy ip x) spare' := by
  refine ⟨h.table.setCopy hx, hledger, h.low, fun b hb => ⟨(h.unlogged b hb).1, fun j hj ht => ?_⟩⟩
  rw [ino_setCopy h.table hip hx] at ht ⊢
  by_cases hji : j = i
  · rw [if_pos hji] at ht ⊢
    exact hun b hb ht
  rw [if_neg hji] at ht ⊢
  exact (h.unlogged b hb).2 j hj ht

section
variable (hx : x.Fits) (haddrs : x.addrs = (s.itable ip).copy.addrs)
  (htype : x.type = 0 ↔ (s.itable ip).copy.type = 0)
include hx haddrs htype

lemma slot_setCopy (p : Nat × Nat) : (s.setCopy ip x).slot sb p = s.slot sb p := by
  have hino := ino_setCopy (j := p.1) h.table hip hx
  by_cases hp : p.1 = i
  · rw [if_pos hp] at hino
    have hold := ino_of_open h.table (hp.symm ▸ hip)
    unfold State.slot
    rw [hino, hold, Dinode.slot_congr haddrs (fun _ => rfl)]
    simp only [ne_eq, htype]
    rfl
  rw [if_neg hp] at hino
  exact slot_congr (fun _ => hino) fun _ _ _ => rfl

lemma Owned.setCopy : Owned sb (s.setCopy ip x) spare := by
  refine h.setCopy_of hip hx (h.ledger.congr (slot_setCopy h hip hx haddrs htype)
    (fun _ _ => Iff.rfl))
    fun c hc ht => ?_
  have ht' : (s.itable ip).copy.type ≠ 0 := fun e => ht (htype.mpr e)
  have hold := (h.unlogged c hc).2 i (h.table.lt ip i hip) (h.type_ino hip ht')
  rw [ino_of_open h.table hip] at hold
  rwa [Dinode.addr, haddrs]
end
end

lemma Owned.putAddr (ok : sb.Ok) (h : Owned sb s (b :: spare)) (hip : s.Open ip i)
    (ht : (s.itable ip).copy.type ≠ 0) {k : Nat} (hk : k ≤ ndirect)
    (h0 : (s.itable ip).copy.addr k = 0) (hzero : k = ndirect → s.disk b = .zero)
    (hb : b ∉ s.unlogged) : Owned sb (s.setCopy ip ((s.itable ip).copy.setAddr k b)) spare := by
  have hb32 : b < 2 ^ 32 := ok.lt_two_pow (h.ledger.spare_area b List.mem_cons_self)
  have hslot := slot_setAddr h hip ht hk (fun e => ⟨h0, hzero e⟩) hb32
  have hi := h.table.lt ip i hip
  have hk' : k < nslot := lt_of_le_of_lt hk (by decide)
  have hempty : s.slot sb (i, k) = 0 := by
    rw [slot_of_lt hi hk' (h.type_ino hip ht), Dinode.slot_direct hk, ino_of_open h.table hip, h0]
  refine h.setCopy_of hip ((h.table.fits ip i hip).setAddr hb32) ?_ fun c hc htype => ?_
  · exact h.ledger.put hempty ((hslot _).trans (if_pos rfl)) fun q hq => (hslot q).trans (if_neg hq)
  rw [Dinode.addr_setAddr (by omega)]
  split
  · exact fun e => hb (e ▸ hc)
  have hold := (h.unlogged c hc).2 i hi (h.type_ino hip ht)
  rwa [ino_of_open h.table hip] at hold

lemma Owned.indirect_inj (h : Owned sb s spare) (hi : i < sb.ninodes)
    (hj : j < sb.ninodes) (hti : (s.ino sb i).type ≠ 0) (htj : (s.ino sb j).type ≠ 0)
    (ha : (s.ino sb i).addr ndirect ≠ 0)
    (he : (s.ino sb i).addr ndirect = (s.ino sb j).addr ndirect) : i = j := by
  have hslot : ∀ l < sb.ninodes, (s.ino sb l).type ≠ 0 →
      s.slot sb (l, ndirect) = (s.ino sb l).addr ndirect := fun l hl htl =>
    (slot_of_lt hl (by decide) htl).trans (Dinode.slot_direct le_rfl)
  have hpair := h.ledger.inj (i, ndirect) (j, ndirect) (by rwa [hslot i hi hti])
    (by rw [hslot i hi hti, hslot j hj htj, he])
  exact congrArg Prod.fst hpair

lemma slot_setWord (ok : sb.Ok) (h : Owned sb s spare) (hi : i < sb.ninodes)
    (ht : (s.ino sb i).type ≠ 0) (ha : (s.ino sb i).addr ndirect ≠ 0)
    (hj : j < nindirect) (hb : b < 2 ^ 32) (p : Nat × Nat) :
    (s.logWrite ((s.ino sb i).addr ndirect)
      ((s.disk ((s.ino sb i).addr ndirect)).setWord j b)).slot sb p =
      if p = (i, ndirect + 1 + j) then b else s.slot sb p := by
  have hdata := h.indirect_data hi ht ha
  generalize hind : (s.ino sb i).addr ndirect = ind at ha hdata ⊢
  have hj4 : 4 * j + 4 ≤ bsize := by
    rw [nindirect_eq] at hj
    rw [bsize_eq]
    omega
  have hjs : ndirect + 1 + j < nslot := by
    rw [nindirect_eq] at hj
    rw [ndirect_eq, nslot_eq]
    omega
  generalize hs' : s.logWrite ind ((s.disk ind).setWord j b) = s'
  have hsame : SameInodes sb s s' := hs' ▸ sameInodes_logWrite fun _ hi => ok.iblock_ne_data hi
    hdata
  have hdisk : s'.disk ind = (s.disk ind).setWord j b := hs' ▸ disk_logWrite_self
  obtain ⟨l, k⟩ := p
  by_cases hl : l = i
  · by_cases hk : k < nslot
    · rw [hl, slot_of_lt hi hk (by rwa [hsame.ino h.table hi]), slot_of_lt hi hk ht,
        hsame.ino h.table hi]
      by_cases hkd : k ≤ ndirect
      · have hne : (i, k) ≠ (i, ndirect + 1 + j) := by
          rw [Ne, Prod.mk.injEq]
          omega
        rw [Dinode.slot_direct hkd, Dinode.slot_direct hkd, if_neg hne]
      rw [Dinode.slot_entry (by omega) (hind ▸ ha), Dinode.slot_entry (by omega) (hind ▸ ha), hind,
        hdisk, Block.word_setWord hj4 hb]
      have hiff : k - (ndirect + 1) = j ↔ (i, k) = (i, ndirect + 1 + j) := by
        rw [Prod.mk.injEq]
        omega
      simp only [hiff]
    · have hne : (l, k) ≠ (i, ndirect + 1 + j) := fun e => hk (by rw [Prod.mk.injEq] at e; omega)
      rw [if_neg hne, State.slot, State.slot, if_neg (fun h => hk h.2.1), if_neg
        (fun h => hk h.2.1)]
  rw [if_neg (fun e => hl (congrArg Prod.fst e))]
  refine slot_congr (fun hp => hsame.ino h.table hp) fun hp htl hal => ?_
  rw [← hs']
  refine disk_logWrite_of_ne fun e => hl ?_
  exact h.indirect_inj hp hi htl ht hal (e.trans hind.symm)

lemma Owned.putWord (ok : sb.Ok) (h : Owned sb s (b :: spare)) (hi : i < sb.ninodes)
    (ht : (s.ino sb i).type ≠ 0) (ha : (s.ino sb i).addr ndirect ≠ 0)
    (hj : j < nindirect) (h0 : (s.disk ((s.ino sb i).addr ndirect)).word j = 0) :
    Owned sb (s.logWrite ((s.ino sb i).addr ndirect)
      ((s.disk ((s.ino sb i).addr ndirect)).setWord j b)) spare := by
  have hdata := h.indirect_data hi ht ha
  have hslot := slot_setWord ok h hi ht ha hj (ok.lt_two_pow
    (h.ledger.spare_area b List.mem_cons_self))
  have hempty : s.slot sb (i, ndirect + 1 + j) = 0 := by
    have hjs : ndirect + 1 + j < nslot := Nat.add_lt_add_left hj _
    rw [slot_of_lt hi hjs ht, Dinode.slot_entry (by omega) ha, Nat.add_sub_cancel_left, h0]
  have hledger := h.ledger.put hempty ((hslot _).trans (if_pos rfl))
    fun q hq => (hslot q).trans (if_neg hq)
  refine h.of_sameInodes (sameInodes_logWrite fun _ hi => ok.iblock_ne_data hi hdata)
    (hledger.congr (fun _ => rfl) (fun c hc => by rw [bit_logWrite_data ok hdata hc.2]))
    (fun c hc hc' => ?_) fun c hc => .inl (mem_unlogged_logWrite hc)
  rw [bit_logWrite_data ok hdata (lt_of_lt_of_le hc (Nat.sub_le _ _)), hc']

structure DataStep (sb : Superblock) (s s' : State) (b : Nat) : Prop where
  inData : sb.InData b
  leaf : ∀ i < sb.ninodes, (s.ino sb i).type ≠ 0 → (s.ino sb i).addr ndirect ≠ b
  itable : s'.itable = s.itable
  disk : ∀ c ≠ b, s'.disk c = s.disk c
  unlogged : ∀ c ∈ s'.unlogged, c ∈ s.unlogged ∨ c = b

lemma DataStep.same (hd : DataStep sb s s' b) (ok : sb.Ok) : SameInodes sb s s' :=
  ⟨hd.itable, fun _ hi => dinode_congr (hd.disk _ (ok.iblock_ne_data hi hd.inData))⟩

lemma DataStep.slot (hd : DataStep sb s s' b) (ok : sb.Ok) (h : Owned sb s spare)
    (p : Nat × Nat) : s'.slot sb p = s.slot sb p :=
  slot_congr (fun hp => (hd.same ok).ino h.table hp) fun hp ht _ => hd.disk _ (hd.leaf p.1 hp ht)

lemma Owned.data (ok : sb.Ok) (h : Owned sb s spare) (hd : DataStep sb s s' b) :
    Owned sb s' spare := by
  have hbit : ∀ c < sb.size, sb.bit s'.disk c = sb.bit s.disk c :=
    fun c hc => bit_congr (hd.disk _ (ok.bblock_ne_data hc hd.inData))
  refine h.of_sameInodes (hd.same ok)
    (h.ledger.congr (hd.slot ok h) (fun c hc => by rw [hbit c hc.2])) (fun c hc hc' => ?_)
    fun c hc => ?_
  · rw [hbit c (lt_of_lt_of_le hc (Nat.sub_le _ _)), hc']
  rcases hd.unlogged c hc with hc | hc
  · exact .inl hc
  rw [hc]
  exact .inr ⟨hd.inData, hd.leaf⟩

lemma Owned.iupdate (ok : sb.Ok) (h : Owned sb s spare) (hip : s.Open ip i) :
    Owned sb (s.iupdate sb ip) spare := by
  have hslot : ∀ p, (s.iupdate sb ip).slot sb p = s.slot sb p := fun p =>
    slot_congr (fun _ => ino_iupdate h.table hip) fun hp ht ha =>
      disk_iupdate_of_data ok h.table hip (h.indirect_data hp ht ha)
  refine ⟨h.table.congr rfl, h.ledger.congr hslot (fun c _ => by rw [bit_iupdate ok h.table hip]),
    fun c hc => by rw [bit_iupdate ok h.table hip, h.low c hc], fun c hc => ?_⟩
  have hold := h.unlogged c (mem_unlogged_logWrite hc)
  refine ⟨hold.1, fun j hj ht => ?_⟩
  rw [ino_iupdate h.table hip] at ht ⊢
  exact hold.2 j hj ht
end Xv6.Fs
