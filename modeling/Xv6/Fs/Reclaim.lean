import Xv6.Fs.Fsck
import Xv6.Fs.Lookup

namespace Xv6.Fs
open State Lib List Dinode
variable {sb : Superblock} {s t u : State} {ip : Fin ninode} {E : Panic → Prop} {i j b : Nat}
  {d d' d'' : Disk} {bs bs' : List Nat} {x : Dinode} {a : Block} {ks : List Nat}

structure Frees (sb : Superblock) (bs : List Nat) (d d' : Disk) : Prop where
  dinode : ∀ i < sb.ninodes, sb.dinode d' i = sb.dinode d i
  data : ∀ c, sb.InData c → d' c = d c
  bit : ∀ c, sb.bit d' c = (decide (c ∉ bs) && sb.bit d c)

structure Freeable (sb : Superblock) (bs : List Nat) (d : Disk) : Prop where
  inData : ∀ b ∈ bs, sb.InData b
  taken : ∀ b ∈ bs, sb.bit d b
  nodup : bs.Nodup

lemma Frees.refl : Frees sb [] d d :=
  ⟨fun _ _ => rfl, fun _ _ => rfl, fun c => by simp⟩

lemma Frees.trans (h : Frees sb bs d d') (h' : Frees sb bs' d' d'') :
    Frees sb (bs ++ bs') d d'' := by
  refine ⟨fun i hi => (h'.dinode i hi).trans (h.dinode i hi),
    fun c hc => (h'.data c hc).trans (h.data c hc), fun c => ?_⟩
  rw [h'.bit, h.bit, ← Bool.and_assoc]
  congr 1
  by_cases hc : c ∈ bs
  · simp [hc]
  simp [hc]

lemma frees_free (ok : sb.Ok) (hb : sb.InData b) : Frees sb [b] s.disk (s.free sb b).disk := by
  refine ⟨(sameInodes_free ok).dinode, fun c hc => disk_free_of_data ok hb hc, fun c => ?_⟩
  rw [bit_free]
  congr 1
  by_cases hc : c = b
  · simp [hc]
  simp [hc]

lemma Freeable.after (h : Freeable sb (bs ++ bs') d) (hf : Frees sb bs d d') :
    Freeable sb bs' d' := by
  obtain ⟨-, hnodup, hdisj⟩ := nodup_append.mp h.nodup
  refine ⟨fun b hb => h.inData b (mem_append_right bs hb), fun b hb => ?_, hnodup⟩
  have hnot : b ∉ bs := fun hmem => hdisj b hmem b hb rfl
  rw [hf.bit, h.taken b (mem_append_right bs hb)]
  simp [hnot]

lemma Freeable.front (h : Freeable sb (bs ++ bs') d) : Freeable sb bs d :=
  ⟨fun b hb => h.inData b (mem_append_left bs' hb),
    fun b hb => h.taken b (mem_append_left bs' hb), (nodup_append.mp h.nodup).1⟩

lemma wp_bfree_frees (ok : sb.Ok) (h : Freeable sb (b :: bs) s.disk) :
    wp (bfree sb b) s (fun _ t => Frees sb [b] s.disk t.disk ∧ t.itable = s.itable) E := by
  rw [wp_bfree (h.taken b mem_cons_self)]
  exact ⟨frees_free ok (h.inData b mem_cons_self), rfl⟩

lemma wp_bfreeEntries_frees (ok : sb.Ok) (js : List Nat) :
    ∀ s, Freeable sb (entries a js) s.disk → wp (bfreeEntries sb a js) s (fun _ t =>
      Frees sb (entries a js) s.disk t.disk ∧ t.itable = s.itable) E := by
  induction js with
  | nil =>
    intro s _
    rw [bfreeEntries, wp_pure]
    exact ⟨.refl, rfl⟩
  | cons j js ih =>
    intro s h
    rw [bfreeEntries]
    refine wp_ite (fun h0 => ?_) fun h0 => ?_
    · rw [entries, filter_cons_of_neg (by simp [h0])] at h ⊢
      exact ih s h
    rw [entries, filter_cons_of_pos (by simp [h0]), map_cons] at h ⊢
    refine wp_bind_of (wp_bfree_frees ok h) fun _ t ht => ?_
    exact wp_imp (ih t (h.after ht.1)) fun _ u hu => ⟨ht.1.trans hu.1, hu.2.trans ht.2⟩

def direct (x : Dinode) (ks : List Nat) : List Nat := (ks.filter fun k => x.addr k ≠ 0).map x.addr

lemma direct_setAddr {k : Nat} (hk : k ∉ ks) (hlt : ∀ l ∈ ks, l < ndirect) :
    direct (x.setAddr k 0) ks = direct x ks := by
  have haddr : ∀ l ∈ ks, (x.setAddr k 0).addr l = x.addr l := fun l hl =>
    addr_ne_of_addrs (le_of_lt (hlt l hl)) (fun e : k = l => hk (by rwa [e])) 0
  unfold direct
  rw [filter_congr (fun l hl => by rw [haddr l hl])]
  exact map_congr_left fun l hl => haddr l (mem_filter.mp hl).1

structure Emptied (ip : Fin ninode) (ks : List Nat) (s t : State) : Prop where
  other : ∀ k ≠ ip, t.itable k = s.itable k
  self : t.itable ip = { s.itable ip with
    copy := { (s.itable ip).copy with addrs := (t.itable ip).copy.addrs } }
  addr : ∀ k, k ≤ ndirect →
    (t.itable ip).copy.addr k = if k ∈ ks then 0 else (s.itable ip).copy.addr k

lemma Emptied.of_itable (h : t.itable = s.itable) : Emptied ip [] s t :=
  ⟨fun k _ => by rw [h], by rw [h], fun k _ => by rw [h]; rfl⟩

lemma Emptied.trans {ks ks' : List Nat} (h : Emptied ip ks s t) (h' : Emptied ip ks' t u) :
    Emptied ip (ks ++ ks') s u := by
  refine ⟨fun k hk => (h'.other k hk).trans (h.other k hk), ?_, fun k hk => ?_⟩
  · have hself := h'.self
    rwa [h.self] at hself
  rw [h'.addr k hk, h.addr k hk]
  by_cases h1 : k ∈ ks'
  · simp [h1]
  simp [h1]

lemma emptied_setAddr {k : Nat} : Emptied ip [k] s
    (s.setCopy ip ((s.itable ip).copy.setAddr k 0)) := by
  refine ⟨fun l hl => itable_setCopy_of_ne hl, ?_, fun l hl => ?_⟩
  · rw [itable_setCopy_self]
    rfl
  rw [itable_setCopy_self, addr_setAddr (Nat.lt_succ_of_le hl)]
  simp

lemma wp_itruncDirect_frees (ok : sb.Ok) (ks : List Nat) :
    ∀ s, ks.Nodup → (∀ k ∈ ks, k < ndirect) → Freeable sb (direct (s.itable ip).copy ks) s.disk →
      wp (itruncDirect sb ip ks) s (fun _ t =>
        Frees sb (direct (s.itable ip).copy ks) s.disk t.disk ∧ Emptied ip ks s t) E := by
  induction ks with
  | nil =>
    intro s _ _ _
    rw [itruncDirect, wp_pure]
    exact ⟨.refl, .of_itable rfl⟩
  | cons k ks ih =>
    intro s hnodup hlt h
    obtain ⟨hk, hnodup⟩ := nodup_cons.mp hnodup
    have hlt' : ∀ l ∈ ks, l < ndirect := fun l hl => hlt l (mem_cons_of_mem k hl)
    rw [itruncDirect, wp_bind, wp_inode]
    refine wp_ite (fun h0 => ?_) fun h0 => ?_
    · rw [direct, filter_cons_of_neg (by simp [h0])] at h ⊢
      refine wp_imp (ih s hnodup hlt' h) fun _ t ht => ⟨ht.1, ht.2.other, ht.2.self, fun l hl => ?_⟩
      rw [ht.2.addr l hl]
      by_cases hlk : l = k
      · simp [hlk, h0]
      simp [hlk]
    rw [direct, filter_cons_of_pos (by simp [h0]), map_cons] at h ⊢
    refine wp_bind_of (wp_bfree_frees ok h) fun _ t ht => ?_
    rw [wp_bind, wp_setAddr]
    have hsame := direct_setAddr (x := (s.itable ip).copy) hk hlt'
    have hcopy : ((t.setCopy ip ((t.itable ip).copy.setAddr k 0)).itable ip).copy =
        (s.itable ip).copy.setAddr k 0 := by
      rw [itable_setCopy_self, ht.2]
    have hrest := ih (t.setCopy ip ((t.itable ip).copy.setAddr k 0)) hnodup hlt'
      (by rw [hcopy, hsame]; exact h.after ht.1)
    rw [hcopy, hsame] at hrest
    refine wp_imp hrest fun _ u hu => ⟨ht.1.trans hu.1, ?_⟩
    exact ((Emptied.of_itable ht.2).trans emptied_setAddr).trans hu.2

def listed (x : Dinode) (d : Disk) : List Nat :=
  if x.addr ndirect = 0 then [] else
    entries (d (x.addr ndirect)) (range nindirect) ++ [x.addr ndirect]

def blocks (x : Dinode) (d : Disk) : List Nat := direct x (range ndirect) ++ listed x d

lemma mem_blocks : b ∈ blocks x d ↔ b ≠ 0 ∧ ∃ k < nslot, x.slot d k = b := by
  have hdirect : b ∈ direct x (range ndirect) ↔ b ≠ 0 ∧ ∃ k < ndirect, x.slot d k = b := by
    simp only [direct, mem_map, mem_filter, mem_range, decide_eq_true_eq]
    constructor
    · rintro ⟨k, ⟨hk, h0⟩, rfl⟩
      exact ⟨h0, k, hk, slot_direct (le_of_lt hk)⟩
    rintro ⟨h0, k, hk, hb⟩
    rw [slot_direct (le_of_lt hk)] at hb
    exact ⟨k, ⟨hk, hb ▸ h0⟩, hb⟩
  have hpast : ∀ k < nslot, ndirect < k → ∃ j < nindirect, k = ndirect + 1 + j := by
    intro k hk hlt
    rw [nslot] at hk
    exact ⟨k - (ndirect + 1), by omega, by omega⟩
  have hn : ndirect < nslot := by decide
  rw [blocks, listed, mem_append, hdirect]
  by_cases h0 : x.addr ndirect = 0
  · rw [if_pos h0]
    constructor
    · rintro (⟨hb, k, hk, he⟩ | hnil)
      · exact ⟨hb, k, lt_trans hk hn, he⟩
      cases hnil
    rintro ⟨hb, k, hk, he⟩
    refine .inl ⟨hb, k, ?_, he⟩
    by_contra hge
    rcases Nat.eq_or_lt_of_le (not_lt.mp hge) with rfl | hgt
    · rw [slot_direct le_rfl, h0] at he
      exact hb he.symm
    rw [slot_none hgt h0] at he
    exact hb he.symm
  rw [if_neg h0, mem_append, mem_entries, mem_singleton]
  have hentry : ∀ j, x.slot d (ndirect + 1 + j) = (d (x.addr ndirect)).word j := fun j => by
    rw [slot_entry (by omega) h0, Nat.add_sub_cancel_left]
  constructor
  · rintro (⟨hb, k, hk, he⟩ | ⟨hb, j, hj, he⟩ | hb)
    · exact ⟨hb, k, lt_trans hk hn, he⟩
    · exact ⟨hb, _, Nat.add_lt_add_left (mem_range.mp hj) _, (hentry j).trans he⟩
    exact ⟨hb ▸ h0, ndirect, hn, (slot_direct le_rfl).trans hb.symm⟩
  rintro ⟨hb, k, hk, he⟩
  rcases Nat.lt_trichotomy k ndirect with hlt | rfl | hgt
  · exact .inl ⟨hb, k, hlt, he⟩
  · rw [slot_direct le_rfl] at he
    exact .inr (.inr he.symm)
  obtain ⟨j, hj, rfl⟩ := hpast k hk hgt
  exact .inr (.inl ⟨hb, j, mem_range.mpr hj, (hentry j).symm.trans he⟩)

def Dinode.Injective (x : Dinode) (d : Disk) : Prop :=
  ∀ k l, k < nslot → l < nslot → x.slot d k ≠ 0 → x.slot d k = x.slot d l → k = l

lemma nodup_blocks (h : x.Injective d) : (blocks x d).Nodup := by
  have hdirect : ∀ k < ndirect, x.slot d k = x.addr k := fun k hk => slot_direct (le_of_lt hk)
  have hlt : ∀ k < ndirect, k < nslot := fun k hk => lt_trans hk (by decide)
  have hfirst : (direct x (range ndirect)).Nodup := by
    refine List.Nodup.map_on (fun k hk l hl he => ?_) (nodup_range.filter _)
    rw [mem_filter, mem_range, decide_eq_true_eq] at hk hl
    rw [← hdirect k hk.1, ← hdirect l hl.1] at he
    exact h k l (hlt k hk.1) (hlt l hl.1) (by rw [hdirect k hk.1]; exact hk.2) he
  rw [blocks, listed]
  by_cases h0 : x.addr ndirect = 0
  · rwa [if_pos h0, append_nil]
  rw [if_neg h0]
  have hentry : ∀ j, x.slot d (ndirect + 1 + j) = (d (x.addr ndirect)).word j := fun j => by
    rw [slot_entry (by omega) h0, Nat.add_sub_cancel_left]
  have hjlt : ∀ j < nindirect, ndirect + 1 + j < nslot := fun j hj => Nat.add_lt_add_left hj _
  have hself : x.slot d ndirect = x.addr ndirect := slot_direct le_rfl
  have hn : ndirect < nslot := by decide
  refine nodup_append.mpr ⟨hfirst, nodup_append.mpr ⟨?_, nodup_singleton _,
    fun b hb c hc e => ?_⟩, fun b hb c hc e => ?_⟩
  · refine List.Nodup.map_on (fun j hj l hl he => ?_) (nodup_range.filter _)
    rw [mem_filter, mem_range, decide_eq_true_eq] at hj hl
    rw [← hentry j, ← hentry l] at he
    have := h _ _ (hjlt j hj.1) (hjlt l hl.1) (by rw [hentry]; exact hj.2) he
    omega
  · obtain ⟨hb0, j, hj, he⟩ := mem_entries.mp hb
    rw [mem_singleton.mp hc, ← he, ← hentry, ← hself] at e
    have := h _ _ (hjlt j (mem_range.mp hj)) hn (by rwa [hentry, he]) e
    omega
  simp only [direct, mem_map, mem_filter, mem_range, decide_eq_true_eq] at hb
  obtain ⟨k, ⟨hk, hk0⟩, rfl⟩ := hb
  rw [← hdirect k hk] at e hk0
  rcases mem_append.mp hc with hc | hc
  · obtain ⟨-, j, hj, he⟩ := mem_entries.mp hc
    rw [← he, ← hentry] at e
    have := h k _ (hlt k hk) (hjlt j (mem_range.mp hj)) hk0 e
    omega
  rw [mem_singleton.mp hc, ← hself] at e
  have := h k _ (hlt k hk) hn hk0 e
  omega

lemma wp_itruncIndirect_frees (ok : sb.Ok) (h : Freeable sb (listed
    (s.itable ip).copy s.disk) s.disk) :
    wp (itruncIndirect sb ip) s (fun _ t => Frees sb (listed
      (s.itable ip).copy s.disk) s.disk t.disk ∧
      ∃ ks, Emptied ip ks s t) E := by
  unfold itruncIndirect
  rw [wp_bind, wp_inode]
  unfold listed at h ⊢
  by_cases h0 : (s.itable ip).copy.addr ndirect = 0
  · rw [if_pos h0, if_pos h0, wp_pure]
    exact ⟨.refl, [], .of_itable rfl⟩
  rw [if_neg h0] at h ⊢
  rw [if_neg h0, wp_bind, wp_bread]
  refine wp_bind_of (wp_bfreeEntries_frees ok _ s h.front) fun _ t ht => ?_
  refine wp_bind_of (wp_bfree_frees ok (h.after ht.1)) fun _ u hu => ?_
  rw [wp_setAddr]
  refine ⟨ht.1.trans hu.1, [] ++ [ndirect], ?_⟩
  exact (Emptied.of_itable (hu.2.trans ht.2)).trans emptied_setAddr

structure Reclaimed (sb : Superblock) (i : Nat) (bs : List Nat) (d d' : Disk) : Prop where
  type : (sb.dinode d' i).type = 0
  other : ∀ j < sb.ninodes, j ≠ i → sb.dinode d' j = sb.dinode d j
  data : ∀ c, sb.InData c → d' c = d c
  bit : ∀ c, sb.bit d' c = (decide (c ∉ bs) && sb.bit d c)

def HoldsRoot (s : State) : Prop :=
  (s.itable entry0).ref = 1 ∧ (s.itable entry0).inum = rootino ∧ (s.itable entry0).valid = false

lemma SameRefs.holdsRoot (h : SameRefs s t) (hs : HoldsRoot s) : HoldsRoot t := by
  obtain ⟨href, hinum, hvalid⟩ := h entry0
  rwa [HoldsRoot, href, hinum, hvalid]

lemma HoldsRoot.not_open (h : HoldsRoot s) : ¬s.Open entry0 i := fun hi => by
  have := hi.2.1
  rw [h.2.2] at this
  cases this

structure Alone (sb : Superblock) (ip : Fin ninode) (i : Nat) (s : State) : Prop where
  isOpen : s.Open ip i
  root : HoldsRoot s
  other : ∀ k ≠ ip, k ≠ entry0 → (s.itable k).ref = 0
  ne : i ≠ rootino
  lt : i < sb.ninodes
  fits : (s.itable ip).copy.Fits

lemma Alone.ne_entry0 (h : Alone sb ip i s) : entry0 ≠ ip := fun e =>
  h.root.not_open (e ▸ h.isOpen)

lemma Alone.table (h : Alone sb ip i s) : Table s sb := by
  have hused : ∀ k, 0 < (s.itable k).ref → k = ip ∨ k = entry0 := fun k hk => by
    by_contra hne
    rw [not_or] at hne
    rw [h.other k hne.1 hne.2] at hk
    exact lt_irrefl 0 hk
  have hopen : ∀ k j, s.Open k j → k = ip := fun k j hk => by
    refine (hused k hk.1).resolve_right fun e => ?_
    rw [e] at hk
    exact h.root.not_open hk
  have hinum : (s.itable ip).inum ≠ (s.itable entry0).inum := by
    rw [h.isOpen.2.2, h.root.2.1]
    exact h.ne
  refine ⟨fun k l hk hl he => ?_, fun k j hk => ?_, fun k j hk => ?_⟩
  · rcases hused k hk with rfl | rfl <;> rcases hused l hl with rfl | rfl
    · rfl
    · exact absurd he hinum
    · exact absurd he.symm hinum
    rfl
  · rw [← hk.2.2, hopen k j hk, h.isOpen.2.2]
    exact h.lt
  rw [hopen k j hk]
  exact h.fits

lemma Alone.sameRefs (h : Alone sb ip i s) (hr : SameRefs s t) (hf : (t.itable ip).copy.Fits) :
    Alone sb ip i t :=
  ⟨hr.open_iff.mpr h.isOpen, hr.holdsRoot h.root,
    fun k hk h0 => by rw [(hr k).1, h.other k hk h0], h.ne, h.lt, hf⟩

lemma Alone.put (h : Alone sb ip i s) (hx : x.Fits) : Alone sb ip i (s.put sb ip x) :=
  h.sameRefs sameRefs_put (by rwa [itable_put_self])

lemma Emptied.sameRefs (h : Emptied ip ks s t) : SameRefs s t := fun k => by
  by_cases hk : k = ip
  · rw [hk, h.self]
    exact ⟨rfl, rfl, rfl⟩
  rw [h.other k hk]
  exact ⟨rfl, rfl, rfl⟩

lemma Alone.emptied (h : Alone sb ip i s) (he : Emptied ip ks s t) : Alone sb ip i t := by
  have hf := h.fits
  refine h.sameRefs he.sameRefs ?_
  rw [he.self]
  refine ⟨hf.type, hf.major, hf.minor, hf.nlink, hf.size, fun k => ?_⟩
  have hk := he.addr k.val (Nat.le_of_lt_succ k.isLt)
  rw [Dinode.addr, dif_pos k.isLt] at hk
  rw [hk]
  split
  · decide
  rw [Dinode.addr, dif_pos k.isLt]
  exact hf.addrs k

section
variable (ok : sb.Ok) (h : Alone sb ip i s)
include ok h

lemma Alone.bit_put (hx : x.Fits) (c : Nat) : sb.bit (s.put sb ip x).disk c = sb.bit s.disk c :=
  bit_iupdate ok (h.table.setCopy hx) (open_setCopy.mpr h.isOpen)

lemma Alone.reclaimed {y : Dinode} (hf : Frees sb bs d s.disk) (hx : x.Fits) (hy : y.Fits)
    (hy0 : y.type = 0) : Reclaimed sb i bs d ((s.put sb ip x).put sb ip y).disk := by
  have h' := h.put hx
  have hdinode : ∀ j < sb.ninodes, sb.dinode ((s.put sb ip x).put sb ip y).disk j =
      if j = i then y else sb.dinode d j := fun j hj => by
    rw [dinode_put h'.isOpen hy, dinode_put h.isOpen hx, hf.dinode j hj]
    by_cases hji : j = i
    · rw [if_pos hji, if_pos hji]
    rw [if_neg hji, if_neg hji, if_neg hji]
  refine ⟨?_, fun j hj hji => (hdinode j hj).trans (if_neg hji), fun c hc => ?_, fun c => ?_⟩
  · rw [hdinode i h.lt, if_pos rfl, hy0]
  · rw [disk_put ok h'.table h'.isOpen hy hc, disk_put ok h.table h.isOpen hx hc, hf.data c hc]
  rw [h'.bit_put ok hy, h.bit_put ok hx, hf.bit]

lemma Alone.wp_freeInode (hf : Freeable sb (blocks (s.itable ip).copy s.disk) s.disk) :
    wp (freeInode sb ip) s (fun _ t =>
      Reclaimed sb i (blocks (s.itable ip).copy s.disk) s.disk t.disk ∧
      HoldsRoot t ∧ ∀ k, (t.itable k).ref = (s.itable k).ref) E := by
  unfold freeInode itrunc
  simp only [wp_bind]
  refine wp_imp (wp_itruncDirect_frees ok _ s nodup_range (fun k hk => mem_range.mp hk)
    hf.front) (fun _ t ht => ?_)
  have hlist : listed (t.itable ip).copy t.disk = listed (s.itable ip).copy s.disk := by
    have hind : (t.itable ip).copy.addr ndirect = (s.itable ip).copy.addr ndirect := by
      rw [ht.2.addr _ (le_refl _), if_neg (by simp)]
    rw [listed, listed, hind]
    by_cases h0 : (s.itable ip).copy.addr ndirect = 0
    · rw [if_pos h0, if_pos h0]
    have hmem : (s.itable ip).copy.addr ndirect ∈ blocks (s.itable ip).copy s.disk :=
      mem_blocks.mpr ⟨h0, ndirect, by decide, slot_direct (le_refl _)⟩
    rw [if_neg h0, if_neg h0, ht.1.data _ (hf.inData _ hmem)]
  refine wp_imp (wp_itruncIndirect_frees ok (by rw [hlist]; exact hf.after ht.1)) fun _ u hu => ?_
  rw [hlist] at hu
  obtain ⟨ks, hks⟩ := hu.2
  have hempt := ht.2.trans hks
  have hu' := h.emptied hempt
  have huf := hu'.fits
  simp only [wp_inode, wp_setInode, wp_iupdate]
  generalize hx : ({ (u.itable ip).copy with size := 0 } : Dinode) = x
  have hxf : x.Fits := by
    rw [← hx]
    exact ⟨huf.type, huf.major, huf.minor, huf.nlink, Nat.two_pow_pos 32, huf.addrs⟩
  have hput : (u.setInode ip { u.itable ip with copy := x }).iupdate sb ip = u.put sb ip x := rfl
  rw [hput]
  generalize hy : ({ ((u.put sb ip x).itable ip).copy with type := 0 } : Dinode) = y
  have hyf : y.Fits := by
    rw [← hy, itable_put_self]
    exact ⟨Nat.two_pow_pos 16, hxf.major, hxf.minor, hxf.nlink, hxf.size, hxf.addrs⟩
  refine ⟨hu'.reclaimed ok (ht.1.trans hu.1) hxf hyf (by rw [← hy]), ?_, fun k => ?_⟩
  · rw [HoldsRoot, itable_setInode_of_ne h.ne_entry0]
    exact ((hu'.put hxf).put hyf).root
  have href : (((u.put sb ip x).put sb ip y).itable k).ref = (s.itable k).ref := by
    rw [(sameRefs_put k).1, (sameRefs_put k).1, (hempt.sameRefs k).1]
  by_cases hk : k = ip
  · rw [hk] at href ⊢
    rw [itable_setInode_self]
    exact href
  rw [itable_setInode_of_ne hk]
  exact href
end

structure Quiet (s : State) : Prop where
  root : HoldsRoot s
  other : ∀ k ≠ entry0, (s.itable k).ref = 0

lemma Quiet.ino (h : Quiet s) : s.ino sb i = sb.dinode s.disk i :=
  ino_of_closed fun k hk => by
    by_cases h0 : k = entry0
    · rw [h0] at hk
      exact h.root.not_open hk
    have := hk.1
    rw [h.other k h0] at this
    exact lt_irrefl 0 this

def Orphan (sb : Superblock) (d : Disk) (i : Nat) : Prop :=
  (sb.dinode d i).type ≠ 0 ∧ (sb.dinode d i).nlink = 0

instance Orphan.decidable : Decidable (Orphan sb d i) := inferInstanceAs (Decidable (_ ∧ _))

lemma Fsck.freeable (h : Fsck sb s) (hq : Quiet s) (hi : i < sb.ninodes)
    (ht : (sb.dinode s.disk i).type ≠ 0) : Freeable sb (blocks
      (sb.dinode s.disk i) s.disk) s.disk := by
  have hslot : ∀ k < nslot, s.slot sb (i, k) = (sb.dinode s.disk i).slot s.disk k := fun k hk => by
    rw [slot_of_lt hi hk (by rwa [hq.ino]), hq.ino]
  have hin : ∀ b ∈ blocks (sb.dinode s.disk i) s.disk, ∃ p, s.slot sb p = b ∧ s.slot sb p ≠ 0 := by
    intro b hb
    obtain ⟨h0, k, hk, he⟩ := mem_blocks.mp hb
    have hp : s.slot sb (i, k) = b := (hslot k hk).trans he
    exact ⟨(i, k), hp, by rwa [hp]⟩
  refine ⟨fun b hb => ?_, fun b hb => ?_, nodup_blocks (fun k l hk hl h0 he => ?_)⟩
  · obtain ⟨p, rfl, h0⟩ := hin b hb
    exact h.inData p h0
  · obtain ⟨p, rfl, h0⟩ := hin b hb
    exact (h.bitmap _ (h.inData p h0)).mpr ⟨p, rfl, fun q hq => (h.once p q h0 hq.symm).symm⟩
  rw [← hslot k hk, ← hslot l hl] at he
  rw [← hslot k hk] at h0
  exact congrArg Prod.snd (h.once _ _ h0 he)

lemma Quiet.wp_iget (hq : Quiet s) (hi : i ≠ rootino) : wp (iget i) s (fun ip t =>
    t.disk = s.disk ∧ (t.itable ip).inum = i ∧ (t.itable ip).ref = 1 ∧
    (t.itable ip).valid = false ∧ HoldsRoot t ∧
    ∀ k ≠ ip, k ≠ entry0 → (t.itable k).ref = 0) E := by
  refine wp_iget_free (fun k hk => ?_) ⟨⟨1, by decide⟩, hq.other _ (by decide)⟩ fun ip h0 => ?_
  · by_cases hk0 : k = entry0
    · rw [hk0, hq.root.2.1]
      exact hi.symm
    rw [hq.other k hk0] at hk
    exact absurd hk (lt_irrefl 0)
  have hne : entry0 ≠ ip := fun e => by
    rw [← e, hq.root.1] at h0
    cases h0
  rw [HoldsRoot, itable_setInode_self, itable_setInode_of_ne hne]
  refine ⟨rfl, rfl, rfl, rfl, hq.root, fun k hk hk0 => ?_⟩
  rw [itable_setInode_of_ne hk, hq.other k hk0]

lemma ino_boot : (boot d).ino sb i = sb.dinode d i := ino_of_closed fun _ => not_open_boot

lemma Fsck.indirect_data (h : Fsck sb (boot d)) (hi : i < sb.ninodes)
    (ht : (sb.dinode d i).type ≠ 0) (h0 : (sb.dinode d i).addr ndirect ≠ 0) :
    sb.InData ((sb.dinode d i).addr ndirect) := by
  have hslot : (boot d).slot sb (i, ndirect) = (sb.dinode d i).addr ndirect := by
    rw [slot_of_lt hi (by decide) (by rwa [ino_boot]), ino_boot]
    exact slot_direct le_rfl
  rw [← hslot] at h0 ⊢
  exact h.inData _ h0

lemma mem_blocks_boot (hi : i < sb.ninodes) (ht : (sb.dinode d i).type ≠ 0) :
    b ∈ blocks (sb.dinode d i) d ↔ b ≠ 0 ∧ ∃ k, (boot d).slot sb (i, k) = b := by
  rw [mem_blocks]
  refine and_congr_right fun hb => ⟨fun ⟨k, hk, he⟩ => ⟨k, ?_⟩, fun ⟨k, he⟩ => ?_⟩
  · rwa [slot_of_lt hi hk (by rw [ino_boot]; exact ht), ino_boot]
  by_cases hk : k < nslot
  · rw [slot_of_lt hi hk (by rwa [ino_boot]), ino_boot] at he
    exact ⟨k, hk, he⟩
  rw [State.slot, if_neg (fun h => hk h.2.1)] at he
  exact absurd he.symm hb

lemma blocks_congr (h : x.addr ndirect ≠ 0 → d' (x.addr ndirect) = d (x.addr ndirect)) :
    blocks x d' = blocks x d := by
  unfold blocks listed
  by_cases h0 : x.addr ndirect = 0
  · rw [if_pos h0, if_pos h0]
  rw [if_neg h0, if_neg h0, h h0]

structure Swept (sb : Superblock) (d : Disk) (done : List Nat) (s : State) : Prop where
  quiet : Quiet s
  lt : ∀ i ∈ done, i < sb.ninodes
  freed : ∀ i ∈ done, Orphan sb d i → (sb.dinode s.disk i).type = 0
  other : ∀ i < sb.ninodes, ¬(i ∈ done ∧ Orphan sb d i) → sb.dinode s.disk i = sb.dinode d i
  data : ∀ c, sb.InData c → s.disk c = d c
  bit : ∀ c, sb.bit s.disk c ↔ sb.bit d c ∧
    ¬∃ i ∈ done, Orphan sb d i ∧ c ∈ blocks (sb.dinode d i) d

section Swept
variable {done : List Nat} (hd : Fsck sb (boot d)) (h : Swept sb d done s) {p : Nat × Nat}
include hd h

lemma Swept.slot (hp : ¬(p.1 ∈ done ∧ Orphan sb d p.1)) : s.slot sb p = (boot d).slot sb p := by
  refine slot_congr (fun hlt => ?_) fun hlt ht h0 => ?_
  · rw [h.quiet.ino, ino_boot, h.other _ hlt hp]
  rw [ino_boot] at ht h0 ⊢
  exact h.data _ (hd.indirect_data hlt ht h0)

omit hd in
lemma Swept.slot_freed (hp : p.1 ∈ done ∧ Orphan sb d p.1) : s.slot sb p = 0 :=
  slot_of_free (by rw [h.quiet.ino]; exact h.freed p.1 hp.1 hp.2)

lemma Swept.slot_of_ne (h0 : s.slot sb p ≠ 0) : s.slot sb p = (boot d).slot sb p :=
  h.slot hd fun hp => h0 (h.slot_freed hp)

lemma Swept.fsck (ok : sb.Ok) : Fsck sb s := by
  refine ⟨fun p h0 => ?_, fun p q h0 he => ?_, fun b hb => ?_⟩
  · have hold := h.slot_of_ne hd h0
    rw [hold] at h0 ⊢
    exact hd.inData p h0
  · have hq : s.slot sb q ≠ 0 := he ▸ h0
    rw [h.slot_of_ne hd h0, h.slot_of_ne hd hq] at he
    exact hd.once p q (by rwa [← h.slot_of_ne hd h0]) he
  have hb0 : b ≠ 0 := fun e => by
    have := hb.1
    have := ok.dataStart_pos
    omega
  rw [h.bit, show sb.bit d b ↔ _ from hd.bitmap b hb]
  constructor
  · rintro ⟨⟨p, hp, huniq⟩, hno⟩
    have hkeep : ¬(p.1 ∈ done ∧ Orphan sb d p.1) := fun hdone =>
      hno ⟨p.1, hdone.1, hdone.2, (mem_blocks_boot (h.lt p.1 hdone.1) hdone.2.1).mpr ⟨hb0, p.2, hp⟩⟩
    refine ⟨p, (h.slot hd hkeep).trans hp, fun q hq => huniq q ?_⟩
    rw [← hq]
    exact (h.slot_of_ne hd (by rwa [hq])).symm
  rintro ⟨p, hp, -⟩
  have hne : s.slot sb p ≠ 0 := by rwa [hp]
  have hold : (boot d).slot sb p = b := (h.slot_of_ne hd hne).symm.trans hp
  refine ⟨⟨p, hold, fun q hq => (hd.once p q (by rwa [hold]) (hold.trans hq.symm)).symm⟩,
    fun ⟨i, hi, ho, hmem⟩ => ?_⟩
  obtain ⟨-, k, hk⟩ := (mem_blocks_boot (h.lt i hi) ho.1).mp hmem
  have hpk : p = (i, k) := hd.once p (i, k) (by rwa [hold]) (hold.trans hk.symm)
  exact hne (h.slot_freed (by rw [hpk]; exact ⟨hi, ho⟩))

omit hd in
lemma Swept.skip (hi : i < sb.ninodes) (hq : Quiet t) (hdisk : t.disk = s.disk)
    (hno : ¬Orphan sb s.disk i) : Swept sb d (i :: done) t := by
  have hnew : i ∉ done → ¬Orphan sb d i := fun hmem ho => by
    refine hno ?_
    rwa [Orphan, h.other i hi (fun hc => hmem hc.1)]
  have hiff : ∀ j, j ∈ i :: done ∧ Orphan sb d j ↔ j ∈ done ∧ Orphan sb d j := fun j => by
    refine ⟨fun hj => ⟨?_, hj.2⟩, fun hj => ⟨mem_cons_of_mem i hj.1, hj.2⟩⟩
    rcases mem_cons.mp hj.1 with rfl | hmem
    · by_contra hmem
      exact hnew hmem hj.2
    exact hmem
  refine ⟨hq, fun j hj => ?_, fun j hj ho => ?_, fun j hj hc => ?_, fun c hc => ?_, fun c => ?_⟩
  · rcases mem_cons.mp hj with rfl | hj
    · exact hi
    exact h.lt j hj
  · rw [hdisk]
    exact h.freed j ((hiff j).mp ⟨hj, ho⟩).1 ho
  · rw [hdisk]
    exact h.other j hj fun hc' => hc ((hiff j).mpr hc')
  · rw [hdisk]
    exact h.data c hc
  rw [hdisk, h.bit]
  refine and_congr_right fun _ => not_congr ⟨fun ⟨j, hj, ho, hm⟩ => ?_, fun ⟨j, hj, ho, hm⟩ => ?_⟩
  · exact ⟨j, mem_cons_of_mem i hj, ho, hm⟩
  exact ⟨j, ((hiff j).mp ⟨hj, ho⟩).1, ho, hm⟩

lemma Swept.free (hi : i < sb.ninodes) (hq : Quiet t) (ho : Orphan sb s.disk i)
    (hr : Reclaimed sb i (blocks (sb.dinode s.disk i) s.disk) s.disk t.disk) :
    Swept sb d (i :: done) t := by
  have hkeep : ¬(i ∈ done ∧ Orphan sb d i) := fun hc => ho.1 (h.freed i hc.1 hc.2)
  have hsame := h.other i hi hkeep
  have hod : Orphan sb d i := by rwa [Orphan, ← hsame]
  have hblocks : blocks (sb.dinode s.disk i) s.disk = blocks (sb.dinode d i) d := by
    rw [hsame]
    exact blocks_congr fun h0 => h.data _ (hd.indirect_data hi hod.1 h0)
  rw [hblocks] at hr
  refine ⟨hq, fun j hj => ?_, fun j hj hoj => ?_, fun j hj hc => ?_, fun c hc => ?_, fun c => ?_⟩
  · rcases mem_cons.mp hj with rfl | hj
    · exact hi
    exact h.lt j hj
  · by_cases hji : j = i
    · rw [hji]
      exact hr.type
    · have hmem : j ∈ done := (mem_cons.mp hj).resolve_left hji
      rw [hr.other j (h.lt j hmem) hji]
      exact h.freed j hmem hoj
  · have hji : j ≠ i := fun e => hc ⟨e ▸ (.head _), e ▸ hod⟩
    rw [hr.other j hj hji]
    exact h.other j hj fun hc' => hc ⟨mem_cons_of_mem i hc'.1, hc'.2⟩
  · rw [hr.data c hc, h.data c hc]
  rw [hr.bit, Bool.and_eq_true, decide_eq_true_eq, h.bit]
  constructor
  · rintro ⟨hnot, hbit, hno⟩
    refine ⟨hbit, fun ⟨j, hj, hoj, hm⟩ => ?_⟩
    rcases mem_cons.mp hj with rfl | hj
    · exact hnot hm
    exact hno ⟨j, hj, hoj, hm⟩
  rintro ⟨hbit, hno⟩
  exact ⟨fun hm => hno ⟨i, (.head _), hod, hm⟩, hbit,
    fun ⟨j, hj, hoj, hm⟩ => hno ⟨j, mem_cons_of_mem i hj, hoj, hm⟩⟩
end Swept

end Xv6.Fs
