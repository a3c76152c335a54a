import Xv6.Mkfs.Append

namespace Xv6.Mkfs
open Fs Lib Function

def kindOf (i : Nat) : Nat := if i = rootino then tDir else tFile

structure Made (s : State) (L : Nat → List UInt8) : Prop where
  len : s.len = fssize
  inodes : s.freeinode ≤ ninodes
  room : s.freeblock ≤ fssize
  laid : Laid s.img (sb.dinode s.img) s.freeinode s.freeblock L
  issued : ∀ i, i ∈ s.inodes ↔ 0 < i ∧ i < s.freeinode
  size : ∀ i < s.freeinode, (sb.dinode s.img i).size = (L i).length
  kind : ∀ i, 0 < i → i < s.freeinode →
    (sb.dinode s.img i).type = kindOf i ∧ (sb.dinode s.img i).nlink = 1

variable {d d' : Disk} {X X' : Nat → Dinode} {fi fb i j k b bn : Nat}
  {L : Nat → List UInt8} {x : Dinode} {s s' : State} {E : Fail → Prop}
  {p : List UInt8}

lemma iblock_lt (hi : i < ninodes) : sb.iblock i < sb.bmapstart := by
  have hs : sb.inodestart = 33 := rfl
  have hb : sb.bmapstart = 46 := rfl
  rw [ninodes_eq] at hi
  rw [Superblock.iblock, hs, hb, ipb_eq]
  omega

lemma iblock_lt_nmeta (hi : i < ninodes) : sb.iblock i < nmeta :=
  (iblock_lt hi).trans (by decide)

lemma iblock_lt_fssize (hi : i < ninodes) : sb.iblock i < fssize :=
  (iblock_lt hi).trans (by decide)

lemma wp_rinode {Q : Dinode → State → Prop} (hlen : s.len = fssize) (hi : i < ninodes)
    (hok : Q (sb.dinode s.img i) s) : wp (rinode i) s Q E := by
  have hlt := iblock_lt_fssize hi
  rw [rinode, wp_bind]
  refine wp_rsect hlen (by omega) (by rw [fssize_eq] at hlt; omega) fun _ => wp_pure.mpr hok

def withInode (d : Disk) (i : Nat) (x : Dinode) : Disk :=
  update d (sb.iblock i) (sb.putDinode d i x)

lemma wp_winode {Q : Unit → State → Prop} (hlen : s.len = fssize) (hi : i < ninodes)
    (hok : Q () { s with img := withInode s.img i x }) : wp (winode i x) s Q E := by
  have hlt := iblock_lt_fssize hi
  rw [winode, wp_bind]
  refine wp_rsect hlen (by omega) (by rw [fssize_eq] at hlt; omega) fun _ => ?_
  exact wp_wsect hlen hlt hok

lemma dinode_withInode (hx : x.Fits) :
    sb.dinode (withInode d i x) j = if j = i then x else sb.dinode d j :=
  Superblock.dinode_putDinode hx

lemma withInode_of_ge (hi : i < ninodes) (hb : nmeta ≤ b) : withInode d i x b = d b := by
  have hlt := iblock_lt_nmeta hi
  exact update_of_ne (by omega) _ _

lemma Laid.congr (h : Laid d X fi fb L) (haddrs : ∀ j < fi, (X' j).addrs = (X j).addrs)
    (hfits : ∀ j < fi, (X' j).Fits) (hdisk : ∀ c, nmeta ≤ c → d' c = d c) :
    Laid d' X' fi fb L := by
  have haddr : ∀ j k, j < fi → (X' j).addr k = (X j).addr k := by
    intro j k hj
    unfold Dinode.addr
    rw [haddrs j hj]
  have hslot : ∀ j k, j < fi → (X' j).slot d' k = (X j).slot d k := by
    intro j k hj
    refine Dinode.slot_congr (haddrs j hj) fun hne => hdisk _ ?_
    have hdir : (X j).slot d ndirect = (X j).addr ndirect := Dinode.slot_direct le_rfl
    have hrange := h.slots.range j ndirect hj (by decide) (by rwa [hdir])
    rw [hdir] at hrange
    exact hrange.1
  refine ⟨h.slots.congr (fun j l hj _ => hslot j l hj) (fun c hc => hdisk c ?_), hfits, h.short,
    fun j bn hj hbn => ?_, fun j hj => ?_, fun j bn o hj hbn ho => ?_, h.count⟩
  · exact h.slots.low.trans hc
  · rw [Dinode.block, hslot j _ hj]
    exact h.block j bn hj hbn
  · rw [haddr j _ hj]
    exact h.indirect j hj
  have hshort := h.short j hj
  have hlt : bn < maxfile := Nat.lt_of_mul_lt_mul_right (lt_of_lt_of_le hbn hshort)
  have hne := mt (h.block j bn hj hlt).mp (not_le.mpr hbn)
  rw [Dinode.block, hslot j _ hj, hdisk _ (h.slots.range j _ hj (fileSlot_lt hlt) hne).1]
  exact h.data j bn o hj hbn ho

lemma wp_iappend (h : Made s L) (hi : i < s.freeinode)
    (hassert : maxfile * bsize < (L i).length + p.length → E .assertion)
    (hdie : fssize < s.freeblock + (blocksOf ((L i).length + p.length) - blocksOf (L i).length) →
      E .die) :
    wp (iappend i p) s (fun _ s' => Made s' (update L i (L i ++ p)) ∧
      s'.freeinode = s.freeinode ∧ s'.img 1 = s.img 1) E := by
  have hin := lt_of_lt_of_le hi h.inodes
  rw [iappend, wp_bind]
  refine wp_rinode h.len hin ?_
  rw [h.size i hi]
  refine wp_bind_of (wp_iappendLoop hi p.length p s (sb.dinode s.img) L (le_refl _) h.laid h.len
    h.room hassert hdie) (fun r s' hr => ?_)
  have hlen : s'.len = fssize := by
    rw [hr.frame]
    exact h.len
  have hfi : s'.freeinode = s.freeinode := by rw [hr.frame]
  have hdino : ∀ j < s.freeinode, sb.dinode s'.img j = sb.dinode s.img j := fun j hj =>
    Superblock.dinode_congr (hr.low _ (iblock_lt_nmeta (lt_of_lt_of_le hj h.inodes)))
  have hri := hr.laid.fits i hi
  rw [update_self] at hri
  have hshort := hr.laid.short i hi
  rw [update_self, List.length_append] at hshort
  have hfits : ({ r.1 with size := r.2 } : Dinode).Fits := by
    refine ⟨hri.type, hri.major, hri.minor, hri.nlink, ?_, hri.addrs⟩
    show r.2 < 2 ^ 32
    rw [hr.off]
    rw [maxfile_eq, bsize_eq] at hshort
    omega
  have hnew : ∀ j < s.freeinode, sb.dinode (withInode s'.img i { r.1 with size := r.2 }) j =
      if j = i then { r.1 with size := r.2 } else sb.dinode s.img j := by
    intro j hj
    rw [dinode_withInode hfits, hdino j hj]
  refine wp_winode hlen hin
    ⟨⟨hlen, ?_, hr.room, ?_, ?_, fun j hj => ?_, fun j h0 hj => ?_⟩, hfi, ?_⟩
  · show s'.freeinode ≤ ninodes
    rw [hfi]
    exact h.inodes
  · show Laid _ _ s'.freeinode _ _
    rw [hfi]
    refine hr.laid.congr (fun j hj => ?_) (fun j hj => ?_) fun c hc => withInode_of_ge hin hc
    · show (sb.dinode (withInode s'.img i { r.1 with size := r.2 }) j).addrs = _
      rw [hnew j hj]
      by_cases hji : j = i
      · rw [if_pos hji, hji, update_self]
      rw [if_neg hji, update_of_ne hji]
    exact Superblock.dinode_fits
  · rw [hr.frame]
    exact h.issued
  · have hj : j < s.freeinode := by
      rw [← hfi]
      exact hj
    show (sb.dinode (withInode s'.img i { r.1 with size := r.2 }) j).size = _
    rw [hnew j hj]
    by_cases hji : j = i
    · rw [if_pos hji, hji, update_self, List.length_append]
      exact hr.off
    rw [if_neg hji, update_of_ne hji]
    exact h.size j hj
  · have hj : j < s.freeinode := by
      rw [← hfi]
      exact hj
    show (sb.dinode (withInode s'.img i { r.1 with size := r.2 }) j).type = _ ∧
      (sb.dinode (withInode s'.img i { r.1 with size := r.2 }) j).nlink = _
    rw [hnew j hj]
    by_cases hji : j = i
    · have hk := h.kind i (hji ▸ h0) hi
      rw [if_pos hji, hji]
      show r.1.type = _ ∧ r.1.nlink = _
      rw [hr.same]
      exact hk
    rw [if_neg hji]
    exact h.kind j h0 hj
  show withInode s'.img i { r.1 with size := r.2 } 1 = s.img 1
  rw [withInode, update_of_ne, hr.low 1 (by decide)]
  have hs : sb.inodestart = 33 := rfl
  rw [Superblock.iblock, hs, ipb_eq]
  omega

def newInode (type : Nat) : Dinode := { Dinode.zero with type := type, nlink := 1 }

lemma slot_newInode (type : Nat) : (newInode type).slot d k = 0 := by
  refine Dinode.slot_zero_addrs fun j => ?_
  unfold Dinode.addr
  split <;> rfl

lemma newInode_fits {type : Nat} (h : type < 2 ^ 16) : (newInode type).Fits :=
  ⟨h, by show 0 < _; decide, by show 0 < _; decide, by show 1 < _; decide, by show 0 < _; decide,
    fun _ => by show 0 < _; decide⟩

lemma Laid.grow {type : Nat} (h : Laid d X fi fb L) (hx : X fi = newInode type)
    (ht : type < 2 ^ 16) (hL : L fi = []) : Laid d X (fi + 1) fb L := by
  have hcase : ∀ j < fi + 1, j < fi ∨ j = fi := fun j hj => by omega
  have hslot : ∀ k, (X fi).slot d k = 0 := fun k => by
    rw [hx]
    exact slot_newInode type
  refine ⟨⟨h.slots.low, fun j k hj hk hne => ?_, fun j j' k l hj hj' hk hl hne he => ?_,
    h.slots.fresh⟩, fun j hj => ?_, fun j hj => ?_, fun j bn hj hbn => ?_, fun j hj => ?_,
    fun j bn o hj hbn ho => ?_, ?_⟩
  · rcases hcase j hj with hj | rfl
    · exact h.slots.range j k hj hk hne
    exact absurd (hslot k) hne
  · rcases hcase j hj with hj | rfl
    · rcases hcase j' hj' with hj' | rfl
      · exact h.slots.once j j' k l hj hj' hk hl hne he
      rw [hslot l] at he
      exact absurd he hne
    exact absurd (hslot k) hne
  · rcases hcase j hj with hj | rfl
    · exact h.fits j hj
    rw [hx]
    exact newInode_fits ht
  · rcases hcase j hj with hj | rfl
    · exact h.short j hj
    rw [hL]
    exact Nat.zero_le _
  · rcases hcase j hj with hj | rfl
    · exact h.block j bn hj hbn
    rw [Dinode.block, hslot, hL]
    exact ⟨fun _ => Nat.zero_le _, fun _ => rfl⟩
  · rcases hcase j hj with hj | rfl
    · exact h.indirect j hj
    · have hz := hslot ndirect
      rw [Dinode.slot_direct le_rfl] at hz
      rw [hz, hL]
      exact ⟨fun _ => Nat.zero_le _, fun _ => rfl⟩
  · rcases hcase j hj with hj | rfl
    · exact h.data j bn o hj hbn ho
    rw [hL] at hbn
    exact absurd hbn (Nat.not_lt_zero _)
  rw [Finset.sum_range_succ, hL, ← add_assoc, ← h.count]
  rfl

lemma wp_ialloc {type : Nat} (h : Made s L) (hlt : s.freeinode < ninodes)
    (h0 : 0 < s.freeinode) (htype : type = kindOf s.freeinode) (hL : L s.freeinode = []) :
    wp (ialloc type) s (fun r s' => r = s.freeinode ∧ Made s' L ∧ s'.freeinode = s.freeinode + 1 ∧
      s'.img 1 = s.img 1) E := by
  have hmod : (s.freeinode + 1) % 2 ^ 32 = s.freeinode + 1 := by
    rw [ninodes_eq] at hlt
    exact Nat.mod_eq_of_lt (by omega)
  have ht : type < 2 ^ 16 := by
    rw [htype, kindOf]
    split <;> decide
  have hnew : ∀ j, sb.dinode (withInode s.img s.freeinode (newInode type)) j =
      if j = s.freeinode then newInode type else sb.dinode s.img j :=
    fun j => dinode_withInode (newInode_fits ht)
  rw [ialloc, wp_bind, wp_get, wp_bind, wp_set, hmod, wp_bind]
  refine wp_winode h.len hlt (wp_pure.mpr ⟨rfl, ⟨h.len, hlt, h.room, ?_, fun j => ?_,
    fun j hj => ?_, fun j hj0 hj => ?_⟩, rfl, ?_⟩)
  · refine Laid.grow (h.laid.congr (fun j hj => ?_) (fun j _ => Superblock.dinode_fits)
      (fun c hc => withInode_of_ge hlt hc)) ?_ ht hL
    · show (sb.dinode (withInode s.img s.freeinode (newInode type)) j).addrs = _
      rw [hnew j, if_neg (by omega)]
    exact (hnew s.freeinode).trans (if_pos rfl)
  · show j ∈ s.freeinode :: s.inodes ↔ 0 < j ∧ j < s.freeinode + 1
    rw [List.mem_cons, h.issued]
    omega
  · show (sb.dinode (withInode s.img s.freeinode (newInode type)) j).size = _
    rw [hnew j]
    by_cases hje : j = s.freeinode
    · rw [if_pos hje, hje, hL]
      rfl
    rw [if_neg hje]
    have hj : j < s.freeinode + 1 := hj
    exact h.size j (by omega)
  · show (sb.dinode (withInode s.img s.freeinode (newInode type)) j).type = _ ∧
      (sb.dinode (withInode s.img s.freeinode (newInode type)) j).nlink = _
    rw [hnew j]
    by_cases hje : j = s.freeinode
    · rw [if_pos hje, hje]
      exact ⟨htype, rfl⟩
    rw [if_neg hje]
    have hj : j < s.freeinode + 1 := hj
    exact h.kind j hj0 (by omega)
  show withInode s.img s.freeinode (newInode type) 1 = s.img 1
  have hs : sb.inodestart = 33 := rfl
  rw [withInode, update_of_ne]
  rw [Superblock.iblock, hs, ipb_eq]
  omega
end Xv6.Mkfs
