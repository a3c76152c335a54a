import Xv6.Fs.Lookup
import Xv6.Mkfs.Accepted

namespace Xv6.Mkfs
open Fs Fs.State Lib List

def readsb (d : Disk) : Option Superblock :=
  if (d 1).field 0 4 = fsmagic then
    some {
      size := (d 1).field 4 4
      nblocks := (d 1).field 8 4
      ninodes := (d 1).field 12 4
      inodestart := (d 1).field 24 4
      bmapstart := (d 1).field 28 4 }
  else none

structure Booted (d : Disk) (t : Fs.State) : Prop where
  disk : t.disk = d
  table : ∃ dp, ((t.itable dp).ref = 0 ∨
      (t.itable dp).inum = rootino ∧ (t.itable dp).valid = false) ∧
    ∀ k, k ≠ dp → (t.itable k).ref = 0

structure NameOk (name : Name) : Prop where
  pos : 0 < name.length
  le : name.length ≤ dirsiz
  slash : slash ∉ name
  ne_dot : name ≠ dot
  ne_dotdot : name ≠ dotdot

structure Named (files : List Input) : Prop where
  distinct : (files.map fun f => shortname f.arg).Nodup
  ok : ∀ f ∈ files, NameOk (shortname f.arg)

variable {s : State} {files : List Input} {f : Input} {t : Fs.State} {dp ip : Fin ninode}
  {i j k l n M o : Nat} {name : Name} {des : List Dirent} {E : Panic → Prop} {cwd : Fin ninode}

lemma zero_not_mem_shortname (f : Input) : (0 : UInt8) ∉ shortname f.arg := by
  have huser : withoutUser f.arg ⊆ f.arg := by
    unfold withoutUser
    split
    · exact drop_subset _ _
    exact List.Subset.refl _
  have hscore : shortname f.arg ⊆ withoutUser f.arg := by
    unfold shortname withoutUnderscore
    split
    · exact drop_subset _ _
    exact List.Subset.refl _
  exact fun h => f.string (huser (hscore h))

lemma getElem?_entriesFrom (k : Nat) (fs : List Input) (j : Nat) :
    (entriesFrom k fs)[j]? = (fs[j]?).map fun f => ⟨k + j, shortname f.arg⟩ := by
  induction fs generalizing k j with
  | nil => rfl
  | cons f fs ih =>
    cases j with
    | zero => rfl
    | succ j =>
      rw [entriesFrom, List.getElem?_cons_succ, List.getElem?_cons_succ, ih, add_right_comm,
        add_assoc]

lemma getElem?_entries (j : Nat) :
    (entries files)[j + 2]? = (files[j]?).map fun f => ⟨j + 2, shortname f.arg⟩ := by
  rw [entries, List.getElem?_cons_succ, List.getElem?_cons_succ, getElem?_entriesFrom, add_comm]

lemma getD_flatMap_direntBytes (hk : k < 16) : ∀ (des : List Dirent) (l : Nat),
    (des.flatMap direntBytes).getD (16 * l + k) 0 = ((des[l]?).map fun de => de.byte k).getD 0 := by
  intro des
  induction des with
  | nil =>
    intro l
    rfl
  | cons de des ih =>
    intro l
    have hlen : (direntBytes de).length = 16 := length_direntBytes de
    rw [flatMap_cons]
    cases l with
    | zero =>
      rw [getD_append _ _ _ _ (by omega), direntBytes, getD_eq_getElem _ _ (by simp; omega)]
      simp
    | succ l =>
      rw [getD_append_right _ _ _ _ (by omega), hlen, List.getElem?_cons_succ, ← ih l]
      congr 1
      omega

def rootBytes (files : List Input) (o : Nat) : UInt8 := (laidOut files rootino).getD o 0

section
variable (hn : files.length + 2 ≤ ninodes) (hok : ∀ f ∈ files, NameOk (shortname f.arg))
include hn hok

lemma fits_entries {de : Dirent} (hde : (entries files)[l]? = some de) : de.Fits := by
  rw [ninodes_eq] at hn
  match l with
  | 0 =>
    cases hde
    exact ⟨by decide, by decide, by decide⟩
  | 1 =>
    cases hde
    exact ⟨by decide, by decide, by decide⟩
  | j + 2 =>
    rw [getElem?_entries, Option.map_eq_some_iff] at hde
    obtain ⟨f, hf, rfl⟩ := hde
    have hlt := (List.getElem?_eq_some_iff.mp hf).1
    refine ⟨?_, (hok f (mem_of_getElem? hf)).le, zero_not_mem_shortname f⟩
    show j + 2 < 2 ^ 16
    omega

lemma entryAt_rootBytes (l : Nat) :
    entryAt (rootBytes files) (16 * l) = ((entries files)[l]?).getD ⟨0, []⟩ := by
  have hbytes : (List.range 16).map (fun k => rootBytes files (16 * l + k)) =
      (List.range 16).map fun k => (((entries files)[l]?).map fun de => de.byte k).getD 0 :=
    map_congr_left (fun k hk => getD_flatMap_direntBytes (mem_range.mp hk) _ l)
  rw [entryAt, hbytes]
  cases hde : (entries files)[l]? with
  | none => rfl
  | some de => exact (fits_entries hn hok hde).ofBytes_byte
end

lemma Final.mapped (h : Final s files) (hi : i < files.length + 2)
    (hcopy : (t.itable ip).copy = sb.dinode s.img i) (hdisk : t.disk = s.img)
    (hM : ∀ o, o < M → o / bsize * bsize < (laidOut files i).length) :
    Mapped t ip M fun o => (laidOut files i).getD o 0 := by
  have hmax : ∀ o, o < M → o / bsize < maxfile := fun o ho =>
    Nat.lt_of_mul_lt_mul_right (lt_of_lt_of_le (hM o ho) (h.laid.short i hi))
  have hblock : ∀ bn, t.block ip bn = (sb.dinode s.img i).block s.img bn := fun bn => by
    rw [State.block, hcopy, hdisk]
  refine ⟨fun o ho => ⟨hmax o ho, fun hz => ?_⟩, fun o ho => ?_⟩
  · rw [hblock, h.laid.block i _ hi (hmax o ho)] at hz
    exact Nat.not_le_of_lt (hM o ho) hz
  rw [State.byte, hblock, hdisk, h.laid.data i _ _ hi (hM o ho) (Nat.mod_lt _ (by decide)),
    Nat.div_add_mod']

structure AtRoot (d : Disk) (dp : Fin ninode) (t : Fs.State) : Prop where
  disk : t.disk = d
  inum : (t.itable dp).inum = rootino
  ref : 0 < (t.itable dp).ref
  copy : (t.itable dp).copy = sb.dinode d rootino
  empty : ∀ k, k ≠ dp → (t.itable k).ref = 0

lemma Final.kind_root (h : Final s files) : (sb.dinode s.img rootino).type = tDir ∧
    (sb.dinode s.img rootino).nlink = 1 := by
  refine h.kind rootino (by decide) ?_
  rw [rootino]
  omega

lemma namexLoop_nil (fuel : Nat) (ip : Fin ninode) (name : Name) :
    namexLoop sb false fuel ip [] name = namexEnd sb false ip name := by
  rw [namexLoop_eq sb zero_le, skipelem_nil]

lemma Booted.wp_iget {d : Disk} {Q : Fin ninode → Fs.State → Prop} (hb : Booted d t)
    (hQ : ∀ dp e, e.inum = rootino → 0 < e.ref → e.valid = false →
      (∀ k, k ≠ dp → (t.itable k).ref = 0) → Q dp (t.setInode dp e)) :
    wp (iget rootino) t Q E := by
  obtain ⟨dp, hdp, hother⟩ := hb.table
  by_cases h0 : (t.itable dp).ref = 0
  · have hempty : ∀ k, (t.itable k).ref = 0 := fun k => by
      by_cases hk : k = dp
      · rw [hk, h0]
      exact hother k hk
    exact wp_iget_free (fun k hk => absurd (hempty k) hk.ne') ⟨dp, h0⟩
      fun k _ => hQ k _ rfl Nat.one_pos rfl fun k' _ => hempty k'
  obtain ⟨hinum, hvalid⟩ := hdp.resolve_left h0
  have hfind : (finRange ninode).find? (fun k => 0 < (t.itable k).ref ∧
      (t.itable k).inum = rootino) = some dp := by
    cases hf : (finRange ninode).find? (fun k => 0 < (t.itable k).ref ∧
        (t.itable k).inum = rootino) with
    | none =>
      have hno := find?_eq_none.mp hf dp (mem_finRange dp)
      simp [hinum, Nat.pos_of_ne_zero h0] at hno
    | some k =>
      have hk : 0 < (t.itable k).ref ∧ (t.itable k).inum = rootino := by simpa using find?_some hf
      exact congrArg some (by_contra fun hne => hk.1.ne' (hother k hne))
  unfold iget
  rw [wp_bind, wp_get]
  simp only [hfind, wp_bind, wp_setInode, wp_pure]
  exact hQ dp _ hinum (Nat.succ_pos _) hvalid hother

section
variable (h : Final s files)
include h

lemma Final.wp_namei {Q : Option (Fin ninode) → Fs.State → Prop} (hb : Booted s.img t)
    (hne : name ≠ []) (hslash : slash ∉ name)
    (hlook : ∀ dp t, AtRoot s.img dp t → wp (dirlookup sb dp (name.take dirsiz)) t (fun r t' =>
      (t'.itable dp).copy.nlink ≠ 0 ∧ Q (r.map Prod.fst)
        (t'.setInode dp { t'.itable dp with ref := (t'.itable dp).ref - 1 })) E) :
    wp (namei sb cwd (slash :: name)) t Q E := by
  obtain ⟨htype, hlink⟩ := h.kind_root
  rw [namei, wp_bind, namex, if_pos (show (slash :: name).head? = some slash from rfl), wp_bind]
  refine hb.wp_iget fun dp e hinum href hvalid hother => ?_
  rw [length_cons, namexLoop, skipelem_root hne hslash]
  generalize ht1 : t.setInode dp e = t1
  have hself : t1.itable dp = e := by rw [← ht1, itable_setInode_self]
  have hdisk : t1.disk = s.img := by
    rw [← ht1, ← hb.disk]
    rfl
  dsimp only
  rw [namexRound, wp_bind, wp_ilock_load (by rwa [hself]) (by rwa [hself])
    (by rw [hself, hinum, hdisk, htype]; decide), wp_bind, wp_inode, itable_setInode_self]
  have hdir : ¬(sb.dinode t1.disk (t1.itable dp).inum).type ≠ tDir := by
    rw [hself, hinum, hdisk]
    exact fun hne => hne htype
  rw [if_neg hdir, if_neg (fun hp => Bool.false_ne_true hp.1)]
  refine wp_bind_of (hlook dp _ ⟨hdisk, ?_, ?_, ?_, fun k hk => ?_⟩) fun r t' hr => ?_
  · rwa [itable_setInode_self, hself]
  · rwa [itable_setInode_self, hself]
  · rw [itable_setInode_self, hself, hdisk, hinum]
  · rw [itable_setInode_of_ne hk, ← ht1, itable_setInode_of_ne hk]
    exact hother k hk
  cases r with
  | none =>
    rw [wp_bind, iunlockput, wp_iput_linked hr.1, wp_pure, wp_pure]
    exact hr.2
  | some p =>
    dsimp only
    rw [wp_bind, iunlockput, wp_iput_linked hr.1, namexLoop_nil, namexEnd,
      if_neg Bool.false_ne_true, wp_pure, wp_pure]
    exact hr.2

lemma Final.root_size (ha : AtRoot s.img dp t) :
    (t.itable dp).copy.size = (16 * (files.length + 2) / 1024 + 1) * 1024 := by
  rw [ha.copy, h.root, bsize_eq]

lemma Final.mapped_root (ha : AtRoot s.img dp t)
    (hM : M ≤ (16 * (files.length + 2) + 1023) / 1024 * 1024) :
    Mapped t dp M (rootBytes files) := by
  refine h.mapped (by rw [rootino]; omega) ha.copy ha.disk fun o ho => ?_
  rw [length_root, bsize_eq]
  omega

lemma Final.wp_dirlookup {Q : Option (Fin ninode × Nat) → Fs.State → Prop}
    (ha : AtRoot s.img dp t) (hloop : wp
      (dirlookupLoop sb dp name (64 * (16 * (files.length + 2) / 1024 + 1) + 1) 0) t Q E) :
    wp (dirlookup sb dp name) t Q E := by
  have hfuel : (t.itable dp).copy.size / 16 + 1 =
      64 * (16 * (files.length + 2) / 1024 + 1) + 1 := by
    rw [h.root_size ha]
    omega
  have htype : (t.itable dp).copy.type = tDir := by
    rw [ha.copy]
    exact h.kind_root.1
  rw [dirlookup, wp_bind, wp_inode, if_neg (fun hne => hne htype), hfuel]
  exact hloop
end

lemma root_size_le (hn : files.length + 2 ≤ ninodes) :
    (16 * (files.length + 2) / 1024 + 1) * 1024 ≤ maxfile * bsize := by
  rw [ninodes_eq] at hn
  rw [maxfile_eq, bsize_eq]
  omega

lemma Final.wp_dirlookup_file (h : Final s files) (hn : files.length + 2 ≤ ninodes)
    (hnames : Named files) (hj : files[j]? = some f) (ha : AtRoot s.img dp t) :
    wp (dirlookup sb dp (shortname f.arg)) t (fun r t' => ∃ ip, r = some (ip, 16 * (j + 2)) ∧
      ip ≠ dp ∧ t' = t.setInode ip
        { t.itable ip with inum := j + 2, ref := 1, valid := false }) E := by
  have hlt : j < files.length := (List.getElem?_eq_some_iff.mp hj).1
  have hsize := h.root_size ha
  have hle : (t.itable dp).copy.size ≤ maxfile * bsize := by
    rw [hsize]
    exact root_size_le hn
  have hmap : Mapped t dp (16 * (files.length + 2)) (rootBytes files) :=
    h.mapped_root ha (by omega)
  have hfound : entryAt (rootBytes files) (16 * (j + 2)) = ⟨j + 2, shortname f.arg⟩ := by
    rw [entryAt_rootBytes hn hnames.ok, getElem?_entries, hj]
    rfl
  have hok := hnames.ok f (mem_of_getElem? hj)
  refine h.wp_dirlookup ha ?_
  generalize hfuel : 64 * (16 * (files.length + 2) / 1024 + 1) - (j + 2) = fuel
  have hsum : 64 * (16 * (files.length + 2) / 1024 + 1) + 1 = fuel + 1 + (j + 2) := by omega
  rw [hsum]
  refine hmap.wp_dirlookupLoop_skips hle (by omega) (j + 2) 0 (fuel + 1) (by omega)
    (fun l hl => ?_) ?_
  · -- the names before it are different
    rw [zero_add, entryAt_rootBytes hn hnames.ok]
    match l with
    | 0 => exact fun hm => hok.ne_dot hm.2.symm
    | 1 => exact fun hm => hok.ne_dotdot hm.2.symm
    | i + 2 =>
      have hi : i < files.length := by omega
      rw [getElem?_entries, List.getElem?_eq_getElem hi]
      intro hm
      have hname : shortname files[i].arg = shortname f.arg := hm.2
      have hsame : (files.map fun f => shortname f.arg)[i]? =
          (files.map fun f => shortname f.arg)[j]? := by
        rw [List.getElem?_map, List.getElem?_map, List.getElem?_eq_getElem hi, hj, Option.map_some,
          Option.map_some, hname]
      have hij := (List.getElem?_inj (by rw [length_map]; exact hi) hnames.distinct).mp hsame
      omega
  rw [zero_add]
  refine hmap.wp_dirlookupLoop_found hle (by omega) (by omega) ?_ ?_ ?_
  · rw [hfound]
    exact Nat.succ_ne_zero _
  · rw [hfound]
  rw [hfound]
  have hfree : ∃ k, k ≠ dp := by
    by_cases hd : dp = ⟨0, by decide⟩
    · exact ⟨⟨1, by decide⟩, by rw [hd]; decide⟩
    exact ⟨⟨0, by decide⟩, fun he => hd he.symm⟩
  obtain ⟨k, hk⟩ := hfree
  refine wp_iget_free (fun k' hk' => ?_) ⟨k, ha.empty k hk⟩ (fun ip hip => ⟨ip, rfl, ?_, rfl⟩)
  · by_cases hd : k' = dp
    · rw [hd, ha.inum, rootino]
      show 1 ≠ j + 2
      omega
    rw [ha.empty k' hd] at hk'
    exact absurd hk' (lt_irrefl 0)
  rintro rfl
  exact ha.ref.ne' hip

lemma not_match (hn : files.length + 2 ≤ ninodes) (hnames : Named files)
    (hother : name ∉ files.map fun f => shortname f.arg) (hdot : name ≠ dot)
    (hdotdot : name ≠ dotdot) (l : Nat) : ¬((entryAt (rootBytes files) (16 * l)).inum ≠ 0 ∧
      (entryAt (rootBytes files) (16 * l)).name = name) := by
  rw [entryAt_rootBytes hn hnames.ok]
  match l with
  | 0 => exact fun hm => hdot hm.2.symm
  | 1 => exact fun hm => hdotdot hm.2.symm
  | i + 2 =>
    rw [getElem?_entries]
    cases hf : files[i]? with
    | none => exact fun hm => hm.1 rfl
    | some f =>
      intro hm
      exact hother (mem_map.mpr ⟨f, mem_of_getElem? hf, hm.2⟩)

lemma dirlookupLoop_end {Q : Option (Fin ninode × Nat) → Fs.State → Prop} {off : Nat}
    (hsize : (t.itable dp).copy.size ≤ off) (hQ : Q none t) (fuel : Nat) :
    wp (dirlookupLoop sb dp name fuel off) t Q E := by
  cases fuel with
  | zero => exact wp_pure.mpr hQ
  | succ fuel =>
    rw [dirlookupLoop, wp_bind, wp_inode, if_neg (by omega), wp_pure]
    exact hQ

lemma sb_ok : sb.Ok := ⟨by decide, by decide, by decide, by decide⟩

lemma Final.free_ge (h : Final s files) {b : Nat} (hb : b < sb.size)
    (hfree : sb.bit s.img b = false) : s.freeblock ≤ b := by
  have hbits := h.bits b (lt_trans hb (by decide))
  rw [hfree] at hbits
  exact Nat.le_of_not_lt (of_decide_eq_false hbits.symm)

lemma Final.mapped_fillHole (h : Final s files) (hn : files.length + 2 ≤ ninodes)
    (ha : AtRoot s.img dp t) (hmod : (files.length + 2) % 64 = 0) {b : Nat} (hb : b < sb.size)
    (hfree : sb.bit t.disk b = false) :
    Mapped (t.fillHole sb dp (16 * (files.length + 2) / bsize) b) dp
      (16 * (files.length + 2) + 1024) (rootBytes files) := by
  have hmap : Mapped t dp (16 * (files.length + 2)) (rootBytes files) :=
    h.mapped_root ha (by omega)
  rw [ha.disk] at hfree
  have hge := h.free_ge hb hfree
  have hlow := h.laid.slots.low
  have hbdata : sb.InData b := ⟨le_trans hlow hge, hb⟩
  rw [ninodes_eq] at hn
  have hdirect : ∀ o, o < 16 * (files.length + 2) + 1024 → o / bsize < ndirect := by
    intro o ho
    rw [bsize_eq, ndirect_eq]
    omega
  have hblock : ∀ q, q < ndirect →
      (t.fillHole sb dp (16 * (files.length + 2) / bsize) b).block dp q =
        if q = 16 * (files.length + 2) / bsize then b else t.block dp q := by
    intro q hq
    rw [Fs.block_direct hq, Fs.block_direct hq, State.fillHole, itable_setCopy_self]
    exact Dinode.addr_setAddr (Nat.lt_succ_of_lt hq)
  have hnew : ∀ o, o < 16 * (files.length + 2) + 1024 →
      (o / bsize = 16 * (files.length + 2) / bsize ↔ 16 * (files.length + 2) ≤ o) := by
    intro o ho
    rw [bsize_eq]
    omega
  have hb0 : b ≠ 0 := by
    rw [nmeta_eq] at hlow
    omega
  refine ⟨fun o ho => ⟨lt_of_lt_of_le (hdirect o ho) (by decide), ?_⟩, fun o ho => ?_⟩
  · rw [hblock _ (hdirect o ho)]
    by_cases hle : 16 * (files.length + 2) ≤ o
    · rw [if_pos ((hnew o ho).mpr hle)]
      exact hb0
    rw [if_neg (mt (hnew o ho).mp hle)]
    exact (hmap.block o (by omega)).2
  rw [State.byte, hblock _ (hdirect o ho)]
  by_cases hle : 16 * (files.length + 2) ≤ o
  · rw [if_pos ((hnew o ho).mpr hle)]
    have hzero : (t.fillHole sb dp (16 * (files.length + 2) / bsize) b).disk b = .zero :=
      disk_alloc_self
    rw [hzero, Block.byte_zero, rootBytes, getD_eq_default _ _ (by rw [length_root]; exact hle)]
  rw [if_neg (mt (hnew o ho).mp hle)]
  obtain ⟨hmax, hne⟩ := hmap.block o (by omega)
  rw [← hmap.byte o (by omega), State.byte]
  have hslot : t.block dp (o / bsize) =
      (sb.dinode s.img rootino).slot s.img (fileSlot (o / bsize)) := by
    rw [State.block, ha.copy, ha.disk]
    rfl
  have hrange := h.laid.slots.range rootino (fileSlot (o / bsize)) (by rw [rootino]; omega)
    (fileSlot_lt hmax) (by rw [← hslot]; exact hne)
  rw [← hslot] at hrange
  have hcdata : sb.InData (t.block dp (o / bsize)) :=
    ⟨hrange.1, lt_of_lt_of_le hrange.2 h.room⟩
  have hsame : (t.fillHole sb dp (16 * (files.length + 2) / bsize) b).disk
      (t.block dp (o / bsize)) = t.disk (t.block dp (o / bsize)) :=
    disk_alloc_of_ne sb_ok hbdata hcdata (by omega)
  rw [hsame]

lemma Final.wp_dirlookup_other (h : Final s files) (hn : files.length + 2 ≤ ninodes)
    (hnames : Named files) (hother : name ∉ files.map fun f => shortname f.arg) (hdot : name ≠ dot)
    (hdotdot : name ≠ dotdot) (ha : AtRoot s.img dp t) :
    wp (dirlookup sb dp name) t (fun r t' => r = none ∧ (t'.itable dp).copy.nlink ≠ 0)
      fun e => e = .dirlookupRead ∧ s.freeblock = fssize ∧ (files.length + 2) % 64 = 0 := by
  have hsize := h.root_size ha
  have hle : (t.itable dp).copy.size ≤ maxfile * bsize := by
    rw [hsize]
    exact root_size_le hn
  have hno := not_match hn hnames hother hdot hdotdot
  have hlink : (t.itable dp).copy.nlink ≠ 0 := by
    rw [ha.copy, h.kind_root.2]
    exact Nat.one_ne_zero
  refine h.wp_dirlookup ha ?_
  by_cases hmod : (files.length + 2) % 64 = 0
  · -- first the entries, then the block that is not there
    have hmap : Mapped t dp (16 * (files.length + 2)) (rootBytes files) :=
      h.mapped_root ha (by omega)
    have hsum : 64 * (16 * (files.length + 2) / 1024 + 1) + 1 = 64 + 1 + (files.length + 2) := by
      omega
    rw [hsum]
    refine hmap.wp_dirlookupLoop_skips hle (by omega) (files.length + 2) 0 _ (by omega)
      (fun l _ => by rw [zero_add]; exact hno l) ?_
    rw [zero_add]
    have hroot : rootino < files.length + 2 := by
      rw [rootino]
      omega
    rw [ninodes_eq] at hn
    have hdirect : 16 * (files.length + 2) / bsize < ndirect := by
      rw [bsize_eq, ndirect_eq]
      omega
    have hmax : 16 * (files.length + 2) / bsize < maxfile := lt_of_lt_of_le hdirect (by decide)
    have hzero : (t.itable dp).copy.addr (16 * (files.length + 2) / bsize) = 0 := by
      rw [← Fs.block_direct hdirect, State.block, ha.copy, ha.disk,
        h.laid.block rootino _ hroot hmax, length_root, bsize_eq]
      omega
    have hbit : sb.bit t.disk 0 = true := by
      rw [ha.disk, h.bits 0 (by decide)]
      have := h.laid.slots.low
      rw [nmeta_eq] at this
      exact decide_eq_true (by omega)
    refine wp_dirlookupLoop_hole hdirect hzero hbit (by omega) (by omega) (fun hex => ?_)
      (fun b hb hfree => ?_)
    · refine ⟨rfl, le_antisymm h.room (Nat.le_of_not_lt fun hlt => ?_), hmod⟩
      have hfull := hex s.freeblock hlt
      rw [ha.disk, h.bits _ (lt_trans hlt (by decide))] at hfull
      exact absurd (of_decide_eq_true hfull) (lt_irrefl _)
    have hn : files.length + 2 ≤ ninodes := hn
    have hmap' := h.mapped_fillHole hn ha hmod hb hfree
    have hcopy : ((t.fillHole sb dp (16 * (files.length + 2) / bsize) b).itable dp).copy =
        (t.itable dp).copy.setAddr (16 * (files.length + 2) / bsize) b := by
      rw [State.fillHole, itable_setCopy_self]
    have hsize' : ((t.fillHole sb dp (16 * (files.length + 2) / bsize) b).itable dp).copy.size =
        16 * (files.length + 2) + 1024 := by
      rw [hcopy]
      show (t.itable dp).copy.size = _
      omega
    rw [add_comm 64 1]
    refine hmap'.wp_dirlookupLoop_skips (by omega) (by omega) 64 _ 1 (by omega) (fun l _ => ?_) ?_
    · rw [← mul_add]
      exact hno _
    refine dirlookupLoop_end (by omega) ⟨rfl, ?_⟩ 1
    rw [hcopy]
    exact hlink
  have hmap : Mapped t dp ((16 * (files.length + 2) / 1024 + 1) * 1024) (rootBytes files) :=
    h.mapped_root ha (by omega)
  rw [add_comm _ 1]
  refine hmap.wp_dirlookupLoop_skips hle (by omega) _ 0 1 (by omega)
    (fun l _ => by rw [zero_add]; exact hno l) ?_
  exact dirlookupLoop_end (by omega) ⟨rfl, hlink⟩ 1

def FoundAs (s : State) (f : Input) (t : Fs.State) (cwd : Fin ninode) : Prop :=
  ∃ ip t₁ t₂, namei sb cwd (slash :: shortname f.arg) t = .ok (some ip, t₁) ∧
    ilock sb ip t₁ = .ok ((), t₂) ∧ t₂.disk = s.img ∧ (t₂.itable ip).copy.type = tFile ∧
    (t₂.itable ip).copy.nlink = 1 ∧ (t₂.itable ip).copy.size = f.content.length ∧
    ∀ dst off n, (∀ k, k < n → (dst k).isSome = true) → off ≤ f.content.length →
      off + n < 2 ^ 32 → readi sb ip dst off n t₂ =
        .ok ((((min n (f.content.length - off) : Nat) : Int), (f.content.drop off).take n), t₂)

lemma map_getD_range (l : List UInt8) (off n : Nat) :
    (List.range (min n (l.length - off))).map (fun k => l.getD (off + k) 0) =
      (l.drop off).take n := by
  refine ext_getElem ?_ fun k h1 h2 => ?_
  · rw [length_map, length_range, length_take, length_drop]
  rw [length_map, length_range] at h1
  rw [getElem_map, getElem_range, getElem_take, getElem_drop, getD_eq_getElem _ _ (by omega)]

lemma Final.foundAs (h : Final s files) (hn : files.length + 2 ≤ ninodes)
    (hnames : Named files) (hf : f ∈ files) (hb : Booted s.img t) : FoundAs s f t cwd := by
  obtain ⟨j, hlt, rfl⟩ := getElem_of_mem hf
  generalize hg : files[j] = g
  have hj : files[j]? = some g := by rw [List.getElem?_eq_getElem hlt, hg]
  have hok := hnames.ok g (mem_of_getElem? hj)
  have htake : (shortname g.arg).take dirsiz = shortname g.arg := take_of_length_le hok.le
  have hne : shortname g.arg ≠ [] := ne_nil_of_length_pos hok.pos
  have hj2 : j + 2 < files.length + 2 := Nat.add_lt_add_right hlt 2
  have hcontent : laidOut files (j + 2) = g.content := by
    rw [laidOut, hj]
    rfl
  have hne1 : j + 2 ≠ rootino := by
    rw [rootino]
    omega
  obtain ⟨htype, hlink⟩ := h.kind (j + 2) (Nat.succ_pos _) hj2
  rw [kindOf_file] at htype
  have hnamei : wp (namei sb cwd (slash :: shortname g.arg)) t (fun r t1 => ∃ ip, r = some ip ∧
      t1.disk = s.img ∧ (t1.itable ip).inum = j + 2 ∧ (t1.itable ip).ref = 1 ∧
      (t1.itable ip).valid = false) fun _ => False := by
    refine h.wp_namei hb hne hok.slash fun dp t ha => ?_
    rw [htake]
    refine wp_imp (h.wp_dirlookup_file hn hnames hj ha) fun r t' hr => ?_
    obtain ⟨ip, rfl, hip, rfl⟩ := hr
    rw [itable_setInode_of_ne hip.symm, ha.copy, h.kind_root.2]
    refine ⟨Nat.one_ne_zero, ip, rfl, ha.disk, ?_⟩
    rw [itable_setInode_of_ne hip, itable_setInode_self]
    exact ⟨rfl, rfl, rfl⟩
  obtain ⟨r, t1, hrun, ip, rfl, hdisk, hinum, href, hvalid⟩ := wp_total hnamei
  generalize ht2 : t1.setInode ip { t1.itable ip with
    copy := sb.dinode t1.disk (t1.itable ip).inum, valid := true } = t2
  have hcopy : (t2.itable ip).copy = sb.dinode s.img (j + 2) := by
    rw [← ht2, itable_setInode_self, hdisk, hinum]
  have hdisk2 : t2.disk = s.img := by
    rw [← ht2]
    exact hdisk
  have hlock : wp (ilock sb ip) t1 (fun _ t' => t' = t2) fun _ => False := by
    rw [wp_ilock_load (by rw [href]; exact Nat.one_pos) hvalid
      (by rw [hinum, hdisk, htype]; decide)]
    exact ht2
  obtain ⟨u, t', hlockrun, rfl⟩ := wp_total hlock
  have hsize : (t'.itable ip).copy.size = g.content.length := by
    rw [hcopy, h.size (j + 2) hj2 hne1, hcontent]
  refine ⟨ip, t1, t', hrun, hlockrun, hdisk2, by rw [hcopy]; exact htype,
    by rw [hcopy]; exact hlink, hsize, fun dst off n hdst hoff h32 => ?_⟩
  have hmap : Mapped t' ip g.content.length fun o => g.content.getD o 0 := by
    rw [← hcontent]
    refine h.mapped hj2 hcopy hdisk2 fun o ho => ?_
    exact lt_of_le_of_lt (Nat.div_mul_le_self o bsize) ho
  have hread : wp (readi sb ip dst off n) t' (fun r t'' => r =
      (((min n (g.content.length - off) : Nat) : Int), (g.content.drop off).take n) ∧ t'' = t')
      fun _ => False := by
    refine hmap.wp_readi hdst (by rw [hsize]; exact hoff) h32 (by rw [hsize]; omega) ?_
    rw [hsize]
    exact ⟨by rw [map_getD_range], rfl⟩
  obtain ⟨r, t'', hreadrun, rfl, rfl⟩ := wp_total hread
  exact hreadrun

def NotFound (s : State) (files : List Input) (name : Name) (t : Fs.State) (cwd : Fin ninode) :
    Prop :=
  (∃ t', namei sb cwd (slash :: name) t = .ok (none, t')) ∨
    namei sb cwd (slash :: name) t = .error .dirlookupRead ∧ s.freeblock = fssize ∧
      (files.length + 2) % 64 = 0

lemma Final.notFound (h : Final s files) (hn : files.length + 2 ≤ ninodes)
    (hnames : Named files) (hb : Booted s.img t) (hne : name ≠ []) (hslash : slash ∉ name)
    (hother : name.take dirsiz ∉ files.map fun f => shortname f.arg)
    (hdot : name.take dirsiz ≠ dot) (hdotdot : name.take dirsiz ≠ dotdot) :
    NotFound s files name t cwd := by
  have hnamei : wp (namei sb cwd (slash :: name)) t (fun r _ => r = none)
      fun e => e = .dirlookupRead ∧ s.freeblock = fssize ∧ (files.length + 2) % 64 = 0 := by
    refine h.wp_namei hb hne hslash fun dp t ha => ?_
    refine wp_imp (h.wp_dirlookup_other hn hnames hother hdot hdotdot ha) fun r t' hr => ?_
    exact ⟨hr.2, by rw [hr.1]; rfl⟩
  cases hrun : namei sb cwd (slash :: name) t with
  | ok p =>
    obtain ⟨r, t'⟩ := p
    have hnone := wp_ok hnamei hrun
    exact .inl ⟨t', by rw [hrun, show r = none from hnone]⟩
  | error e =>
    obtain ⟨he, hfull⟩ := wp_error hnamei hrun
    exact .inr ⟨by rw [hrun, he], hfull⟩

structure Agrees (s : State) (files : List Input) : Prop where
  super : readsb s.img = some sb
  found : ∀ f ∈ files, ∀ t cwd, Booted s.img t → FoundAs s f t cwd
  absent : ∀ name t cwd, Booted s.img t → name ≠ [] → slash ∉ name →
    name.take dirsiz ∉ files.map (fun f => shortname f.arg) → name.take dirsiz ≠ dot →
    name.take dirsiz ≠ dotdot → NotFound s files name t cwd
  bitmap : ∀ b, b < bpb → sb.bit s.img b = decide (b < s.freeblock)
  range : ∀ i ∈ s.inodes, ∀ k, k < nslot → (sb.dinode s.img i).slot s.img k ≠ 0 →
    nmeta ≤ (sb.dinode s.img i).slot s.img k ∧ (sb.dinode s.img i).slot s.img k < s.freeblock
  once : ∀ i ∈ s.inodes, ∀ j ∈ s.inodes, ∀ k l, k < nslot → l < nslot →
    (sb.dinode s.img i).slot s.img k ≠ 0 →
    (sb.dinode s.img i).slot s.img k = (sb.dinode s.img j).slot s.img l → i = j ∧ k = l

lemma readsb_superBlock {d : Disk} (h : d 1 = superBlock) : readsb d = some sb := by
  rw [readsb, h]
  decide +kernel

lemma slash_not_mem_withoutUser (h : slash ∉ shortname f.arg) : slash ∉ withoutUser f.arg := by
  unfold shortname withoutUnderscore at h
  split at h
  · rename_i hhead
    cases harg : withoutUser f.arg with
    | nil => exact not_mem_nil
    | cons c cs =>
      rw [harg] at h hhead
      cases hhead
      rw [mem_cons]
      rintro (hc | hcs)
      · exact absurd hc (by decide)
      exact h hcs
  exact h

theorem mkfs_agrees (hn : files.length ≤ ninodes - 2) (hnames : Named files)
    (hopened : ∀ f ∈ files, f.reads ≠ none)
    (hsmall : ∀ f ∈ files, f.content.length ≤ maxfile * bsize)
    (hblocks : blocksFor (files.length + 2) (laidOut files) ≤ fssize) :
    ∃ s, mkfs files = .ok s ∧ Agrees s files := by
  have hn : files.length + 2 ≤ ninodes := by
    rw [ninodes_eq] at hn ⊢
    omega
  have hfits : Fits files := ⟨hn, hsmall, hblocks,
    fun f hf => slash_not_mem_withoutUser (hnames.ok f hf).slash, hopened,
    fun f hf => (hnames.ok f hf).le⟩
  obtain ⟨s, hs, h⟩ := hfits.mkfs
  have hissued : ∀ i ∈ s.inodes, i < files.length + 2 := fun i hi => ((h.issued i).mp hi).2
  refine ⟨s, hs, readsb_superBlock h.super, fun f hf t cwd hb => h.foundAs hn hnames hf hb,
    fun name t cwd hb hne hslash ho hd hdd => h.notFound hn hnames hb hne hslash ho hd hdd, h.bits,
    fun i hi k hk => h.laid.slots.range i k (hissued i hi) hk, fun i hi j hj k l => ?_⟩
  exact h.laid.slots.once i j k l (hissued i hi) (hissued j hj)

def hiFile : Input :=
  ⟨[117, 115, 101, 114, 47, 95, 104, 105], by decide,
    some [⟨[104], by decide⟩, ⟨[105, 10], by decide⟩]⟩

theorem mkfs_agrees_hi : ∃ s, mkfs [hiFile] = .ok s ∧ Agrees s [hiFile] := by
  refine mkfs_agrees (by decide) ⟨by decide, fun f hf => ?_⟩ (fun f hf => ?_) (fun f hf => ?_)
    (by decide +kernel)
  · rw [mem_singleton.mp hf]
    exact ⟨by decide, by decide, by decide, by decide, by decide⟩
  · rw [mem_singleton.mp hf]
    exact Option.some_ne_none _
  rw [mem_singleton.mp hf]
  decide
end Xv6.Mkfs
