import Xv6.Mkfs.Main

namespace Xv6.Mkfs
open Fs Lib List

def WellFormed (s : State) : Prop :=
  ∀ i ∈ s.inodes, i < sb.ninodes ∧ (sb.inodestart ≤ sb.iblock i ∧ sb.iblock i < sb.bmapstart) ∧
    (∀ k < nslot, (sb.dinode s.img i).slot s.img k < sb.size) ∧
    ∀ bn, bn < ((sb.dinode s.img i).size + bsize - 1) / bsize →
      (sb.dinode s.img i).block s.img bn ≠ 0

instance (s : State) : Decidable (WellFormed s) :=
  inferInstanceAs (Decidable (∀ i ∈ s.inodes, _))

def Keeps {α : Type} (m : MkM α) : Prop :=
  ∀ s, wp m s (fun _ s' => s.inodes ⊆ s'.inodes) fun _ => True

variable {α β : Type} {m m' : MkM α} {g : α → MkM β} {s : State} {files fs gs : List Input}
  {f : Input} {i bn : Nat}

lemma Keeps.bind (h : Keeps m) (hg : ∀ a, Keeps (g a)) : Keeps (m >>= g) := by
  intro s
  refine wp_bind_of (h s) fun a s' hs => ?_
  exact wp_imp (hg a s') fun _ _ hs' => List.Subset.trans hs hs'

lemma keeps_pure (a : α) : Keeps (pure a) := fun _ => wp_pure.mpr (List.Subset.refl _)
lemma keeps_throw (e : Fail) : Keeps (throw e : MkM α) := fun _ => wp_throw.mpr trivial

lemma Keeps.ite {c : Prop} [Decidable c] (h : Keeps m) (h' : Keeps m') :
    Keeps (if c then m else m') := by
  split
  · exact h
  exact h'

lemma keeps_get : Keeps get := fun _ => wp_get.mpr (List.Subset.refl _)

lemma keeps_wsect (sec : Nat) (b : Block) : Keeps (wsect sec b) :=
  fun _ => wp_modify.mpr (List.Subset.refl _)

lemma keeps_rsect (sec : Nat) : Keeps (rsect sec) :=
  keeps_get.bind fun _ => (keeps_pure _).ite (keeps_throw _)

lemma keeps_winode (inum : Nat) (x : Dinode) : Keeps (winode inum x) :=
  (keeps_rsect _).bind fun _ => keeps_wsect _ _

lemma keeps_rinode (inum : Nat) : Keeps (rinode inum) :=
  (keeps_rsect _).bind fun _ => keeps_pure _

lemma keeps_nextBlock : Keeps nextBlock := by
  intro s
  rw [nextBlock, wp_bind, wp_get, wp_bind, wp_set, wp_pure]
  exact List.Subset.refl _

lemma keeps_blockFor (x : Dinode) (fbn : Nat) : Keeps (blockFor x fbn) := by
  refine Keeps.ite ?_ (Keeps.bind ?_ fun y => (keeps_rsect _).bind fun b => ?_)
  · exact (keeps_nextBlock.bind fun _ => keeps_pure _).ite (keeps_pure _)
  · exact (keeps_nextBlock.bind fun _ => keeps_pure _).ite (keeps_pure _)
  refine Keeps.ite (keeps_nextBlock.bind fun _ => ?_) (keeps_pure _)
  exact (keeps_wsect _ _).bind fun _ => keeps_pure _

lemma keeps_iappendLoop (fuel : Nat) : ∀ x off p, Keeps (iappendLoop fuel x off p) := by
  induction fuel with
  | zero =>
    intro x off p
    exact keeps_pure _
  | succ fuel ih =>
    intro x off p
    refine (keeps_pure _).ite ((keeps_throw _).ite ((keeps_blockFor _ _).bind fun r => ?_))
    exact (keeps_rsect _).bind fun _ => (keeps_wsect _ _).bind fun _ => ih _ _ _

lemma keeps_iappend (inum : Nat) (p : List UInt8) : Keeps (iappend inum p) :=
  (keeps_rinode _).bind fun _ => (keeps_iappendLoop _ _ _ _).bind fun _ => keeps_winode _ _

lemma keeps_appendReads (inum : Nat) (cs : List Chunk) : Keeps (appendReads inum cs) := by
  induction cs with
  | nil => exact keeps_pure _
  | cons c cs ih => exact (keeps_iappend _ _).bind fun _ => ih

lemma wp_ialloc_issued (type : Nat) : wp (ialloc type) s
    (fun _ s' => s.freeinode :: s.inodes ⊆ s'.inodes) fun _ => True := by
  rw [ialloc, wp_bind, wp_get, wp_bind, wp_set]
  exact wp_bind_of (keeps_winode _ _ _) fun _ _ hs => wp_pure.mpr hs

lemma wp_addFile_issued (r : Nat) : wp (addFile r f) s
    (fun _ s' => s.freeinode :: s.inodes ⊆ s'.inodes) fun _ => True := by
  unfold addFile
  split
  · exact wp_throw.mpr trivial
  cases f.reads with
  | none => exact wp_throw.mpr trivial
  | some reads =>
    dsimp only
    split
    · exact wp_throw.mpr trivial
    refine wp_bind_of (wp_ialloc_issued tFile) fun inum s1 hs1 => ?_
    have hrest : Keeps (iappend r (direntBytes ⟨inum, shortname f.arg⟩) >>= fun _ =>
        appendReads inum reads) := (keeps_iappend _ _).bind fun _ => keeps_appendReads _ _
    exact wp_imp (hrest s1) fun _ _ hs => List.Subset.trans hs1 hs

lemma keeps_addFiles (r : Nat) (fs : List Input) : Keeps (addFiles r fs) := by
  induction fs with
  | nil => exact keeps_pure _
  | cons f fs ih =>
    refine Keeps.bind (fun s => ?_) fun _ => ih
    exact wp_imp (wp_addFile_issued r) fun _ _ hs => List.Subset.trans (subset_cons_self _ _) hs

lemma keeps_end (r : Nat) :
    Keeps (fixRoot r >>= fun _ => get >>= fun s => balloc s.freeblock) := by
  refine Keeps.bind ?_ fun _ => keeps_get.bind fun s => ?_
  · exact (keeps_rinode _).bind fun _ => keeps_winode _ _
  exact (keeps_wsect _ _).ite (keeps_throw _)

lemma addFiles_append (r : Nat) (gs fs : List Input) :
    addFiles r (gs ++ fs) = addFiles r gs >>= fun _ => addFiles r fs := by
  induction gs with
  | nil => rfl
  | cons g gs ih => rw [cons_append, addFiles, addFiles, ih, bind_assoc]

lemma fails_true {N : Nat} {F : Nat → List UInt8} : Fails (fun _ => True) N F :=
  ⟨fun _ => trivial, fun _ => trivial⟩

lemma refuses_true : Refuses (fun _ => True) f :=
  ⟨fun _ => trivial, fun _ => trivial, fun _ => trivial⟩

lemma wp_main_many (hmany : ninodes < files.length + 2) :
    wp (main files) blank (fun _ s => ninodes ∈ s.inodes) fun _ => True := by
  have hsplit := take_append_drop (ninodes - 2) files
  have hlen : (files.take (ninodes - 2)).length = ninodes - 2 := by
    rw [ninodes_eq] at hmany ⊢
    rw [length_take]
    omega
  generalize files.take (ninodes - 2) = gs at hsplit hlen
  cases hdrop : files.drop (ninodes - 2) with
  | nil =>
    have := drop_eq_nil_iff.mp hdrop
    rw [ninodes_eq] at this hmany
    omega
  | cons f fs =>
    rw [hdrop] at hsplit
    rw [main, wp_bind]
    refine wp_wsect rfl (by decide) ?_
    refine wp_root (K := fun r => addFiles r files >>= fun _ => fixRoot r >>= fun _ => get >>=
      fun s => balloc s.freeblock) fails_true (le_refl 2) fun s h hfi _ => ?_
    rw [← hsplit, addFiles_append, bind_assoc, addFiles, bind_assoc]
    refine wp_bind_of (wp_addFiles gs [] s fails_true (fun f _ => refuses_true) h hfi ?_)
      fun _ s1 hs1 => ?_
    · rw [nil_append, hlen]
      decide
    have hfi1 : s1.freeinode = ninodes := by
      rw [hs1.2.1, nil_append, hlen]
      decide
    refine wp_bind_of (wp_addFile_issued rootino) fun _ s2 hs2 => ?_
    rw [hfi1] at hs2
    refine wp_imp ((keeps_addFiles _ _).bind (fun _ => keeps_end _) s2) fun _ s3 hs3 => ?_
    exact hs3 (hs2 mem_cons_self)

lemma block_ne_zero_of_file (h : Final s files) (hi : i < files.length + 2) (hne : i ≠ rootino)
    (hbn : bn < ((sb.dinode s.img i).size + bsize - 1) / bsize) :
    (sb.dinode s.img i).block s.img bn ≠ 0 := by
  rw [h.size i hi hne] at hbn
  have hshort := h.laid.short i hi
  have hlt : bn * bsize < (laidOut files i).length := by
    rw [bsize_eq] at hbn ⊢
    omega
  have hmax : bn < maxfile := Nat.lt_of_mul_lt_mul_right (lt_of_lt_of_le hlt hshort)
  intro hz
  exact Nat.not_le_of_lt hlt ((h.laid.block i bn hi hmax).mp hz)

lemma root_blocks_iff (h : Final s files) (hn : files.length + 2 ≤ ninodes) :
    (∀ bn, bn < ((sb.dinode s.img rootino).size + bsize - 1) / bsize →
      (sb.dinode s.img rootino).block s.img bn ≠ 0) ↔ (files.length + 2) % 64 ≠ 0 := by
  have hroot : rootino < files.length + 2 := by
    rw [rootino]
    omega
  have hblock : ∀ bn < maxfile, ((sb.dinode s.img rootino).block s.img bn = 0 ↔
      16 * (files.length + 2) ≤ bn * 1024) := by
    intro bn hbn
    rw [h.laid.block rootino bn hroot hbn, length_root, bsize_eq]
  rw [h.root, bsize_eq]
  rw [maxfile_eq] at hblock
  rw [ninodes_eq] at hn
  constructor
  · intro hall hmod
    refine hall (16 * (files.length + 2) / 1024) (by omega) ?_
    rw [hblock _ (by omega)]
    omega
  intro hmod bn hbn hz
  rw [hblock _ (by omega)] at hz
  omega

lemma Final.wellFormed_iff (h : Final s files) (hn : files.length + 2 ≤ ninodes) :
    WellFormed s ↔ (files.length + 2) % 64 ≠ 0 := by
  have hroot : rootino ∈ s.inodes := by
    rw [h.issued, rootino]
    omega
  constructor
  · intro hw
    exact (root_blocks_iff h hn).mp (hw rootino hroot).2.2.2
  intro hmod i hi
  obtain ⟨h0, hlt⟩ := (h.issued i).mp hi
  have hin : i < ninodes := lt_of_lt_of_le hlt hn
  refine ⟨hin, ⟨Nat.le_add_left _ _, iblock_lt hin⟩, fun k hk => ?_, ?_⟩
  · by_cases hz : (sb.dinode s.img i).slot s.img k = 0
    · rw [hz]
      decide
    exact lt_of_lt_of_le (h.laid.slots.range i k hlt hk hz).2 h.room
  by_cases hne : i = rootino
  · rw [hne]
    exact (root_blocks_iff h hn).mpr hmod
  exact fun bn hbn => block_ne_zero_of_file h hlt hne hbn

lemma mkfs_eq_ok (h : mkfs files = .ok s) : main files blank = .ok ((), s) := by
  unfold mkfs at h
  cases hm : main files blank with
  | ok r =>
    rw [hm] at h
    cases h
    rfl
  | error e =>
    rw [hm] at h
    cases h

theorem mkfs_wellFormed_iff (h : mkfs files = .ok s) :
    WellFormed s ↔ files.length + 2 ≤ ninodes ∧ (files.length + 2) % 64 ≠ 0 := by
  have hmain := mkfs_eq_ok h
  by_cases hn : files.length + 2 ≤ ninodes
  · have hfinal := wp_ok (wp_main hn fails_true fun f _ => refuses_true) hmain
    rw [hfinal.wellFormed_iff hn]
    exact ⟨fun hmod => ⟨hn, hmod⟩, fun hboth => hboth.2⟩
  have hissued := wp_ok (wp_main_many (Nat.lt_of_not_le hn)) hmain
  constructor
  · intro hw
    exact absurd (hw ninodes hissued).1 (lt_irrefl _)
  intro hboth
  exact absurd hboth.1 hn

structure Fits (files : List Input) : Prop where
  inodes : files.length + 2 ≤ ninodes
  small : ∀ f ∈ files, f.content.length ≤ maxfile * bsize
  blocks : blocksFor (files.length + 2) (laidOut files) ≤ fssize
  slash : ∀ f ∈ files, (47 : UInt8) ∉ withoutUser f.arg
  opened : ∀ f ∈ files, f.reads ≠ none
  short : ∀ f ∈ files, (shortname f.arg).length ≤ dirsiz

lemma Fits.length_laidOut_le (h : Fits files) (j : Nat) :
    (laidOut files j).length ≤ maxfile * bsize := by
  match j with
  | 0 => exact Nat.zero_le _
  | 1 =>
    have hn := h.inodes
    have hroot := length_root files
    rw [rootino] at hroot
    rw [hroot, maxfile_eq, bsize_eq]
    rw [ninodes_eq] at hn
    omega
  | j + 2 =>
    show (((files[j]?).map Input.content).getD []).length ≤ _
    cases hf : files[j]? with
    | none => exact Nat.zero_le _
    | some f => exact h.small f (mem_of_getElem? hf)

lemma Fits.mkfs (h : Fits files) : ∃ s, mkfs files = .ok s ∧ Final s files := by
  have hE : Fails (fun _ => False) (files.length + 2) (laidOut files) := by
    refine ⟨fun ⟨j, hj⟩ => ?_, fun hlt => ?_⟩
    · exact Nat.not_le_of_lt hj (h.length_laidOut_le j)
    exact Nat.not_le_of_lt hlt h.blocks
  have hR : ∀ f ∈ files, Refuses (fun _ => False) f := by
    intro f hf
    refine ⟨fun hs => h.slash f hf hs, fun ho => h.opened f hf ho, fun hl => ?_⟩
    exact Nat.not_le_of_lt hl (h.short f hf)
  obtain ⟨u, s, hs, hfinal⟩ := wp_total (wp_main h.inodes hE hR)
  refine ⟨s, ?_, hfinal⟩
  rw [Mkfs.mkfs, hs]
  rfl

lemma zero_not_mem_name (i : Nat) : (0 : UInt8) ∉ [102, UInt8.ofNat (48 + i % 64)] := by
  rw [mem_cons, mem_singleton]
  rintro (h | h)
  · exact absurd h (by decide)
  have hnat := congrArg UInt8.toNat h
  rw [UInt8.toNat_ofNat', UInt8.toNat_zero] at hnat
  omega

def emptyFiles (n : Nat) : List Input :=
  (range n).map fun i => ⟨[102, UInt8.ofNat (48 + i % 64)], zero_not_mem_name i, some []⟩

lemma fits_emptyFiles_one : Fits (emptyFiles 1) := by
  refine ⟨?_, ?_, ?_, ?_, ?_, ?_⟩ <;> decide +kernel

lemma fits_emptyFiles_border : Fits (emptyFiles 62) := by
  refine ⟨?_, ?_, ?_, ?_, ?_, ?_⟩ <;> decide +kernel

theorem mkfs_wellFormed_one : ∃ s, mkfs (emptyFiles 1) = .ok s ∧ WellFormed s := by
  obtain ⟨s, hs, -⟩ := fits_emptyFiles_one.mkfs
  exact ⟨s, hs, (mkfs_wellFormed_iff hs).mpr (by decide)⟩

theorem mkfs_not_wellFormed : ∃ s, mkfs (emptyFiles 62) = .ok s ∧ ¬WellFormed s := by
  obtain ⟨s, hs, hfinal⟩ := fits_emptyFiles_border.mkfs
  refine ⟨s, hs, fun hw => ?_⟩
  exact (hfinal.wellFormed_iff (by decide)).mp hw (by decide)
end Xv6.Mkfs
