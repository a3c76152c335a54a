import Xv6.Fs.Fsck

namespace Xv6.Fs
open State Lib List

@[ext]
structure Info where
  total_files : Nat
  total_dirs : Nat
  total_inodes : Nat
  free_blocks : Nat
  deriving DecidableEq

def incr (n : Nat) : Nat := (n + 1) % 2 ^ 32

def Info.tally (info : Info) (type : Nat) : Info :=
  if type ≠ 0 then
    let info := { info with total_inodes := incr info.total_inodes }
    if type = tFile then { info with total_files := incr info.total_files }
    else if type = tDir then { info with total_dirs := incr info.total_dirs }
    else info
  else info

variable (sb : Superblock) (d : Disk)

def inodeLoop (bp : Block) (b : Nat) : List Nat → Info → Info
  | [], info => info
  | i :: is, info =>
    if sb.ninodes ≤ (b * ipb + i) % 2 ^ 32 then info
    else inodeLoop bp b is (info.tally (Dinode.read bp i).type)

def inodeScan : List Nat → Info → Info
  | [], info => info
  | b :: bs, info => inodeScan bs (inodeLoop sb (d (sb.inodestart + b)) b (range ipb) info)

def bitLoop (bp : Block) (b : Nat) : List Nat → Info → Info
  | [], info => info
  | i :: is, info =>
    if (b + i) % 2 ^ 32 < sb.size then
      bitLoop bp b is
        (if bp.getBit i = false then { info with free_blocks := incr info.free_blocks } else info)
    else info

def bitmapScan : Nat → Nat → Info → Info
  | 0, _, info => info
  | fuel + 1, b, info =>
    if b < sb.size then
      bitmapScan fuel ((b + bpb) % 2 ^ 32) (bitLoop sb (d (sb.bblock b)) b (range bpb) info)
    else info

def ninodeblocks : Nat := (sb.ninodes + ipb - 1) % 2 ^ 32 / ipb

def fsinfo : Info :=
  bitmapScan sb d (sb.size / bpb + 1) 0 (inodeScan sb d (range (ninodeblocks sb)) ⟨0, 0, 0, 0⟩)

def sysFsinfo (copied : Bool) : FsM (Int × Option Info) := do
  let s ← get
  if copied then return (0, some (fsinfo sb s.disk)) else return (-1, none)

def inodesBelow (n : Nat) : Info where
  total_files := Nat.count (fun i => (sb.dinode d i).type = tFile) n
  total_dirs := Nat.count (fun i => (sb.dinode d i).type = tDir) n
  total_inodes := Nat.count (fun i => (sb.dinode d i).type ≠ 0) n
  free_blocks := 0

def countsBelow (n : Nat) : Info :=
  { inodesBelow sb d sb.ninodes with
    free_blocks := Nat.count (fun b => sb.bit d b = false) n }

variable {sb d} {b i j k n : Nat}

lemma incr_count {p : Nat → Prop} [DecidablePred p] (h : n < 2 ^ 32 - 1) :
    incr (Nat.count p n) = Nat.count p n + 1 := by
  have hle := Nat.count_le (p := p) (n := n)
  exact Nat.mod_eq_of_lt (by omega)

lemma tally_inodesBelow (h : n < 2 ^ 32 - 1) :
    (inodesBelow sb d n).tally (sb.dinode d n).type = inodesBelow sb d (n + 1) := by
  have hfd : tFile ≠ tDir := by decide
  have hf0 : tFile ≠ 0 := by decide
  have hd0 : tDir ≠ 0 := by decide
  simp only [Info.tally, inodesBelow, Nat.count_succ, incr_count h]
  by_cases h0 : (sb.dinode d n).type = 0
  · simp [h0, hf0.symm, hd0.symm]
  by_cases hf : (sb.dinode d n).type = tFile
  · simp [hf, hf0, hfd]
  by_cases hd : (sb.dinode d n).type = tDir
  · simp [hd, hd0, hfd.symm]
  simp [h0, hf, hd]

lemma dinode_of_place (hi : i < ipb) :
    sb.dinode d (b * ipb + i) = .read (d (sb.inodestart + b)) i := by
  have hdiv : (b * ipb + i) / ipb = b := by
    rw [ipb_eq] at hi ⊢
    omega
  have hmod : (b * ipb + i) % ipb = i := by
    rw [ipb_eq] at hi ⊢
    omega
  rw [Superblock.dinode, Superblock.iblock, hdiv, hmod, add_comm]

lemma inodeLoop_eq (sb : Superblock) (d : Disk) (hb : b * ipb + ipb < 2 ^ 32 - 1) :
    ∀ k j, j + k ≤ ipb → inodeLoop sb (d (sb.inodestart + b)) b (range' j k)
          (inodesBelow sb d (min (b * ipb + j) sb.ninodes)) =
        inodesBelow sb d (min (b * ipb + (j + k)) sb.ninodes) := by
  intro k
  induction k with
  | zero => exact fun _ _ => rfl
  | succ k ih =>
    intro j hj
    rw [range'_succ, inodeLoop, Nat.mod_eq_of_lt (by omega : b * ipb + j < 2 ^ 32)]
    by_cases hend : sb.ninodes ≤ b * ipb + j
    · rw [if_pos hend, min_eq_right hend, min_eq_right (by omega)]
    have hlt : b * ipb + j < sb.ninodes := not_le.mp hend
    rw [if_neg hend, min_eq_left hlt.le, ← dinode_of_place (by omega), tally_inodesBelow (by omega)]
    have hnext := ih (j + 1) (by omega)
    rwa [min_eq_left (by omega), add_right_comm j 1 k] at hnext

lemma inodeScan_eq (sb : Superblock) (d : Disk) : ∀ k b, (b + k) * ipb < 2 ^ 32 - 1 →
      inodeScan sb d (range' b k) (inodesBelow sb d (min (b * ipb) sb.ninodes)) =
        inodesBelow sb d (min ((b + k) * ipb) sb.ninodes) := by
  intro k
  induction k with
  | zero => exact fun _ _ => rfl
  | succ k ih =>
    intro b hb
    have hround : (b + 1) * ipb = b * ipb + ipb := Nat.succ_mul b ipb
    have hle : (b + 1) * ipb ≤ (b + (k + 1)) * ipb := Nat.mul_le_mul_right _ (by omega)
    have hloop := inodeLoop_eq sb d (b := b) (by omega) ipb 0 (by omega)
    rw [add_zero, zero_add, ← hround, ← range_eq_range'] at hloop
    have hrest : (b + 1 + k) * ipb < 2 ^ 32 - 1 := by
      rw [add_right_comm]
      exact hb
    rw [range'_succ, inodeScan, hloop, ih (b + 1) hrest, add_right_comm, add_assoc]

lemma bit_of_place (hb : b % bpb = 0) (hi : i < bpb) :
    sb.bit d (b + i) = (d (sb.bblock b)).getBit i := by
  have hdiv : (b + i) / bpb = b / bpb := by
    rw [bpb_eq] at *
    omega
  have hmod : (b + i) % bpb = i := by
    rw [bpb_eq] at *
    omega
  rw [Superblock.bit, Superblock.bblock, hdiv, hmod, Superblock.bblock]

lemma countsBelow_succ (h : n < 2 ^ 32 - 1) : countsBelow sb d (n + 1) =
      if sb.bit d n = false then
        { countsBelow sb d n with free_blocks := incr (countsBelow sb d n).free_blocks }
      else countsBelow sb d n := by
  simp only [countsBelow, Nat.count_succ, incr_count h]
  split <;> rfl

lemma bitLoop_eq (sb : Superblock) (d : Disk) (hb : b + bpb < 2 ^ 32 - 1) (hstart : b % bpb = 0) :
    ∀ k j, j + k ≤ bpb →
      bitLoop sb (d (sb.bblock b)) b (range' j k) (countsBelow sb d (min (b + j) sb.size)) =
        countsBelow sb d (min (b + (j + k)) sb.size) := by
  intro k
  induction k with
  | zero => exact fun _ _ => rfl
  | succ k ih =>
    intro j hj
    rw [range'_succ, bitLoop, Nat.mod_eq_of_lt (by omega : b + j < 2 ^ 32)]
    by_cases hlt : b + j < sb.size
    · rw [if_pos hlt, min_eq_left hlt.le, ← bit_of_place hstart (by omega),
        ← countsBelow_succ (by omega)]
      have hnext := ih (j + 1) (by omega)
      rwa [min_eq_left (by omega), add_right_comm j 1 k] at hnext
    rw [if_neg hlt, min_eq_right (by omega), min_eq_right (by omega)]

lemma bitmapScan_eq (d : Disk) (hs : sb.size < 2 ^ 30) :
    ∀ fuel b, b % bpb = 0 → b ≤ sb.size + bpb → sb.size ≤ b + fuel * bpb →
      bitmapScan sb d fuel b (countsBelow sb d (min b sb.size)) = countsBelow sb d sb.size := by
  have hbpb : bpb = 8192 := bpb_eq
  intro fuel
  induction fuel with
  | zero =>
    intro b _ _ hend
    rw [bitmapScan, min_eq_right (by omega)]
  | succ fuel ih =>
    intro b hmod hle hend
    rw [bitmapScan]
    by_cases hlt : b < sb.size
    · have hloop := bitLoop_eq sb d (by omega) hmod bpb 0 (by omega)
      rw [add_zero, zero_add, ← range_eq_range'] at hloop
      rw [if_pos hlt, hloop, Nat.mod_eq_of_lt (by omega)]
      have hnext : (b + bpb) % bpb = 0 := by rw [Nat.add_mod_right, hmod]
      exact ih (b + bpb) hnext (by omega) (by rw [Nat.succ_mul] at hend; omega)
    rw [if_neg hlt, min_eq_right (by omega)]

lemma fsinfo_eq (hn : sb.ninodes < 2 ^ 30) (hs : sb.size < 2 ^ 30) :
    fsinfo sb d = countsBelow sb d sb.size := by
  have hipb : ipb = 16 := ipb_eq
  have hbpb : bpb = 8192 := bpb_eq
  have hblocks : ninodeblocks sb = (sb.ninodes + 15) / 16 := by
    unfold ninodeblocks
    rw [hipb, Nat.mod_eq_of_lt (by omega)]
    rfl
  have hinodes := inodeScan_eq sb d (ninodeblocks sb) 0 (by rw [hblocks, hipb]; omega)
  rw [zero_mul, Nat.zero_min, zero_add, ← range_eq_range',
    min_eq_right (by rw [hblocks, hipb]; omega)] at hinodes
  have hbits := bitmapScan_eq d hs (sb.size / bpb + 1) 0 rfl (by omega) (by rw [hbpb]; omega)
  rw [Nat.zero_min] at hbits
  have hzero : inodesBelow sb d 0 = ⟨0, 0, 0, 0⟩ := rfl
  have hstart : countsBelow sb d 0 = inodesBelow sb d sb.ninodes := rfl
  rw [fsinfo, ← hzero, hinodes, ← hstart, hbits]

def times {α : Type} (m : FsM α) : Nat → FsM (List α)
  | 0 => return []
  | n + 1 => do
    let a ← m
    let as ← times m n
    return a :: as

def iallocPut (sb : Superblock) (type : Nat) : FsM Bool := do
  let r ← ialloc sb type
  match r with
  | none => return false
  | some ip =>
    iput sb ip
    return true

variable {s t : State} {E : Panic → Prop} {ip : Fin ninode} {type : Nat}

lemma wp_times {α : Type} {m : FsM α} {P : Nat → State → Prop} {R : α → Prop}
    (hstep : ∀ n s, P (n + 1) s → wp m s (fun a t => R a ∧ P n t) E) :
    ∀ k n s, P (n + k) s → wp (times m k) s
      (fun as t => as.length = k ∧ (∀ a ∈ as, R a) ∧ P n t) E := by
  intro k
  induction k with
  | zero => exact fun n s h => wp_pure.mpr ⟨rfl, by simp, h⟩
  | succ k ih =>
    intro n s h
    refine wp_bind_of (hstep (n + k) s h) fun a t ht => ?_
    refine wp_bind_of (ih n t ht.2) fun as u hu => wp_pure.mpr ⟨by simp [hu.1], ?_, hu.2.2⟩
    exact forall_mem_cons.mpr ⟨ht.1, hu.2.1⟩

def freeBlocks (sb : Superblock) (d : Disk) : Nat := Nat.count (fun b => sb.bit d b = false) sb.size

def MapUsed (sb : Superblock) (d : Disk) : Prop :=
  ∀ b < sb.size, (b = 0 ∨ ∃ c < sb.size, b = sb.bblock c) → sb.bit d b

lemma bit_alloc_of_mapUsed (h : MapUsed sb s.disk) (hb : b < sb.size)
    (hfree : sb.bit s.disk b = false) {c : Nat} (hc : c < sb.size) :
    sb.bit (s.alloc sb b).disk c = (decide (c = b) || sb.bit s.disk c) := by
  have hne : sb.bblock c ≠ b := fun e => by
    rw [h b hb (.inr ⟨c, hc, e.symm⟩)] at hfree
    cases hfree
  have hzero : (s.alloc sb b).disk (sb.bblock c) =
      Function.update s.disk (sb.bblock b) ((s.disk (sb.bblock b)).setBit (b % bpb))
        (sb.bblock c) := disk_logWrite_of_ne hne
  rw [Superblock.bit_congr hzero, Superblock.bit_setBit]

lemma count_update {p q : Nat → Prop} [DecidablePred p] [DecidablePred q] (hb : b < n)
    (hp : p b) (hq : ∀ c < n, (q c ↔ p c ∧ c ≠ b)) : Nat.count q n + 1 = Nat.count p n := by
  rw [Nat.count_eq_card_filter_range, Nat.count_eq_card_filter_range]
  have hset : (Finset.range n).filter q = ((Finset.range n).filter p).erase b := by
    ext c
    simp only [Finset.mem_filter, Finset.mem_range, Finset.mem_erase]
    constructor
    · exact fun h => ⟨((hq c h.1).mp h.2).2, h.1, ((hq c h.1).mp h.2).1⟩
    exact fun h => ⟨h.2.1, (hq c h.2.1).mpr ⟨h.2.2, h.1⟩⟩
  have hmem : b ∈ (Finset.range n).filter p := by simp [hb, hp]
  rw [hset, Finset.card_erase_add_one hmem]

section
variable (h : MapUsed sb s.disk) (hb : b < sb.size) (hfree : sb.bit s.disk b = false)
include h hb hfree

lemma freeBlocks_alloc : freeBlocks sb (s.alloc sb b).disk + 1 = freeBlocks sb s.disk :=
  count_update hb hfree fun c hc => by
    rw [bit_alloc_of_mapUsed h hb hfree hc]
    simp [and_comm]

lemma MapUsed.alloc : MapUsed sb (s.alloc sb b).disk := by
  intro c hc hmap
  rw [bit_alloc_of_mapUsed h hb hfree hc, h c hc hmap, Bool.or_true]
end

lemma exists_of_freeBlocks (h : 0 < freeBlocks sb s.disk) :
    ∃ b < sb.size, sb.bit s.disk b = false := by
  by_contra hnone
  push Not at hnone
  have hzero : freeBlocks sb s.disk = 0 := by
    rw [freeBlocks, Nat.count_eq_card_filter_range, Finset.card_eq_zero, Finset.filter_eq_empty_iff]
    exact fun b hb => hnone b (Finset.mem_range.mp hb)
  omega

lemma wp_balloc_of_mapUsed (h : MapUsed sb s.disk) (hpos : freeBlocks sb s.disk = n + 1) :
    wp (balloc sb) s (fun b t => b ≠ 0 ∧ freeBlocks sb t.disk = n ∧ MapUsed sb t.disk) E := by
  obtain ⟨c, hc, hcfree⟩ := exists_of_freeBlocks (by omega : 0 < freeBlocks sb s.disk)
  refine wp_balloc (h 0 (by omega) (.inl rfl)) (fun hex => ?_) fun b hb hlt hfree => ?_
  · rw [hex c hc] at hcfree
    cases hcfree
  have hcount := freeBlocks_alloc h hlt hfree
  exact ⟨hb, by omega, h.alloc hlt hfree⟩

lemma balloc_of_freeBlocks (h : freeBlocks sb s.disk = 0) : balloc sb s = .ok (0, s) := by
  have hnone : ∀ b < sb.size, sb.bit s.disk b ≠ false := by
    rw [freeBlocks, Nat.count_eq_card_filter_range, Finset.card_eq_zero,
      Finset.filter_eq_empty_iff] at h
    exact fun b hb => h (Finset.mem_range.mpr hb)
  have hf : (range sb.size).find? (fun b => !sb.bit s.disk b) = none := by
    refine find?_eq_none.mpr fun b hb => ?_
    simpa using hnone b (mem_range.mp hb)
  rw [balloc, bind_of_ok (rfl : (MonadState.get : FsM State) s = .ok (s, s)), hf]
  rfl

def freeInodes (sb : Superblock) (d : Disk) : Nat :=
  Nat.count (fun i => i ≠ 0 ∧ (sb.dinode d i).type = 0) sb.ninodes

lemma freeInodes_eq (h0 : (sb.dinode d 0).type = 0) :
    freeInodes sb d = sb.ninodes - 1 - Nat.count (fun i => (sb.dinode d i).type ≠ 0) sb.ninodes :=
      by
  rcases Nat.eq_zero_or_pos sb.ninodes with hz | hpos
  · rw [freeInodes, hz]
    rfl
  have hone : freeInodes sb d + 1 = Nat.count (fun i => (sb.dinode d i).type = 0) sb.ninodes :=
    count_update hpos h0 fun c _ => and_comm
  have hall : ∀ n, Nat.count (fun i => (sb.dinode d i).type = 0) n +
      Nat.count (fun i => (sb.dinode d i).type ≠ 0) n = n := by
    intro n
    induction n with
    | zero => rfl
    | succ n ih =>
      rw [Nat.count_succ, Nat.count_succ]
      by_cases h : (sb.dinode d n).type = 0
      · rw [if_pos h, if_neg (not_not.mpr h)]
        omega
      rw [if_neg h, if_pos h]
      omega
  have := hall sb.ninodes
  omega

def State.Room (s : State) : Prop := ∃ k, (s.itable k).ref = 0

lemma wp_iget_of_room (h : s.Room) : wp (iget i) s (fun ip t => t.disk = s.disk ∧
      (∀ k, (t.itable k).ref = (s.itable k).ref + if k = ip then 1 else 0) ∧
      ((t.itable ip).ref = 1 → (t.itable ip).valid = false)) E := by
  have hrefs : ∀ (ip : Fin ninode) (e : Inode), e.ref = (s.itable ip).ref + 1 →
      ∀ k, ((s.setInode ip e).itable k).ref = (s.itable k).ref + if k = ip then 1 else 0 := by
    intro ip e he k
    show (Function.update s.itable ip e k).ref = _
    by_cases hk : k = ip
    · rw [hk, Function.update_self, he, if_pos rfl]
    rw [Function.update_of_ne hk, if_neg hk]
    rfl
  unfold iget
  rw [wp_bind, wp_get]
  cases hf : (finRange ninode).find? fun k => 0 < (s.itable k).ref ∧ (s.itable k).inum = i with
  | some ip =>
    have hip : 0 < (s.itable ip).ref ∧ (s.itable ip).inum = i := by simpa using find?_some hf
    simp only [wp_bind, wp_setInode, wp_pure]
    have hself := hrefs ip { s.itable ip with ref := (s.itable ip).ref + 1 } rfl
    refine ⟨rfl, hself, fun h1 => ?_⟩
    rw [hself ip, if_pos rfl] at h1
    omega
  | none =>
    dsimp only
    cases hf' : (finRange ninode).find? fun k => (s.itable k).ref = 0 with
    | none =>
      obtain ⟨k, hk⟩ := h
      have := find?_eq_none.mp hf' k (mem_finRange k)
      simp [hk] at this
    | some ip =>
      have h0 : (s.itable ip).ref = 0 := by simpa using find?_some hf'
      simp only [wp_bind, wp_setInode, wp_pure]
      refine ⟨rfl, hrefs ip _ (by rw [h0]), fun _ => ?_⟩
      show (Function.update s.itable ip _ ip).valid = false
      rw [Function.update_self]

lemma freeInodes_putDinode {x : Dinode} (hx : x.Fits) (hne : x.type ≠ 0) (hi0 : i ≠ 0)
    (hi : i < sb.ninodes) (hfree : (sb.dinode d i).type = 0) :
    freeInodes sb (Function.update d (sb.iblock i) (sb.putDinode d i x)) + 1 = freeInodes sb d := by
  refine count_update hi ⟨hi0, hfree⟩ fun c _ => ?_
  rw [Superblock.dinode_putDinode hx]
  by_cases hc : c = i
  · simp [hc, hne]
  simp [hc]

lemma exists_of_freeInodes (h : 0 < freeInodes sb d) :
    ∃ i, 0 < i ∧ i < sb.ninodes ∧ (sb.dinode d i).type = 0 := by
  by_contra hnone
  push Not at hnone
  have hzero : freeInodes sb d = 0 := by
    rw [freeInodes, Nat.count_eq_card_filter_range, Finset.card_eq_zero, Finset.filter_eq_empty_iff]
    exact fun i hi hp => hnone i (Nat.pos_of_ne_zero hp.1) (Finset.mem_range.mp hi) hp.2
  omega

lemma room_of_refs (h : s.Room) (hrefs : ∀ k, (t.itable k).ref = (s.itable k).ref) : t.Room := by
  obtain ⟨k, hk⟩ := h
  exact ⟨k, by rw [hrefs, hk]⟩

lemma wp_iallocPut (h : s.Room) (ht : type ≠ 0) (hlt : type < 2 ^ 16)
    (hpos : freeInodes sb s.disk = n + 1) :
    wp (iallocPut sb type) s (fun r t => r = true ∧ freeInodes sb t.disk = n ∧ t.Room) E := by
  obtain ⟨c, hc0, hc, hcfree⟩ := exists_of_freeInodes (by omega : 0 < freeInodes sb s.disk)
  unfold iallocPut ialloc
  rw [wp_bind, wp_bind, wp_get]
  cases hf : (range' 1 (sb.ninodes - 1)).find? fun i => (sb.dinode s.disk i).type = 0 with
  | none =>
    have := find?_eq_none.mp hf c (mem_range'_1.mpr (by omega))
    simp [hcfree] at this
  | some i =>
    have hfree : (sb.dinode s.disk i).type = 0 := by simpa using find?_some hf
    have hmem := mem_range'_1.mp (mem_of_find?_eq_some hf)
    simp only [wp_bind, wp_logWrite, wp_pure]
    have hfits : ({ Dinode.zero with type := type } : Dinode).Fits :=
      ⟨hlt, Nat.two_pow_pos _, Nat.two_pow_pos _, Nat.two_pow_pos _, Nat.two_pow_pos _,
        fun _ => Nat.two_pow_pos _⟩
    have hcount := freeInodes_putDinode hfits ht (by omega) (by omega) hfree
    refine wp_imp (wp_iget_of_room h) fun ip t ht => ?_
    obtain ⟨hdisk, hrefs, hvalid⟩ := ht
    have hkeep : ¬((t.itable ip).ref = 1 ∧ (t.itable ip).valid = true ∧
        (t.itable ip).copy.nlink = 0) := fun hc => by
      rw [hvalid hc.1] at hc
      cases hc.2.1
    simp only [iput, wp_bind, wp_inode, if_neg hkeep, wp_pure, wp_setInode]
    refine ⟨trivial, ?_, room_of_refs h fun k => ?_⟩
    · show freeInodes sb t.disk = n
      rw [hdisk]
      exact Nat.succ.inj (hcount.trans hpos)
    show (Function.update t.itable ip _ k).ref = _
    by_cases hk : k = ip
    · rw [hk, Function.update_self]
      have := hrefs ip
      rw [if_pos rfl] at this
      show (t.itable ip).ref - 1 = _
      rw [this]
      rfl
    rw [Function.update_of_ne hk, hrefs, if_neg hk]
    rfl

lemma iallocPut_of_freeInodes (h : freeInodes sb s.disk = 0) :
    iallocPut sb type s = .ok (false, s) := by
  have hnone : ∀ i < sb.ninodes, ¬(i ≠ 0 ∧ (sb.dinode s.disk i).type = 0) := by
    rw [freeInodes, Nat.count_eq_card_filter_range, Finset.card_eq_zero,
      Finset.filter_eq_empty_iff] at h
    exact fun i hi => h (Finset.mem_range.mpr hi)
  have hf : (range' 1 (sb.ninodes - 1)).find? (fun i => (sb.dinode s.disk i).type = 0) =
      none := by
    refine find?_eq_none.mpr fun i hi => ?_
    have hmem := mem_range'_1.mp hi
    simpa using fun h0 => hnone i (by omega) ⟨by omega, h0⟩
  have hialloc : ialloc sb type s = .ok (none, s) := by
    rw [ialloc, bind_of_ok (rfl : (MonadState.get : FsM State) s = .ok (s, s)), hf]
    rfl
  rw [iallocPut, bind_of_ok hialloc]
  rfl

theorem fsinfo_agrees (hn : sb.ninodes < 2 ^ 30) (hs : sb.size < 2 ^ 30) :
    (∃ info, sysFsinfo sb true s = .ok ((0, some info), s) ∧ info = fsinfo sb s.disk ∧
      info.total_inodes = Nat.count (fun i => (sb.dinode s.disk i).type ≠ 0) sb.ninodes ∧
      info.total_files = Nat.count (fun i => (sb.dinode s.disk i).type = tFile) sb.ninodes ∧
      info.total_dirs = Nat.count (fun i => (sb.dinode s.disk i).type = tDir) sb.ninodes ∧
      info.free_blocks = Nat.count (fun b => sb.bit s.disk b = false) sb.size) ∧
    (MapUsed sb s.disk → ∀ k, k ≤ (fsinfo sb s.disk).free_blocks →
      ∃ bs t, times (balloc sb) k s = .ok (bs, t) ∧ bs.length = k ∧ (∀ b ∈ bs, b ≠ 0) ∧
        (fsinfo sb t.disk).free_blocks + k = (fsinfo sb s.disk).free_blocks ∧
        (k = (fsinfo sb s.disk).free_blocks → balloc sb t = .ok (0, t))) ∧
    ((sb.dinode s.disk 0).type = 0 → s.Room → ∀ type, type ≠ 0 → type < 2 ^ 16 →
      ∀ k, k ≤ sb.ninodes - 1 - (fsinfo sb s.disk).total_inodes →
        ∃ rs t, times (iallocPut sb type) k s = .ok (rs, t) ∧ rs = replicate k true ∧
          (k = sb.ninodes - 1 - (fsinfo sb s.disk).total_inodes →
            iallocPut sb type t = .ok (false, t))) := by
  refine ⟨⟨fsinfo sb s.disk, rfl, rfl, ?_⟩, fun hmap k hk => ?_,
    fun h0 hroom type ht hlt k hk => ?_⟩
  · rw [fsinfo_eq hn hs]
    exact ⟨rfl, rfl, rfl, rfl⟩
  · have hfree : ∀ d, (fsinfo sb d).free_blocks = freeBlocks sb d := fun d => by
      rw [fsinfo_eq hn hs]
      rfl
    rw [hfree] at hk
    obtain ⟨bs, t, hrun, hlen, hbs, hleft, -⟩ := wp_total
      (wp_times (P := fun n s => freeBlocks sb s.disk = n ∧ MapUsed sb s.disk) (R := (· ≠ 0))
        (fun n s h => wp_balloc_of_mapUsed h.2 h.1) k (freeBlocks sb s.disk - k) s
        ⟨by omega, hmap⟩)
    refine ⟨bs, t, hrun, hlen, hbs, by rw [hfree, hfree]; omega, fun hall => ?_⟩
    rw [hfree] at hall
    exact balloc_of_freeBlocks (by omega)
  have hfree : sb.ninodes - 1 - (fsinfo sb s.disk).total_inodes = freeInodes sb s.disk := by
    rw [fsinfo_eq hn hs, freeInodes_eq h0]
    rfl
  rw [hfree] at hk ⊢
  obtain ⟨rs, t, hrun, hlen, hrs, hleft, -⟩ := wp_total
    (wp_times (P := fun n s => freeInodes sb s.disk = n ∧ s.Room) (R := (· = true))
      (fun n s h => wp_iallocPut h.2 ht hlt h.1) k (freeInodes sb s.disk - k) s
      ⟨by omega, hroom⟩)
  refine ⟨rs, t, hrun, eq_replicate_iff.mpr ⟨hlen, hrs⟩, fun hall => ?_⟩
  exact iallocPut_of_freeInodes (by omega)

theorem fsinfo_agrees_tiny : MapUsed tiny (tinyDisk .zero) ∧ (boot (tinyDisk .zero)).Room ∧
      (fsinfo tiny (tinyDisk .zero)).free_blocks = 2 ∧
      (∃ bs t, times (balloc tiny) 2 (boot (tinyDisk .zero)) = .ok (bs, t) ∧ bs.length = 2 ∧
        balloc tiny t = .ok (0, t)) ∧
      ∃ rs t, times (iallocPut tiny tFile) 1 (boot (tinyDisk .zero)) = .ok (rs, t) ∧
        rs = [true] ∧ iallocPut tiny tFile t = .ok (false, t) := by
  have hmap : MapUsed tiny (tinyDisk .zero) := by
    intro b hb hmap
    have hlow : b = 0 ∨ b = 3 := hmap.imp_right fun ⟨c, hc, e⟩ => by
      have hc : c < 6 := hc
      rw [e, Superblock.bblock, bpb_eq, Nat.div_eq_of_lt (by omega)]
      rfl
    rcases hlow with rfl | rfl <;> decide +kernel
  have hinfo : fsinfo tiny (tinyDisk .zero) = ⟨0, 0, 0, 2⟩ := by
    rw [fsinfo_eq (by decide) (by decide)]
    decide +kernel
  have hroom : (boot (tinyDisk .zero)).Room := ⟨entry0, rfl⟩
  obtain ⟨-, hballoc, hialloc⟩ := @fsinfo_agrees tiny (boot (tinyDisk .zero))
    (by decide) (by decide)
  have hdisk : (boot (tinyDisk .zero)).disk = tinyDisk .zero := rfl
  rw [hdisk, hinfo] at hballoc hialloc
  obtain ⟨bs, t, hrun, hlen, -, -, hlast⟩ := hballoc hmap 2 (by decide)
  obtain ⟨rs, u, hrun', hrs, hlast'⟩ :=
    hialloc (by decide +kernel) hroom tFile (by decide) (by decide) 1 (by decide)
  exact ⟨hmap, hroom, by rw [hinfo], ⟨bs, t, hrun, hlen, hlast rfl⟩,
    ⟨rs, u, hrun', hrs, hlast' rfl⟩⟩
end Xv6.Fs
