import Xv6.Fs.Dir
import Xv6.Lib.Machine

namespace Xv6.Fs
open State Lib
variable {sb : Superblock} {s t : State} {ip : Fin ninode} {d : Disk}

/-- The block-ownership invariant. -/
structure Fsck (sb : Superblock) (s : State) : Prop where
  inData : ∀ p, s.slot sb p ≠ 0 → sb.InData (s.slot sb p)
  once : ∀ p q, s.slot sb p ≠ 0 → s.slot sb p = s.slot sb q → p = q
  bitmap : ∀ b, sb.InData b → (sb.bit s.disk b ↔ ∃! p, s.slot sb p = b)

lemma Owned.fsck (h : Owned sb s []) : Fsck sb s := by
  refine ⟨h.ledger.slot_area, h.ledger.inj, fun b hb => ?_⟩
  rw [h.ledger.taken_iff b hb]
  constructor
  · rintro (hspare | ⟨p, hp⟩)
    · exact absurd hspare List.not_mem_nil
    have hne : s.slot sb p ≠ 0 := fun h0 => h.ledger.zero (by rwa [← h0, hp])
    exact ⟨p, hp, fun q hq => (h.ledger.inj p q hne (hp.trans hq.symm)).symm⟩
  rintro ⟨p, hp, -⟩
  exact .inr ⟨p, hp⟩

def boot (d : Disk) : State where
  disk := d
  itable := fun _ => ⟨0, 0, false, .zero⟩
  unlogged := []
  logged := []

lemma not_open_boot {k : Fin ninode} {i : Nat} : ¬(boot d).Open k i :=
  fun h => lt_irrefl 0 h.1

lemma table_boot : Table (boot d) sb :=
  ⟨fun _ _ hk => absurd hk (lt_irrefl 0), fun _ _ hk => absurd hk not_open_boot,
    fun _ _ hk => absurd hk not_open_boot⟩

structure Image (sb : Superblock) (d : Disk) : Prop where
  layout : sb.Ok
  fsck : Fsck sb (boot d)
  low : ∀ b < sb.dataStart, sb.bit d b
  full : ∀ i < sb.ninodes, (sb.dinode d i).type ≠ 0 → (boot d).Full sb i (sb.dinode d i).size

lemma Image.good (h : Image sb d) : Good sb (boot d) := by
  have hpos := h.layout.dataStart_pos
  have hzero : ¬sb.InData 0 := fun h0 => by
    have := h0.1
    omega
  refine ⟨⟨table_boot, ⟨hzero, h.fsck.inData, h.fsck.once, ?_, ?_, List.nodup_nil, fun b hb => ?_⟩,
    h.low,
    fun b hb => absurd hb List.not_mem_nil⟩, fun _ _ hk => absurd hk not_open_boot,
    fun _ _ hk => absurd hk not_open_boot, fun i hi ht => ?_⟩
  · exact fun b hb => absurd hb List.not_mem_nil
  · exact fun b hb => absurd hb List.not_mem_nil
  · rw [h.fsck.bitmap b hb]
    exact ⟨fun ⟨p, hp, _⟩ => .inr ⟨p, hp⟩, fun hex => by
      rcases hex with hmem | ⟨p, hp⟩
      · exact absurd hmem List.not_mem_nil
      have hne : (boot d).slot sb p ≠ 0 := fun h0 => hzero (by rwa [← h0, hp])
      exact ⟨p, hp, fun q hq => (h.fsck.once p q hne (hp.trans hq.symm)).symm⟩⟩
  rw [ino_of_closed (fun _ => not_open_boot)] at ht ⊢
  exact h.full i hi ht

inductive Op where
  | ialloc (type : Nat)
  | iget (inum : Nat)
  | idup (ip : Fin ninode)
  | ilock (ip : Fin ninode)
  | iput (ip : Fin ninode)
  | update (ip : Fin ninode) (major minor nlink : Nat)
  | readi (ip : Fin ninode) (dst : Nat → Option Unit) (off n : Nat)
  | writei (ip : Fin ninode) (src : Nat → Option UInt8) (off n : Nat)
  | itrunc (ip : Fin ninode)
  | dirlookup (dp : Fin ninode) (name : Name)
  | dirlink (dp : Fin ninode) (name : Name) (inum : Nat)
  | ireclaim
  | recycle (b : Nat) (v : Block)
  | reboot

def State.Held (s : State) (ip : Fin ninode) : Prop :=
  0 < (s.itable ip).ref ∧ (s.itable ip).valid

def Ready (sb : Superblock) (s : State) : Op → Prop
  | .ialloc type => type < 2 ^ 16
  | .iget _ => True
  | .idup ip | .iput ip => 0 < (s.itable ip).ref
  | .ilock ip => 0 < (s.itable ip).ref ∧ (s.itable ip).inum < sb.ninodes
  | .update ip major minor nlink => s.Held ip ∧ major < 2 ^ 16 ∧ minor < 2 ^ 16 ∧ nlink < 2 ^ 16
  | .readi ip _ _ _ | .writei ip _ _ _ | .itrunc ip | .dirlookup ip _ | .dirlink ip _ _ => s.Held ip
  | .ireclaim => True
  | .recycle b _ => b ∈ s.unlogged
  | .reboot => s.unlogged = []

instance (s : State) (ip : Fin ninode) : Decidable (s.Held ip) :=
  inferInstanceAs (Decidable (_ ∧ _))

instance (sb : Superblock) (s : State) : (op : Op) → Decidable (Ready sb s op)
  | .ialloc type => inferInstanceAs (Decidable (type < 2 ^ 16))
  | .iget _ | .ireclaim => inferInstanceAs (Decidable True)
  | .idup ip | .iput ip => inferInstanceAs (Decidable (0 < (s.itable ip).ref))
  | .ilock _ => inferInstanceAs (Decidable (_ ∧ _))
  | .update ip _ _ _ => inferInstanceAs (Decidable (s.Held ip ∧ _))
  | .readi ip _ _ _ | .writei ip _ _ _ | .itrunc ip | .dirlookup ip _ | .dirlink ip _ _ =>
    inferInstanceAs (Decidable (s.Held ip))
  | .recycle b _ => inferInstanceAs (Decidable (b ∈ s.unlogged))
  | .reboot => inferInstanceAs (Decidable (s.unlogged = []))

def exec (sb : Superblock) : Op → FsM Unit
  | .ialloc type => discard (ialloc sb type)
  | .iget inum => discard (iget inum)
  | .idup ip => idup ip
  | .ilock ip => ilock sb ip
  | .iput ip => iput sb ip
  | .update ip major minor nlink =>
    update sb ip fun x => { x with major := major, minor := minor, nlink := nlink }
  | .readi ip dst off n => discard (readi sb ip dst off n)
  | .writei ip src off n => discard (writei sb ip src off n)
  | .itrunc ip => itrunc sb ip
  | .dirlookup dp name => discard (dirlookup sb dp name)
  | .dirlink dp name inum => discard (dirlink sb dp name inum)
  | .ireclaim => ireclaim sb
  | .recycle b v => logWrite b v
  | .reboot => modify fun s => boot s.disk

def next (sb : Superblock) (s : State) (op : Op) : Option State :=
  if Ready sb s op then
    match exec sb op s with
    | .ok (_, t) => some t
    | .error _ => none
  else none

lemma wp_discard {α : Type} {m : FsM α} {Q : Unit → State → Prop} {E : Panic → Prop} :
    wp (discard m) s Q E ↔ wp m s (fun _ t => Q () t) E := wp_map

lemma Good.recycle {b : Nat} {v : Block} (ok : sb.Ok) (h : Good sb s) (hb : b ∈ s.unlogged) :
    Good sb (s.logWrite b v) := by
  have hun := h.owned.unlogged b hb
  have hd : DataStep sb s (s.logWrite b v) b :=
    ⟨hun.1, hun.2, rfl, fun c hc => disk_logWrite_of_ne hc, fun c hc =>
      .inl (mem_unlogged_logWrite hc)⟩
  refine ⟨h.owned.data ok hd, h.typed, fun k i hk => ?_, fun i hi ht o ho => ?_⟩
  · rw [(hd.same ok).2 i (h.owned.table.lt k i hk)]
    exact h.synced k i hk
  rw [(hd.same ok).ino h.owned.table hi] at ht ho
  rw [hd.slot ok h.owned]
  exact h.full i hi ht o ho

lemma Good.reboot (h : Good sb s) (hun : s.unlogged = []) : Good sb (boot s.disk) := by
  refine (h.retable (t := boot s.disk) rfl hun.symm table_boot (fun i => ?_)
    (fun k i hk => absurd hk not_open_boot)).1
  rw [ino_of_closed (fun k => not_open_boot)]
  by_cases hex : ∃ k, s.Open k i
  · obtain ⟨k, hk⟩ := hex
    rw [ino_of_open h.owned.table hk, h.synced k i hk]
    rfl
  rw [ino_of_closed (not_exists.mp hex)]
  rfl

def Panic.OfBlocks (e : Panic) : Prop := e = .freeingFreeBlock ∨ e = .bmapOutOfRange

lemma wp_exec (ok : sb.Ok) (h : Good sb s) {op : Op} (hr : Ready sb s op) :
    wp (exec sb op) s (fun _ t => Good sb t) (¬·.OfBlocks) := by
  have hopen : ∀ {ip}, s.Held ip → s.Open ip (s.itable ip).inum := fun hh => ⟨hh.1, hh.2, rfl⟩
  cases op with
  | ialloc type =>
    refine wp_discard.mpr (wp_imp (wp_ialloc ok h hr (by simp [Panic.OfBlocks])) (fun r t ht => ?_))
    cases r with
    | none => exact ht ▸ h
    | some ip => exact ht.elim (fun _ hi => hi.good)
  | iget inum => exact wp_discard.mpr (wp_imp (wp_iget h (fun _ => (by simp [Panic.OfBlocks])))
      (fun _ _ ht => ht.good))
  | idup ip => exact wp_imp (wp_idup h hr) (fun _ _ ht => ht.good)
  | ilock ip =>
    exact wp_imp (wp_ilock h hr.1 hr.2 (fun _ => (by simp [Panic.OfBlocks]))) fun _ _ ht => ht.good
  | iput ip => exact wp_imp (wp_iput ok h hr) (fun _ _ ht => ht.1.good)
  | update ip major minor nlink =>
    obtain ⟨hheld, hmajor, hminor, hnlink⟩ := hr
    unfold exec
    refine wp_imp (wp_update ok h (hopen hheld) (fun x hx => ?_) (fun _ => ⟨rfl, rfl, rfl⟩))
      (fun _ _ ht => ht.good)
    exact ⟨hx.type, hmajor, hminor, hnlink, hx.size, hx.addrs⟩
  | readi ip dst off n =>
    exact wp_discard.mpr (wp_imp (wp_readi h (hopen hr)) (fun _ _ ht => ht.1 ▸ h))
  | writei ip src off n =>
    refine wp_discard.mpr (wp_imp (wp_writei ok h (hopen hr)) (fun _ t ht => ?_))
    rcases ht with ⟨-, rfl, -⟩ | ⟨_, _, -, -, -, -, -, -, -, hw⟩
    · exact h
    exact hw.good
  | itrunc ip => exact wp_imp (wp_itrunc ok h (hopen hr)) (fun _ _ ht => ht.good)
  | dirlookup dp name =>
    refine wp_discard.mpr (wp_imp (wp_dirlookup h (hopen hr) (fun _ => (by simp [Panic.OfBlocks]))
      (fun _ => (by simp [Panic.OfBlocks])) (fun _ => (by simp [Panic.OfBlocks])))
      (fun r t ht => ?_))
    cases r with
    | none => exact ht.1 ▸ h
    | some p => exact ht.2.good
  | dirlink dp name inum =>
    refine wp_discard.mpr (wp_imp (wp_dirlink ok h (hopen hr) (fun _ => (by simp [Panic.OfBlocks]))
      (by simp [Panic.OfBlocks]) (by simp [Panic.OfBlocks]) (by simp [Panic.OfBlocks]))
        (fun _ t ht => ?_))
    rcases ht with ⟨-, hg, -⟩ | ⟨_, _, -, -, -, hw⟩
    · exact hg
    exact hw.good
  | ireclaim => exact wp_ireclaim ok h (by simp [Panic.OfBlocks])
  | recycle b v => exact wp_logWrite.mpr (h.recycle ok hr)
  | reboot => exact wp_modify.mpr (h.reboot hr)

lemma good_of_next (ok : sb.Ok) (h : Good sb s) {op : Op} (hn : next sb s op = some t) :
    Good sb t := by
  unfold next at hn
  split at hn
  · rename_i hr
    cases he : exec sb op s with
    | ok r =>
      rw [he] at hn
      cases hn
      exact wp_ok (a := r.1) (wp_exec ok h hr) he
    | error e =>
      rw [he] at hn
      cases hn
  cases hn

lemma Image.good_of_run (h : Image sb d) {ops : List Op}
    (hrun : run (next sb) (boot d) ops = some s) : Good sb s :=
  run_invariant (fun _ _ _ h' hn => good_of_next h.layout h' hn) h.good hrun

theorem fsck_of_run {d : Disk} (h : Image sb d) {ops : List Op}
    (hrun : run (next sb) (boot d) ops = some s) :
    Fsck sb s ∧ ∀ op, Ready sb s op → exec sb op s ≠ .error .freeingFreeBlock := by
  have hgood := h.good_of_run hrun
  exact ⟨hgood.owned.fsck, fun op hr he => wp_error (wp_exec h.layout hgood hr) he (.inl rfl)⟩

lemma slot_eq_zero (haddr : ∀ i < sb.ninodes, ∀ k, (s.ino sb i).addrs k = 0)
    (p : Nat × Nat) : s.slot sb p = 0 := by
  unfold State.slot
  split
  · rename_i hp
    refine Dinode.slot_zero_addrs fun j => ?_
    unfold Dinode.addr
    split
    · exact haddr p.1 hp.1 _
    rfl
  rfl

lemma fsck_boot (haddr : ∀ i < sb.ninodes, ∀ k, (sb.dinode d i).addrs k = 0)
    (hpos : 0 < sb.dataStart)
    (hbit : ∀ b < sb.size, sb.dataStart ≤ b → sb.bit d b = false) : Fsck sb (boot d) := by
  have hslot : ∀ p, (boot d).slot sb p = 0 := slot_eq_zero fun i hi => by
    rw [ino_of_closed (fun _ => not_open_boot)]
    exact haddr i hi
  refine ⟨fun p hp => absurd (hslot p) hp, fun p q hp _ => absurd (hslot p) hp, fun b hb => ?_⟩
  rw [show (boot d).disk = d from rfl, hbit b hb.2 hb.1]
  refine iff_of_false nofun fun ⟨p, hp, _⟩ => ?_
  have := hb.1
  have := (hslot p).symm.trans hp
  omega

def tiny : Superblock := { size := 6, nblocks := 2, ninodes := 2, inodestart := 2, bmapstart := 3 }
lemma tiny_ok : tiny.Ok := ⟨by decide, by decide, by decide, by decide⟩

def tinyDisk (x : Dinode) : Disk := fun b =>
  if b = 3 then .ofBytes fun i => if i = 0 then 15 else 0
  else if b = 2 then x.write .zero 1
  else .zero

def entry0 : Fin ninode := ⟨0, by decide⟩
def oneByte : Nat → Option UInt8 := fun _ => some 7

lemma image_tiny : Image tiny (tinyDisk .zero) := by
  have htype : ∀ i < tiny.ninodes, (tiny.dinode (tinyDisk .zero) i).type = 0 := by decide +kernel
  exact ⟨tiny_ok, fsck_boot (by decide +kernel) (by decide) (by decide +kernel),
    by decide +kernel, fun i hi ht => absurd (htype i hi) ht⟩

theorem fsck_of_run_tiny : ∃ s, run (next tiny) (boot (tinyDisk .zero))
        [.ialloc tFile, .ilock entry0, .writei entry0 oneByte 0 1, .iput entry0] = some s ∧
      (Fsck tiny s ∧ ∀ op, Ready tiny s op → exec tiny op s ≠ .error .freeingFreeBlock) := by
  have hsome : (run (next tiny) (boot (tinyDisk .zero))
      [.ialloc tFile, .ilock entry0, .writei entry0 oneByte 0 1, .iput entry0]).isSome := by
    decide +kernel
  obtain ⟨s, hs⟩ := Option.isSome_iff_exists.mp hsome
  exact ⟨s, hs, fsck_of_run image_tiny hs⟩

theorem fsck_lost : (Fsck tiny (boot fun _ => .zero) ∧
      ∃ s, run (next tiny) (boot fun _ => .zero) [.ialloc tFile, .ilock entry0,
        .writei entry0 oneByte 0 1, .writei entry0 oneByte 0 1] = some s ∧ ¬Fsck tiny s) ∧
    (Fsck tiny (boot (tinyDisk { Dinode.zero with type := tFile, nlink := 1, size := 1 })) ∧
      ∃ s, run (next tiny)
        (boot (tinyDisk { Dinode.zero with type := tFile, nlink := 1, size := 1 }))
        [.iget 1, .ilock entry0, .readi entry0 (fun _ => some ()) 0 1, .iput entry0] = some s ∧
        ¬Fsck tiny s) := by
  refine ⟨⟨fsck_boot (by decide +kernel) (by decide) (by decide +kernel), ?_⟩,
    fsck_boot (by decide +kernel) (by decide) (by decide +kernel), ?_⟩
  · have hrun : (run (next tiny) (boot fun _ => .zero) [.ialloc tFile, .ilock entry0,
        .writei entry0 oneByte 0 1, .writei entry0 oneByte 0 1]).map
          (fun s => s.slot tiny (1, 0)) = some 1 := by decide +kernel
    obtain ⟨s, hs, hslot⟩ := Option.map_eq_some_iff.mp hrun
    refine ⟨s, hs, fun h => ?_⟩
    have hin := h.inData (1, 0) (by rw [hslot]; decide)
    rw [hslot] at hin
    exact absurd hin (by decide)
  have hrun : (run (next tiny)
      (boot (tinyDisk { Dinode.zero with type := tFile, nlink := 1, size := 1 }))
      [.iget 1, .ilock entry0, .readi entry0 (fun _ => some ()) 0 1, .iput entry0]).map
        (fun s => (tiny.bit s.disk 4,
          decide (∀ i < tiny.ninodes, ∀ k, (s.ino tiny i).addrs k = 0))) =
          some (true, true) := by
    decide +kernel
  obtain ⟨s, hs, hvals⟩ := Option.map_eq_some_iff.mp hrun
  refine ⟨s, hs, fun h => ?_⟩
  rw [Prod.mk.injEq, decide_eq_true_eq] at hvals
  obtain ⟨p, hp, -⟩ := (h.bitmap 4 (by decide)).mp hvals.1
  rw [slot_eq_zero hvals.2] at hp
  cases hp
end Xv6.Fs
