import Xv6.Fs.Table

namespace Xv6.Fs
open State Lib

abbrev Name := List UInt8

structure Dirent where
  inum : Nat
  name : Name
  deriving DecidableEq

def tDir : Nat := 1
def tFile : Nat := 2
def tDevice : Nat := 3

namespace Dirent
def ofBytes (bs : List UInt8) : Dirent where
  inum := (bs.getD 0 0).toNat + 256 * (bs.getD 1 0).toNat
  name := ((bs.drop 2).take dirsiz).takeWhile (· ≠ 0)

def byte (de : Dirent) (k : Nat) : UInt8 :=
  if k = 0 then UInt8.ofNat de.inum
  else if k = 1 then UInt8.ofNat (de.inum / 256)
  else de.name.getD (k - 2) 0
end Dirent

variable (sb : Superblock)

def readEntry (dp : Fin ninode) (off : Nat) : FsM (Int × List UInt8) :=
  readi sb dp (fun _ => some ()) off 16

def dirlookupLoop (dp : Fin ninode) (name : Name) : Nat → Nat → FsM (Option (Fin ninode × Nat))
  | 0, _ => return none
  | fuel + 1, off => do
    let e ← inode dp
    if off < e.copy.size then
      let r ← readEntry sb dp off
      if r.1 ≠ 16 then throw .dirlookupRead
      else if (Dirent.ofBytes r.2).inum ≠ 0 ∧ (Dirent.ofBytes r.2).name = name then
        let ip ← iget (Dirent.ofBytes r.2).inum
        return some (ip, off)
      else dirlookupLoop dp name fuel (off + 16)
    else return none

def dirlookup (dp : Fin ninode) (name : Name) : FsM (Option (Fin ninode × Nat)) := do
  let e ← inode dp
  if e.copy.type ≠ tDir then throw .dirlookupNotDir
  else dirlookupLoop sb dp name (e.copy.size / 16 + 1) 0

def emptyLoop (dp : Fin ninode) : Nat → Nat → FsM Nat
  | 0, off => return off
  | fuel + 1, off => do
    let e ← inode dp
    if off < e.copy.size then
      let r ← readEntry sb dp off
      if r.1 ≠ 16 then throw .dirlinkRead
      else if (Dirent.ofBytes r.2).inum = 0 then return off
      else emptyLoop dp fuel (off + 16)
    else return off

def writeEntry (dp : Fin ninode) (off : Nat) (de : Dirent) : FsM Int :=
  writei sb dp (fun k => some (de.byte k)) off 16

def dirlink (dp : Fin ninode) (name : Name) (inum : Nat) : FsM Int := do
  let r ← dirlookup sb dp name
  match r with
  | some (ip, _) =>
    iput sb ip
    return -1
  | none =>
    let e ← inode dp
    let off ← emptyLoop sb dp (e.copy.size / 16 + 1) 0
    let n ← writeEntry sb dp off ⟨inum, name⟩
    if n ≠ 16 then return -1 else return 0

variable {sb} {s s' t : State} {dp ip : Fin ninode} {E : Panic → Prop} {i off fuel : Nat}
    {name : Name}

def State.dirent (s : State) (sb : Superblock) (i off : Nat) : Dirent :=
  .ofBytes ((List.range 16).map fun k => s.content sb i (off + k))

lemma Good.size_le (h : Good sb s) (hip : s.Open ip i) : (s.ino sb i).size ≤ maxfile * bsize := by
  have ht : (s.ino sb i).type ≠ 0 := h.owned.type_ino hip (h.typed ip i hip)
  by_contra hlt
  obtain ⟨hbn, -⟩ := h.full i (h.owned.table.lt ip i hip) ht (maxfile * bsize) (by omega)
  rw [Nat.mul_div_cancel _ (by decide)] at hbn
  exact lt_irrefl _ hbn

lemma wp_readEntry (h : Good sb s) (hdp : s.Open dp i) (hoff : off < (s.ino sb i).size) :
    wp (readEntry sb dp off) s (fun r t => t = s ∧ (r.1 = 16 ↔ off + 16 ≤ (s.ino sb i).size) ∧
      (r.1 = 16 → Dirent.ofBytes r.2 = s.dirent sb i off)) E := by
  refine wp_imp (wp_readi h hdp) fun r t hr => ⟨hr.1, ?_⟩
  have hmax := h.size_le hdp
  have hlt : off + 16 < 2 ^ 32 := by
    rw [maxfile_eq, bsize_eq] at hmax
    omega
  have hr := hr.2 (fun _ _ => rfl) (by omega) hlt
  have hlen : r.1 = 16 ↔ min 16 ((s.ino sb i).size - off) = 16 := by
    rw [hr]
    exact Int.ofNat_inj
  refine ⟨by omega, fun h16 => ?_⟩
  rw [hr, hlen.mp h16]
  rfl

def State.Names (s : State) (sb : Superblock) (i off : Nat) (name : Name) : Prop :=
  off % 16 = 0 ∧ off + 16 ≤ (s.ino sb i).size ∧ (s.dirent sb i off).inum ≠ 0 ∧
    (s.dirent sb i off).name = name

section
variable (h : Good sb s) (hdp : s.Open dp i)
include h hdp

lemma wp_dirlookupLoop (hread : (s.ino sb i).size % 16 ≠ 0 → E .dirlookupRead)
    (hget : (∀ k, 0 < (s.itable k).ref) → E .igetNoInodes) :
    ∀ fuel off, off % 16 = 0 → (s.ino sb i).size < off + 16 * fuel →
      (∀ o < off, ¬s.Names sb i o name) →
      wp (dirlookupLoop sb dp name fuel off) s (fun r t => match r with
        | none => t = s ∧ ∀ o, ¬s.Names sb i o name
        | some (ip, o) => s.Names sb i o name ∧ (∀ o' < o, ¬s.Names sb i o' name) ∧
          Got sb (s.dirent sb i o).inum ip s t) E := by
  intro fuel
  induction fuel with
  | zero =>
    intro off hmod hfuel hnone
    rw [dirlookupLoop, wp_pure]
    refine ⟨rfl, fun o ho => ?_⟩
    have := ho.2.1
    exact hnone o (by omega) ho
  | succ fuel ih =>
    intro off hmod hfuel hnone
    rw [dirlookupLoop, wp_bind, wp_inode, ← ino_of_open h.owned.table hdp]
    refine wp_ite (fun hlt => ?_) fun hlt => ?_
    · refine wp_bind_of (wp_readEntry h hdp hlt) fun r t hr => ?_
      rw [hr.1]
      by_cases h16 : r.1 = 16
      · have hle := hr.2.1.mp h16
        have hde := hr.2.2 h16
        rw [if_neg (fun hne => hne h16), hde]
        refine wp_ite (fun hfound => ?_) fun hfound => ?_
        · refine wp_bind_of (wp_iget h hget) fun ip u hu => ?_
          rw [wp_pure]
          exact ⟨⟨hmod, hle, hfound⟩, hnone, hu⟩
        refine ih (off + 16) (by omega) (by omega) fun o ho hn => ?_
        rcases lt_or_ge o off with hlo | hge
        · exact hnone o hlo hn
        have he : o = off := by
          have := hn.1
          omega
        rw [he] at hn
        exact hfound hn.2.2
      rw [if_pos h16, wp_throw]
      refine hread fun h0 => h16 (hr.2.1.mpr ?_)
      omega
    rw [wp_pure]
    refine ⟨rfl, fun o ho => ?_⟩
    have := ho.2.1
    exact hnone o (by omega) ho

lemma wp_dirlookup_first (hdir : (s.ino sb i).type ≠ tDir → E .dirlookupNotDir)
    (hread : (s.ino sb i).size % 16 ≠ 0 → E .dirlookupRead)
    (hget : (∀ k, 0 < (s.itable k).ref) → E .igetNoInodes) :
    wp (dirlookup sb dp name) s (fun r t => match r with
      | none => t = s ∧ ∀ o, ¬s.Names sb i o name
      | some (ip, o) => s.Names sb i o name ∧ (∀ o' < o, ¬s.Names sb i o' name) ∧
        Got sb (s.dirent sb i o).inum ip s t) E := by
  unfold dirlookup
  rw [wp_bind, wp_inode, ← ino_of_open h.owned.table hdp]
  refine wp_ite (fun ht => ?_) fun ht => ?_
  · rw [wp_throw]
    exact hdir ht
  exact wp_dirlookupLoop h hdp hread hget _ 0 rfl (by omega) fun o ho => absurd ho
    (Nat.not_lt_zero o)

lemma wp_dirlookup (hdir : (s.ino sb i).type ≠ tDir → E .dirlookupNotDir)
    (hread : (s.ino sb i).size % 16 ≠ 0 → E .dirlookupRead)
    (hget : (∀ k, 0 < (s.itable k).ref) → E .igetNoInodes) :
    wp (dirlookup sb dp name) s (fun r t => match r with
      | none => t = s ∧ ∀ o, ¬s.Names sb i o name
      | some (ip, o) => s.Names sb i o name ∧ Got sb (s.dirent sb i o).inum ip s t) E := by
  refine wp_imp (wp_dirlookup_first h hdp hdir hread hget) fun r t hr => ?_
  cases r with
  | none => exact hr
  | some p => exact ⟨hr.1, hr.2.2⟩
end

structure State.Vacant (s : State) (sb : Superblock) (i off : Nat) : Prop where
  aligned : off % 16 = 0
  le : off ≤ (s.ino sb i).size
  empty : off < (s.ino sb i).size → off + 16 ≤ (s.ino sb i).size ∧ (s.dirent sb i off).inum = 0
  first : ∀ o < off, o % 16 = 0 → (s.dirent sb i o).inum ≠ 0

lemma wp_emptyLoop (h : Good sb s) (hdp : s.Open dp i) (hread : E .dirlinkRead) :
    ∀ fuel off, off % 16 = 0 → off ≤ (s.ino sb i).size → (s.ino sb i).size < off + 16 * fuel →
      (∀ o < off, o % 16 = 0 → (s.dirent sb i o).inum ≠ 0) →
      wp (emptyLoop sb dp fuel off) s (fun o t => t = s ∧ s.Vacant sb i o) E := by
  intro fuel
  induction fuel with
  | zero =>
    intro off hmod hle hfuel
    omega
  | succ fuel ih =>
    intro off hmod hle hfuel hfirst
    rw [emptyLoop, wp_bind, wp_inode, ← ino_of_open h.owned.table hdp]
    refine wp_ite (fun hlt => ?_) fun hlt => ?_
    · refine wp_bind_of (wp_readEntry h hdp hlt) fun r t hr => ?_
      rw [hr.1]
      by_cases h16 : r.1 = 16
      · have hle' := hr.2.1.mp h16
        have hde := hr.2.2 h16
        rw [if_neg (fun hne => hne h16), hde]
        refine wp_ite (fun hempty => wp_pure.mpr ?_) fun hempty => ?_
        · exact ⟨rfl, hmod, hle, fun _ => ⟨hle', hempty⟩, hfirst⟩
        refine ih (off + 16) (by omega) (by omega) (by omega) fun o ho homod => ?_
        rcases lt_or_ge o off with hlo | hge
        · exact hfirst o hlo homod
        have he : o = off := by omega
        rwa [he]
      rwa [if_pos h16, wp_throw]
    rw [wp_pure]
    exact ⟨rfl, hmod, hle, fun hlt' => absurd hlt' hlt, hfirst⟩

lemma wp_writeEntry {de : Dirent} (ok : sb.Ok) (h : Good sb s) (hdp : s.Open dp i)
    (hmod : off % 16 = 0) :
    wp (writeEntry sb dp off de) s (fun r t => r = -1 ∧ t = s ∨ ∃ tot : Nat, r = tot ∧
      (tot = 0 ∨ tot = 16) ∧
      Wrote sb i (fun k => some (de.byte k)) off tot (off + tot) s t) E := by
  refine wp_imp (wp_writei ok h hdp) fun r t hr => ?_
  rcases hr with ⟨hr, ht, -⟩ | ⟨tot, stop, hr, hle, hstop, hall, hend, -, -, hw⟩
  · exact .inl ⟨hr, ht⟩
  refine .inr ⟨tot, hr, ?_, ?_⟩
  · rw [bsize_eq] at hend
    omega
  rwa [← (hall (fun _ _ => rfl)).1]

lemma Got.drop {inum : Nat} (ok : sb.Ok) (hg : Got sb inum ip s t) (hrefs : SameRefs t s')
    (h : Good sb s') :
    wp (iput sb ip) s' (fun _ u => Good sb u ∧ SameFiles sb s' u ∧
      (∀ k, (u.itable k).ref = (s.itable k).ref) ∧
      (∀ k, 0 < (s.itable k).ref → (u.itable k).inum = (s.itable k).inum) ∧
      ∀ k i, s.Open k i → u.Open k i) E := by
  have href : 0 < (s'.itable ip).ref := by
    rw [(hrefs ip).1, hg.ref, if_pos rfl]
    omega
  refine wp_imp (wp_iput ok h href) fun _ u hu => ?_
  obtain ⟨hd, hfiles⟩ := hu
  have hsame : ∀ k, (u.itable k).ref = (s.itable k).ref := fun k => by
    rw [hd.ref, (hrefs k).1, hg.ref, Nat.add_sub_cancel]
  refine ⟨hd.good, ?_, hsame, fun k hk => by rw [hd.inum, (hrefs k).2.1, hg.held k hk],
    fun k i hk => ?_⟩
  · rcases hfiles with ⟨hf, -⟩ | ⟨h1, hopen, -, -⟩
    · exact hf
    · -- the only reference is the new one, so the entry was not open
      have hold := (hg.opened ip _).mp (hrefs.open_iff.mp hopen)
      rw [(hrefs ip).1, hg.ref, if_pos rfl] at h1
      have := hold.1
      omega
  refine hd.opened k i (hrefs.open_iff.mpr ((hg.opened k i).mpr hk)) ?_
  rw [hsame]
  exact hk.1

lemma wp_dirlink {inum : Nat} (ok : sb.Ok) (h : Good sb s) (hdp : s.Open dp i)
    (hdir : (s.ino sb i).type ≠ tDir → E .dirlookupNotDir) (hread : E .dirlookupRead)
    (hread' : E .dirlinkRead) (hget : E .igetNoInodes) :
    wp (dirlink sb dp name inum) s (fun r t =>
      r = -1 ∧ Good sb t ∧ SameFiles sb s t ∧ (∀ k, (t.itable k).ref = (s.itable k).ref) ∧
        (∀ k, 0 < (s.itable k).ref → (t.itable k).inum = (s.itable k).inum) ∧
        (∀ k i, s.Open k i → t.Open k i) ∨
      ∃ off tot, (r = 0 ∧ tot = 16 ∨ r = -1 ∧ tot = 0) ∧ (∀ o, ¬s.Names sb i o name) ∧
        s.Vacant sb i off ∧
        Wrote sb i (fun k => some ((⟨inum, name⟩ : Dirent).byte k)) off tot (off + tot) s t) E := by
  unfold dirlink
  refine wp_bind_of (wp_dirlookup h hdp hdir (fun _ => hread) (fun _ => hget)) fun r t hr => ?_
  cases r with
  | some p =>
    refine wp_bind_of (hr.2.drop ok .refl hr.2.good) fun _ u hu => ?_
    rw [wp_pure]
    exact .inl ⟨rfl, hu.1, hr.2.files.trans hu.2.1, hu.2.2⟩
  | none =>
    obtain ⟨rfl, hnone⟩ := hr
    rw [wp_bind, wp_inode, ← ino_of_open h.owned.table hdp]
    refine wp_bind_of (wp_emptyLoop h hdp hread' _ 0 rfl zero_le (by omega)
      (fun o ho => absurd ho (Nat.not_lt_zero o))) fun off u hu => ?_
    obtain ⟨rfl, hvacant⟩ := hu
    refine wp_bind_of (wp_writeEntry ok h hdp hvacant.aligned) fun n v hv => ?_
    rcases hv with ⟨hn, hv⟩ | ⟨tot, hn, htot, hw⟩
    · have hn16 : n ≠ 16 := by omega
      rw [if_pos hn16, wp_pure, hv]
      exact .inl ⟨rfl, h, .refl, fun _ => rfl, fun _ _ => rfl, fun _ _ hk => hk⟩
    rcases htot with rfl | rfl
    · have hn16 : n ≠ 16 := by omega
      rw [if_pos hn16, wp_pure]
      exact .inr ⟨off, 0, .inr ⟨rfl, rfl⟩, hnone, hvacant, hw⟩
    have hn16 : ¬n ≠ 16 := by omega
    rw [if_neg hn16, wp_pure]
    exact .inr ⟨off, 16, .inl ⟨rfl, rfl⟩, hnone, hvacant, hw⟩
end Xv6.Fs
