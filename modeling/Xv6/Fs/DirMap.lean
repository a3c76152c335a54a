import Xv6.Fs.Fsck
import Xv6.Fs.Strings

namespace Xv6.Fs
open State Lib List

section Code
variable (sb : Superblock)

def removeEntry (dp : Fin ninode) (name : CStr) : FsM Int := do
  let r ← dirlookupStr sb dp name
  match r with
  | none => return -1
  | some (ip, off) =>
    let n ← writei sb dp (fun _ => some 0) off 16
    if n ≠ 16 then throw .unlinkWritei
    else
      iput sb ip
      return 0
end Code

variable {sb : Superblock} {s t u : State} {dp ip : Fin ninode} {i off tot inum : Nat} {name : Name}
  {E : Panic → Prop} {de : Dirent} {p : CStr}

def State.Distinct (s : State) (sb : Superblock) (i : Nat) : Prop :=
  ∀ o o' name, s.Names sb i o name → s.Names sb i o' name → o = o'

def State.lookup (s : State) (sb : Superblock) (i : Nat) (name : Name) : Option (Nat × Nat) :=
  ((range ((s.ino sb i).size / 16)).find? fun k =>
    (s.dirent sb i (16 * k)).inum ≠ 0 ∧ (s.dirent sb i (16 * k)).name = name).map fun k =>
      ((s.dirent sb i (16 * k)).inum, 16 * k)

lemma names_iff : s.Names sb i off name ↔ ∃ k, off = 16 * k ∧ k < (s.ino sb i).size / 16 ∧
    (s.dirent sb i (16 * k)).inum ≠ 0 ∧ (s.dirent sb i (16 * k)).name = name := by
  constructor
  · rintro ⟨hmod, hle, hne, hname⟩
    have hk : off = 16 * (off / 16) := by omega
    rw [hk] at hne hname
    exact ⟨off / 16, hk, by omega, hne, hname⟩
  rintro ⟨k, rfl, hk, hne, hname⟩
  exact ⟨by omega, by omega, hne, hname⟩

lemma lookup_eq_none_iff : s.lookup sb i name = none ↔ ∀ o, ¬s.Names sb i o name := by
  rw [State.lookup, Option.map_eq_none_iff, find?_eq_none]
  constructor
  · intro h o ho
    obtain ⟨k, -, hk, hname⟩ := names_iff.mp ho
    exact h k (mem_range.mpr hk) (decide_eq_true hname)
  intro h k hk hname
  exact h (16 * k) (names_iff.mpr ⟨k, rfl, mem_range.mp hk, of_decide_eq_true hname⟩)

lemma names_of_lookup {r : Nat × Nat} (h : s.lookup sb i name = some r) :
    s.Names sb i r.2 name ∧ (s.dirent sb i r.2).inum = r.1 := by
  rw [State.lookup, Option.map_eq_some_iff] at h
  obtain ⟨k, hk, he⟩ := h
  cases he
  have hname := find?_some hk
  exact ⟨names_iff.mpr ⟨k, rfl, mem_range.mp (mem_of_find?_eq_some hk),
    of_decide_eq_true hname⟩, rfl⟩

lemma lookup_of_first (h : s.Names sb i off name) (hfirst : ∀ o < off, ¬s.Names sb i o name) :
    s.lookup sb i name = some ((s.dirent sb i off).inum, off) := by
  obtain ⟨k, rfl, hk, hne, hname⟩ := names_iff.mp h
  have hfind : ((range ((s.ino sb i).size / 16)).find? fun k =>
      (s.dirent sb i (16 * k)).inum ≠ 0 ∧ (s.dirent sb i (16 * k)).name = name) = some k := by
    rw [find?_range_eq_some]
    refine ⟨decide_eq_true ⟨hne, hname⟩, mem_range.mpr hk, fun l hl => ?_⟩
    have hno := hfirst (16 * l) (by omega)
    rw [Bool.not_eq_true', decide_eq_false_iff_not]
    exact fun hl' => hno (names_iff.mpr ⟨l, rfl, by omega, hl'⟩)
  rw [State.lookup, hfind]
  rfl

lemma lookup_eq_some (hd : s.Distinct sb i) (h : s.Names sb i off name) :
    s.lookup sb i name = some ((s.dirent sb i off).inum, off) := by
  cases hl : s.lookup sb i name with
  | none => exact absurd h (lookup_eq_none_iff.mp hl off)
  | some r =>
    obtain ⟨hn, hi⟩ := names_of_lookup hl
    have ho := hd _ _ name hn h
    rw [← ho, hi]

lemma dirent_congr (h : ∀ k < 16, t.content sb i (off + k) = s.content sb i (off + k)) :
    t.dirent sb i off = s.dirent sb i off := by
  unfold State.dirent
  congr 1
  exact map_congr_left fun k hk => h k (mem_range.mp hk)

def SameBytes (sb : Superblock) (i : Nat) (s t : State) : Prop :=
  (t.ino sb i).size = (s.ino sb i).size ∧ ∀ o, t.content sb i o = s.content sb i o

lemma SameFiles.bytes (h : SameFiles sb s t) : SameBytes sb i s t := ⟨by rw [h.ino], h.content i⟩

lemma SameBytes.names_iff (h : SameBytes sb i s t) :
    t.Names sb i off name ↔ s.Names sb i off name := by
  unfold State.Names
  rw [h.1, dirent_congr (fun k _ => h.2 (off + k))]

lemma SameBytes.lookup (h : SameBytes sb i s t) (name : Name) :
    t.lookup sb i name = s.lookup sb i name := by
  unfold State.lookup
  rw [h.1]
  simp only [dirent_congr (fun k _ => h.2 _)]

lemma SameBytes.distinct (h : SameBytes sb i s t) (hd : s.Distinct sb i) : t.Distinct sb i :=
  fun o o' name ho ho' => hd o o' name (h.names_iff.mp ho) (h.names_iff.mp ho')

lemma wp_dirlookup_lookup (h : Good sb s) (hdp : s.Open dp i)
    (hdir : (s.ino sb i).type ≠ tDir → E .dirlookupNotDir)
    (hread : (s.ino sb i).size % 16 ≠ 0 → E .dirlookupRead)
    (hget : (∀ k, 0 < (s.itable k).ref) → E .igetNoInodes) :
    wp (dirlookup sb dp name) s (fun r t => match r with
      | none => t = s ∧ s.lookup sb i name = none
      | some (ip, o) => ∃ j, s.lookup sb i name = some (j, o) ∧ Got sb j ip s t) E := by
  refine wp_imp (wp_dirlookup_first h hdp hdir hread hget) fun r t hr => ?_
  cases r with
  | none => exact ⟨hr.1, lookup_eq_none_iff.mpr hr.2⟩
  | some p => exact ⟨_, lookup_of_first hr.1 hr.2.1, hr.2.2⟩

structure Entry (sb : Superblock) (i off : Nat) (de : Dirent) (s t : State) : Prop where
  aligned : off % 16 = 0
  le : off ≤ (s.ino sb i).size
  size : (t.ino sb i).size = max (s.ino sb i).size (off + 16)
  self : t.dirent sb i off = de
  other : ∀ o, o % 16 = 0 → o ≠ off → t.dirent sb i o = s.dirent sb i o

lemma Wrote.entry {src : Nat → Option UInt8}
    (h : Wrote sb i src off 16 (off + 16) s t) (hmod : off % 16 = 0) (hle : off ≤ (s.ino sb i).size)
    (hde : Dirent.ofBytes ((range 16).map fun k => (src k).getD 0) = de) :
    Entry sb i off de s t := by
  refine ⟨hmod, hle, by rw [h.ino], ?_, fun o ho hne => ?_⟩
  · rw [State.dirent, ← hde]
    congr 1
    refine map_congr_left fun k hk => ?_
    have := mem_range.mp hk
    rw [h.written _ (by omega) (by omega), Nat.add_sub_cancel_left]
  refine dirent_congr fun k hk => h.unwritten _ ?_
  omega

namespace Entry
variable {de : Dirent} (h : Entry sb i off de s t)
include h

lemma names_self : t.Names sb i off name ↔ de.inum ≠ 0 ∧ de.name = name := by
  unfold State.Names
  rw [h.self, h.size]
  have := h.aligned
  constructor
  · exact fun hn => hn.2.2
  exact fun hn => ⟨h.aligned, by omega, hn⟩

lemma names_other {o : Nat} (hne : o ≠ off) : t.Names sb i o name ↔ s.Names sb i o name := by
  have hle := h.le
  have hmod := h.aligned
  unfold State.Names
  rw [h.size]
  constructor
  · rintro ⟨h1, h2, h3⟩
    rw [h.other o h1 hne] at h3
    exact ⟨h1, by omega, h3⟩
  rintro ⟨h1, h2, h3⟩
  rw [h.other o h1 hne]
  exact ⟨h1, by omega, h3⟩
end Entry

lemma lookup_congr (ht : t.Distinct sb i)
    (hnames : ∀ o, t.Names sb i o name ↔ s.Names sb i o name)
    (hinum : ∀ o, s.Names sb i o name → (t.dirent sb i o).inum = (s.dirent sb i o).inum) :
    t.lookup sb i name = s.lookup sb i name := by
  cases hl : s.lookup sb i name with
  | none =>
    have hnone := lookup_eq_none_iff.mp hl
    exact lookup_eq_none_iff.mpr fun o ho => hnone o ((hnames o).mp ho)
  | some r =>
    obtain ⟨hn, hi⟩ := names_of_lookup hl
    rw [lookup_eq_some ht ((hnames _).mpr hn), hinum _ hn, hi]

lemma Entry.added (h : Entry sb i off de s t) (hs : s.Distinct sb i)
    (hnone : ∀ o, ¬s.Names sb i o de.name) (hgap : ∀ name, ¬s.Names sb i off name)
    (hinum : de.inum ≠ 0) :
    t.Distinct sb i ∧ ∀ name, t.lookup sb i name =
      if name = de.name then some (de.inum, off) else s.lookup sb i name := by
  have hself : t.Names sb i off de.name := h.names_self.mpr ⟨hinum, rfl⟩
  have hother : ∀ o name, name ≠ de.name → (t.Names sb i o name ↔ s.Names sb i o name) := by
    intro o name hne
    by_cases ho : o = off
    · rw [ho, h.names_self]
      exact iff_of_false (fun hn => hne hn.2.symm) (hgap name)
    exact h.names_other ho
  have honly : ∀ o, t.Names sb i o de.name → o = off := by
    intro o ho
    by_contra hne
    exact hnone o ((h.names_other hne).mp ho)
  have hdist : t.Distinct sb i := by
    intro o o' name ho ho'
    by_cases hname : name = de.name
    · rw [hname] at ho ho'
      rw [honly o ho, honly o' ho']
    exact hs o o' name ((hother o name hname).mp ho) ((hother o' name hname).mp ho')
  refine ⟨hdist, fun name => ?_⟩
  by_cases hname : name = de.name
  · rw [if_pos hname, hname, lookup_eq_some hdist hself, h.self]
  rw [if_neg hname]
  refine lookup_congr hdist (fun o => hother o name hname) fun o ho => ?_
  rw [h.other o ho.1 (fun e => hgap name (e ▸ ho))]

lemma Entry.removed (h : Entry sb i off de s t) (hs : s.Distinct sb i)
    (hname : s.Names sb i off name) (hinum : de.inum = 0) :
    t.Distinct sb i ∧ ∀ name', t.lookup sb i name' =
      if name' = name then none else s.lookup sb i name' := by
  have hself : ∀ name', ¬t.Names sb i off name' := fun name' hn => (h.names_self.mp hn).1 hinum
  have hback : ∀ o name', t.Names sb i o name' → o ≠ off ∧ s.Names sb i o name' := by
    intro o name' ho
    have hne : o ≠ off := by
      rintro rfl
      exact hself name' ho
    exact ⟨hne, (h.names_other hne).mp ho⟩
  have hdist : t.Distinct sb i := fun o o' name' ho ho' =>
    hs o o' name' (hback o name' ho).2 (hback o' name' ho').2
  refine ⟨hdist, fun name' => ?_⟩
  by_cases heq : name' = name
  · rw [if_pos heq, lookup_eq_none_iff, heq]
    intro o ho
    obtain ⟨hne, hold⟩ := hback o name ho
    exact hne (hs o off name hold hname)
  have hne : ∀ o, s.Names sb i o name' → o ≠ off := by
    rintro o ho rfl
    exact heq (ho.2.2.2.symm.trans hname.2.2.2)
  rw [if_neg heq]
  refine lookup_congr hdist (fun o => ⟨fun ho => (hback o name' ho).2, fun ho => ?_⟩)
    (fun o ho => ?_)
  · exact (h.names_other (hne o ho)).mpr ho
  rw [h.other o ho.1 (hne o ho)]

structure Directory (sb : Superblock) (dp : Fin ninode) (i : Nat) (s : State) : Prop where
  good : Good sb s
  isOpen : s.Open dp i
  distinct : s.Distinct sb i

inductive DirOp where
  | link (name : CStr) (inum : Nat)
  | remove (name : CStr)

def DirOp.exec (sb : Superblock) (dp : Fin ninode) : DirOp → FsM Int
  | .link name inum => dirlinkStr sb dp name inum
  | .remove name => removeEntry sb dp name

def DirOp.Fits : DirOp → Prop
  | .link _ inum => 0 < inum ∧ inum < 65536
  | .remove _ => True

def DirOp.Does (sb : Superblock) (i : Nat) (s : State) (r : Int) (t : State) : DirOp → Prop
  | .link name inum =>
    (r = 0 ∧ s.lookup sb i name.name = none ∧ ∃ off, s.Vacant sb i off ∧
      (t.ino sb i).size = max (s.ino sb i).size (off + 16) ∧ ∀ q : CStr,
        t.lookup sb i q.name = if q.name = name.name then some (inum, off)
          else s.lookup sb i q.name) ∨
    (r = -1 ∧ ∀ q : CStr, t.lookup sb i q.name = s.lookup sb i q.name)
  | .remove name =>
    (r = 0 ∧ (s.lookup sb i name.name).isSome ∧ ∀ q : CStr,
      t.lookup sb i q.name = if q.name = name.name then none else s.lookup sb i q.name) ∨
    (r = -1 ∧ s.lookup sb i name.name = none ∧
      ∀ q : CStr, t.lookup sb i q.name = s.lookup sb i q.name)

lemma SameBytes.directory (h : SameBytes sb i s t) (hs : Directory sb dp i s) (hgood : Good sb t)
    (hopen : t.Open dp i) : Directory sb dp i t :=
  ⟨hgood, hopen, h.distinct hs.distinct⟩

lemma name_fits (h : inum < 65536) : (⟨inum, p.name⟩ : Dirent).Fits :=
  ⟨h, upTo_length_le, zero_not_mem_upTo⟩

lemma State.Vacant.not_names (h : s.Vacant sb i off) : ¬s.Names sb i off name := by
  rintro ⟨-, hle, hne, -⟩
  exact hne (h.empty (by omega)).2

lemma Directory.link (ok : sb.Ok) (h : Directory sb dp i s) (hfits : 0 < inum ∧ inum < 65536) :
    wp (dirlinkStr sb dp p inum) s (fun r t => Directory sb dp i t ∧
      (DirOp.link p inum).Does sb i s r t) (fun _ => True) := by
  rw [dirlinkStr_eq]
  refine wp_imp (wp_dirlink ok h.good h.isOpen (fun _ => trivial) trivial trivial trivial)
    (fun r t ht => ?_)
  rcases ht with ⟨hr, hgood, hfiles, -, -, hopen⟩ | ⟨off, tot, hr, hnone, hvacant, hw⟩
  · exact ⟨hfiles.bytes.directory h hgood (hopen dp i h.isOpen),
      .inr ⟨hr, fun q => hfiles.bytes.lookup q.name⟩⟩
  have hopen : t.Open dp i := hw.refs.open_iff.mpr h.isOpen
  rcases hr with ⟨hr, rfl⟩ | ⟨hr, rfl⟩
  · have hentry := hw.entry hvacant.aligned hvacant.le (name_fits hfits.2).ofBytes_byte
    obtain ⟨hdist, hlookup⟩ := hentry.added h.distinct hnone (fun _ => hvacant.not_names)
      (Nat.ne_of_gt hfits.1)
    exact ⟨⟨hw.good, hopen, hdist⟩, .inl ⟨hr, lookup_eq_none_iff.mpr hnone, off, hvacant,
      hentry.size, fun q => hlookup q.name⟩⟩
  have hle := hvacant.le
  have hbytes : SameBytes sb i s t := by
    refine ⟨?_, fun o => hw.unwritten o (by omega)⟩
    rw [hw.ino]
    exact max_eq_left hle
  exact ⟨hbytes.directory h hw.good hopen, .inr ⟨hr, fun q => hbytes.lookup q.name⟩⟩

lemma Directory.remove (ok : sb.Ok) (h : Directory sb dp i s) :
    wp (removeEntry sb dp p) s (fun r t => Directory sb dp i t ∧
      (DirOp.remove p).Does sb i s r t) (fun _ => True) := by
  unfold removeEntry
  rw [dirlookupStr_eq]
  refine wp_bind_of (wp_dirlookup h.good h.isOpen (fun _ => trivial) (fun _ => trivial)
    (fun _ => trivial))
    (fun r t hr => ?_)
  cases r with
  | none =>
    obtain ⟨rfl, hnone⟩ := hr
    exact wp_pure.mpr ⟨h, .inr ⟨rfl, lookup_eq_none_iff.mpr hnone, fun _ => rfl⟩⟩
  | some q =>
    obtain ⟨hname, hgot⟩ := hr
    have hdp := (hgot.opened dp i).mpr h.isOpen
    have hname' := (hgot.files.bytes (i := i)).names_iff.mpr hname
    refine wp_bind_of (wp_writei ok hgot.good hdp) fun n u hu => ?_
    by_cases hn : n = 16
    · rw [if_neg (fun hne => hne hn)]
      rcases hu with ⟨hn', -, -⟩ | ⟨tot, stop, htot, -, -, hall, -, -, -, hw⟩
      · omega
      obtain ⟨rfl, -⟩ := hall (fun _ _ => rfl)
      obtain rfl : tot = 16 := by omega
      refine wp_bind_of (hgot.drop ok hw.refs hw.good) fun _ v hv => ?_
      obtain ⟨hgood, hfiles, -, -, hopened⟩ := hv
      have hle := hname'.2.1
      have hentry := hw.entry hname'.1 (by omega) rfl
      obtain ⟨hdist, hlookup⟩ := hentry.removed (hgot.files.bytes.distinct h.distinct) hname' rfl
      refine wp_pure.mpr ⟨⟨hgood, hopened dp i h.isOpen, hfiles.bytes.distinct hdist⟩,
        .inl ⟨rfl, ?_, fun q' => ?_⟩⟩
      · rw [lookup_eq_some h.distinct hname]
        rfl
      rw [hfiles.bytes.lookup, hlookup, hgot.files.bytes.lookup]
    rw [if_pos hn, wp_throw]
    trivial

end Xv6.Fs
