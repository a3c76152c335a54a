import Xv6.Fs.Sysfile
import Xv6.Fs.Walk

namespace Xv6.Fs
open State Lib
variable {sb : Superblock} {s t u : State} {dp ip cwd : Fin ninode} {E : Panic → Prop}
  {d i type major minor : Nat} {name : Name} {path : Path}

lemma SameBytes.trans (h : SameBytes sb i s t) (h' : SameBytes sb i t u) : SameBytes sb i s u :=
  ⟨h'.1.trans h.1, fun o => (h'.2 o).trans (h.2 o)⟩

lemma SameBytes.dirent (h : SameBytes sb i s t) (off : Nat) :
    t.dirent sb i off = s.dirent sb i off := dirent_congr (fun k _ => h.2 (off + k))

lemma SameBytes.vacant {off : Nat} (h : SameBytes sb i s t) (hv : t.Vacant sb i off) :
    s.Vacant sb i off := by
  obtain ⟨hmod, hle, hempty, hfirst⟩ := hv
  rw [h.1] at hle hempty
  simp only [h.dirent] at hempty hfirst
  exact ⟨hmod, hle, hempty, hfirst⟩

lemma Entry.congr {s' t' : State} {off : Nat} {de : Dirent} (h : Entry sb i off de s t)
    (hs : SameBytes sb i s' s) (ht : SameBytes sb i t t') : Entry sb i off de s' t' := by
  refine ⟨h.aligned, hs.1 ▸ h.le, ?_, ?_, fun o ho hne => ?_⟩
  · rw [ht.1, h.size, hs.1]
  · rw [ht.dirent, h.self]
  rw [ht.dirent, h.other o ho hne, hs.dirent]

structure SameData (sb : Superblock) (s t : State) : Prop where
  free : ∀ j < sb.ninodes, (s.ino sb j).type = 0 → (t.ino sb j).type = 0
  ino : ∀ j < sb.ninodes, (s.ino sb j).type ≠ 0 →
    t.ino sb j = { s.ino sb j with addrs := (t.ino sb j).addrs }
  content : ∀ j < sb.ninodes, (s.ino sb j).type ≠ 0 → ∀ o, t.content sb j o = s.content sb j o

lemma SameFiles.data (h : SameFiles sb s t) : SameData sb s t :=
  ⟨fun j _ h0 => by rw [h.ino, h0], fun j _ _ => by rw [h.ino], fun j _ _ => h.content j⟩

def Restored (sb : Superblock) (j : Nat) (s t : State) : Prop :=
  (s.ino sb j).type = 0 ∧ (t.ino sb j).type = 0 ∨
    t.ino sb j = { s.ino sb j with addrs := (t.ino sb j).addrs } ∧
      ∀ o, t.content sb j o = s.content sb j o

lemma SameBut.data {X : Nat → Prop} (h : SameBut sb X s t) (hX : ∀ j, X j → Restored sb j s t) :
    SameData sb s t := by
  have hall : ∀ j < sb.ninodes, Restored sb j s t := by
    intro j hj
    by_cases hXj : X j
    · exact hX j hXj
    exact .inr ⟨by rw [h.ino j hj hXj], h.content j hXj⟩
  refine ⟨fun j hj h0 => ?_, fun j hj ht => ?_, fun j hj ht => ?_⟩
  · rcases hall j hj with ⟨-, hgone⟩ | ⟨hino, -⟩
    · exact hgone
    rwa [hino]
  · rcases hall j hj with ⟨h0, -⟩ | ⟨hino, -⟩
    · exact absurd h0 ht
    exact hino
  rcases hall j hj with ⟨h0, -⟩ | ⟨-, hcontent⟩
  · exact absurd h0 ht
  exact hcontent

structure Created (sb : Superblock) (type major minor d i : Nat) (name : Name) (s t : State) :
    Prop where
  dir_lt : d < sb.ninodes
  dir : (s.ino sb d).type = tDir
  lt : 0 < i ∧ i < sb.ninodes
  free : (s.ino sb i).type = 0
  fresh : s.lookup sb d name = none
  but : SameBut sb (fun j => j = d ∨ j = i) s t
  new : t.ino sb i = ⟨type, major, minor, 1, (t.ino sb i).size, (t.ino sb i).addrs⟩
  empty : type ≠ tDir → (t.ino sb i).size = 0
  dots : type = tDir → i < 2 ^ 16 → (t.ino sb i).size = 32 ∧
    t.dirent sb i 0 = (⟨i, dot⟩ : Dirent).stored ∧ t.dirent sb i 16 = (⟨d, dotdot⟩ : Dirent).stored
  parent : t.ino sb d = { (if type = tDir then (s.ino sb d).incLink else s.ino sb d) with
    size := (t.ino sb d).size, addrs := (t.ino sb d).addrs }
  entry : ∃ off, s.Vacant sb d off ∧ Entry sb d off (⟨i, name⟩ : Dirent).stored s t
  slot : ∀ p, s.slot sb p ≠ 0 → t.slot sb p = s.slot sb p

lemma DirLinked.created {t' : State} {off : Nat} (hl : DirLinked sb d ⟨i, name⟩ 0 t t')
    (hu : Updated sb d (fun x => if type = tDir then x.incLink else x) t' u)
    (hdlt : d < sb.ninodes) (hdir : (s.ino sb d).type = tDir) (hlt : 0 < i ∧ i < sb.ninodes)
    (hfree : (s.ino sb i).type = 0) (hfresh : s.lookup sb d name = none)
    (hbut : SameBut sb (· = i) s t)
    (hnew : t.ino sb i = ⟨type, major, minor, 1, (t.ino sb i).size, (t.ino sb i).addrs⟩)
    (hempty : type ≠ tDir → (t.ino sb i).size = 0)
    (hdots : type = tDir → i < 2 ^ 16 → (t.ino sb i).size = 32 ∧
      t.dirent sb i 0 = (⟨i, dot⟩ : Dirent).stored ∧
      t.dirent sb i 16 = (⟨d, dotdot⟩ : Dirent).stored)
    (hvacant : t.Vacant sb d off) (hentry : Entry sb d off (⟨i, name⟩ : Dirent).stored t t') :
    Created sb type major minor d i name s u := by
  have hne : d ≠ i := by
    rintro rfl
    rw [hfree] at hdir
    cases hdir
  have hd := hbut.ino d hdlt hne
  have hbytes : SameBytes sb d s t := hbut.bytes hdlt hne
  have hi : u.ino sb i = t.ino sb i := by
    rw [hu.but.ino i hlt.2 hne.symm, hl.but.ino i hlt.2 hne.symm]
  have hcontent : ∀ o, u.content sb i o = t.content sb i o := fun o => by
    rw [hu.content, hl.but.content i hne.symm]
  have hsize : (u.ino sb d).size = (t'.ino sb d).size := by
    rw [hu.ino, if_pos rfl]
    split <;> rfl
  have hdirent : ∀ o, u.dirent sb i o = t.dirent sb i o := fun o =>
    dirent_congr fun k _ => hcontent (o + k)
  refine ⟨hdlt, hdir, hlt, hfree, hfresh, ?_, ?_, fun h => ?_, fun h hlt => ?_, ?_, ⟨off, ?_, ?_⟩,
    fun p hp => ?_⟩
  · exact ((hbut.mono (fun j hj => .inr hj)).trans (hl.but.mono (fun j hj => .inl hj))).trans
      (hu.but.mono (fun j hj => .inl hj))
  · rwa [hi]
  · rw [hi]
    exact hempty h
  · rw [hi, hdirent, hdirent]
    exact hdots h hlt
  · rw [hu.ino, if_pos rfl, hl.ino, hd]
    by_cases htype : type = tDir
    · simp only [if_pos htype]
      rfl
    simp only [if_neg htype]
  · exact hbytes.vacant hvacant
  · exact hentry.congr hbytes ⟨hsize, hu.content d⟩
  have hpi : p.1 ≠ i := fun e => hp (slot_of_free (by rw [e, hfree]))
  have hold := hbut.slot p hpi
  rw [hu.slot, hl.slot p (by rwa [hold]), hold]

lemma SameFiles.created (h : SameFiles sb t u) (hc : Created sb type major minor d i name s t) :
    Created sb type major minor d i name s u := by
  have hdirent : ∀ o, u.dirent sb i o = t.dirent sb i o := h.bytes.dirent
  obtain ⟨off, hvacant, hentry⟩ := hc.entry
  refine ⟨hc.dir_lt, hc.dir, hc.lt, hc.free, hc.fresh, hc.but.trans h.but, ?_, ?_, ?_, ?_,
    ⟨off, hvacant, hentry.congr ⟨rfl, fun _ => rfl⟩ h.bytes⟩, fun p hp => by rw [h.slot,
      hc.slot p hp]⟩
  · rw [h.ino]
    exact hc.new
  · rw [h.ino]
    exact hc.empty
  · rw [h.ino, hdirent, hdirent]
    exact hc.dots
  rw [h.ino]
  exact hc.parent

lemma fits_incLink {x : Dinode} (h : x.Fits) : x.incLink.Fits :=
  ⟨h.type, h.major, h.minor, Nat.mod_lt (x.nlink + 1) (Nat.two_pow_pos 16), h.size, h.addrs⟩

lemma fits_decLink {x : Dinode} (h : x.Fits) : x.decLink.Fits := by
  refine ⟨h.type, h.major, h.minor, ?_, h.size, h.addrs⟩
  have := h.nlink
  show (if x.nlink = 0 then 2 ^ 16 - 1 else x.nlink - 1) < 2 ^ 16
  split <;> omega

lemma Dirent.Fits.stored {de : Dirent} (h : de.Fits) : de.stored = de := h.ofBytes_byte

lemma dot_fits (h : i < 2 ^ 16) : (⟨i, dot⟩ : Dirent).Fits :=
  ⟨h, show dot.length ≤ dirsiz by decide, show (0 : UInt8) ∉ dot by decide⟩

section
variable (ok : sb.Ok) (hs : Consistent sb s) (hE : ∀ e ≠ .unlinkNlink, E e)

section
include ok hE

section
variable (h : Holding sb s [⟨ip, i, true⟩, ⟨dp, d, true⟩] t)
include h

lemma wp_linkDots (hsize : (t.ino sb i).size = 0) :
    wp (linkDots sb dp ip) t (fun r u => Holding sb s [⟨ip, i, true⟩, ⟨dp, d, true⟩] u ∧
      SameBut sb (· = i) t u ∧
      u.ino sb i = { t.ino sb i with size := (u.ino sb i).size, addrs := (u.ino sb i).addrs } ∧
      (r < 0 ∨ r = 0 ∧ (0 < i → i < 2 ^ 16 → (u.ino sb i).size = 32 ∧
        u.dirent sb i 0 = (⟨i, dot⟩ : Dirent).stored ∧
        u.dirent sb i 16 = (⟨d, dotdot⟩ : Dirent).stored))) E := by
  unfold linkDots
  rw [wp_bind, wp_inode, h.inum _ List.mem_cons_self]
  refine wp_bind_of (h.wp_dirlink ok List.mem_cons_self hE) fun r t1 h1 => ?_
  obtain ⟨h1, hl1⟩ := h1
  rcases hl1.result with ⟨rfl, -⟩ | ⟨rfl, -, off1, hv1, he1⟩
  · rw [if_pos (by decide), wp_pure]
    exact ⟨h1, hl1.but, hl1.ino, .inl (by decide)⟩
  rw [if_neg (by decide), wp_bind, wp_inode, h1.inum ⟨dp, d, true⟩ (by simp)]
  refine wp_imp (h1.wp_dirlink ok List.mem_cons_self hE) fun r t2 h2 => ?_
  obtain ⟨h2, hl2⟩ := h2
  refine ⟨h2, hl1.but.trans hl2.but, by rw [hl2.ino, hl1.ino], ?_⟩
  rcases hl2.result with ⟨rfl, -⟩ | ⟨rfl, -, off2, hv2, he2⟩
  · exact .inl (by decide)
  refine .inr ⟨rfl, fun hpos hlt => ?_⟩
  have hfirst : (⟨i, dot⟩ : Dirent).stored.inum = i := by rw [(dot_fits hlt).stored]
  have h0 : off1 = 0 := by
    have := hv1.le
    omega
  subst h0
  have hsize1 : (t1.ino sb i).size = 16 := by
    have := he1.size
    omega
  have h16 : off2 = 16 := by
    have hle := hv2.le
    have hmod := hv2.aligned
    have hne : off2 ≠ 0 := by
      rintro rfl
      have := (hv2.empty (by omega)).2
      rw [he1.self, hfirst] at this
      omega
    omega
  subst h16
  refine ⟨?_, ?_, he2.self⟩
  · have := he2.size
    omega
  rw [he2.other 0 (by decide) (by decide), he1.self]

lemma wp_newDots (hpos : 0 < i) (hnew : t.ino sb i = ⟨type, major, minor, 1, 0, fun _ => 0⟩) :
    wp (if type = tDir then linkDots sb dp ip else pure 0) t (fun r u =>
      Holding sb s [⟨ip, i, true⟩, ⟨dp, d, true⟩] u ∧ SameBut sb (· = i) t u ∧
      u.ino sb i = ⟨type, major, minor, 1, (u.ino sb i).size, (u.ino sb i).addrs⟩ ∧
      (r < 0 ∨ r = 0 ∧ (type ≠ tDir → (u.ino sb i).size = 0) ∧
        (type = tDir → i < 2 ^ 16 → (u.ino sb i).size = 32 ∧
          u.dirent sb i 0 = (⟨i, dot⟩ : Dirent).stored ∧
          u.dirent sb i 16 = (⟨d, dotdot⟩ : Dirent).stored))) E := by
  refine wp_ite (fun htype => ?_) fun htype => ?_
  · refine wp_imp (wp_linkDots ok hE h (by rw [hnew])) fun r u hu => ?_
    obtain ⟨hu, hbut, hino, hr⟩ := hu
    refine ⟨hu, hbut, by rw [hino, hnew], hr.imp_right (fun hr => ⟨hr.1, fun hne => ?_,
      fun _ => ?_⟩)⟩
    · exact absurd htype hne
    exact hr.2 hpos
  rw [wp_pure]
  refine ⟨h, .refl, by rw [hnew], .inr ⟨rfl, fun _ => by rw [hnew], fun he => ?_⟩⟩
  exact absurd he htype
end
end
section
include ok hs

lemma wp_createFail (h : Holding sb s [⟨ip, i, true⟩, ⟨dp, d, true⟩] t)
    (hfree : (s.ino sb i).type = 0) (hne : d ≠ i)
    (hnlink : (t.ino sb d).nlink = (s.ino sb d).nlink) (htype : (t.ino sb d).type =
      (s.ino sb d).type) :
    wp (createFail sb dp ip) t (fun r u => r = none ∧ Holding sb s [] u ∧ SameBut sb (· = i) t u ∧
      (u.ino sb i).type = 0) E := by
  have hopen := h.locked ⟨ip, i, true⟩ (.head _) rfl
  have hd := h.locked ⟨dp, d, true⟩ (by simp) rfl
  have hlt : d < sb.ninodes := h.good.owned.table.lt _ _ hd
  have hipdp : ip ≠ dp := by
    rintro rfl
    exact hne (hd.2.2.symm.trans hopen.2.2)
  have hnone : (s.itable ip).ref = 0 := by
    by_contra hpos
    have hpos := Nat.pos_of_ne_zero hpos
    refine (hs.live ip hpos).2 ?_
    rw [← h.held ip hpos, hopen.2.2, hfree]
  unfold createFail iunlockput
  refine wp_bind_of (h.wp_update ok List.mem_cons_self
    (fun x hx => ⟨hx.type, hx.major, hx.minor, Nat.two_pow_pos 16, hx.size, hx.addrs⟩)
    (fun x => ⟨rfl, rfl, rfl⟩)) (fun _ t1 h1 => ?_)
  obtain ⟨h1, hu1⟩ := h1
  refine wp_bind_of (h1.wp_iput_last ok rfl (by rw [hu1.ino, if_pos rfl]) hnone
    (by simpa using hipdp))
    (fun _ t2 h2 => ?_)
  obtain ⟨h2, hf2⟩ := h2
  have hbut : SameBut sb (· = i) t t2 := hu1.but.trans hf2.but
  refine wp_bind_of (hs.wp_iput ok h2 ?_ ?_) fun _ t3 h3 => ?_
  · rw [hbut.ino d hlt hne, hnlink]
    exact id
  · rw [hbut.ino d hlt hne, htype]
    exact id
  refine wp_pure.mpr ⟨rfl, h3.1, hbut.trans h3.2.but, ?_⟩
  rw [h3.2.ino]
  exact hf2.type

include hE

section
variable (h : Holding sb s [⟨ip, i, false⟩, ⟨dp, d, true⟩] t)
include h

lemma wp_createNew (hdir : (s.ino sb d).type = tDir) (hfresh : s.lookup sb d name = none)
    (hlt : 0 < i ∧ i < sb.ninodes) (hfree : (s.ino sb i).type = 0) (hmajor : major < 2 ^ 16)
    (hminor : minor < 2 ^ 16) (hbut : SameBut sb (· = i) s t)
    (hnew : t.ino sb i = { Dinode.zero with type := type }) :
    wp (createNew sb dp ip name type major minor) t (fun r u => match r with
      | none => Holding sb s [] u ∧ SameData sb s u
      | some k => k = ip ∧ Holding sb s [⟨ip, i, true⟩] u ∧
        ((type = tDir → (s.ino sb d).nlink + 1 < 2 ^ 16) →
          Created sb type major minor d i name s u)) E := by
  have hdlt : d < sb.ninodes :=
    h.good.owned.table.lt _ _ (h.locked ⟨dp, d, true⟩ (by simp) rfl)
  have hne : d ≠ i := by
    rintro rfl
    rw [hfree] at hdir
    cases hdir
  unfold createNew iunlockput
  refine wp_bind_of (h.wp_ilock hlt.2 (fun _ => hE _ nofun)) fun _ t1 h1 => ?_
  obtain ⟨h1, hf1⟩ := h1
  refine wp_bind_of (h1.wp_update ok List.mem_cons_self
    (fun x hx => ⟨hx.type, hmajor, hminor, show 1 < 2 ^ 16 by decide, hx.size, hx.addrs⟩)
    (fun x => ⟨rfl, rfl, rfl⟩)) (fun _ t2 h2 => ?_)
  obtain ⟨h2, hu2⟩ := h2
  have hino2 : t2.ino sb i = ⟨type, major, minor, 1, 0, fun _ => 0⟩ := by
    rw [hu2.ino, if_pos rfl, hf1.ino, hnew]
    rfl
  refine wp_bind_of (wp_newDots ok hE h2 hlt.1 hino2) fun r t3 h3 => ?_
  obtain ⟨h3, hbut3, hino3, hr⟩ := h3
  have hbut3 : SameBut sb (· = i) s t3 := ((hbut.trans hf1.but).trans hu2.but).trans hbut3
  have hd3 := hbut3.ino d hdlt hne
  rcases hr with hneg | ⟨rfl, hempty, hdots⟩
  · rw [if_pos hneg]
    refine wp_imp (wp_createFail ok hs h3 hfree hne (by rw [hd3]) (by rw [hd3])) fun r u hu => ?_
    obtain ⟨rfl, hu, hbutu, hgone⟩ := hu
    refine ⟨hu, (hbut3.trans hbutu).data ?_⟩
    rintro j rfl
    exact .inl ⟨hfree, hgone⟩
  rw [if_neg (by decide), wp_bind, wp_inode, h3.inum _ List.mem_cons_self]
  refine wp_bind_of (h3.wp_dirlink (i := d) ok (by simp) hE) fun r t4 h4 => ?_
  obtain ⟨h4, hl4⟩ := h4
  have hbut4 : SameBut sb (fun j => j = d ∨ j = i) s t4 :=
    (hbut3.mono (fun j hj => .inr hj)).trans (hl4.but.mono (fun j hj => .inl hj))
  have hbytes3 : SameBytes sb d s t3 := hbut3.bytes hdlt hne
  rcases hl4.result with ⟨rfl, hbytes4⟩ | ⟨rfl, -, off, hvacant, hentry⟩
  · rw [if_pos (by decide)]
    refine wp_imp (wp_createFail ok hs h4 hfree hne (by rw [hl4.ino, hd3]) (by rw [hl4.ino, hd3]))
      (fun r u hu => ?_)
    obtain ⟨rfl, hu, hbutu, hgone⟩ := hu
    refine ⟨hu, (hbut4.trans (hbutu.mono (fun j hj => .inr hj))).data ?_⟩
    rintro j (rfl | rfl)
    · refine .inr ⟨?_, fun o => ?_⟩
      · rw [hbutu.ino j hdlt hne, hl4.ino, hd3, hbytes4.1, hd3]
      rw [hbutu.content j hne, hbytes4.2, hbytes3.2]
    exact .inl ⟨hfree, hgone⟩
  rw [if_neg (by decide)]
  refine wp_bind_of (h4.wp_updateIf (i := d) ok (by simp) (fun _ => fits_incLink)
    (fun _ => ⟨rfl, rfl, rfl⟩)) (fun _ t5 h5 => ?_)
  obtain ⟨h5, hu5⟩ := h5
  by_cases hwrap : type = tDir → (s.ino sb d).nlink + 1 < 2 ^ 16
  · have hcreated := hl4.created hu5 hdlt hdir hlt hfree hfresh hbut3 hino3 hempty hdots hvacant
      hentry
    refine wp_bind_of (hs.wp_iput ok h5.swap ?_ ?_) fun _ u hu => ?_
    · rw [hcreated.parent]
      by_cases htype : type = tDir
      · have hlt := hwrap htype
        simp only [if_pos htype, Dinode.incLink]
        omega
      simp only [if_neg htype]
      exact id
    · rw [hcreated.dir]
      intro h0
      cases h0
    exact wp_pure.mpr ⟨rfl, hu.1, fun _ => hu.2.created hcreated⟩
  refine wp_bind_of (h5.swap.wp_iput_any ok) fun _ u hu => ?_
  exact wp_pure.mpr ⟨rfl, hu, fun h => absurd h hwrap⟩

lemma wp_createOld (hfiles : SameFiles sb s t) (hlt : i < sb.ninodes) :
    wp (createOld sb dp ip type) t (fun r u => SameFiles sb s u ∧ match r with
      | none => Holding sb s [] u
      | some k => k = ip ∧ Holding sb s [⟨ip, i, true⟩] u ∧ type = tFile ∧
        ((s.ino sb i).type = tFile ∨ (s.ino sb i).type = tDevice)) E := by
  unfold createOld iunlockput
  refine wp_bind_of (hs.wp_iput ok h.swap (by rw [hfiles.ino]; exact id)
    (by rw [hfiles.ino]; exact id)) (fun _ t1 h1 => ?_)
  obtain ⟨h1, hf1⟩ := h1
  refine wp_bind_of (h1.wp_ilock hlt (fun _ => hE _ nofun)) fun _ t2 h2 => ?_
  obtain ⟨h2, hf2⟩ := h2
  have hf2 := (hfiles.trans hf1).trans hf2
  rw [wp_bind, wp_inode,
    ← ino_of_open h2.good.owned.table (h2.locked _ List.mem_cons_self rfl), hf2.ino]
  refine wp_ite (fun hc => wp_pure.mpr ?_) fun _ => ?_
  · exact ⟨hf2, rfl, h2, hc⟩
  refine wp_bind_of (hs.wp_iput ok h2 (by rw [hf2.ino]; exact id) (by rw [hf2.ino]; exact id))
    (fun _ u hu => ?_)
  exact wp_pure.mpr ⟨hf2.trans hu.2, hu.1⟩
end
end
end

def CreateResult (sb : Superblock) (s : State) (dir : Nat) (path : Path) (type major minor : Nat)
    (r : Option (Fin ninode)) (t : State) : Prop :=
  match r with
  | none => Holding sb s [] t ∧ SameData sb s t
  | some ip => ∃ d name i, s.resolve sb dir path true = some (d, name) ∧
    Holding sb s [⟨ip, i, true⟩] t ∧
    ((∃ off, s.lookup sb d name = some (i, off)) ∧ SameFiles sb s t ∧ type = tFile ∧
        ((s.ino sb i).type = tFile ∨ (s.ino sb i).type = tDevice) ∨
      (s.ino sb i).type = 0 ∧ ((type = tDir → (s.ino sb d).nlink + 1 < 2 ^ 16) →
        Created sb type major minor d i name s t))

lemma wp_create (ok : sb.Ok) (hs : Consistent sb s) (hE : ∀ e ≠ .unlinkNlink, E e)
    (hcwd : 0 < (s.itable cwd).ref) (htype : type < 2 ^ 16) (hmajor : major < 2 ^ 16)
    (hminor : minor < 2 ^ 16) :
    wp (create sb cwd path type major minor) s
      (CreateResult sb s (s.itable cwd).inum path type major minor) E := by
  unfold create iunlockput
  refine wp_bind_of (wp_nameiparent (fun e he => hE e he.ne) ok hs hcwd) fun r t1 h1 => ?_
  obtain ⟨hf1, h1⟩ := h1
  cases r with
  | none => exact wp_pure.mpr ⟨h1.2, hf1.data⟩
  | some q =>
    obtain ⟨d, hres, hd, hdir, h1⟩ := h1
    have hdir := hdir rfl
    refine wp_bind_of (h1.wp_ilock hd (fun _ => hE _ nofun)) fun _ t2 h2 => ?_
    obtain ⟨h2, hf2⟩ := h2
    have hf2 := hf1.trans hf2
    have hopen := h2.locked _ List.mem_cons_self rfl
    refine wp_bind_of (wp_dirlookup_lookup h2.good hopen (fun _ => hE _ nofun)
      (fun _ => hE _ nofun) (fun _ => hE _ nofun)) (fun r t3 h3 => ?_)
    rw [hf2.bytes.lookup] at h3
    cases r with
    | some p =>
      obtain ⟨i, hlook, hgot⟩ := h3
      have hi : i < sb.ninodes := by
        obtain ⟨hname, hinum⟩ := names_of_lookup hlook
        have := hs.entries d hd hdir _ _ hname
        rwa [hinum] at this
      refine wp_imp (wp_createOld ok hs hE (h2.ofGot hgot) (hf2.trans hgot.files) hi)
        (fun r u hu => ?_)
      cases r with
      | none => exact ⟨hu.2, hu.1.data⟩
      | some k =>
        obtain ⟨hfu, rfl, hu, hkind⟩ := hu
        exact ⟨d, q.2, i, hres, hu, .inl ⟨⟨p.2, hlook⟩, hfu, hkind⟩⟩
    | none =>
      obtain ⟨rfl, hfresh⟩ := h3
      refine wp_bind_of (wp_ialloc ok h2.good htype (hE _ nofun)) fun r t4 h4 => ?_
      cases r with
      | none =>
        subst h4
        refine wp_bind_of (hs.wp_iput ok h2 (by rw [hf2.ino]; exact id) (by rw [hf2.ino]; exact id))
          (fun _ u hu => ?_)
        exact wp_pure.mpr ⟨hu.1, (hf2.trans hu.2).data⟩
      | some ip =>
        obtain ⟨i, ha⟩ := h4
        have hfree : (s.ino sb i).type = 0 := by
          rw [← hf2.ino]
          exact ha.free
        refine wp_imp (wp_createNew ok hs hE (h2.ofAlloced ha) hdir hfresh ha.lt hfree hmajor hminor
          (hf2.but.trans ha.but) (by rw [ha.ino, if_pos rfl])) (fun r u hu => ?_)
        cases r with
        | none => exact hu
        | some k =>
          obtain ⟨rfl, hu, hcreated⟩ := hu
          exact ⟨d, q.2, i, hres, hu, .inr ⟨hfree, hcreated⟩⟩
end Xv6.Fs
