import Xv6.Fs.Create

namespace Xv6.Fs
open State Lib
variable {sb : Superblock} {s t u : State} {ip dp cwd : Fin ninode} {E : Panic → Prop}
  {d i off : Nat} {name : Name}

def State.Empty (s : State) (sb : Superblock) (i : Nat) : Prop :=
  ∀ off, 32 ≤ off → off % 16 = 0 → off + 16 ≤ (s.ino sb i).size → (s.dirent sb i off).inum = 0

lemma wp_isdiremptyLoop (h : Good sb s) (hdp : s.Open dp i) (hread : E .isdiremptyReadi) :
    ∀ fuel off, off % 16 = 0 → (s.ino sb i).size < off + 16 * fuel →
      (∀ o, 32 ≤ o → o < off → o % 16 = 0 → (s.dirent sb i o).inum = 0) →
      wp (isdiremptyLoop sb dp fuel off) s (fun r t => t = s ∧ (r → s.Empty sb i)) E := by
  intro fuel
  induction fuel with
  | zero =>
    intro off _ hfuel hempty
    rw [isdiremptyLoop, wp_pure]
    exact ⟨rfl, fun _ o h1 h2 h3 => hempty o h1 (by omega) h2⟩
  | succ fuel ih =>
    intro off hmod hfuel hempty
    rw [isdiremptyLoop, wp_bind, wp_inode, ← ino_of_open h.owned.table hdp]
    refine wp_ite (fun hlt => ?_) fun hlt => ?_
    · refine wp_bind_of (wp_readEntry h hdp hlt) fun r t hr => ?_
      rw [hr.1]
      by_cases h16 : r.1 = 16
      · rw [if_neg (fun hne => hne h16), hr.2.2 h16]
        refine wp_ite (fun _ => wp_pure.mpr ?_) fun hfull => ?_
        · exact ⟨rfl, fun hb => (by cases hb)⟩
        refine ih (off + 16) (by omega) (by omega) fun o h1 h2 h3 => ?_
        rcases Nat.lt_or_ge o off with hlo | hge
        · exact hempty o h1 hlo h3
        have he : o = off := by omega
        rw [he]
        exact not_not.mp hfull
      rwa [if_pos h16, wp_throw]
    rw [wp_pure]
    exact ⟨rfl, fun _ o h1 h2 h3 => hempty o h1 (by omega) h2⟩

lemma wp_isdirempty (h : Good sb s) (hdp : s.Open dp i) (hread : E .isdiremptyReadi) :
    wp (isdirempty sb dp) s (fun r t => t = s ∧ (r → s.Empty sb i)) E := by
  unfold isdirempty
  rw [wp_bind, wp_inode, ← ino_of_open h.owned.table hdp]
  exact wp_isdiremptyLoop h hdp hread _ 32 rfl (by omega) fun o h1 h2 => by omega

structure NameRemoved (sb : Superblock) (d i off : Nat) (name : Name) (s t : State) : Prop where
  dir_lt : d < sb.ninodes
  dir : (s.ino sb d).type = tDir
  lt : i < sb.ninodes
  type : (s.ino sb i).type ≠ 0
  name : s.lookup sb d name = some (i, off) ∧ name ≠ dot ∧ name ≠ dotdot
  links : 1 ≤ (s.ino sb i).links
  empty : (s.ino sb i).type = tDir → s.Empty sb i
  but : SameBut sb (fun j => j = d ∨ j = i) s t
  entry : Entry sb d off ⟨0, []⟩ s t
  parent : t.ino sb d = { (if (s.ino sb i).type = tDir then (s.ino sb d).decLink else s.ino sb d)
    with
    addrs := (t.ino sb d).addrs }
  slot : ∀ k, s.slot sb (d, k) ≠ 0 → t.slot sb (d, k) = s.slot sb (d, k)
  self : t.ino sb i = (s.ino sb i).decLink ∧ (∀ o, t.content sb i o = s.content sb i o) ∨
    (s.ino sb i).nlink = 1 ∧ (t.ino sb i).type = 0
  last : (s.ino sb i).nlink = 1 → (∀ k, 0 < (s.itable k).ref → (s.itable k).inum ≠ i) →
    (t.ino sb i).type = 0

lemma nlink_decLink_eq_zero {x : Dinode} : x.decLink.nlink = 0 ↔ x.nlink = 1 := by
  show (if x.nlink = 0 then 2 ^ 16 - 1 else x.nlink - 1) = 0 ↔ x.nlink = 1
  split <;> omega

section
variable (ok : sb.Ok) (hs : Consistent sb s) (hE : ∀ e ≠ .unlinkNlink, E e)
include ok

lemma wp_dropLink (h : Holding sb s [⟨ip, i, true⟩] t) :
    wp (do update sb ip Dinode.decLink; iput sb ip; pure (0 : Int)) t (fun r u => r = 0 ∧
      Holding sb s [] u ∧ SameBut sb (· = i) t u ∧
      (u.ino sb i = (t.ino sb i).decLink ∧ (∀ o, u.content sb i o = t.content sb i o) ∨
        (t.ino sb i).nlink = 1 ∧ (u.ino sb i).type = 0) ∧
      ((t.ino sb i).nlink = 1 → (s.itable ip).ref = 0 → (u.ino sb i).type = 0)) E := by
  refine wp_bind_of (h.wp_update ok List.mem_cons_self (fun _ => fits_decLink)
    (fun _ => ⟨rfl, rfl, rfl⟩)) (fun _ t1 h1 => ?_)
  obtain ⟨h1, hu1⟩ := h1
  have hopen := h1.locked _ List.mem_cons_self rfl
  have hself : t1.ino sb i = (t.ino sb i).decLink := by rw [hu1.ino, if_pos rfl]
  have hcopy : (t1.itable ip).copy.nlink = 0 ↔ (t.ino sb i).nlink = 1 := by
    rw [← ino_of_open h1.good.owned.table hopen, hself]
    exact nlink_decLink_eq_zero
  have href : (t1.itable ip).ref = (s.itable ip).ref + 1 := by
    rw [h1.ref]
    simp
  refine wp_bind_of (wp_iput ok h1.good hopen.1) fun _ u hu => ?_
  obtain ⟨hd, hu⟩ := hu
  rw [hopen.2.2] at hu
  refine wp_pure.mpr ⟨rfl, h1.put hd, ?_⟩
  rcases hu with ⟨hfiles, hno⟩ | ⟨-, -, h0, hfreed⟩
  · refine ⟨hu1.but.trans hfiles.but, .inl ⟨by rw [hfiles.ino, hself], fun o => ?_⟩,
      fun hone hzero => ?_⟩
    · rw [hfiles.content, hu1.content]
    exact absurd ⟨by omega, hopen.2.1, hcopy.mpr hone⟩ hno
  exact ⟨hu1.but.trans hfreed.but, .inr ⟨hcopy.mp h0, hfreed.type⟩, fun _ _ => hfreed.type⟩

include hs hE

lemma wp_removeName (h : Holding sb s [⟨ip, i, true⟩, ⟨dp, d, true⟩] t)
    (hfiles : SameFiles sb s t) (hdir : (s.ino sb d).type = tDir) (hi : i < sb.ninodes)
    (hlook : s.lookup sb d name = some (i, off)) (hname : name ≠ dot ∧ name ≠ dotdot)
    (hlinks : 1 ≤ (s.ino sb i).links) (hempty : (s.ino sb i).type = tDir → s.Empty sb i) :
    wp (removeName sb dp ip off) t (fun r u => r = 0 ∧ Holding sb s [] u ∧ (d ≠ i →
      ((s.ino sb i).type = tDir → (s.ino sb d).nlink ≠ 1) → NameRemoved sb d i off name s u)) E :=
        by
  have hnames : s.Names sb d off name := (names_of_lookup hlook).1
  have hend := hnames.2.1
  have hopen := h.locked _ List.mem_cons_self rfl
  have hdopen : t.Open dp d := h.locked ⟨dp, d, true⟩ (by simp) rfl
  have hd : d < sb.ninodes := h.good.owned.table.lt _ _ hdopen
  have ht : (s.ino sb i).type ≠ 0 := by
    rw [← hfiles.ino, ino_of_open h.good.owned.table hopen]
    exact h.good.typed _ _ hopen
  unfold removeName iunlockput
  refine wp_bind_of (wp_writei ok h.good hdopen) fun n t1 h₁ => ?_
  refine wp_ite (fun _ => ?_) fun hn => ?_
  · rw [wp_throw]
    exact hE _ nofun
  rcases h₁ with ⟨hneg, -⟩ | ⟨tot, stop, htot, -, -, hall, -, -, -, hw⟩
  · omega
  obtain ⟨rfl, -⟩ := hall (fun _ _ => rfl)
  obtain rfl : tot = 16 := by omega
  have h₁ := h.sameRefs hw.refs hw.good
  have htype1 : (t1.ino sb i).type = (s.ino sb i).type := by
    by_cases hid : i = d
    · rw [hid, hw.ino, hfiles.ino]
    rw [hw.ino_other i hi hid, hfiles.ino]
  rw [wp_bind, wp_inode,
    ← ino_of_open h₁.good.owned.table (h₁.locked _ List.mem_cons_self rfl), htype1]
  refine wp_bind_of (h₁.wp_updateIf (i := d) ok (by simp) (fun _ => fits_decLink)
    (fun _ => ⟨rfl, rfl, rfl⟩)) (fun _ t2 h₂ => ?_)
  obtain ⟨h₂, hu2⟩ := h₂
  by_cases hgo : d ≠ i ∧ ((s.ino sb i).type = tDir → (s.ino sb d).nlink ≠ 1)
  · obtain ⟨hne, hnlink⟩ := hgo
    have hd1 : t1.ino sb d = { s.ino sb d with addrs := (t1.ino sb d).addrs } := by
      rw [hw.ino, hfiles.ino, max_eq_left hend]
    have hd2 : t2.ino sb d = { (if (s.ino sb i).type = tDir then (s.ino sb d).decLink
        else s.ino sb d) with addrs := (t2.ino sb d).addrs } := by
      rw [hu2.ino, if_pos rfl, hd1]
      split <;> rfl
    have hi2 : t2.ino sb i = s.ino sb i := by
      rw [hu2.but.ino i hi hne.symm, hw.ino_other i hi hne.symm, hfiles.ino]
    refine wp_bind_of (hs.wp_iput ok h₂.swap (fun h0 => ?_) (fun h0 => ?_)) fun _ t3 h3 => ?_
    · rw [hd2] at h0
      by_cases hc : (s.ino sb i).type = tDir
      · simp only [if_pos hc] at h0
        exact absurd (nlink_decLink_eq_zero.mp h0) (hnlink hc)
      simpa only [if_neg hc] using h0
    · rw [hdir] at h0
      cases h0
    obtain ⟨h3, hf3⟩ := h3
    refine wp_imp (wp_dropLink ok h3) fun r u hu => ?_
    obtain ⟨rfl, hu, hbut, hself, hlast⟩ := hu
    rw [hf3.ino, hi2] at hself hlast
    have hd3 : u.ino sb d = t2.ino sb d := by rw [hbut.ino d hd hne, hf3.ino]
    have hbytes : SameBytes sb d t1 u := by
      refine ⟨?_, fun o => ?_⟩
      · rw [hd3, hu2.ino, if_pos rfl]
        split <;> rfl
      rw [hbut.content d hne, hf3.content, hu2.content]
    refine ⟨rfl, hu, fun _ _ => ⟨hd, hdir, hi, ht, ⟨hlook, hname⟩, hlinks, hempty, ?_, ?_, ?_,
      fun k hk => ?_, ?_, fun hone hnone => hlast hone ?_⟩⟩
    · refine ((hfiles.but.trans (hw.but.mono (fun j hj => .inl hj))).trans
        (hu2.but.mono (fun j hj => .inl hj))).trans (hf3.but.trans (hbut.mono
          (fun j hj => .inr hj)))
    · exact (hw.entry hnames.1 (by rw [hfiles.ino]; omega) rfl).congr hfiles.bytes hbytes
    · rw [hd3]
      exact hd2
    · have hold := hfiles.slot (d, k)
      rw [hbut.slot (d, k) hne, hf3.slot, hu2.slot, hw.slot _ (.inl (by rw [hold]; exact hk)), hold]
    · refine hself.imp_left (fun h => ⟨h.1, fun o => ?_⟩)
      rw [h.2, hf3.content, hu2.content, hw.other i hne.symm, hfiles.content]
    by_contra hpos
    have hpos := Nat.pos_of_ne_zero hpos
    refine hnone ip hpos ?_
    rw [← h.held ip hpos, hopen.2.2]
  refine wp_bind_of (h₂.swap.wp_iput_any ok) fun _ t3 h3 => ?_
  refine wp_imp (wp_dropLink ok h3) fun r u hu => ?_
  exact ⟨hu.1, hu.2.1, fun h1 h2 => absurd ⟨h1, h2⟩ hgo⟩

lemma wp_unlinkEntry (h : Holding sb s [⟨ip, i, false⟩, ⟨dp, d, true⟩] t)
    (hfiles : SameFiles sb s t) (hdir : (s.ino sb d).type = tDir) (hi : i < sb.ninodes)
    (hlook : s.lookup sb d name = some (i, off)) (hname : name ≠ dot ∧ name ≠ dotdot)
    (hlinks : (s.ino sb i).links < 1 → E .unlinkNlink) :
    wp (unlinkEntry sb dp ip off) t (fun r u => Holding sb s [] u ∧
      (r = -1 ∧ SameData sb s u ∨ r = 0 ∧ (d ≠ i →
        ((s.ino sb i).type = tDir → (s.ino sb d).nlink ≠ 1) →
          NameRemoved sb d i off name s u))) E := by
  unfold unlinkEntry iunlockput
  refine wp_bind_of (h.wp_ilock hi (fun _ => hE _ nofun)) fun _ t1 h₁ => ?_
  obtain ⟨h₁, hf1⟩ := h₁
  have hf1 := hfiles.trans hf1
  have hopen := h₁.locked _ List.mem_cons_self rfl
  rw [wp_bind, wp_inode, ← ino_of_open h₁.good.owned.table hopen, hf1.ino]
  by_cases hfew : (s.ino sb i).links < 1
  · rw [if_pos hfew, wp_throw]
    exact hlinks hfew
  rw [if_neg hfew]
  have hcheck : wp (if (s.ino sb i).type = tDir then isdirempty sb ip else pure true) t1
      (fun r v => v = t1 ∧ (r = true → (s.ino sb i).type = tDir → s.Empty sb i)) E := by
    by_cases hc : (s.ino sb i).type = tDir
    · rw [if_pos hc]
      refine wp_imp (wp_isdirempty h₁.good hopen (hE _ nofun)) (fun r v hv => ⟨hv.1,
        fun hr _ => ?_⟩)
      intro o h1 h2 h3
      rw [← hf1.bytes.dirent]
      exact hv.2 hr o h1 h2 (by rw [hf1.ino]; exact h3)
    rw [if_neg hc, wp_pure]
    exact ⟨rfl, fun _ hc' => absurd hc' hc⟩
  refine wp_bind_of hcheck fun r v hv => ?_
  obtain ⟨rfl, hempty⟩ := hv
  by_cases hr : r = false
  · rw [if_pos hr]
    refine wp_bind_of (hs.wp_iput ok h₁ (by rw [hf1.ino]; exact id) (by rw [hf1.ino]; exact id))
      (fun _ t2 h₂ => ?_)
    have hf2 := hf1.trans h₂.2
    refine wp_bind_of (hs.wp_iput ok h₂.1 (by rw [hf2.ino]; exact id) (by rw [hf2.ino]; exact id))
      (fun _ u hu => ?_)
    exact wp_pure.mpr ⟨hu.1, .inl ⟨rfl, (hf2.trans hu.2).data⟩⟩
  rw [if_neg hr]
  refine wp_imp (wp_removeName ok hs hE h₁ hf1 hdir hi hlook hname (by omega)
    (hempty (by simpa using hr))) (fun r u hu => ?_)
  exact ⟨hu.2.1, .inr ⟨hu.1, hu.2.2⟩⟩

lemma wp_sysUnlink {path : Nat → Option UInt8} (hcwd : 0 < (s.itable cwd).ref)
    (hlinks : ∀ d name i off, d < sb.ninodes → (s.ino sb d).type = tDir →
      s.lookup sb d name = some (i, off) → name ≠ dot ∧ name ≠ dotdot →
      (s.ino sb i).links < 1 → E .unlinkNlink) :
    wp (sysUnlink sb cwd path) s (fun r u => Holding sb s [] u ∧
      (r = -1 ∧ SameData sb s u ∨ r = 0 ∧ ∃ path' d name i off, argstr path = some path' ∧
        s.resolve sb (s.itable cwd).inum path' true = some (d, name) ∧
        s.lookup sb d name = some (i, off) ∧ (d ≠ i →
        ((s.ino sb i).type = tDir → (s.ino sb d).nlink ≠ 1) →
          NameRemoved sb d i off name s u))) E := by
  unfold sysUnlink iunlockput
  split
  · exact wp_pure.mpr ⟨.refl hs.good, .inl ⟨rfl, SameFiles.refl.data⟩⟩
  rename_i path' hpath
  refine wp_bind_of (wp_nameiparent (fun e he => hE e he.ne) ok hs hcwd) fun r t1 h1 => ?_
  obtain ⟨hf1, h1⟩ := h1
  cases r with
  | none => exact wp_pure.mpr ⟨h1.2, .inl ⟨rfl, hf1.data⟩⟩
  | some q =>
    obtain ⟨d, hres, hd, hdir, h1⟩ := h1
    have hdir := hdir rfl
    refine wp_bind_of (h1.wp_ilock hd (fun _ => hE _ nofun)) fun _ t2 h2 => ?_
    obtain ⟨h2, hf2⟩ := h2
    have hf2 := hf1.trans hf2
    have hquit : wp (do iput sb q.1; pure (-1 : Int)) t2 (fun r u => Holding sb s [] u ∧
        r = -1 ∧ SameData sb s u) E := by
      refine wp_bind_of (hs.wp_iput ok h2 (by rw [hf2.ino]; exact id) (by rw [hf2.ino]; exact id))
        (fun _ u hu => ?_)
      exact wp_pure.mpr ⟨hu.1, rfl, (hf2.trans hu.2).data⟩
    by_cases hdots : q.2 = dot ∨ q.2 = dotdot
    · simp only [if_pos hdots]
      exact wp_imp hquit (fun r u hu => ⟨hu.1, .inl hu.2⟩)
    simp only [if_neg hdots]
    refine wp_bind_of (wp_dirlookup_lookup h2.good (h2.locked _ List.mem_cons_self rfl)
      (fun _ => hE _ nofun) (fun _ => hE _ nofun) (fun _ => hE _ nofun)) (fun r t3 h3 => ?_)
    rw [hf2.bytes.lookup] at h3
    cases r with
    | none =>
      obtain ⟨rfl, -⟩ := h3
      exact wp_imp hquit (fun r u hu => ⟨hu.1, .inl hu.2⟩)
    | some p =>
      obtain ⟨i, hlook, hgot⟩ := h3
      have hi : i < sb.ninodes := by
        obtain ⟨hnames, hinum⟩ := names_of_lookup hlook
        have := hs.entries d hd hdir _ _ hnames
        rwa [hinum] at this
      refine wp_imp (wp_unlinkEntry ok hs hE (h2.ofGot hgot) (hf2.trans hgot.files) hdir hi hlook
        (not_or.mp hdots) (hlinks d q.2 i p.2 hd hdir hlook (not_or.mp hdots))) (fun r u hu => ?_)
      exact ⟨hu.1, hu.2.imp_right (fun hr =>
        ⟨hr.1, path', d, q.2, i, p.2, hpath, hres, hlook, hr.2⟩)⟩
end
end Xv6.Fs
