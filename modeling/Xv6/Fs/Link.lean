import Xv6.Fs.Create

namespace Xv6.Fs
open State Lib
variable {sb : Superblock} {s t u : State} {ip cwd : Fin ninode} {E : Panic → Prop} {d i : Nat}
  {name : Name} {path : Path}

lemma decLink_incLink {x : Dinode} (h : x.nlink < 2 ^ 16) : x.incLink.decLink = x := by
  have hnlink : (if (x.nlink + 1) % 2 ^ 16 = 0 then 2 ^ 16 - 1 else (x.nlink + 1) % 2 ^ 16 - 1) =
      x.nlink := by
    split <;> omega
  calc x.incLink.decLink = { x with nlink := if (x.nlink + 1) % 2 ^ 16 = 0 then 2 ^ 16 - 1
          else (x.nlink + 1) % 2 ^ 16 - 1 } := rfl
    _ = x := by rw [hnlink]

structure NameAdded (sb : Superblock) (d i : Nat) (name : Name) (s t : State) : Prop where
  dir_lt : d < sb.ninodes
  dir : (s.ino sb d).type = tDir
  lt : i < sb.ninodes
  type : (s.ino sb i).type ≠ 0 ∧ (s.ino sb i).type ≠ tDir
  fresh : s.lookup sb d name = none
  but : SameBut sb (fun j => j = d ∨ j = i) s t
  self : t.ino sb i = (s.ino sb i).incLink
  content : ∀ o, t.content sb i o = s.content sb i o
  parent : t.ino sb d = { s.ino sb d with size := (t.ino sb d).size, addrs := (t.ino sb d).addrs }
  entry : ∃ off, s.Vacant sb d off ∧ Entry sb d off (⟨i, name⟩ : Dirent).stored s t

structure Counted (sb : Superblock) (i : Nat) (s t : State) : Prop where
  but : SameBut sb (· = i) s t
  self : t.ino sb i = (s.ino sb i).incLink
  content : ∀ o, t.content sb i o = s.content sb i o

namespace Counted
variable (h : Counted sb i s t)
include h

lemma type (j : Nat) (hj : j < sb.ninodes) : (t.ino sb j).type = (s.ino sb j).type := by
  by_cases hji : j = i
  · rw [hji, h.self]
    rfl
  rw [h.but.ino j hj hji]

lemma bytes {j : Nat} (hj : j < sb.ninodes) : SameBytes sb j s t := by
  by_cases hji : j = i
  · rw [hji]
    exact ⟨by rw [h.self]; rfl, h.content⟩
  exact h.but.bytes hj hji

lemma consistent (hs : Consistent sb s) (hold : Holding sb s [⟨ip, i, true⟩] t) :
    Consistent sb t := by
  have hopen := hold.locked _ List.mem_cons_self rfl
  have hi : i < sb.ninodes := hold.good.owned.table.lt _ _ hopen
  refine ⟨hold.good, hs.root, fun k hk => ?_, fun j hj ht h0 => ?_, fun j hj ht off name hn => ?_⟩
  · by_cases hsk : 0 < (s.itable k).ref
    · have hlive := hs.live k hsk
      rwa [hold.held k hsk, h.type _ hlive.1]
    · have hkip : k = ip := by
        by_contra hne
        have h0 : (List.map Ref.ip [⟨ip, i, true⟩]).count k = 0 :=
          List.count_eq_zero.mpr (by simpa using hne)
        rw [hold.ref, h0] at hk
        omega
      rw [hkip, hopen.2.2, ino_of_open hold.good.owned.table hopen]
      exact ⟨hi, hold.good.typed _ _ hopen⟩
  · by_cases hji : j = i
    · refine ⟨ip, hopen.1, ?_⟩
      rw [hopen.2.2, hji]
    · rw [h.but.ino j hj hji] at ht h0
      obtain ⟨k, hk, hinum⟩ := hs.held j hj ht h0
      exact ⟨k, by rw [hold.ref]; omega, by rw [hold.held k hk, hinum]⟩
  rw [h.type j hj] at ht
  rw [(h.bytes hj).names_iff] at hn
  rw [(h.bytes hj).dirent]
  exact hs.entries j hj ht off name hn
end Counted
section
variable (ok : sb.Ok) (hs : Consistent sb s) (hE : ∀ e ≠ .unlinkNlink, E e)
include ok hs

lemma wp_linkBad (h : Holding sb s [⟨ip, i, true⟩] t) (hself : t.ino sb i =
    (s.ino sb i).incLink) :
    wp (linkBad sb ip) t (fun r u => r = -1 ∧ Holding sb s [] u ∧ SameBut sb (· = i) t u ∧
      u.ino sb i = s.ino sb i ∧ ∀ o, u.content sb i o = t.content sb i o) E := by
  have hopen := h.locked _ List.mem_cons_self rfl
  have hi : i < sb.ninodes := h.good.owned.table.lt _ _ hopen
  have hback : (t.ino sb i).decLink = s.ino sb i := by
    rw [hself]
    exact decLink_incLink (ino_fits hs.good.owned.table).nlink
  unfold linkBad iunlockput
  refine wp_bind_of (h.wp_ilock hi (fun h0 => ?_)) fun _ t1 h1 => ?_
  · rw [ino_of_open h.good.owned.table hopen] at h0
    exact absurd h0 (h.good.typed _ _ hopen)
  obtain ⟨h1, hf1⟩ := h1
  refine wp_bind_of (h1.wp_update ok List.mem_cons_self (fun _ => fits_decLink)
    (fun _ => ⟨rfl, rfl, rfl⟩)) (fun _ t2 h2 => ?_)
  obtain ⟨h2, hu2⟩ := h2
  have hino2 : t2.ino sb i = s.ino sb i := by rw [hu2.ino, if_pos rfl, hf1.ino, hback]
  refine wp_bind_of (hs.wp_iput ok h2 (by rw [hino2]; exact id) (by rw [hino2]; exact id))
    (fun _ u hu => ?_)
  refine wp_pure.mpr ⟨rfl, hu.1, (hf1.but.trans hu2.but).trans hu.2.but, ?_, fun o => ?_⟩
  · rw [hu.2.ino, hino2]
  rw [hu.2.content, hu2.content, hf1.content]

include hE

lemma wp_linkName (h : Holding sb s [⟨ip, i, true⟩] t) (hc : Counted sb i s t)
    (hcwd : 0 < (s.itable cwd).ref) (hdir : (s.ino sb i).type ≠ tDir) :
    wp (linkName sb cwd ip path) t (fun r u => Holding sb s [] u ∧
      (r = -1 ∧ SameData sb s u ∨ r = 0 ∧ ((s.ino sb i).nlink + 1 < 2 ^ 16 →
        ∃ d name, NameAdded sb d i name s u))) E := by
  have hopen := h.locked _ List.mem_cons_self rfl
  have hi : i < sb.ninodes := h.good.owned.table.lt _ _ hopen
  have ht : (s.ino sb i).type ≠ 0 := by
    rw [← hc.type i hi, ino_of_open h.good.owned.table hopen]
    exact h.good.typed _ _ hopen
  have hcons := hc.consistent hs h
  unfold linkName iunlockput
  refine wp_bind_of (wp_nameiparent (fun e he => hE e he.ne) ok hcons
    (by rw [h.ref]; omega)) fun r t1 h1 => ?_
  obtain ⟨hf1, h1⟩ := h1
  cases r with
  | none =>
    refine wp_imp (wp_linkBad ok hs (h.trans h1.2) (by rw [hf1.ino, hc.self])) fun r u hu => ?_
    obtain ⟨rfl, hu, hbut, hino, hcontent⟩ := hu
    refine ⟨hu, .inl ⟨rfl, ((hc.but.trans hf1.but).trans hbut).data ?_⟩⟩
    rintro j rfl
    refine .inr ⟨by rw [hino], fun o => ?_⟩
    rw [hcontent, hf1.content, hc.content]
  | some q =>
    obtain ⟨d, -, hd, hddir, h1⟩ := h1
    have hddir : (s.ino sb d).type = tDir := by
      rw [← hc.type d hd]
      exact hddir rfl
    have hne : d ≠ i := by
      rintro rfl
      exact hdir hddir
    refine wp_bind_of ((h.trans h1).wp_ilock hd (fun _ => hE _ nofun)) fun _ t2 h2 => ?_
    obtain ⟨h2, hf2⟩ := h2
    have hf2 := hf1.trans hf2
    rw [wp_bind, wp_inode, h2.inum ⟨ip, i, true⟩ (by simp)]
    refine wp_bind_of (h2.wp_dirlink (i := d) ok List.mem_cons_self hE) fun r t3 h3 => ?_
    obtain ⟨h3, hl3⟩ := h3
    have hd2 : t2.ino sb d = s.ino sb d := by rw [hf2.ino, hc.but.ino d hd hne]
    have hi3 : t3.ino sb i = (s.ino sb i).incLink := by
      rw [hl3.but.ino i hi hne.symm, hf2.ino, hc.self]
    have hcontent3 : ∀ o, t3.content sb i o = s.content sb i o := fun o => by
      rw [hl3.but.content i hne.symm, hf2.content, hc.content]
    have hbytes2 : SameBytes sb d s t2 := (hc.bytes hd).trans hf2.bytes
    have hbut3 : SameBut sb (fun j => j = d ∨ j = i) s t3 :=
      ((hc.but.mono (fun j hj => .inr hj)).trans hf2.but).trans (hl3.but.mono (fun j hj => .inl hj))
    refine wp_bind_of (hs.wp_iput ok h3 (by rw [hl3.ino, hd2]; exact id)
      (by rw [hl3.ino, hd2]; exact id)) (fun _ t4 h4 => ?_)
    obtain ⟨h4, hf4⟩ := h4
    rcases hl3.result with ⟨rfl, hbytes3⟩ | ⟨rfl, hfresh, off, hvacant, hentry⟩
    · rw [if_pos (by decide)]
      refine wp_imp (wp_linkBad ok hs h4 (by rw [hf4.ino, hi3])) fun r u hu => ?_
      obtain ⟨rfl, hu, hbut, hino, hcontent⟩ := hu
      refine ⟨hu, .inl ⟨rfl, ((hbut3.trans hf4.but).trans (hbut.mono
        (fun j hj => .inr hj))).data ?_⟩⟩
      rintro j (rfl | rfl)
      · refine .inr ⟨?_, fun o => ?_⟩
        · rw [hbut.ino j hd hne, hf4.ino, hl3.ino, hbytes3.1, hd2]
        rw [hbut.content j hne, hf4.content, hbytes3.2, hbytes2.2]
      refine .inr ⟨by rw [hino], fun o => ?_⟩
      rw [hcontent, hf4.content, hcontent3]
    rw [if_neg (by decide)]
    by_cases hwrap : (s.ino sb i).nlink + 1 < 2 ^ 16
    · refine wp_bind_of (h4.wp_iput ok (fun _ h0 => ?_)) fun _ u hu => ?_
      · rw [hf4.ino, hi3, Dinode.incLink] at h0
        simp only at h0
        omega
      have hfu := hf4.trans hu.2
      refine wp_pure.mpr ⟨hu.1, .inr ⟨rfl, fun _ => ⟨d, q.2, hd, hddir, hi, ⟨ht, hdir⟩, ?_,
        hbut3.trans hfu.but, ?_, fun o => ?_, ?_, off, hbytes2.vacant hvacant,
        hentry.congr hbytes2 hfu.bytes⟩⟩⟩
      · rw [← hbytes2.lookup]
        exact hfresh
      · rw [hfu.ino, hi3]
      · rw [hfu.content, hcontent3]
      rw [hfu.ino, hl3.ino, hd2]
    refine wp_bind_of (h4.wp_iput_any ok) fun _ u hu => ?_
    exact wp_pure.mpr ⟨hu, .inr ⟨rfl, fun h => absurd h hwrap⟩⟩

lemma wp_sysLink {old new : Nat → Option UInt8} (hcwd : 0 < (s.itable cwd).ref) :
    wp (sysLink sb cwd old new) s (fun r u => Holding sb s [] u ∧
      (r = -1 ∧ SameData sb s u ∨ r = 0 ∧ ∃ i, i < sb.ninodes ∧ ((s.ino sb i).nlink + 1 < 2 ^ 16 →
        ∃ d name, NameAdded sb d i name s u))) E := by
  unfold sysLink iunlockput
  split
  · refine wp_bind_of (wp_namei (fun e he => hE e he.ne) ok hs hcwd) fun r t1 h1 => ?_
    obtain ⟨q, rfl, hf1, h1⟩ := h1
    cases q with
    | none => exact wp_pure.mpr ⟨h1.2, .inl ⟨rfl, hf1.data⟩⟩
    | some q =>
      obtain ⟨i, -, hi, -, h1⟩ := h1
      refine wp_bind_of (h1.wp_ilock hi (fun _ => hE _ nofun)) fun _ t2 h2 => ?_
      obtain ⟨h2, hf2⟩ := h2
      have hf2 := hf1.trans hf2
      rw [wp_bind, wp_inode,
        ← ino_of_open h2.good.owned.table (h2.locked _ List.mem_cons_self rfl), hf2.ino]
      refine wp_ite (fun _ => ?_) fun hdir => ?_
      · refine wp_bind_of (hs.wp_iput ok h2 (by rw [hf2.ino]; exact id) (by rw [hf2.ino]; exact id))
          (fun _ u hu => ?_)
        exact wp_pure.mpr ⟨hu.1, .inl ⟨rfl, (hf2.trans hu.2).data⟩⟩
      refine wp_bind_of (h2.wp_update ok List.mem_cons_self (fun _ => fits_incLink)
        (fun _ => ⟨rfl, rfl, rfl⟩)) (fun _ t3 h3 => ?_)
      obtain ⟨h3, hu3⟩ := h3
      have hc : Counted sb i s t3 := by
        refine ⟨hf2.but.trans hu3.but, ?_, fun o => ?_⟩
        · rw [hu3.ino, if_pos rfl, hf2.ino]
        rw [hu3.content, hf2.content]
      refine wp_imp (wp_linkName ok hs hE h3 hc hcwd hdir) fun r u hu => ?_
      exact ⟨hu.1, hu.2.imp_right (fun hr => ⟨hr.1, i, hi, hr.2⟩)⟩
  exact wp_pure.mpr ⟨.refl hs.good, .inl ⟨rfl, SameFiles.refl.data⟩⟩
end
end Xv6.Fs
