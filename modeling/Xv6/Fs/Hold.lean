import Xv6.Fs.DirMap

namespace Xv6.Fs
open State Lib List
variable {sb : Superblock} {s t u : State} {ip : Fin ninode} {E : Panic → Prop} {i : Nat}
  {X Y : Nat → Prop}

structure SameBut (sb : Superblock) (X : Nat → Prop) (s t : State) : Prop where
  ino : ∀ j < sb.ninodes, ¬X j → t.ino sb j = s.ino sb j
  content : ∀ j, ¬X j → ∀ o, t.content sb j o = s.content sb j o
  slot : ∀ p : Nat × Nat, ¬X p.1 → t.slot sb p = s.slot sb p

namespace SameBut
lemma refl : SameBut sb X s s := ⟨fun _ _ _ => rfl, fun _ _ _ => rfl, fun _ _ => rfl⟩

lemma trans (h : SameBut sb X s t) (h' : SameBut sb X t u) : SameBut sb X s u :=
  ⟨fun j hj hX => (h'.ino j hj hX).trans (h.ino j hj hX),
    fun j hX o => (h'.content j hX o).trans (h.content j hX o),
    fun p hX => (h'.slot p hX).trans (h.slot p hX)⟩

lemma mono (h : SameBut sb X s t) (hXY : ∀ j, X j → Y j) : SameBut sb Y s t :=
  ⟨fun j hj hY => h.ino j hj (fun hX => hY (hXY j hX)), fun j hY => h.content j (fun hX => hY
    (hXY j hX)),
    fun p hY => h.slot p (fun hX => hY (hXY p.1 hX))⟩

lemma bytes (h : SameBut sb X s t) {j : Nat} (hj : j < sb.ninodes) (hX : ¬X j) :
    SameBytes sb j s t := ⟨by rw [h.ino j hj hX], h.content j hX⟩
end SameBut

lemma SameFiles.but (h : SameFiles sb s t) : SameBut sb X s t :=
  ⟨fun j _ _ => h.ino j, fun j _ => h.content j, fun p _ => h.slot p⟩

lemma Wrote.but {src : Nat → Option UInt8} {off tot stop : Nat}
    (h : Wrote sb i src off tot stop s t) : SameBut sb (· = i) s t :=
  ⟨h.ino_other, h.other, fun p hp => h.slot p (.inr hp)⟩

lemma Alloced.but {type : Nat} (h : Alloced sb type i ip s t) : SameBut sb (· = i) s t :=
  ⟨fun j _ hj => by rw [h.ino, if_neg hj], fun j _ => h.content j, fun p _ => h.slot p⟩

lemma Updated.but {f : Dinode → Dinode} (h : Updated sb i f s t) : SameBut sb (· = i) s t :=
  ⟨fun j _ hj => by rw [h.ino, if_neg hj], fun j _ => h.content j, fun p _ => h.slot p⟩

lemma FreedInode.but (h : FreedInode sb i s t) : SameBut sb (· = i) s t :=
  ⟨h.ino_other, h.other, h.slot_other⟩

structure Ref where
  ip : Fin ninode
  inum : Nat
  locked : Bool

structure Holding (sb : Superblock) (s : State) (mine : List Ref) (t : State) : Prop where
  good : Good sb t
  ref : ∀ k, (t.itable k).ref = (s.itable k).ref + (mine.map Ref.ip).count k
  held : ∀ k, 0 < (s.itable k).ref → (t.itable k).inum = (s.itable k).inum
  opened : ∀ k j, s.Open k j → t.Open k j
  inum : ∀ r ∈ mine, (t.itable r.ip).inum = r.inum
  locked : ∀ r ∈ mine, r.locked → t.Open r.ip r.inum

namespace Holding
variable {mine mine' : List Ref} {r : Ref}

lemma refl (h : Good sb s) : Holding sb s [] s :=
  ⟨h, fun _ => rfl, fun _ _ => rfl, fun _ _ hk => hk, fun _ hr => (by cases hr),
    fun _ hr => (by cases hr)⟩

lemma perm (h : Holding sb s mine t) (hp : mine.Perm mine') : Holding sb s mine' t :=
  ⟨h.good, fun k => by rw [h.ref, (hp.map Ref.ip).count_eq], h.held, h.opened,
    fun r hr => h.inum r (hp.symm.subset hr), fun r hr => h.locked r (hp.symm.subset hr)⟩

lemma swap {r' : Ref} (h : Holding sb s (r :: r' :: mine) t) : Holding sb s (r' :: r :: mine) t :=
  h.perm (List.Perm.swap r' r mine)

section
variable (h : Holding sb s mine t)
include h

lemma ref_pos (hr : r ∈ mine) : 0 < (t.itable r.ip).ref := by
  rw [h.ref]
  exact Nat.add_pos_right _ (count_pos_iff.mpr (mem_map_of_mem hr))

lemma sameRefs (hrefs : SameRefs t u) (hgood : Good sb u) : Holding sb s mine u :=
  ⟨hgood, fun k => by rw [(hrefs k).1, h.ref], fun k hk => by rw [(hrefs k).2.1, h.held k hk],
    fun k j hk => hrefs.open_iff.mpr (h.opened k j hk),
    fun r hr => by rw [(hrefs r.ip).2.1, h.inum r hr],
    fun r hr hl => hrefs.open_iff.mpr (h.locked r hr hl)⟩

lemma got {inum : Nat} (hgood : Good sb u) (hinum : (u.itable ip).inum = inum)
    (href : ∀ k, (u.itable k).ref = (t.itable k).ref + if k = ip then 1 else 0)
    (hheld : ∀ k, 0 < (t.itable k).ref → (u.itable k).inum = (t.itable k).inum)
    (hopened : ∀ k j, u.Open k j ↔ t.Open k j) : Holding sb s (⟨ip, inum, false⟩ :: mine) u := by
  refine ⟨hgood, fun k => ?_, fun k hk => ?_, fun k j hk => (hopened k j).mpr (h.opened k j hk),
    fun r hr => ?_, fun r hr hl => ?_⟩
  · rw [href, h.ref, map_cons, count_cons, add_assoc]
    by_cases hk : k = ip
    · simp [hk]
    simp [hk, Ne.symm hk]
  · rw [hheld k (by rw [h.ref]; omega), h.held k hk]
  · rcases mem_cons.mp hr with rfl | hr
    · exact hinum
    rw [hheld _ (h.ref_pos hr), h.inum r hr]
  rcases mem_cons.mp hr with rfl | hr
  · cases hl
  exact (hopened _ _).mpr (h.locked r hr hl)

lemma ofGot {inum : Nat} (hg : Got sb inum ip t u) : Holding sb s (⟨ip, inum, false⟩ :: mine) u :=
  h.got hg.good hg.inum hg.ref hg.held hg.opened

lemma ofAlloced {type : Nat} (ha : Alloced sb type i ip t u) :
    Holding sb s (⟨ip, i, false⟩ :: mine) u :=
  h.got ha.good ha.inum ha.ref ha.held ha.opened
end

lemma lock (h : Holding sb s (r :: mine) t) (hl : Locked sb r.ip t u) :
    Holding sb s ({ r with locked := true } :: mine) u := by
  have hopen := hl.isOpen
  rw [h.inum r mem_cons_self] at hopen
  refine ⟨hl.good, fun k => by rw [hl.ref, h.ref]; rfl, fun k hk => by rw [hl.inum, h.held k hk],
    fun k j hk => hl.opened k j (h.opened k j hk), fun q hq => ?_, fun q hq hlock => ?_⟩
  · rcases mem_cons.mp hq with rfl | hq
    · rw [hl.inum, h.inum r mem_cons_self]
    rw [hl.inum, h.inum q (mem_cons_of_mem r hq)]
  rcases mem_cons.mp hq with rfl | hq
  · exact hopen
  exact hl.opened _ _ (h.locked q (mem_cons_of_mem r hq) hlock)

lemma trans (h : Holding sb s mine t) (h' : Holding sb t mine' u) :
    Holding sb s (mine' ++ mine) u := by
  refine ⟨h'.good, fun k => ?_, fun k hk => ?_, fun k j hk => h'.opened k j (h.opened k j hk),
    fun r hr => ?_, fun r hr hl => ?_⟩
  · rw [h'.ref, h.ref, map_append, count_append]
    omega
  · rw [h'.held k (by rw [h.ref]; omega), h.held k hk]
  · rcases mem_append.mp hr with hr | hr
    · exact h'.inum r hr
    rw [h'.held _ (h.ref_pos hr), h.inum r hr]
  rcases mem_append.mp hr with hr | hr
  · exact h'.locked r hr hl
  exact h'.opened _ _ (h.locked r hr hl)

lemma put (h : Holding sb s (r :: mine) t) (hd : Dropped sb r.ip t u) : Holding sb s mine u := by
  have href : ∀ k, (u.itable k).ref = (s.itable k).ref + (mine.map Ref.ip).count k := by
    intro k
    rw [hd.ref, h.ref, map_cons, count_cons]
    by_cases hk : k = r.ip
    · simp [hk]
    simp [hk, Ne.symm hk]
  have hmine : ∀ q ∈ mine, 0 < (u.itable q.ip).ref := fun q hq => by
    rw [href]
    exact Nat.add_pos_right _ (count_pos_iff.mpr (mem_map_of_mem hq))
  refine ⟨hd.good, href, fun k hk => by rw [hd.inum, h.held k hk], fun k j hk => ?_,
    fun q hq => by rw [hd.inum, h.inum q (mem_cons_of_mem r hq)], fun q hq hlock => ?_⟩
  · refine hd.opened k j (h.opened k j hk) ?_
    rw [href]
    exact Nat.add_pos_left hk.1 _
  exact hd.opened _ _ (h.locked q (mem_cons_of_mem r hq) hlock) (hmine q hq)

section
variable {l : Bool} (h : Holding sb s (⟨ip, i, l⟩ :: mine) t)
include h

lemma wp_iput (ok : sb.Ok) (hkeep : t.Open ip i → (t.ino sb i).nlink = 0 →
      0 < (s.itable ip).ref ∨ ip ∈ mine.map Ref.ip) :
    wp (iput sb ip) t (fun _ u => Holding sb s mine u ∧ SameFiles sb t u) E := by
  refine wp_imp (Fs.wp_iput ok h.good (h.ref_pos mem_cons_self)) fun _ u hu => ?_
  obtain ⟨hd, ⟨hfiles, -⟩ | ⟨hone, hopen, hnlink, -⟩⟩ := hu
  · exact ⟨h.put hd, hfiles⟩
  rw [h.inum _ mem_cons_self] at hopen
  rw [← ino_of_open h.good.owned.table hopen] at hnlink
  rw [h.ref, map_cons, count_cons_self] at hone
  rcases hkeep hopen hnlink with hpos | hmem
  · omega
  have := count_pos_iff.mpr hmem
  omega

lemma wp_iput_last (ok : sb.Ok) (hlock : l) (hnlink : (t.ino sb i).nlink = 0)
    (hs : (s.itable ip).ref = 0) (hmine : ip ∉ mine.map Ref.ip) :
    wp (iput sb ip) t (fun _ u => Holding sb s mine u ∧ FreedInode sb i t u) E := by
  have hopen := h.locked _ mem_cons_self hlock
  have hone : (t.itable ip).ref = 1 := by
    rw [h.ref, hs, map_cons, count_cons_self, count_eq_zero.mpr hmine]
  rw [ino_of_open h.good.owned.table hopen] at hnlink
  refine wp_imp (Fs.wp_iput ok h.good (h.ref_pos mem_cons_self)) fun _ u hu => ?_
  obtain ⟨hd, ⟨-, hno⟩ | ⟨-, -, -, hfreed⟩⟩ := hu
  · exact absurd ⟨hone, hopen.2.1, hnlink⟩ hno
  rw [h.inum _ mem_cons_self] at hfreed
  exact ⟨h.put hd, hfreed⟩

lemma wp_ilock (hlt : i < sb.ninodes) (hE : (t.ino sb i).type = 0 → E .ilockNoType) :
    wp (ilock sb ip) t (fun _ u => Holding sb s (⟨ip, i, true⟩ :: mine) u ∧ SameFiles sb t u) E :=
      by
  have hinum := h.inum _ mem_cons_self
  refine wp_imp (Fs.wp_ilock h.good (h.ref_pos mem_cons_self) (by rwa [hinum]) ?_)
    fun _ u hu => ⟨h.lock hu, hu.files⟩
  rwa [hinum]
end
section
variable (ok : sb.Ok) (h : Holding sb s mine t) (hr : (⟨ip, i, true⟩ : Ref) ∈ mine)
include ok h hr

lemma wp_update {f : Dinode → Dinode} (hfits : ∀ x, Dinode.Fits x → (f x).Fits)
    (hkeep : ∀ x, (f x).type = x.type ∧ (f x).size = x.size ∧ (f x).addrs = x.addrs) :
    wp (update sb ip f) t (fun _ u => Holding sb s mine u ∧ Updated sb i f t u) E :=
  wp_imp (Fs.wp_update ok h.good (h.locked _ hr rfl) hfits hkeep)
    fun _ _ hu => ⟨h.sameRefs hu.refs hu.good, hu⟩

lemma wp_updateIf {f : Dinode → Dinode} {c : Prop} [Decidable c]
    (hfits : ∀ x, Dinode.Fits x → (f x).Fits)
    (hkeep : ∀ x, (f x).type = x.type ∧ (f x).size = x.size ∧ (f x).addrs = x.addrs) :
    wp (if c then update sb ip f else pure ()) t (fun _ u => Holding sb s mine u ∧
      Updated sb i (fun x => if c then f x else x) t u) E := by
  by_cases hc : c
  · simp only [hc, if_true]
    exact h.wp_update ok hr hfits hkeep
  simp only [hc, if_false, wp_pure]
  refine ⟨h, h.good, .refl, fun j => ?_, fun _ _ => rfl, fun _ => rfl⟩
  by_cases hj : j = i
  · rw [if_pos hj, hj]
  rw [if_neg hj]
end

lemma wp_iput_any {l : Bool} (ok : sb.Ok) (h : Holding sb s (⟨ip, i, l⟩ :: mine) t) :
    wp (iput sb ip) t (fun _ u => Holding sb s mine u) E :=
  wp_imp (Fs.wp_iput ok h.good (h.ref_pos mem_cons_self)) fun _ _ hu => h.put hu.1
end Holding

def Dirent.stored (de : Dirent) : Dirent := .ofBytes ((range 16).map de.byte)

structure DirLinked (sb : Superblock) (d : Nat) (de : Dirent) (r : Int) (s t : State) : Prop where
  but : SameBut sb (· = d) s t
  ino : t.ino sb d = { s.ino sb d with size := (t.ino sb d).size, addrs := (t.ino sb d).addrs }
  slot : ∀ p, s.slot sb p ≠ 0 → t.slot sb p = s.slot sb p
  result : r = -1 ∧ SameBytes sb d s t ∨
    r = 0 ∧ s.lookup sb d de.name = none ∧ ∃ off, s.Vacant sb d off ∧ Entry sb d off de.stored s t

lemma SameFiles.dirLinked (h : SameFiles sb s t) {d : Nat} {de : Dirent} :
    DirLinked sb d de (-1) s t :=
  ⟨h.but, by rw [h.ino], fun p _ => h.slot p, .inl ⟨rfl, h.bytes⟩⟩

lemma Holding.wp_dirlink {mine : List Ref} {name : Name} {inum : Nat} (ok : sb.Ok)
    (h : Holding sb s mine t) (hr : (⟨ip, i, true⟩ : Ref) ∈ mine) (hE : ∀ e ≠ .unlinkNlink, E e) :
    wp (dirlink sb ip name inum) t (fun n u => Holding sb s mine u ∧
      DirLinked sb i ⟨inum, name⟩ n t u) E := by
  refine wp_imp (Fs.wp_dirlink ok h.good (h.locked _ hr rfl) (fun _ => hE _ nofun) (hE _ nofun)
    (hE _ nofun) (hE _ nofun)) fun n u hu => ?_
  rcases hu with ⟨rfl, hgood, hfiles, hrefs, hheld, hopened⟩ | ⟨off, tot, hn, hnone, hvacant, hw⟩
  · have hquiet : Holding sb t [] u := ⟨hgood, hrefs, hheld, hopened, fun _ hq => (by cases hq),
      fun _ hq => (by cases hq)⟩
    exact ⟨h.trans hquiet, hfiles.dirLinked⟩
  refine ⟨h.sameRefs hw.refs hw.good, hw.but, ?_, fun p hp => hw.slot p (.inl hp), ?_⟩
  · rw [hw.ino]
  rcases hn with ⟨rfl, rfl⟩ | ⟨rfl, rfl⟩
  · exact .inr ⟨rfl, lookup_eq_none_iff.mpr hnone, off, hvacant,
      hw.entry hvacant.aligned hvacant.le rfl⟩
  refine .inl ⟨rfl, ?_, fun o => hw.unwritten o (by omega)⟩
  rw [hw.ino]
  exact max_eq_left hvacant.le

structure Consistent (sb : Superblock) (s : State) : Prop where
  good : Good sb s
  root : rootino < sb.ninodes
  live : ∀ k, 0 < (s.itable k).ref → (s.itable k).inum < sb.ninodes ∧
    (s.ino sb (s.itable k).inum).type ≠ 0
  held : ∀ i < sb.ninodes, (s.ino sb i).type ≠ 0 → (s.ino sb i).nlink = 0 →
    ∃ k, 0 < (s.itable k).ref ∧ (s.itable k).inum = i
  entries : ∀ i < sb.ninodes, (s.ino sb i).type = tDir → ∀ off name, s.Names sb i off name →
    (s.dirent sb i off).inum < sb.ninodes

lemma Consistent.wp_iput {mine : List Ref} {l : Bool} (ok : sb.Ok) (hs : Consistent sb s)
    (h : Holding sb s (⟨ip, i, l⟩ :: mine) t)
    (hnlink : (t.ino sb i).nlink = 0 → (s.ino sb i).nlink = 0)
    (htype : (s.ino sb i).type = 0 → (t.ino sb i).type = 0) :
    wp (iput sb ip) t (fun _ u => Holding sb s mine u ∧ SameFiles sb t u) E := by
  refine h.wp_iput ok fun hopen h0 => .inl ?_
  have hlt := h.good.owned.table.lt _ _ hopen
  have ht : (t.ino sb i).type ≠ 0 := by
    rw [ino_of_open h.good.owned.table hopen]
    exact h.good.typed _ _ hopen
  obtain ⟨k, hk, hinum⟩ := hs.held i hlt (fun e => ht (htype e)) (hnlink h0)
  have hk' : 0 < (t.itable k).ref := by
    rw [h.ref]
    exact Nat.add_pos_left hk _
  have hkr : k = ip := h.good.owned.table.unique k ip hk' hopen.1
    (by rw [h.held k hk, hinum, hopen.2.2])
  rwa [hkr] at hk
end Xv6.Fs
