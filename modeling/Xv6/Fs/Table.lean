import Xv6.Fs.Trunc

namespace Xv6.Fs
open State Lib List
variable {sb : Superblock} {s s' t : State} {ip k : Fin ninode} {E : Panic → Prop} {i j : Nat}
  {e : Inode}

structure SameFiles (sb : Superblock) (s s' : State) : Prop where
  ino : ∀ i, s'.ino sb i = s.ino sb i
  content : ∀ i o, s'.content sb i o = s.content sb i o
  slot : ∀ p, s'.slot sb p = s.slot sb p

lemma SameFiles.refl : SameFiles sb s s := ⟨fun _ => rfl, fun _ _ => rfl, fun _ => rfl⟩

lemma SameFiles.trans (h : SameFiles sb s t) (h' : SameFiles sb t s') : SameFiles sb s s' :=
  ⟨fun i => (h'.ino i).trans (h.ino i), fun i o => (h'.content i o).trans (h.content i o),
    fun p => (h'.slot p).trans (h.slot p)⟩

lemma Good.retable (h : Good sb s) (hdisk : t.disk = s.disk) (hun : t.unlogged = s.unlogged)
    (htab : Table t sb) (hino : ∀ i, t.ino sb i = s.ino sb i)
    (hcopy : ∀ k i, t.Open k i → (t.itable k).copy.type ≠ 0 ∧
      (t.itable k).copy = sb.dinode s.disk i) : Good sb t ∧ SameFiles sb s t := by
  have hslot : ∀ p, t.slot sb p = s.slot sb p := fun p =>
    slot_congr (fun _ => hino p.1) fun _ _ _ => by rw [hdisk]
  refine ⟨⟨⟨htab, h.owned.ledger.congr hslot (fun _ _ => by rw [hdisk]), ?_, ?_⟩,
    fun k i hk => (hcopy k i hk).1, fun k i hk => ?_, fun i hi ht o ho => ?_⟩, hino, ?_, hslot⟩
  · rw [hdisk]
    exact h.owned.low
  · rw [hun]
    intro b hb
    refine ⟨(h.owned.unlogged b hb).1, fun i hi ht => ?_⟩
    rw [hino] at ht ⊢
    exact (h.owned.unlogged b hb).2 i hi ht
  · rw [hdisk]
    exact (hcopy k i hk).2
  · rw [hino] at ht ho
    rw [hslot]
    exact h.full i hi ht o ho
  exact content_congr hslot (fun _ _ => by rw [hdisk]) h.owned

lemma itable_setInode_self : (s.setInode ip e).itable ip = e := by
  show Function.update s.itable ip e ip = e
  rw [Function.update_self]

lemma itable_setInode_of_ne (h : k ≠ ip) : (s.setInode ip e).itable k = s.itable k := by
  show Function.update s.itable ip e k = s.itable k
  rw [Function.update_of_ne h]

lemma Good.setInode (h : Good sb s)
    (hopen : ∀ i, 0 < e.ref ∧ e.valid = true ∧ e.inum = i ↔ s.Open ip i)
    (hcopy : ∀ i, s.Open ip i → e.copy = (s.itable ip).copy)
    (hinum : 0 < e.ref → ∀ k, k ≠ ip → 0 < (s.itable k).ref → (s.itable k).inum ≠ e.inum) :
    Good sb (s.setInode ip e) ∧ SameFiles sb s (s.setInode ip e) ∧
      ∀ k i, (s.setInode ip e).Open k i ↔ s.Open k i := by
  have hopen' : ∀ k i, (s.setInode ip e).Open k i ↔ s.Open k i := by
    intro k i
    by_cases hk : k = ip
    · rw [hk, State.Open, itable_setInode_self]
      exact hopen i
    rw [State.Open, itable_setInode_of_ne hk]
    exact Iff.rfl
  have hcopy' : ∀ k i, s.Open k i → ((s.setInode ip e).itable k).copy = (s.itable k).copy := by
    intro k i hk
    by_cases hkp : k = ip
    · rw [hkp] at hk ⊢
      rw [itable_setInode_self, hcopy i hk]
    rw [itable_setInode_of_ne hkp]
  have htab : Table (s.setInode ip e) sb := by
    refine ⟨fun k l hk hl hkl => ?_, fun k i hk => h.owned.table.lt k i ((hopen' k i).mp hk),
      fun k i hk => ?_⟩
    · by_cases hkp : k = ip <;> by_cases hlp : l = ip
      · rw [hkp, hlp]
      · rw [hkp, itable_setInode_self] at hk hkl
        rw [itable_setInode_of_ne hlp] at hl hkl
        exact absurd hkl.symm (hinum hk l hlp hl)
      · rw [hlp, itable_setInode_self] at hl hkl
        rw [itable_setInode_of_ne hkp] at hk hkl
        exact absurd hkl (hinum hl k hkp hk)
      · rw [itable_setInode_of_ne hkp] at hk hkl
        rw [itable_setInode_of_ne hlp] at hl hkl
        exact h.owned.table.unique k l hk hl hkl
    rw [hcopy' k i ((hopen' k i).mp hk)]
    exact h.owned.table.fits k i ((hopen' k i).mp hk)
  have hgood := h.retable (t := s.setInode ip e) rfl rfl htab (fun i => ino_congr h.owned.table htab
    (fun k => hopen' k i) (fun k hk => hcopy' k i hk) (fun _ => rfl)) (fun k i hk => ?_)
  · exact ⟨hgood.1, hgood.2, hopen'⟩
  have hk := (hopen' k i).mp hk
  rw [hcopy' k i hk]
  exact ⟨h.typed k i hk, h.synced k i hk⟩

structure Got (sb : Superblock) (inum : Nat) (ip : Fin ninode) (s s' : State) : Prop where
  good : Good sb s'
  files : SameFiles sb s s'
  inum : (s'.itable ip).inum = inum
  ref : ∀ k, (s'.itable k).ref = (s.itable k).ref + if k = ip then 1 else 0
  held : ∀ k, 0 < (s.itable k).ref → (s'.itable k).inum = (s.itable k).inum
  opened : ∀ k i, s'.Open k i ↔ s.Open k i

lemma Good.got (h : Good sb s) (href : e.ref = (s.itable ip).ref + 1)
    (hheld : 0 < (s.itable ip).ref → e.inum = (s.itable ip).inum ∧ e.valid = (s.itable ip).valid)
    (hnew : (s.itable ip).ref = 0 → e.valid = false ∧
      ∀ k, 0 < (s.itable k).ref → (s.itable k).inum ≠ e.inum)
    (hcopy : e.copy = (s.itable ip).copy) : Got sb e.inum ip s (s.setInode ip e) := by
  have hopen : ∀ i, 0 < e.ref ∧ e.valid ∧ e.inum = i ↔ s.Open ip i := by
    intro i
    unfold State.Open
    rcases Nat.eq_zero_or_pos (s.itable ip).ref with h0 | hpos
    · rw [(hnew h0).1]
      simp [h0]
    rw [(hheld hpos).1, (hheld hpos).2]
    simp [hpos, href]
  have hinum : 0 < e.ref → ∀ k ≠ ip, 0 < (s.itable k).ref → (s.itable k).inum ≠ e.inum := by
    intro _ k hk hkr he
    rcases Nat.eq_zero_or_pos (s.itable ip).ref with h0 | hpos
    · exact (hnew h0).2 k hkr he
    rw [(hheld hpos).1] at he
    exact hk (h.owned.table.unique k ip hkr hpos he)
  obtain ⟨hgood, hfiles, hopened⟩ := h.setInode hopen (fun _ _ => hcopy) hinum
  refine ⟨hgood, hfiles, by rw [itable_setInode_self], fun k => ?_, fun k hk => ?_, hopened⟩
  · by_cases hkp : k = ip
    · rw [if_pos hkp, hkp, itable_setInode_self, href]
    rw [if_neg hkp, itable_setInode_of_ne hkp, Nat.add_zero]
  by_cases hkp : k = ip
  · rw [hkp] at hk ⊢
    rw [itable_setInode_self, (hheld hk).1]
  rw [itable_setInode_of_ne hkp]

lemma Good.dup (h : Good sb s) (hip : 0 < (s.itable ip).ref) : Got sb (s.itable ip).inum ip s
    (s.setInode ip { s.itable ip with ref := (s.itable ip).ref + 1 }) :=
  h.got (e := { s.itable ip with ref := (s.itable ip).ref + 1 }) rfl (fun _ => ⟨rfl, rfl⟩)
    (fun h0 => absurd h0 (Nat.ne_of_gt hip)) rfl

lemma wp_iget (h : Good sb s) (hE : (∀ k, 0 < (s.itable k).ref) → E .igetNoInodes) :
    wp (iget i) s (fun ip t => Got sb i ip s t) E := by
  unfold iget
  rw [wp_bind, wp_get]
  cases hf : (finRange ninode).find? fun k => 0 < (s.itable k).ref ∧ (s.itable k).inum = i with
  | some ip =>
    have hip : 0 < (s.itable ip).ref ∧ (s.itable ip).inum = i := by simpa using find?_some hf
    simp only [wp_bind, wp_setInode, wp_pure]
    have hgot := h.dup hip.1
    rwa [hip.2] at hgot
  | none =>
    have hnone : ∀ k, 0 < (s.itable k).ref → (s.itable k).inum ≠ i := by
      intro k hk he
      have := find?_eq_none.mp hf k (mem_finRange k)
      simp [hk, he] at this
    cases hf' : (finRange ninode).find? fun k => (s.itable k).ref = 0 with
    | none =>
      refine wp_throw.mpr (hE (fun k => ?_))
      have := find?_eq_none.mp hf' k (mem_finRange k)
      exact Nat.pos_of_ne_zero (by simpa using this)
    | some ip =>
      have h0 : (s.itable ip).ref = 0 := by simpa using find?_some hf'
      simp only [wp_bind, wp_setInode, wp_pure]
      exact h.got (e := { s.itable ip with inum := i, ref := 1, valid := false }) (by rw [h0])
        (fun hpos => by omega) (fun _ => ⟨rfl, hnone⟩) rfl

lemma wp_idup (h : Good sb s) (hip : 0 < (s.itable ip).ref) :
    wp (idup ip) s (fun _ t => Got sb (s.itable ip).inum ip s t) E := by
  simp only [idup, wp_bind, wp_inode, wp_setInode]
  exact h.dup hip

structure Locked (sb : Superblock) (ip : Fin ninode) (s s' : State) : Prop where
  good : Good sb s'
  files : SameFiles sb s s'
  isOpen : s'.Open ip (s.itable ip).inum
  ref : ∀ k, (s'.itable k).ref = (s.itable k).ref
  inum : ∀ k, (s'.itable k).inum = (s.itable k).inum
  opened : ∀ k i, s.Open k i → s'.Open k i

section
variable (h : Good sb s) (href : 0 < (s.itable ip).ref)
include h href

lemma Good.not_open (hv : (s.itable ip).valid = false) (k : Fin ninode) :
    ¬s.Open k (s.itable ip).inum := by
  intro hk
  rw [h.owned.table.unique k ip hk.1 href hk.2.2] at hk
  rw [hk.2.1] at hv
  cases hv

lemma Good.load (hlt : (s.itable ip).inum < sb.ninodes) (hv : (s.itable ip).valid = false)
    (ht : (sb.dinode s.disk (s.itable ip).inum).type ≠ 0) :
    Locked sb ip s (s.setInode ip
      { s.itable ip with copy := sb.dinode s.disk (s.itable ip).inum, valid := true }) := by
  have hno := h.not_open href hv
  generalize he : ({ s.itable ip with
    copy := sb.dinode s.disk (s.itable ip).inum, valid := true } : Inode) = e
  have hself : (s.setInode ip e).itable ip = e := itable_setInode_self
  have hother : ∀ k, k ≠ ip → (s.setInode ip e).itable k = s.itable k := fun k hk =>
    itable_setInode_of_ne hk
  have hrefs : ∀ k, ((s.setInode ip e).itable k).ref = (s.itable k).ref := fun k => by
    by_cases hk : k = ip
    · rw [hk, hself, ← he]
    rw [hother k hk]
  have hinums : ∀ k, ((s.setInode ip e).itable k).inum = (s.itable k).inum := fun k => by
    by_cases hk : k = ip
    · rw [hk, hself, ← he]
    rw [hother k hk]
  have hopen : (s.setInode ip e).Open ip (s.itable ip).inum := by
    rw [State.Open, hself, ← he]
    exact ⟨href, rfl, rfl⟩
  have hback : ∀ k i, (s.setInode ip e).Open k i → k = ip ∧ i = (s.itable ip).inum ∨
      k ≠ ip ∧ s.Open k i := by
    intro k i hk
    by_cases hkp : k = ip
    · left
      refine ⟨hkp, ?_⟩
      rw [← hk.2.2, hkp, hinums]
    rw [State.Open, hother k hkp] at hk
    exact .inr ⟨hkp, hk⟩
  have hopened : ∀ k i, s.Open k i → (s.setInode ip e).Open k i := by
    intro k i hk
    have hkp : k ≠ ip := by
      rintro rfl
      rw [hk.2.1] at hv
      cases hv
    rw [State.Open, hother k hkp]
    exact hk
  have hcopy : ((s.setInode ip e).itable ip).copy = sb.dinode s.disk (s.itable ip).inum := by
    rw [hself, ← he]
  have htab : Table (s.setInode ip e) sb := by
    refine ⟨fun k l hk hl hkl => ?_, fun k i hk => ?_, fun k i hk => ?_⟩
    · rw [hrefs] at hk hl
      rw [hinums, hinums] at hkl
      exact h.owned.table.unique k l hk hl hkl
    · rcases hback k i hk with ⟨-, rfl⟩ | ⟨-, hk⟩
      · exact hlt
      exact h.owned.table.lt k i hk
    rcases hback k i hk with ⟨rfl, -⟩ | ⟨hkp, hk⟩
    · rw [hcopy]
      exact Superblock.dinode_fits
    rw [hother k hkp]
    exact h.owned.table.fits k i hk
  have hino : ∀ i, (s.setInode ip e).ino sb i = s.ino sb i := by
    intro i
    by_cases hi : i = (s.itable ip).inum
    · rw [hi, ino_of_open htab hopen, ino_of_closed hno, hcopy]
    refine ino_congr h.owned.table htab (fun k => ⟨fun hk => ?_, hopened k i⟩) (fun k hk => ?_)
      (fun _ => rfl)
    · rcases hback k i hk with ⟨-, e⟩ | ⟨-, hk⟩
      · exact absurd e hi
      exact hk
    have hkp : k ≠ ip := fun e => hi (by rw [← hk.2.2, e])
    rw [hother k hkp]
  obtain ⟨hgood, hfiles⟩ := h.retable (t := s.setInode ip e) rfl rfl htab hino (fun k i hk => by
    rcases hback k i hk with ⟨rfl, rfl⟩ | ⟨hkp, hk⟩
    · rw [hcopy]
      exact ⟨ht, rfl⟩
    rw [hother k hkp]
    exact ⟨h.typed k i hk, h.synced k i hk⟩)
  exact ⟨hgood, hfiles, hopen, hrefs, hinums, hopened⟩

lemma wp_ilock (hlt : (s.itable ip).inum < sb.ninodes)
    (hE : (s.ino sb (s.itable ip).inum).type = 0 → E .ilockNoType) :
    wp (ilock sb ip) s (fun _ t => Locked sb ip s t) E := by
  unfold ilock
  rw [wp_bind, wp_get]
  rw [if_neg (by omega)]
  cases hv : (s.itable ip).valid with
  | true =>
    simp only [if_true, wp_pure]
    exact ⟨h, .refl, ⟨href, hv, rfl⟩, fun _ => rfl, fun _ => rfl, fun _ _ hk => hk⟩
  | false =>
    simp only [Bool.false_eq_true, if_false, wp_bind, wp_setInode]
    have hino : s.ino sb (s.itable ip).inum = sb.dinode s.disk (s.itable ip).inum :=
      ino_of_closed (h.not_open href hv)
    refine wp_ite (fun ht => ?_) fun ht => ?_
    · rw [wp_throw]
      exact hE (by rwa [hino])
    rw [wp_pure]
    exact h.load href hlt hv ht
end

lemma open_close (he : e.ref = 0 ∨ e.valid = false) :
    (s.setInode ip e).Open k i ↔ s.Open k i ∧ k ≠ ip := by
  by_cases hk : k = ip
  · rw [State.Open, hk, itable_setInode_self]
    refine iff_of_false (fun h => ?_) fun h => h.2 rfl
    rcases he with he | he
    · omega
    rw [he] at h
    cases h.2.1
  rw [State.Open, itable_setInode_of_ne hk]
  exact ⟨fun h => ⟨h, hk⟩, fun h => h.1⟩

lemma State.Table.close (h : Table s sb) (he : e.ref = 0 ∨ e.valid = false)
    (hinum : e.inum = (s.itable ip).inum) (href : 0 < e.ref → 0 < (s.itable ip).ref) :
    Table (s.setInode ip e) sb := by
  have hr : ∀ k, 0 < ((s.setInode ip e).itable k).ref → 0 < (s.itable k).ref := fun k hk => by
    by_cases hkp : k = ip
    · rw [hkp, itable_setInode_self] at hk
      rw [hkp]
      exact href hk
    rwa [itable_setInode_of_ne hkp] at hk
  have hi : ∀ k, ((s.setInode ip e).itable k).inum = (s.itable k).inum := fun k => by
    by_cases hkp : k = ip
    · rw [hkp, itable_setInode_self, hinum]
    rw [itable_setInode_of_ne hkp]
  refine ⟨fun k l hk hl hkl => ?_, fun k i hk => h.lt k i ((open_close he).mp hk).1,
    fun k i hk => ?_⟩
  · rw [hi, hi] at hkl
    exact h.unique k l (hr k hk) (hr l hl) hkl
  have hk := (open_close he).mp hk
  rw [itable_setInode_of_ne hk.2]
  exact h.fits k i hk.1

lemma Good.close (h : Good sb s) (he : e.ref = 0) (hinum : e.inum = (s.itable ip).inum) :
    Good sb (s.setInode ip e) ∧ SameFiles sb s (s.setInode ip e) := by
  have htab : Table (s.setInode ip e) sb :=
    h.owned.table.close (.inl he) hinum fun hpos => by omega
  have hiff : ∀ {k i}, (s.setInode ip e).Open k i ↔ s.Open k i ∧ k ≠ ip := open_close (.inl he)
  refine h.retable rfl rfl htab (fun i => ?_) fun k i hk => ?_
  · by_cases hip : s.Open ip i
    · have hno : ∀ k, ¬(s.setInode ip e).Open k i := fun k hk =>
        (hiff.mp hk).2 (h.owned.table.eq_of_open (hiff.mp hk).1 hip)
      rw [ino_of_closed hno, ino_of_open h.owned.table hip, h.synced ip i hip]
      rfl
    · refine ino_congr h.owned.table htab (fun k => ?_) (fun k hk => ?_) fun _ => rfl
      · rw [hiff]
        exact ⟨fun hk => hk.1, fun hk => ⟨hk, fun e => hip (e ▸ hk)⟩⟩
      · have hkp : k ≠ ip := by
          rintro rfl
          exact hip hk
        rw [itable_setInode_of_ne hkp]
  have hk := hiff.mp hk
  rw [itable_setInode_of_ne hk.2]
  exact ⟨h.typed k i hk.1, h.synced k i hk.1⟩

structure FreedInode (sb : Superblock) (i : Nat) (s s' : State) : Prop where
  type : (s'.ino sb i).type = 0
  ino_other : ∀ j < sb.ninodes, j ≠ i → s'.ino sb j = s.ino sb j
  other : ∀ j ≠ i, ∀ o, s'.content sb j o = s.content sb j o
  slot_other : ∀ p : Nat × Nat, p.1 ≠ i → s'.slot sb p = s.slot sb p

lemma Good.freeInode (ok : sb.Ok) (h : Good sb s) (hip : s.Open ip i)
    (haddrs : (s.itable ip).copy.addrs = fun _ => 0) {x : Dinode}
    (hx : x = { (s.itable ip).copy with type := 0 }) (he : e.valid = false)
    (hinum : e.inum = (s.itable ip).inum) (href : 0 < e.ref → 0 < (s.itable ip).ref) :
    Good sb ((s.put sb ip x).setInode ip e) ∧
      FreedInode sb i s ((s.put sb ip x).setInode ip e) := by
  generalize hu : (s.put sb ip x).setInode ip e = u
  have hi := h.owned.table.lt ip i hip
  have hf := h.owned.table.fits ip i hip
  have hfits : x.Fits := by
    rw [hx]
    exact ⟨Nat.two_pow_pos 16, hf.major, hf.minor, hf.nlink, hf.size, hf.addrs⟩
  have hdisk : u.disk = (s.put sb ip x).disk := by rw [← hu]; rfl
  have hiff : ∀ {k j}, u.Open k j ↔ s.Open k j ∧ k ≠ ip := by
    intro k j
    rw [← hu, open_close (.inr he), sameRefs_put.open_iff]
  have hitable : ∀ k ≠ ip, u.itable k = s.itable k := fun k hk => by
    rw [← hu, itable_setInode_of_ne hk, itable_put_of_ne hk]
  have htab : Table u sb := by
    rw [← hu]
    refine State.Table.close ((h.owned.table.setCopy hfits).congr rfl) (.inr he) ?_ fun hpos => ?_
    · rwa [itable_put_self]
    rw [itable_put_self]
    exact href hpos
  have hno : ∀ k, ¬u.Open k i := fun k hk =>
    (hiff.mp hk).2 (h.owned.table.eq_of_open (hiff.mp hk).1 hip)
  have hdinode : ∀ j, sb.dinode u.disk j = if j = i then x else sb.dinode s.disk j := fun j => by
    rw [hdisk, dinode_put hip hfits]
  have htype : (u.ino sb i).type = 0 := by rw [ino_of_closed hno, hdinode, if_pos rfl, hx]
  have hino : ∀ j ≠ i, u.ino sb j = s.ino sb j := fun j hj => by
    refine ino_congr h.owned.table htab (fun k => ?_) (fun k hk => ?_) fun _ => ?_
    · rw [hiff]
      exact ⟨fun hk => hk.1, fun hk => ⟨hk, fun e => hj (by rw [← hk.2.2, e, hip.2.2])⟩⟩
    · rw [hitable k (fun e => hj (by rw [← hk.2.2, e, hip.2.2]))]
    rw [hdinode, if_neg hj]
  have hdata : ∀ c, sb.InData c → u.disk c = s.disk c := fun c hc => by
    rw [hdisk, disk_put ok h.owned.table hip hfits hc]
  have hslot : ∀ p, u.slot sb p = s.slot sb p := by
    intro p
    by_cases hp : p.1 = i
    · have hzero : ∀ k, (s.itable ip).copy.addr k = 0 := fun k => by
        rw [Dinode.addr, haddrs]
        simp
      rw [slot_open h.owned hip (h.typed ip i hip) p hp, Dinode.slot_zero_addrs hzero, ite_self]
      exact slot_of_free (by rwa [hp])
    exact slot_congr (fun _ => hino p.1 hp) fun hlt ht ha =>
      hdata _ (h.owned.indirect_data hlt ht ha)
  have hbit : ∀ c, sb.bit u.disk c = sb.bit s.disk c := fun c => by
    rw [hdisk]
    exact bit_iupdate ok (h.owned.table.setCopy hfits) (open_setCopy.mpr hip)
  refine ⟨⟨⟨htab, h.owned.ledger.congr hslot (fun c _ => by rw [hbit]), fun c hc => ?_,
    fun c hc => ?_⟩, fun k j hk => ?_, fun k j hk => ?_, fun j hj ht o ho => ?_⟩,
    ⟨htype, fun j _ hj => hino j hj, fun j _ o => content_congr hslot hdata h.owned j o,
      fun p _ => hslot p⟩⟩
  · rw [hbit]
    exact h.owned.low c hc
  · have hmem : c ∈ s.unlogged := by
      rw [← hu] at hc
      exact (mem_filter.mp hc).1
    refine ⟨(h.owned.unlogged c hmem).1, fun j hj ht => ?_⟩
    have hji : j ≠ i := fun e => ht (by rw [e, htype])
    rw [hino j hji] at ht ⊢
    exact (h.owned.unlogged c hmem).2 j hj ht
  · have hk := hiff.mp hk
    rw [hitable k hk.2]
    exact h.typed k j hk.1
  · have hk := hiff.mp hk
    have hji : j ≠ i := fun e => hk.2 (h.owned.table.eq_of_open (e ▸ hk.1) hip)
    rw [hitable k hk.2, hdinode, if_neg hji]
    exact h.synced k j hk.1
  have hji : j ≠ i := fun e => ht (by rw [e, htype])
  rw [hino j hji] at ht ho
  rw [hslot]
  exact h.full j hj ht o ho

structure Dropped (sb : Superblock) (ip : Fin ninode) (s s' : State) : Prop where
  good : Good sb s'
  ref : ∀ k, (s'.itable k).ref = (s.itable k).ref - if k = ip then 1 else 0
  inum : ∀ k, (s'.itable k).inum = (s.itable k).inum
  opened : ∀ k i, s.Open k i → 0 < (s'.itable k).ref → s'.Open k i

lemma ref_drop (hr : e.ref = (s.itable ip).ref - 1) (k : Fin ninode) :
    ((s.setInode ip e).itable k).ref = (s.itable k).ref - if k = ip then 1 else 0 := by
  by_cases hk : k = ip
  · rw [if_pos hk, hk, itable_setInode_self, hr]
  rw [if_neg hk, itable_setInode_of_ne hk, Nat.sub_zero]

lemma inum_setInode (hi : e.inum = (s.itable ip).inum) (k : Fin ninode) :
    ((s.setInode ip e).itable k).inum = (s.itable k).inum := by
  by_cases hk : k = ip
  · rw [hk, itable_setInode_self, hi]
  rw [itable_setInode_of_ne hk]

lemma Good.drop (h : Good sb s) (href : 0 < (s.itable ip).ref)
    (he : e = { s.itable ip with ref := (s.itable ip).ref - 1 }) :
    Dropped sb ip s (s.setInode ip e) ∧ SameFiles sb s (s.setInode ip e) := by
  have her : e.ref = (s.itable ip).ref - 1 := by rw [he]
  have hei : e.inum = (s.itable ip).inum := by rw [he]
  have hev : e.valid = (s.itable ip).valid := by rw [he]
  have hopened : ∀ k i, s.Open k i → 0 < ((s.setInode ip e).itable k).ref →
      (s.setInode ip e).Open k i := by
    intro k i hk hpos
    refine ⟨hpos, ?_⟩
    by_cases hkp : k = ip
    · rw [hkp] at hk
      rw [hkp, itable_setInode_self, hev, hei]
      exact hk.2
    rw [itable_setInode_of_ne hkp]
    exact hk.2
  by_cases h1 : (s.itable ip).ref = 1
  · have h0 : e.ref = 0 := by omega
    obtain ⟨hgood, hfiles⟩ := h.close h0 hei
    exact ⟨⟨hgood, ref_drop her, inum_setInode hei, hopened⟩, hfiles⟩
  have hpos : 0 < e.ref := by omega
  have hiff : ∀ i, 0 < e.ref ∧ e.valid ∧ e.inum = i ↔ s.Open ip i := fun i => by
    rw [hev, hei]
    exact ⟨fun hk => ⟨href, hk.2⟩, fun hk => ⟨hpos, hk.2⟩⟩
  obtain ⟨hgood, hfiles, -⟩ := h.setInode hiff fun _ _ => by rw [he]
    fun _ k hk hkr hki => hk (h.owned.table.unique k ip hkr href (hki.trans hei))
  exact ⟨⟨hgood, ref_drop her, inum_setInode hei, hopened⟩, hfiles⟩

lemma wp_freeInode (ok : sb.Ok) (h : Good sb s) (hip : s.Open ip i) :
    wp (freeInode sb ip) s (fun _ t => Good sb t ∧ FreedInode sb i s t ∧
      (t.itable ip).valid = false ∧ (∀ k, (t.itable k).ref = (s.itable k).ref) ∧
      (∀ k, (t.itable k).inum = (s.itable k).inum) ∧
      ∀ k j, k ≠ ip → s.Open k j → t.Open k j) E := by
  unfold freeInode
  refine wp_bind_of (wp_itrunc ok h hip) fun _ t ht => ?_
  simp only [wp_bind, wp_inode, wp_setInode, wp_iupdate]
  have hopen : t.Open ip i := ht.refs.open_iff.mpr hip
  have haddrs : (t.itable ip).copy.addrs = fun _ => 0 := by
    rw [← ino_of_open ht.good.owned.table hopen, ht.ino]
  generalize hx : ({ (t.itable ip).copy with type := 0 } : Dinode) = x
  have hput : (t.setInode ip { t.itable ip with copy := x }).iupdate sb ip = t.put sb ip x := rfl
  rw [hput, itable_put_self]
  generalize he : ({ ({ t.itable ip with copy := x } : Inode) with valid := false } : Inode) = e
  obtain ⟨hgood, hfreed⟩ := ht.good.freeInode (e := e) ok hopen haddrs hx.symm (by rw [← he])
    (by rw [← he]) (fun _ => hopen.1)
  have hother : ∀ k ≠ ip, ((t.put sb ip x).setInode ip e).itable k = t.itable k := fun k hk => by
    rw [itable_setInode_of_ne hk, itable_put_of_ne hk]
  refine ⟨hgood, ⟨hfreed.type, fun j hj hji => ?_, fun j hji o => ?_, fun p hp => ?_⟩, ?_,
    fun k => ?_, fun k => ?_, fun k j hk hkj => ?_⟩
  · rw [hfreed.ino_other j hj hji, ht.ino_other j hj hji]
  · rw [hfreed.other j hji, ht.other j hji]
  · rw [hfreed.slot_other p hp, ht.slot_other p hp]
  · rw [itable_setInode_self, ← he]
  · by_cases hk : k = ip
    · rw [hk, itable_setInode_self, ← he]
      exact (ht.refs ip).1
    rw [hother k hk]
    exact (ht.refs k).1
  · by_cases hk : k = ip
    · rw [hk, itable_setInode_self, ← he]
      exact (ht.refs ip).2.1
    rw [hother k hk]
    exact (ht.refs k).2.1
  rw [State.Open, hother k hk]
  exact ht.refs.open_iff.mpr hkj

lemma FreedInode.sameFiles (h : FreedInode sb i s t) (hf : SameFiles sb t s') :
    FreedInode sb i s s' :=
  ⟨by rw [hf.ino, h.type], fun j hj hji => by rw [hf.ino, h.ino_other j hj hji],
    fun j hji o => by rw [hf.content, h.other j hji],
    fun p hp => by rw [hf.slot, h.slot_other p hp]⟩

lemma wp_iput (ok : sb.Ok) (h : Good sb s) (href : 0 < (s.itable ip).ref) :
    wp (iput sb ip) s (fun _ t => Dropped sb ip s t ∧
      (SameFiles sb s t ∧ ¬((s.itable ip).ref = 1 ∧ (s.itable ip).valid ∧
          (s.itable ip).copy.nlink = 0) ∨
        (s.itable ip).ref = 1 ∧ s.Open ip (s.itable ip).inum ∧ (s.itable ip).copy.nlink = 0 ∧
          FreedInode sb (s.itable ip).inum s t)) E := by
  unfold iput
  rw [wp_bind, wp_inode, wp_bind]
  by_cases hc : (s.itable ip).ref = 1 ∧ (s.itable ip).valid ∧ (s.itable ip).copy.nlink = 0
  · have hopen : s.Open ip (s.itable ip).inum := ⟨href, hc.2.1, rfl⟩
    rw [if_pos hc]
    refine wp_imp (wp_freeInode ok h hopen) fun _ t ht => ?_
    obtain ⟨hgood, hfreed, -, hrefs, hinums, hopened⟩ := ht
    rw [wp_bind, wp_inode, wp_setInode]
    have hpos : 0 < (t.itable ip).ref := by rwa [hrefs]
    obtain ⟨hd, hfiles⟩ := hgood.drop hpos rfl
    refine ⟨⟨hd.good, fun k => by rw [hd.ref, hrefs], fun k => by rw [hd.inum, hinums],
      fun k i hk hpos => ?_⟩, .inr ⟨hc.1, hopen, hc.2.2, hfreed.sameFiles hfiles⟩⟩
    refine hd.opened k i (hopened k i ?_ hk) hpos
    rintro rfl
    rw [hd.ref, hrefs, if_pos rfl, hc.1] at hpos
    exact lt_irrefl 0 hpos
  rw [if_neg hc, wp_pure, wp_bind, wp_inode, wp_setInode]
  obtain ⟨hd, hfiles⟩ := h.drop href rfl
  exact ⟨hd, .inl ⟨hfiles, hc⟩⟩

lemma Good.not_open_of_free (h : Good sb s) (hfree : (sb.dinode s.disk i).type = 0)
    (k : Fin ninode) : ¬s.Open k i := by
  intro hk
  refine h.typed k i hk ?_
  rw [h.synced k i hk, hfree]

lemma Good.newInode (ok : sb.Ok) (h : Good sb s) (hi : i < sb.ninodes)
    (hfree : (sb.dinode s.disk i).type = 0) {type : Nat} (ht : type < 2 ^ 16)
    (hs' : s' = s.logWrite (sb.iblock i) (sb.putDinode s.disk i { Dinode.zero with
      type := type })) :
    Good sb s' ∧ (∀ j, s'.ino sb j = if j = i then { Dinode.zero with
      type := type } else s.ino sb j) ∧
      (∀ j o, s'.content sb j o = s.content sb j o) ∧ ∀ p, s'.slot sb p = s.slot sb p := by
  generalize hx : ({ Dinode.zero with type := type } : Dinode) = x at hs' ⊢
  have hfits : x.Fits := by
    rw [← hx]
    exact ⟨ht, Nat.two_pow_pos 16, Nat.two_pow_pos 16, Nat.two_pow_pos 16, Nat.two_pow_pos 32,
      fun _ => Nat.two_pow_pos 32⟩
  have hno := h.not_open_of_free hfree
  have hitable : s'.itable = s.itable := by rw [hs']; rfl
  have hiff : ∀ {k j}, s'.Open k j ↔ s.Open k j := open_congr hitable
  have htab := h.owned.table.congr hitable
  have hdinode : ∀ j, sb.dinode s'.disk j = if j = i then x else sb.dinode s.disk j := fun j => by
    rw [hs']
    exact Superblock.dinode_putDinode hfits
  have hino : ∀ j, s'.ino sb j = if j = i then x else s.ino sb j := by
    intro j
    by_cases hj : j = i
    · rw [if_pos hj, hj, ino_of_closed (fun k hk => hno k (hiff.mp hk)), hdinode, if_pos rfl]
    rw [if_neg hj]
    exact ino_congr h.owned.table htab (fun _ => hiff) fun k _ => by rw [hitable]
      fun _ => by rw [hdinode, if_neg hj]
  have hold : (s.ino sb i).type = 0 := by rw [ino_of_closed hno, hfree]
  have hdisk : ∀ c ≠ sb.iblock i, s'.disk c = s.disk c := fun c hc => by
    rw [hs']
    exact disk_logWrite_of_ne hc
  have hdata : ∀ c, sb.InData c → s'.disk c = s.disk c := fun c hc =>
    hdisk c (ok.iblock_ne_data hi hc).symm
  have hbit : ∀ c, sb.bit s'.disk c = sb.bit s.disk c := fun c =>
    Superblock.bit_congr (hdisk _ (ok.iblock_ne_bblock hi).symm)
  have hslot : ∀ p, s'.slot sb p = s.slot sb p := by
    intro p
    by_cases hp : p.1 = i
    · have hzero : ∀ k, x.addr k = 0 := fun k => by
        rw [Dinode.addr, ← hx]
        simp [Dinode.zero]
      have hs : s.slot sb p = 0 := slot_of_free (by rwa [hp])
      rw [hs, State.slot, hp, hino, if_pos rfl, Dinode.slot_zero_addrs hzero, ite_self]
    exact slot_congr (fun _ => by rw [hino, if_neg hp]) fun hlt htp ha =>
      hdata _ (h.owned.indirect_data hlt htp ha)
  refine ⟨⟨⟨htab, h.owned.ledger.congr hslot (fun c _ => by rw [hbit]), fun c hc => ?_,
    fun c hc => ?_⟩, fun k j hk => ?_, fun k j hk => ?_, fun j hj htj o ho => ?_⟩, hino,
    content_congr hslot hdata h.owned, hslot⟩
  · rw [hbit]
    exact h.owned.low c hc
  · have hmem : c ∈ s.unlogged := by
      rw [hs'] at hc
      exact mem_unlogged_logWrite hc
    refine ⟨(h.owned.unlogged c hmem).1, fun j hj htj => ?_⟩
    rw [hino] at htj ⊢
    by_cases hji : j = i
    · have hzero : x.addr ndirect = 0 := by
        rw [Dinode.addr, ← hx]
        simp [Dinode.zero]
      rw [if_pos hji, hzero]
      exact fun e => h.owned.ledger.zero (e ▸ (h.owned.unlogged c hmem).1)
    rw [if_neg hji] at htj ⊢
    exact (h.owned.unlogged c hmem).2 j hj htj
  · rw [hitable]
    exact h.typed k j (hiff.mp hk)
  · have hji : j ≠ i := fun e => hno k (e ▸ hiff.mp hk)
    rw [hitable, hdinode, if_neg hji]
    exact h.synced k j (hiff.mp hk)
  rw [hino] at htj ho
  by_cases hji : j = i
  · rw [if_pos hji, ← hx] at ho
    exact absurd ho (Nat.not_lt_zero o)
  rw [if_neg hji] at htj ho
  rw [hslot]
  exact h.full j hj htj o ho

structure Alloced (sb : Superblock) (type i : Nat) (ip : Fin ninode) (s s' : State) : Prop where
  good : Good sb s'
  lt : 0 < i ∧ i < sb.ninodes
  free : (s.ino sb i).type = 0
  ino : ∀ j, s'.ino sb j = if j = i then { Dinode.zero with type := type } else s.ino sb j
  content : ∀ j o, s'.content sb j o = s.content sb j o
  slot : ∀ p, s'.slot sb p = s.slot sb p
  inum : (s'.itable ip).inum = i
  ref : ∀ k, (s'.itable k).ref = (s.itable k).ref + if k = ip then 1 else 0
  held : ∀ k, 0 < (s.itable k).ref → (s'.itable k).inum = (s.itable k).inum
  opened : ∀ k j, s'.Open k j ↔ s.Open k j

lemma wp_ialloc (ok : sb.Ok) (h : Good sb s) {type : Nat} (ht : type < 2 ^ 16)
    (hE : E .igetNoInodes) :
    wp (ialloc sb type) s (fun r t => match r with
      | none => t = s
      | some ip => ∃ i, Alloced sb type i ip s t) E := by
  unfold ialloc
  rw [wp_bind, wp_get]
  cases hf : (range' 1 (sb.ninodes - 1)).find? fun i => (sb.dinode s.disk i).type = 0 with
  | none => exact wp_pure.mpr rfl
  | some i =>
    have hfree : (sb.dinode s.disk i).type = 0 := by simpa using find?_some hf
    have hmem := mem_range'_1.mp (mem_of_find?_eq_some hf)
    have hi : i < sb.ninodes := by omega
    simp only [wp_bind, wp_logWrite]
    obtain ⟨hgood, hino, hcontent, hslot⟩ := h.newInode ok hi hfree ht rfl
    refine wp_imp (wp_iget hgood (fun _ => hE)) fun ip t hgot => ?_
    refine wp_pure.mpr ⟨i, hgot.good, ⟨by omega, hi⟩, ?_, fun j => ?_, fun j o => ?_, fun p => ?_,
      hgot.inum, hgot.ref, hgot.held, hgot.opened⟩
    · rw [ino_of_closed (h.not_open_of_free hfree), hfree]
    · rw [hgot.files.ino, hino]
    · rw [hgot.files.content, hcontent]
    rw [hgot.files.slot, hslot]

structure Updated (sb : Superblock) (i : Nat) (f : Dinode → Dinode) (s s' : State) : Prop where
  good : Good sb s'
  refs : SameRefs s s'
  ino : ∀ j, s'.ino sb j = if j = i then f (s.ino sb i) else s.ino sb j
  content : ∀ j o, s'.content sb j o = s.content sb j o
  slot : ∀ p, s'.slot sb p = s.slot sb p

lemma wp_update {f : Dinode → Dinode} (ok : sb.Ok) (h : Good sb s) (hip : s.Open ip i)
    (hfits : ∀ x, Dinode.Fits x → (f x).Fits)
    (hkeep : ∀ x, (f x).type = x.type ∧ (f x).size = x.size ∧ (f x).addrs = x.addrs) :
    wp (update sb ip f) s (fun _ t => Updated sb i f s t) E := by
  have hino := ino_of_open h.owned.table hip
  have hx := hfits _ (h.owned.table.fits ip i hip)
  have ht := h.typed ip i hip
  have hf := hkeep (s.itable ip).copy
  have hfull : s.Full sb i (f (s.itable ip).copy).size := by
    rw [hf.2.1, ← hino]
    exact h.full i (h.owned.table.lt ip i hip) (by rwa [hino])
  simp only [update, wp_bind, wp_inode, wp_setInode, wp_iupdate]
  show Updated sb i f s (s.put sb ip (f (s.itable ip).copy))
  refine ⟨(h.busy hip).put ok hx hf.2.2 (by rwa [hf.1]) hfull, sameRefs_put, fun j => ?_,
    content_put ok h.owned hip hx hf.2.2 (by rw [hf.1]), slot_put ok h.owned hip hx hf.2.2
      (by rw [hf.1])⟩
  rw [ino_put h.owned.table hip hx, hino]

lemma wp_ireclaimOne (ok : sb.Ok) (h : Good sb s) (hi : i < sb.ninodes) (hE : E .igetNoInodes) :
    wp (ireclaimOne sb i) s (fun _ t => Good sb t) E := by
  unfold ireclaimOne
  rw [wp_bind, wp_get]
  refine wp_ite (fun hc => ?_) fun _ => ?_
  · refine wp_bind_of (wp_iget h (fun _ => hE)) fun ip t ht => ?_
    have href : 0 < (t.itable ip).ref := by
      rw [ht.ref, if_pos rfl]
      omega
    have htype : (t.ino sb (t.itable ip).inum).type ≠ 0 := by
      rw [ht.files.ino, ht.inum]
      by_cases hex : ∃ k, s.Open k i
      · obtain ⟨k, hk⟩ := hex
        rw [ino_of_open h.owned.table hk]
        exact h.typed k i hk
      rw [ino_of_closed (not_exists.mp hex)]
      exact hc.1
    refine wp_bind_of (wp_ilock ht.good href (by rwa [ht.inum]) (fun h0 => absurd h0 htype))
      fun _ u hu => ?_
    exact wp_imp (wp_iput ok hu.good (by rwa [hu.ref])) fun _ _ hv => hv.1.good
  rwa [wp_pure]

lemma wp_ireclaimLoop (ok : sb.Ok) (hE : E .igetNoInodes) :
    ∀ is : List Nat, (∀ i ∈ is, i < sb.ninodes) → ∀ s, Good sb s →
      wp (ireclaimLoop sb is) s (fun _ t => Good sb t) E := by
  intro is
  induction is with
  | nil =>
    intro _ s h
    rwa [ireclaimLoop, wp_pure]
  | cons i is ih =>
    intro his s h
    rw [ireclaimLoop]
    exact wp_bind_of (wp_ireclaimOne ok h (his i mem_cons_self) hE)
      fun _ t ht => ih (fun j hj => his j (mem_cons_of_mem i hj)) t ht

lemma wp_ireclaim (ok : sb.Ok) (h : Good sb s) (hE : E .igetNoInodes) :
    wp (ireclaim sb) s (fun _ t => Good sb t) E := by
  refine wp_ireclaimLoop ok hE _ (fun i hi => ?_) s h
  have := mem_range'_1.mp hi
  omega
end Xv6.Fs
