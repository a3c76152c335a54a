import Xv6.Itable.Inv

namespace Xv6.Itable
open Fs Function

namespace State
variable {P : Type} {s s' : State P} {p q : P} {k l : Fin ninode} {n : Nat} {c : Pc} {e : Entry P}
  {d : Dinode} {i : Nat × Nat}

lemma stage_of_idle (hp : s.pc p = .idle) (k : Fin ninode) : s.stages k p = .out := by
  rw [stages, hp]
  rfl

lemma stage_of_pc (hp : s.pc p = c) : s.stages k p = c.stage k := by rw [stages, hp]

lemma ne_entry (hc : c.entry = some k) (l : Fin ninode) (hl : l ≠ k) : c.entry ≠ some l := by
  rw [hc]
  exact fun e => hl (Option.some.inj e).symm

lemma entry_of_pc (hp : s.pc p = c) (hc : c.entry = some k) (l : Fin ninode) (hl : l ≠ k) :
    (s.pc p).entry ≠ some l := by
  rw [hp]
  exact ne_entry hc l hl

lemma entry_of_idle (hp : s.pc p = .idle) (l : Fin ninode) (_ : l ≠ k) :
    (s.pc p).entry ≠ some l := by
  rw [hp]
  exact nofun

namespace Frame
lemma refl : Frame s s k :=
  ⟨fun _ _ => rfl, fun _ _ => rfl, fun _ _ => rfl, fun _ _ => rfl, fun _ _ h => h⟩

lemma setEntry (h : Frame s s' k) : Frame s (s'.setEntry k e) k :=
  ⟨fun l hl => (update_of_ne hl _ _).trans (h.entry l hl), h.held, h.stages, h.disk, h.alloc⟩

lemma setDisk (h : Frame s s' k) (hi : i = (s.entry k).id) : Frame s (s'.setDisk i d) k := by
  subst hi
  exact ⟨h.entry, h.held, h.stages, fun i hi => (update_of_ne hi _ _).trans (h.disk i hi), h.alloc⟩
end Frame
section
variable [DecidableEq P]

@[simp] lemma heldAt_setHeld : (s.setHeld p k n).heldAt k = update (s.heldAt k) p n := by
  funext q
  by_cases hq : q = p
  · simp [heldAt, hq]
  simp [heldAt, hq]

lemma heldAt_setHeld_of_ne (h : l ≠ k) : (s.setHeld p k n).heldAt l = s.heldAt l := by
  funext q
  by_cases hq : q = p
  · simp [heldAt, hq, h]
  simp [heldAt, hq]

@[simp] lemma stages_setPc : (s.setPc p c).stages k = update (s.stages k) p (c.stage k) := by
  funext q
  by_cases hq : q = p
  · simp [stages, hq]
  simp [stages, hq]

lemma stages_setPc_of_eq (h : c.stage l = (s.pc p).stage l) :
    (s.setPc p c).stages l = s.stages l := by
  rw [stages_setPc, h]
  exact update_eq_self p (s.stages l)

namespace Frame
lemma setHeld (h : Frame s s' k) : Frame s (s'.setHeld p k n) k :=
  ⟨h.entry, fun l hl => (heldAt_setHeld_of_ne hl).trans (h.held l hl), h.stages, h.disk, h.alloc⟩

lemma setPc (h : Frame s s' k) (hold : ∀ l ≠ k, (s'.pc p).entry ≠ some l)
    (hnew : ∀ l ≠ k, c.entry ≠ some l) (ha : ∀ d j, c ≠ .allocGet d j) :
    Frame s (s'.setPc p c) k := by
  refine ⟨h.entry, h.held, fun l hl => ?_, h.disk, fun q i hq => ?_⟩
  · refine (stages_setPc_of_eq ?_).trans (h.stages l hl)
    rw [Pc.stage_of_entry (hnew l hl), Pc.stage_of_entry (hold l hl)]
  change update s'.pc p c q = _ at hq
  by_cases hqp : q = p
  · rw [hqp, update_self] at hq
    exact absurd hq (ha _ _)
  rw [update_of_ne hqp] at hq
  exact h.alloc q i hq
end Frame

lemma iget_setPc {dev inum : Nat} :
    (s.iget p dev inum).setPc p c = (s.setPc p c).iget p dev inum := by
  unfold State.iget
  simp only [setPc_entry]
  split
  · rfl
  split <;> rfl
end

variable [Fintype P]

lemma ok_of_view {v : View P} (h : v.Ok) (he : s.entry k = v.e) (hd : s.disk v.e.id = v.disk)
    (hh : s.heldAt k = v.held) (hs : s.stages k = v.stage) : (s.view k).Ok := by
  have hv : s.view k = v := View.ext he (by rwa [view, he]) hh hs
  rwa [hv]

namespace Inv
section
variable (h : s.Inv)
include h

lemma byHolder (hp : 0 < s.held p k) (hf : Frame s s' k) (hid : (s'.entry k).id = (s.entry k).id)
    (hok : (s'.view k).Ok)
    (hlinks : (s'.disk (s.entry k).id).type = 0 → (s'.disk (s.entry k).id).nlink = 0)
    (hquiet : s'.panicked = s.panicked) : s'.Inv :=
  h.onEntry (h.ref_pos hp) hf hid hok hlinks (fun q hq => absurd hq (h.not_claimed hp q)) hquiet

lemma held_of_owns (ho : s.owns p k) : 0 < s.held p k := by
  refine ((h.ok k).lock p ho.2).resolve_left fun hf => ?_
  change (s.stages k p).frees at hf
  rw [stage_of_idle ho.1] at hf
  cases hf

lemma change (ho : s.owns p k) (hd : d.type ≠ 0) :
    (s.setEntry k { s.entry k with copy := d, dirty := true }).Inv := by
  refine h.byHolder (h.held_of_owns ho) Frame.refl.setEntry (by simp [Entry.id]) ?_ (h.links _) rfl
  refine ok_of_view ((h.ok k).change ho.2 (stage_of_idle ho.1 k) hd) ?_ rfl rfl rfl
  exact update_self _ _ _

lemma iupdate (ho : s.owns p k) : (s.iupdate k).Inv := by
  have hout := stage_of_idle ho.1 k
  have htype := (h.ok k).copy_type ho.2 hout
  refine h.byHolder (h.held_of_owns ho) (Frame.refl.setDisk rfl).setEntry
    (by simp [State.iupdate, Entry.id]) ?_ ?_ rfl
  · refine ok_of_view ((h.ok k).iupdate ho.2 hout) ?_ ?_ rfl rfl
    · exact update_self _ _ _
    exact update_self _ _ _
  intro ht
  rw [show (s.iupdate k).disk (s.entry k).id = (s.entry k).copy from
    update_self _ _ _] at ht
  exact absurd ht htype

lemma iunlock (ho : s.owns p k) (hd : (s.entry k).dirty = false) : (s.iunlock k).Inv := by
  have hpos := h.ref_pos (h.held_of_owns ho)
  rw [State.iunlock, if_neg (by omega)]
  refine h.byHolder (h.held_of_owns ho) Frame.refl.setEntry (by simp [Entry.id]) ?_ (h.links _) rfl
  refine ok_of_view ((h.ok k).iunlock ho.2 (stage_of_idle ho.1 k) hd) ?_ rfl rfl rfl
  exact update_self _ _ _

lemma byEarly (hp : (s.stages k p).early) (hf : Frame s s' k)
    (hid : (s'.entry k).id = (s.entry k).id) (hok : (s'.view k).Ok)
    (hlinks : (s'.disk (s.entry k).id).nlink = 0) (hquiet : s'.panicked = s.panicked) : s'.Inv :=
  h.onEntry ((h.ok k).pos_of_puts (Stage.puts_of_early hp)) hf hid hok (fun _ => hlinks)
    (fun q hq => absurd hq (h.not_claimed_of_early hp q)) hquiet
end

variable [DecidableEq P] {dev inum : Nat}

section
variable (h : s.Inv) {ninodes : Nat}
include h

lemma not_early (hp : 0 < s.held p k) (q : P) : (s.stages k q).early = false := by
  by_contra he
  have h0 := (h.ok k).held_of_early (Bool.eq_true_of_not_eq_false he) p
  exact absurd h0 (Nat.ne_of_gt hp)

lemma idup (hp : 0 < s.held p k) : (s.idup p k).Inv := by
  have hok := (h.ok k).take (p := p) (h.ref_pos hp) ((h.ok k).typed p hp) (h.not_early hp)
  refine h.byHolder hp Frame.refl.setEntry.setHeld (by simp [State.idup, State.take, Entry.id]) ?_
    (h.links _) rfl
  exact ok_of_view hok (update_self _ _ _) rfl heldAt_setHeld rfl

lemma pass (hr : s.refers p k) : ((s.setHeld q k (s.held q k + 1)).setHeld p k
      ((s.setHeld q k (s.held q k + 1)).held p k - 1)).Inv := by
  obtain ⟨hidle, hp, hl⟩ := hr
  have htake := (h.ok k).take (p := q) (h.ref_pos hp) ((h.ok k).typed p hp) (h.not_early hp)
  have hput := htake.put ?_ hl
  · refine h.byHolder hp Frame.refl.setHeld.setHeld rfl ?_ (h.links _) rfl
    refine ok_of_view hput rfl rfl ?_ rfl
    rw [heldAt_setHeld, heldAt_setHeld]
    congr 2
    exact congrFun heldAt_setHeld p
  show 0 < update (s.heldAt k) q (s.heldAt k q + 1) p
  by_cases hpq : p = q
  · rw [hpq, update_self]
    omega
  rwa [update_of_ne hpq]

lemma ilock (hr : s.refers p k) (hl : (s.entry k).lock = none) : (s.ilock p k).Inv := by
  obtain ⟨hidle, hp, -⟩ := hr
  have hpos := h.ref_pos hp
  rw [State.ilock, if_neg (by omega)]
  have hframe : Frame s ((s.setEntry k { s.entry k with lock := some p }).setPc p (.load k)) k :=
    Frame.refl.setEntry.setPc (entry_of_idle hidle) (ne_entry rfl) nofun
  refine h.byHolder hp hframe (by simp [Entry.id]) ?_ (h.links _) rfl
  · refine ok_of_view ((h.ok k).ilock hl hp (stage_of_idle hidle k)) ?_ rfl rfl ?_
    · exact update_self _ _ _
    · rw [stages_setPc]
      congr 1
      exact if_pos rfl

lemma load (hp : s.pc p = .load k) : (s.load p k).Inv := by
  have hstage : s.stages k p = .load := by
    rw [stages, hp]
    exact if_pos rfl
  have hheld := (h.ok k).held_of_load hstage
  unfold State.load
  split
  · refine h.byHolder hheld (Frame.refl.setPc (entry_of_pc hp rfl) nofun nofun) rfl ?_
      (h.links _) rfl
    exact ok_of_view ((h.ok k).loaded hstage ‹_›) rfl rfl rfl stages_setPc
  have htype : (s.disk (s.entry k).id).type ≠ 0 := (h.ok k).typed p hheld
  rw [if_neg htype]
  refine h.byHolder hheld (Frame.refl.setEntry.setPc (entry_of_pc hp rfl) nofun nofun)
    (by simp [Entry.id]) ?_ (h.links _) rfl
  exact ok_of_view ((h.ok k).load hstage) (update_self _ _ _) rfl rfl stages_setPc

lemma iput (hr : s.refers p k) : (s.iput p k).Inv := by
  obtain ⟨hidle, hp, hl⟩ := hr
  unfold State.iput
  split
  · rename_i hfree
    have hlock : (s.entry k).lock = none := (h.ok k).lock_none_of_last hfree.1 hp hl
    rw [if_pos hlock]
    refine h.byHolder hp (Frame.refl.setEntry.setHeld.setPc (entry_of_idle hidle) (ne_entry rfl)
      nofun) (by simp [Entry.id]) ?_ (h.links _) rfl
    · refine ok_of_view ((h.ok k).putFree hp hlock (stage_of_idle hidle k) hfree.1 hfree.2.1
        hfree.2.2) (update_self _ _ _) rfl ?_ ?_
      · exact heldAt_setHeld
      · rw [stages_setPc]
        congr 1
        exact if_pos rfl
  refine h.byHolder hp Frame.refl.setEntry.setHeld (by simp [Entry.id]) ?_ (h.links _) rfl
  exact ok_of_view ((h.ok k).put hp hl) (update_self _ _ _) rfl heldAt_setHeld rfl

lemma store (hp : (s.stages k p).early) (hpc : (s.pc p).entry = some k)
    (hc : c.entry = some k) (ha : ∀ d j, c ≠ .allocGet d j) (hd : d.nlink = 0)
    (hok : View.Ok { s.view k with e := { s.entry k with copy := d }, disk := d,
                                   stage := update (s.stages k) p (c.stage k) })
    (truncs frees : Nat × Nat → Nat) :
    Inv { (s.store k d).setPc p c with truncs := truncs, frees := frees } := by
  have hf : Frame s ((s.store k d).setPc p c) k :=
    (Frame.refl.setDisk rfl).setEntry.setPc (ne_entry hpc) (ne_entry hc) ha
  refine h.byEarly hp ⟨hf.entry, hf.held, hf.stages, hf.disk, hf.alloc⟩
    (by simp [State.store, Entry.id]) ?_ ?_ rfl
  · refine ok_of_view hok (update_self _ _ _) (update_self _ _ _) rfl ?_
    exact stages_setPc
  show (update s.disk (s.entry k).id d (s.entry k).id).nlink = 0
  rwa [update_self]

lemma trunc (hp : s.pc p = .trunc k) (truncs : Nat × Nat → Nat) :
    Inv { (s.store k { (s.entry k).copy with size := 0, addrs := fun _ => 0 }).setPc p
      (.clear k) with truncs := truncs } := by
  have hstage : s.stages k p = .trunc := (stage_of_pc hp).trans (if_pos rfl)
  have hearly : (s.stages k p).early := by rw [hstage]; rfl
  have hlink : (s.entry k).copy.nlink = 0 := ((h.ok k).early p hearly).2
  refine h.store (c := .clear k) (d := { (s.entry k).copy with size := 0, addrs := fun _ => 0 })
    hearly (by rw [hp]; rfl) rfl nofun hlink ?_ truncs s.frees
  rw [show (Pc.clear k).stage k = .clear from if_pos rfl]
  exact (h.ok k).trunc hstage rfl rfl

lemma clear (hp : s.pc p = .clear k) (frees : Nat × Nat → Nat) :
    Inv { (s.store k { (s.entry k).copy with type := 0 }).setPc p (.release k) with
      frees := frees } := by
  have hstage : s.stages k p = .clear := (stage_of_pc hp).trans (if_pos rfl)
  have hearly : (s.stages k p).early := by rw [hstage]; rfl
  have hlink : (s.entry k).copy.nlink = 0 := ((h.ok k).early p hearly).2
  refine h.store (c := .release k) (d := { (s.entry k).copy with type := 0 }) hearly
    (by rw [hp]; rfl) rfl nofun hlink ?_ s.truncs frees
  rw [show (Pc.release k).stage k = .release from if_pos rfl]
  exact (h.ok k).clear hstage

lemma byFreed (hpc : s.pc p = c) (hentry : c.entry = some k) (hputs : (s.stages k p).puts)
    {c' : Pc} (hc' : c'.entry = some k ∨ c' = .idle) (hearly : (c'.stage k).early = false)
    (he : e.id = (s.entry k).id)
    (hok : View.Ok { s.view k with e := e, stage := update (s.stages k) p (c'.stage k) }) :
    ((s.setEntry k e).setPc p c').Inv := by
  have hne : ∀ l ≠ k, c'.entry ≠ some l := by
    rcases hc' with hc' | rfl
    · exact ne_entry hc'
    exact fun _ _ => nofun
  have ha : ∀ d j, c' ≠ .allocGet d j := by
    rintro d j rfl
    rcases hc' with hc' | hc' <;> cases hc'
  have hf : Frame s ((s.setEntry k e).setPc p c') k :=
    Frame.refl.setEntry.setPc (entry_of_pc hpc hentry) hne ha
  refine h.onEntry ((h.ok k).pos_of_puts hputs) hf (by simpa using he) ?_ (h.links _)
    (fun q hq => ⟨rfl, fun r => ?_⟩) rfl
  · refine ok_of_view hok (update_self _ _ _) ?_ rfl stages_setPc
    exact congrArg s.disk he
  have hc := (h.claimed q (s.entry k).id hq).unheld k ((h.ok k).pos_of_puts hputs) rfl r
  refine ⟨hc.1, ?_⟩
  rw [stages_setPc]
  by_cases hrp : r = p
  · rwa [hrp, update_self]
  rw [update_of_ne hrp]
  exact hc.2

lemma unlockFreed (hp : s.pc p = .release k) :
    ((s.setEntry k { s.entry k with valid := false, lock := none }).setPc p (.drop k)).Inv := by
  have hstage : s.stages k p = .release := (stage_of_pc hp).trans (if_pos rfl)
  have hdrop : (Pc.drop k).stage k = .drop := if_pos rfl
  refine h.byFreed hp rfl (by rw [hstage]; rfl) (.inl rfl) (by rw [hdrop]; rfl) rfl ?_
  rw [hdrop]
  exact (h.ok k).unlockFreed hstage

lemma drop (hp : s.pc p = .drop k) :
    ((s.setEntry k { s.entry k with ref := (s.entry k).ref - 1 }).setPc p .idle).Inv := by
  have hstage : s.stages k p = .drop := (stage_of_pc hp).trans (if_pos rfl)
  exact h.byFreed hp rfl (by rw [hstage]; rfl) (.inr rfl) rfl rfl ((h.ok k).drop hstage)

lemma walk (hold : (s.pc p).entry = none) (hnew : c.entry = none) (ha : ∀ d j, c ≠ .allocGet d j)
    : (s.setPc p c).Inv := by
  have hstages : ∀ l, (s.setPc p c).stages l = s.stages l := by
    intro l
    apply stages_setPc_of_eq
    rw [Pc.stage_of_entry (by rw [hnew]; exact nofun), Pc.stage_of_entry
      (by rw [hold]; exact nofun)]
  have halloc : ∀ q (i : Nat × Nat), (s.setPc p c).pc q = .allocGet i.1 i.2 →
      s.pc q = .allocGet i.1 i.2 := by
    intro q i hq
    change update s.pc p c q = _ at hq
    by_cases hqp : q = p
    · rw [hqp, update_self] at hq
      exact absurd hq (ha _ _)
    rwa [update_of_ne hqp] at hq
  refine ⟨fun k => ok_of_view (h.ok k) rfl rfl rfl (hstages k), h.unique, h.links, fun q i hq => ?_,
    h.quiet⟩
  have hc := h.claimed q i (halloc q i hq)
  refine ⟨hc.type, hc.nlink, fun r hr => hc.alone r (halloc r i hr), fun k hk e r => ?_⟩
  rw [hstages]
  exact hc.unheld k hk e r

lemma recycle (h0 : (s.entry k).ref = 0) (ht : (s.disk (dev, inum)).type ≠ 0)
    (hnew : ∀ l, 0 < (s.entry l).ref → (s.entry l).id ≠ (dev, inum))
    (hclaim : ∀ q, s.pc q ≠ .allocGet dev inum) :
    (s.take p k { s.entry k with dev := dev, inum := inum, ref := 1, valid := false }).Inv := by
  have hself : (s.take p k
      { s.entry k with dev := dev, inum := inum, ref := 1, valid := false }).entry k =
      { s.entry k with dev := dev, inum := inum, ref := 1, valid := false } :=
    update_self _ _ _
  have hf : Frame s (s.take p k
      { s.entry k with dev := dev, inum := inum, ref := 1, valid := false }) k :=
    Frame.refl.setEntry.setHeld
  refine ⟨fun l => ?_, fun l m hl hm e => ?_, h.links, fun q i hq => ?_, h.quiet⟩
  · by_cases hlk : l = k
    · rw [hlk]
      exact ok_of_view ((h.ok k).recycle h0 ht) hself rfl heldAt_setHeld rfl
    refine ok_of_view (h.ok l) (hf.entry l hlk) rfl (hf.held l hlk) rfl
  · by_cases hlk : l = k <;> by_cases hmk : m = k
    · rw [hlk, hmk]
    · rw [hlk, hself, hf.entry m hmk] at e
      rw [hf.entry m hmk] at hm
      exact absurd e.symm (hnew m hm)
    · rw [hmk, hself, hf.entry l hlk] at e
      rw [hf.entry l hlk] at hl
      exact absurd e (hnew l hl)
    · rw [hf.entry l hlk, hf.entry m hmk] at e
      rw [hf.entry l hlk] at hl
      rw [hf.entry m hmk] at hm
      exact h.unique l m hl hm e
  have hc := h.claimed q i hq
  refine ⟨hc.type, hc.nlink, hc.alone, fun l hl e r => ?_⟩
  by_cases hlk : l = k
  · rw [hlk, hself] at e
    rw [← e] at hq
    exact absurd hq (hclaim q)
  rw [hf.entry l hlk] at hl e
  rw [hf.held l hlk]
  exact hc.unheld l hl e r

lemma iget (ht : (s.disk (dev, inum)).type ≠ 0)
    (hearly : ∀ k, 0 < (s.entry k).ref → (s.entry k).id = (dev, inum) →
      ∀ q, (s.stages k q).early = false) (hclaim : ∀ q, s.pc q ≠ .allocGet dev inum) :
    (s.iget p dev inum).Inv := by
  unfold State.iget
  split
  · rename_i k hk
    have hfound := List.find?_some hk
    obtain ⟨hpos, hid⟩ := of_decide_eq_true hfound
    have hid : (s.entry k).id = (dev, inum) := Prod.ext hid.1 hid.2
    have htype : (s.disk (s.entry k).id).type ≠ 0 := by rwa [hid]
    refine h.onEntry hpos Frame.refl.setEntry.setHeld (by simp [State.take, Entry.id]) ?_
      (h.links _) (fun q hq => ?_) rfl
    · exact ok_of_view ((h.ok k).take hpos htype (hearly k hpos hid)) (update_self _ _ _)
        rfl heldAt_setHeld rfl
    rw [show (s.entry k).dev = dev from congrArg Prod.fst hid,
      show (s.entry k).inum = inum from congrArg Prod.snd hid] at hq
    exact absurd hq (hclaim q)
  rename_i hnone
  split
  · exact ⟨h.ok, h.unique, h.links, fun q i hq =>
      let hc := h.claimed q i hq
      ⟨hc.type, hc.nlink, hc.alone, hc.unheld⟩, .inr rfl⟩
  rename_i k hk
  have hfound := List.find?_some hk
  have h0 : (s.entry k).ref = 0 := of_decide_eq_true hfound
  have hnew : ∀ l, 0 < (s.entry l).ref → (s.entry l).id ≠ (dev, inum) := by
    intro l hl e
    have hl' := List.find?_eq_none.mp hnone l (List.mem_finRange l)
    rw [decide_eq_true_eq] at hl'
    exact hl' ⟨hl, congrArg Prod.fst e, congrArg Prod.snd e⟩
  exact h.recycle h0 ht hnew hclaim

lemma iget_of_links (hlink : 0 < (s.disk (dev, inum)).nlink) : (s.iget p dev inum).Inv := by
  refine h.iget (fun ht => ?_) (fun k hpos hid q => ?_) fun q hq => ?_
  · exact absurd (h.links _ ht) (Nat.ne_of_gt hlink)
  · -- an inode that is being freed has no links
    by_contra he
    have hnlink := ((h.ok k).disk_of_early (Bool.eq_true_of_not_eq_false he)).2
    change (s.disk (s.entry k).id).nlink = 0 at hnlink
    rw [hid] at hnlink
    omega
  exact absurd (h.claimed q (dev, inum) hq).nlink (Nat.ne_of_gt hlink)

lemma allocGet (hp : s.pc p = .allocGet dev inum) : ((s.iget p dev inum).setPc p .idle).Inv := by
  have hc := h.claimed p (dev, inum) hp
  have hwalk : (s.setPc p .idle).Inv := h.walk (by rw [hp]; rfl) rfl nofun
  rw [iget_setPc]
  refine hwalk.iget hc.type (fun k hpos hid q => ?_) fun q hq => ?_
  · rw [stages_setPc_of_eq (by rw [hp]; rfl)]
    exact (hc.unheld k hpos hid q).2
  change update s.pc p .idle q = _ at hq
  by_cases hqp : q = p
  · rw [hqp, update_self] at hq
    cases hq
  rw [update_of_ne hqp] at hq
  exact hqp (hc.alone q hq)

lemma claim (hp : (s.pc p).entry = none) (h0 : (s.disk (dev, inum)).type = 0) (hd : d.type ≠ 0)
    (hlink : d.nlink = 0) (allocs : Nat × Nat → Nat) :
    Inv { (s.setDisk (dev, inum) d).setPc p (.allocGet dev inum) with allocs := allocs } := by
  have hstages : ∀ l, ((s.setDisk (dev, inum) d).setPc p (.allocGet dev inum)).stages l =
      s.stages l := by
    intro l
    refine stages_setPc_of_eq ?_
    exact (Pc.stage_of_entry (by rw [setDisk_pc, hp]; exact nofun)).symm
  have halloc : ∀ q (i : Nat × Nat), update s.pc p (.allocGet dev inum) q =
      .allocGet i.1 i.2 → q = p ∧ i = (dev, inum) ∨ s.pc q = .allocGet i.1 i.2 := by
    intro q i hq
    by_cases hqp : q = p
    · rw [hqp, update_self] at hq
      cases hq
      exact .inl ⟨hqp, rfl⟩
    rw [update_of_ne hqp] at hq
    exact .inr hq
  have hself : update s.disk (dev, inum) d (dev, inum) = d := update_self _ _ _
  refine ⟨fun l => ?_, h.unique, fun i hi => ?_, fun q i hq => ?_, h.quiet⟩
  · by_cases hl : (s.entry l).id = (dev, inum)
    · refine ok_of_view ((h.ok l).claim ?_ d) rfl ?_ rfl (hstages l)
      · show (s.disk (s.entry l).id).type = 0
        rw [hl]
        exact h0
      · show update s.disk (dev, inum) d (s.entry l).id = d
        rw [hl]
        exact hself
    refine ok_of_view (h.ok l) rfl ?_ rfl (hstages l)
    exact update_of_ne hl _ _
  · change (update s.disk (dev, inum) d i).type = 0 at hi
    show (update s.disk (dev, inum) d i).nlink = 0
    by_cases hid : i = (dev, inum)
    · rwa [hid, hself]
    rw [update_of_ne hid] at hi ⊢
    exact h.links i hi
  rcases halloc q i hq with ⟨rfl, rfl⟩ | hq
  · refine ⟨?_, ?_, fun r hr => ?_, fun k hk e r => ⟨?_, ?_⟩⟩
    · show (update s.disk (dev, inum) d (dev, inum)).type ≠ 0
      rw [hself]
      exact hd
    · show (update s.disk (dev, inum) d (dev, inum)).nlink = 0
      rw [hself]
      exact hlink
    · rcases halloc r (dev, inum) hr with ⟨hr, -⟩ | hr
      · exact hr
      exact absurd h0 (h.claimed r (dev, inum) hr).type
    · -- a reference to a free inode
      by_contra hheld
      have ht := (h.ok k).typed r (Nat.pos_of_ne_zero hheld)
      change (s.disk (s.entry k).id).type ≠ 0 at ht
      rw [show (s.entry k).id = _ from e] at ht
      exact ht h0
    · by_contra hearly
      have hearly := Bool.eq_true_of_not_eq_false hearly
      change (((s.setDisk (dev, inum) d).setPc q (.allocGet dev inum)).stages k r).early = true
        at hearly
      rw [hstages] at hearly
      have ht := ((h.ok k).disk_of_early hearly).1
      change (s.disk (s.entry k).id).type ≠ 0 at ht
      rw [show (s.entry k).id = _ from e] at ht
      exact ht h0
  have hc := h.claimed q i hq
  have hne : i ≠ (dev, inum) := by
    rintro rfl
    exact hc.type h0
  have hdisk : update s.disk (dev, inum) d i = s.disk i := update_of_ne hne _ _
  refine ⟨?_, ?_, fun r hr => ?_, fun k hk e r => ⟨(hc.unheld k hk e r).1, ?_⟩⟩
  · show (update s.disk (dev, inum) d i).type ≠ 0
    rw [hdisk]
    exact hc.type
  · show (update s.disk (dev, inum) d i).nlink = 0
    rw [hdisk]
    exact hc.nlink
  · rcases halloc r i hr with ⟨-, hi⟩ | hr
    · exact absurd hi hne
    exact hc.alone r hr
  show (((s.setDisk (dev, inum) d).setPc p (.allocGet dev inum)).stages k r).early = false
  rw [hstages]
  exact (hc.unheld k hk e r).2

lemma allocScan {dev inum : Nat} {type : FileType} (hp : (s.pc p).entry = none) :
    (s.allocScan ninodes p dev type inum).Inv := by
  unfold State.allocScan
  split
  · split
    · refine h.claim hp ‹_› ?_ rfl _
      cases type <;> exact nofun
    exact h.walk hp rfl nofun
  exact h.walk hp rfl nofun

lemma step (hs : s.step ninodes p = some s') : s'.Inv := by
  unfold State.step at hs
  split at hs
  · cases hs
  all_goals cases hs
  · exact h.allocScan (by rw [‹s.pc p = _›]; rfl)
  · exact h.allocGet ‹_›
  · exact h.load ‹_›
  · exact h.trunc ‹_› _
  · exact h.clear ‹_› _
  · exact h.unlockFreed ‹_›
  exact h.drop ‹_›

lemma next {a : Act P} (ha : s.Keeps a) (hn : s.next ninodes a = some s') : s'.Inv := by
  unfold State.next at hn
  split at hn
  · cases hn
  cases a with
  | step p => exact h.step hn
  | iget p dev inum =>
    dsimp only at hn
    split at hn <;> cases hn
    exact h.iget_of_links (‹_ ∧ _› : _ ∧ 0 < (s.disk (dev, inum)).nlink).2
  | ialloc p dev type =>
    dsimp only at hn
    split at hn <;> cases hn
    exact h.walk (by rw [‹s.pc p = _›]; rfl) rfl nofun
  | idup p k =>
    dsimp only at hn
    split at hn <;> cases hn
    exact h.idup (‹_ ∧ _› : _ ∧ 0 < s.held p k).2
  | pass p q k =>
    dsimp only at hn
    split at hn <;> cases hn
    exact h.pass ‹_›
  | ilock p k =>
    dsimp only at hn
    split at hn <;> cases hn
    obtain ⟨hr, hl⟩ := (‹_ ∧ _› : s.refers p k ∧ _)
    exact h.ilock hr hl
  | change p k f =>
    dsimp only at hn
    split at hn <;> cases hn
    exact h.change ‹_› ha
  | iupdate p k =>
    dsimp only at hn
    split at hn <;> cases hn
    exact h.iupdate ‹_›
  | iunlock p k =>
    dsimp only at hn
    split at hn <;> cases hn
    obtain ⟨ho, hd⟩ := (‹_ ∧ _› : s.owns p k ∧ _)
    exact h.iunlock ho hd
  | iput p k =>
    dsimp only at hn
    split at hn <;> cases hn
    exact h.iput ‹_›
end
end Inv
end State
end Xv6.Itable
