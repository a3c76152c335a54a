import Xv6.Itable.Ledger

namespace Xv6.Itable
open Fs Function

namespace State
variable {P : Type} {s s' : State P} {p q : P} {k l : Fin ninode} {c : Pc} {i : Nat × Nat}
  {d : Dinode}

namespace Lossless
section
variable (h : s.Lossless) (hf : Frame s s' k) (hid : (s'.entry k).id = (s.entry k).id)
  (hpc : ∀ q (i : Nat × Nat), s.pc q = .allocGet i.1 i.2 → s'.pc q = .allocGet i.1 i.2)
include h hf hid hpc

lemma onEntry (hself : (s'.disk (s.entry k).id).type ≠ 0 → (s'.disk (s.entry k).id).nlink = 0 →
      s'.Kept (s.entry k).id) : s'.Lossless := by
  intro i ht hn
  by_cases hik : i = (s.entry k).id
  · rw [hik] at ht hn ⊢
    exact hself ht hn
  rw [hf.disk i hik] at ht hn
  rcases h i ht hn with ⟨q, l, hl, hq⟩ | ⟨q, hq⟩
  · have hlk : l ≠ k := by
      rintro rfl
      exact hik hl.symm
    left
    refine ⟨q, l, ?_, ?_⟩
    · rwa [hf.entry l hlk]
    rwa [hf.held l hlk, hf.stages l hlk]
  exact .inr ⟨q, hpc q i hq⟩

lemma byHolder (hp : 0 < s'.held p k) : s'.Lossless :=
  h.onEntry hf hid hpc fun _ _ => .inl ⟨p, k, hid, .inl hp⟩
end

variable [DecidableEq P]

lemma pc_of_update (hp : ∀ d j, s.pc p ≠ .allocGet d j) (q : P) (i : Nat × Nat)
    (hq : s.pc q = .allocGet i.1 i.2) : update s.pc p c q = .allocGet i.1 i.2 := by
  have hqp : q ≠ p := by
    rintro rfl
    exact hp _ _ hq
  rw [update_of_ne hqp, hq]

variable [Fintype P] {dev inum : Nat}

omit [Fintype P] in
lemma walk (h : s.Lossless) (hold : (s.pc p).entry = none) (hp : ∀ d j, s.pc p ≠ .allocGet d j)
    (hnew : c.entry = none) : (s.setPc p c).Lossless := by
  intro i ht hn
  refine (h i ht hn).imp (fun ⟨q, l, hl, hq⟩ => ⟨q, l, hl, ?_⟩) fun ⟨q, hq⟩ => ⟨q,
    pc_of_update hp q i hq⟩
  rw [stages_setPc_of_eq]
  · exact hq
  rw [Pc.stage_of_entry (by rw [hnew]; exact nofun), Pc.stage_of_entry
    (by rw [hold]; exact nofun)]

lemma kept_take (hinv : s.Inv) {e : Entry P}
    (he : 0 < (s.entry k).ref → e.id = (s.entry k).id) (hi : s.Kept i ∨ i = e.id) :
    (s.take p k e).Kept i := by
  have hself : (s.take p k e).entry k = e := update_self _ _ _
  have hheld : (s.take p k e).heldAt k = update (s.heldAt k) p (s.heldAt k p + 1) :=
    heldAt_setHeld
  rcases hi with (⟨q, l, hl, hq⟩ | ⟨q, hq⟩) | rfl
  · left
    refine ⟨q, l, ?_, ?_⟩
    · by_cases hlk : l = k
      · rw [hlk] at hl hq
        have hpos : 0 < (s.entry k).ref := by
          rcases hq with hq | hq
          · exact hinv.ref_pos hq
          exact (hinv.ok k).pos_of_puts (Stage.puts_of_early hq)
        rwa [hlk, hself, he hpos]
      exact (congrArg Entry.id (update_of_ne hlk _ _)).trans hl
    refine hq.imp_left fun hq => ?_
    by_cases hlk : l = k
    · rw [hlk] at hq ⊢
      rw [hheld]
      by_cases hqp : q = p
      · rw [hqp, update_self]
        omega
      rwa [update_of_ne hqp]
    show 0 < ((s.setEntry k e).setHeld p k _).heldAt l q
    rwa [heldAt_setHeld_of_ne hlk]
  · exact .inr ⟨q, hq⟩
  left
  refine ⟨p, k, by rw [hself], .inl ?_⟩
  rw [hheld, update_self]
  omega

lemma kept_iget (hinv : s.Inv) (hpanic : (s.iget p dev inum).panicked = none)
    (hi : s.Kept i ∨ i = (dev, inum)) : (s.iget p dev inum).Kept i := by
  unfold State.iget at hpanic ⊢
  split
  · rename_i k hk
    have hfound := List.find?_some hk
    have hid : (s.entry k).id = (dev, inum) :=
      Prod.ext (of_decide_eq_true hfound).2.1 (of_decide_eq_true hfound).2.2
    refine kept_take hinv (fun _ => rfl) (hi.imp_right fun e => ?_)
    exact e.trans hid.symm
  rename_i hnone
  rw [hnone] at hpanic
  split
  · rename_i hempty
    rw [hempty] at hpanic
    cases hpanic
  rename_i k hk
  have hfound := List.find?_some hk
  have h0 : (s.entry k).ref = 0 := of_decide_eq_true hfound
  refine kept_take hinv (fun hpos => ?_) hi
  omega

section
variable (h : s.Lossless) {c' : Pc} {ninodes : Nat}
include h

lemma iget (hinv : s.Inv) (hpanic : (s.iget p dev inum).panicked = none) :
    (s.iget p dev inum).Lossless := by
  intro i ht hn
  rw [iget_frame.1] at ht hn
  exact kept_iget hinv hpanic (.inl (h i ht hn))

lemma allocGet (hinv : s.Inv) (hp : s.pc p = .allocGet dev inum)
    (hpanic : ((s.iget p dev inum).setPc p .idle).panicked = none) :
    ((s.iget p dev inum).setPc p .idle).Lossless := by
  have hwalk : (s.setPc p .idle).Inv := hinv.walk (by rw [hp]; rfl) rfl nofun
  rw [iget_setPc] at hpanic ⊢
  intro i ht hn
  rw [iget_frame.1] at ht hn
  refine kept_iget hwalk hpanic ?_
  rcases h i ht hn with ⟨q, l, hl, hq⟩ | ⟨q, hq⟩
  · left
    left
    refine ⟨q, l, hl, ?_⟩
    rwa [stages_setPc_of_eq (by rw [hp]; rfl)]
  by_cases hqp : q = p
  · rw [hqp, hp] at hq
    cases hq
    exact .inr rfl
  left
  right
  refine ⟨q, ?_⟩
  show update s.pc p .idle q = _
  rw [update_of_ne hqp, hq]

omit [Fintype P] in
lemma allocScan {dev inum : Nat} {type : FileType}
    (hp : s.pc p = .allocScan dev type inum) : (s.allocScan ninodes p dev type inum).Lossless := by
  have hentry : (s.pc p).entry = none := by rw [hp]; rfl
  have hget : ∀ d j, s.pc p ≠ .allocGet d j := fun d j e => nomatch hp.symm.trans e
  unfold State.allocScan
  split
  · split
    · intro i ht hn
      by_cases hi : i = (dev, inum)
      · right
        refine ⟨p, ?_⟩
        show update s.pc p (.allocGet dev inum) p = _
        rw [update_self, hi]
      change (update s.disk (dev, inum) _ i).type ≠ 0 at ht
      change (update s.disk (dev, inum) _ i).nlink = 0 at hn
      rw [update_of_ne hi] at ht hn
      refine (h i ht hn).imp (fun ⟨q, l, hl, hq⟩ => ⟨q, l, hl, ?_⟩)
        fun ⟨q, hq⟩ => ⟨q, pc_of_update hget q i hq⟩
      show _ ∨ ((s.setPc p (.allocGet dev inum)).stages l q).early
      rw [stages_setPc_of_eq (by rw [hp]; rfl)]
      exact hq
    exact h.walk hentry hget rfl
  exact h.walk hentry hget rfl

lemma put (hinv : s.Inv) (hr : s.refers p k) (ho : s.Orderly (.iput p k)) (hfree : ¬s.mustFree k)
    : ((s.setEntry k { s.entry k with ref := (s.entry k).ref - 1 }).setHeld p k
      (s.held p k - 1)).Lossless := by
  obtain ⟨hidle, hp, hl⟩ := hr
  refine h.onEntry Frame.refl.setEntry.setHeld (by simp [Entry.id]) (fun _ _ hq => hq)
    fun _ hn => ?_
  have hok := hinv.ok k
  obtain ⟨hv, hputs⟩ := ho hn
  by_cases hother : ∃ q ≠ p, 0 < s.heldAt k q
  · obtain ⟨q, hqp, hq⟩ := hother
    left
    refine ⟨q, k, by simp [Entry.id], .inl ?_⟩
    rw [heldAt_setHeld, update_of_ne hqp]
    exact hq
  by_cases htwo : 2 ≤ s.held p k
  · left
    refine ⟨p, k, by simp [Entry.id], .inl ?_⟩
    rw [heldAt_setHeld, update_self]
    omega
  exfalso
  have hrefs : ∀ q ≠ p, (s.view k).refs q = 0 := by
    intro q hq
    rw [View.refs_of_not_puts (hputs q)]
    exact Nat.eq_zero_of_not_pos fun hpos => hother ⟨q, hq, hpos⟩
  have hself : (s.view k).refs p = s.held p k := View.refs_of_not_puts (hputs p)
  have href : (s.entry k).ref = 1 := by
    have hsum : ∑ q, (s.view k).refs q = (s.view k).refs p :=
      Finset.sum_eq_single p (fun q _ hq => hrefs q hq) (fun hm => absurd (Finset.mem_univ p) hm)
    have hcount : (s.entry k).ref = ∑ q, (s.view k).refs q := hok.count
    rw [hcount, hsum, hself]
    omega
  have hlock := hok.lock_none_of_last href hp hl
  have hfresh := hok.fresh hv (hinv.ref_pos hp) (hok.not_release hlock)
  have hcopy : (s.entry k).copy = s.disk (s.entry k).id :=
    hfresh.2.2 (hok.dirty_of_lock_none hlock)
  refine hfree ⟨href, hv, ?_⟩
  rw [hcopy]
  exact hn

lemma iput (hinv : s.Inv) (hr : s.refers p k) (ho : s.Orderly (.iput p k))
    (hpanic : (s.iput p k).panicked = none) : (s.iput p k).Lossless := by
  unfold State.iput at hpanic ⊢
  split
  · rename_i hfree
    rw [if_pos hfree] at hpanic
    split
    · refine h.onEntry (Frame.refl.setEntry.setHeld.setPc (entry_of_idle hr.1) (ne_entry rfl)
        (by simp))
        (by simp [Entry.id]) (pc_of_update fun d j e => ?_) fun _ _ => ?_
      · cases hr.1.symm.trans e
      · left
        refine ⟨p, k, by simp [Entry.id], .inr ?_⟩
        rw [stages_setPc, update_self, show (Pc.trunc k).stage k = .trunc from if_pos rfl]
        rfl
    rename_i hlock
    rw [if_neg hlock] at hpanic
    cases hpanic
  exact h.put hinv hr ho ‹_›

omit [Fintype P] in
lemma byFreed (hp : s.pc p = c) (hc : c.entry = some k) (hearly : (s.stages k p).early = false)
    {e : Entry P} (he : e.id = (s.entry k).id)
    (hf : Frame s ((s.setEntry k e).setPc p c') k) : ((s.setEntry k e).setPc p c').Lossless := by
  have hpc : ∀ q (i : Nat × Nat), s.pc q = .allocGet i.1 i.2 →
      update s.pc p c' q = .allocGet i.1 i.2 := by
    refine pc_of_update fun d j e => ?_
    rw [← hp, e] at hc
    cases hc
  refine h.onEntry hf (by simpa using he) hpc fun ht hn => ?_
  rcases h _ ht hn with ⟨q, l, hl, hq⟩ | ⟨q, hq⟩
  · left
    refine ⟨q, l, (id_setEntry he l).trans hl, ?_⟩
    by_cases hlk : l = k
    · rw [hlk] at hq ⊢
      refine hq.imp_right fun hq => ?_
      have hqp : q ≠ p := by
        rintro rfl
        exact nomatch hearly.symm.trans hq
      rwa [stages_setPc, update_of_ne hqp]
    rwa [hf.held l hlk, hf.stages l hlk]
  exact .inr ⟨q, hpc q _ hq⟩

omit [Fintype P] in
lemma store (hp : s.pc p = c) (hc : c.entry = some k) (hc' : c'.entry = some k)
    (hself : d.type ≠ 0 → (c'.stage k).early) (truncs frees : Nat × Nat → Nat) :
    Lossless { (s.store k d).setPc p c' with truncs := truncs, frees := frees } := by
  have ha : ∀ d j, c' ≠ .allocGet d j := by
    rintro d j rfl
    cases hc'
  have hf : Frame s ((s.store k d).setPc p c') k :=
    (Frame.refl.setDisk rfl).setEntry.setPc (entry_of_pc hp hc) (ne_entry hc') ha
  have hid : (((s.store k d).setPc p c').entry k).id = (s.entry k).id :=
    id_setEntry (s := s) (e := { s.entry k with copy := d }) rfl k
  refine h.onEntry ⟨hf.entry, hf.held, hf.stages, hf.disk, hf.alloc⟩ hid
    (pc_of_update fun d j e => ?_) fun ht _ => ?_
  · rw [← hp, e] at hc
    cases hc
  change (update s.disk (s.entry k).id d (s.entry k).id).type ≠ 0 at ht
  rw [update_self] at ht
  left
  refine ⟨p, k, hid, .inr ?_⟩
  show (((s.store k d).setPc p c').stages k p).early
  rw [stages_setPc, update_self]
  exact hself ht

lemma load (hinv : s.Inv) (hp : s.pc p = .load k) (hpanic : (s.load p k).panicked = none) :
    (s.load p k).Lossless := by
  have hstage : s.stages k p = .load := (stage_of_pc hp).trans (if_pos rfl)
  have hheld : 0 < s.held p k := (hinv.ok k).held_of_load hstage
  have hget : ∀ d j, s.pc p ≠ .allocGet d j := fun d j e => nomatch hp.symm.trans e
  unfold State.load at hpanic ⊢
  split
  · exact h.byHolder (Frame.refl.setPc (entry_of_pc hp rfl) nofun nofun) rfl
      (pc_of_update hget) hheld
  rename_i hv
  rw [if_neg hv] at hpanic
  split
  · rename_i ht
    rw [if_pos ht] at hpanic
    cases hpanic
  exact h.byHolder (Frame.refl.setEntry.setPc (entry_of_pc hp rfl) nofun nofun)
    (by simp [Entry.id]) (pc_of_update hget) hheld

lemma step (hinv : s.Inv) (hs : s.step ninodes p = some s')
    (hpanic : s'.panicked = none) : s'.Lossless := by
  unfold State.step at hs
  split at hs
  · cases hs
  all_goals cases hs
  · exact h.allocScan ‹_›
  · exact h.allocGet hinv ‹_› hpanic
  · exact h.load hinv ‹_› hpanic
  · rename_i k hp
    refine h.store (d := { (s.entry k).copy with size := 0, addrs := fun _ => 0 }) hp rfl rfl
      (fun _ => ?_) _ s.frees
    rw [show (Pc.clear k).stage k = .clear from if_pos rfl]
    rfl
  · rename_i k hp
    exact h.store (d := { (s.entry k).copy with type := 0 }) hp rfl rfl (fun ht => absurd rfl ht)
      s.truncs _
  · rename_i k hp
    refine h.byFreed (e := { s.entry k with valid := false, lock := none }) hp rfl ?_ rfl
      (Frame.refl.setEntry.setPc (entry_of_pc hp rfl) (ne_entry rfl) nofun)
    rw [stage_of_pc hp, show (Pc.release k).stage k = .release from if_pos rfl]
    rfl
  · rename_i k hp
    refine h.byFreed (e := { s.entry k with ref := (s.entry k).ref - 1 }) hp rfl ?_ rfl
      (Frame.refl.setEntry.setPc (entry_of_pc hp rfl) nofun nofun)
    rw [stage_of_pc hp, show (Pc.drop k).stage k = .drop from if_pos rfl]
    rfl

lemma next (hinv : s.Inv) {a : Act P} (ha : s.Orderly a)
    (hn : s.next ninodes a = some s') (hpanic : s'.panicked = none) : s'.Lossless := by
  unfold State.next at hn
  split at hn
  · cases hn
  cases a with
  | step p => exact h.step hinv hn hpanic
  | iget p dev inum =>
    dsimp only at hn
    split at hn <;> cases hn
    exact h.iget hinv hpanic
  | ialloc p dev type =>
    dsimp only at hn
    split at hn <;> cases hn
    rename_i hp
    exact h.walk (by rw [hp]; rfl) (fun d j e => by cases hp.symm.trans e) rfl
  | idup p k =>
    dsimp only at hn
    split at hn <;> cases hn
    refine h.byHolder (p := p) Frame.refl.setEntry.setHeld
      (by simp [State.idup, State.take, Entry.id]) (fun _ _ hq => hq) ?_
    show 0 < (((s.setEntry k _).setHeld p k (s.held p k + 1)).heldAt k) p
    rw [heldAt_setHeld, update_self]
    omega
  | pass p q k =>
    dsimp only at hn
    split at hn <;> cases hn
    rename_i hr
    refine h.byHolder (p := q) Frame.refl.setHeld.setHeld rfl (fun _ _ hq => hq) ?_
    show 0 < ((s.setHeld q k (s.held q k + 1)).setHeld p k _).heldAt k q
    rw [heldAt_setHeld]
    have hself : (s.setHeld q k (s.held q k + 1)).heldAt k q = s.held q k + 1 := by
      rw [heldAt_setHeld, update_self]
    by_cases hqp : q = p
    · rw [← hqp, update_self]
      change 0 < (s.setHeld q k (s.held q k + 1)).heldAt k q - 1
      have hp := hr.2.1
      rw [← hqp] at hp
      omega
    rw [update_of_ne hqp]
    omega
  | ilock p k =>
    dsimp only at hn
    split at hn <;> cases hn
    rename_i hg
    have hpos := hinv.ref_pos hg.1.2.1
    rw [State.ilock, if_neg (by omega)]
    refine h.byHolder (p := p) (Frame.refl.setEntry.setPc (entry_of_idle hg.1.1) (ne_entry rfl)
      (by simp)) (by simp [Entry.id]) (pc_of_update fun d j e => ?_) hg.1.2.1
    cases hg.1.1.symm.trans e
  | change p k f =>
    dsimp only at hn
    split at hn <;> cases hn
    rename_i ho
    exact h.byHolder (p := p) Frame.refl.setEntry (by simp [Entry.id]) (fun _ _ hq => hq)
      (hinv.held_of_owns ho)
  | iupdate p k =>
    dsimp only at hn
    split at hn <;> cases hn
    rename_i ho
    exact h.byHolder (p := p) (Frame.refl.setDisk rfl).setEntry (by simp [State.iupdate, Entry.id])
      (fun _ _ hq => hq) (hinv.held_of_owns ho)
  | iunlock p k =>
    dsimp only at hn
    split at hn <;> cases hn
    rename_i ho
    have hpos := hinv.ref_pos (hinv.held_of_owns ho.1)
    rw [State.iunlock, if_neg (by omega)]
    exact h.byHolder (p := p) Frame.refl.setEntry (by simp [Entry.id]) (fun _ _ hq => hq)
      (hinv.held_of_owns ho.1)
  | iput p k =>
    dsimp only at hn
    split at hn <;> cases hn
    exact h.iput hinv ‹_› ha hpanic
end
end Lossless
variable [DecidableEq P] [Fintype P] {disk : Nat × Nat → Dinode}

omit [DecidableEq P] in
lemma inv_start
    (hdisk : ∀ i, (disk i).type = 0 → (disk i).nlink = 0) : (start disk : State P).Inv := by
  refine ⟨fun k => ⟨?_, nofun, nofun, nofun, nofun, nofun, ?_, nofun⟩, ?_, hdisk, nofun, .inl rfl⟩
  · simp [view, start, View.refs, heldAt, stages, Pc.stage, Stage.puts]
  · intro p hp
    exact absurd hp (lt_irrefl 0)
  intro k l hk
  exact absurd hk (lt_irrefl 0)

omit [DecidableEq P] [Fintype P] in
lemma ledger_start : Ledger disk (start disk : State P) := by
  refine ⟨fun i => rfl, fun i hi => ?_, fun i _ => rfl⟩
  obtain ⟨p, k, hp, -⟩ := hi
  cases hp

structure InOrder (disk : Nat × Nat → Dinode) (s : State P) : Prop where
  unique : ∀ k l, 0 < (s.entry k).ref → 0 < (s.entry l).ref → (s.entry k).dev = (s.entry l).dev →
    (s.entry k).inum = (s.entry l).inum → k = l
  count : ∀ k, (s.entry k).ref = ∑ p, (s.held p k + if (s.stages k p).puts then 1 else 0)
  synced : ∀ k, (s.entry k).lock = none → (s.entry k).valid → 0 < (s.entry k).ref →
    (s.entry k).copy = s.disk ((s.entry k).dev, (s.entry k).inum)
  freeing : ∀ p k, s.pc p = .trunc k ∨ s.pc p = .clear k →
    (s.entry k).ref = 1 ∧ (∀ q, s.held q k = 0) ∧ (s.entry k).copy.nlink = 0 ∧
      (s.disk (s.entry k).id).nlink = 0 ∧ (s.disk (s.entry k).id).type ≠ 0
  freed : ∀ i, s.frees i + allocated (s.disk i) = s.allocs i + allocated (disk i)
  truncated : ∀ i, s.truncs i = s.frees i ∨
    s.truncs i = s.frees i + 1 ∧ ∃ p k, s.pc p = .clear k ∧ (s.entry k).id = i
  awake : ∀ p k, s.refers p k → s.mustFree k → (s.entry k).lock = none
  quiet : s.panicked ≠ some .schedLocks

lemma Inv.inOrder (h : s.Inv) (hl : Ledger disk s) : s.InOrder disk := by
  refine ⟨fun k l hk hl hd hi => h.unique k l hk hl (Prod.ext hd hi), fun k => (h.ok k).count,
    fun k hlock hv hpos => ?_, fun p k hp => ?_, hl.frees, fun i => ?_, fun p k hr hf => ?_, ?_⟩
  · exact ((h.ok k).fresh hv hpos ((h.ok k).not_release hlock)).2.2
      ((h.ok k).dirty_of_lock_none hlock)
  · have hearly : (s.stages k p).early :=
      hp.elim Ledger.early_of_trunc Ledger.early_of_clear
    obtain ⟨href, hnlink⟩ := (h.ok k).early p hearly
    obtain ⟨htype, hdisk⟩ := (h.ok k).disk_of_early hearly
    exact ⟨href, (h.ok k).held_of_early hearly, hnlink, hdisk, htype⟩
  · by_cases hc : s.Clearing i
    · exact .inr ⟨hl.clearing i hc, hc⟩
    exact .inl (hl.truncs i hc)
  · exact (h.ok k).lock_none_of_last hf.1 hr.2.1 hr.2.2
  intro e
  rcases h.quiet with hq | hq <;> rw [e] at hq <;> cases hq

omit [Fintype P] in
lemma next_not_panicked {ninodes : Nat} {a : Act P} (hn : s.next ninodes a = some s') :
    s.panicked = none := by
  unfold State.next at hn
  split at hn
  · cases hn
  exact Option.not_isSome_iff_eq_none.mp ‹_›

theorem inOrder_of_run {disk : Nat × Nat → Dinode} {ninodes : Nat} {as : List (Act P)}
    (hdisk : ∀ i, (disk i).type = 0 → (disk i).nlink = 0)
    (hkeeps : Lib.Along (next ninodes) Keeps (start disk) as)
    (hr : Lib.run (next ninodes) (start disk) as = some s) :
    s.InOrder disk ∧ ((∀ i, (disk i).type ≠ 0 → (disk i).nlink ≠ 0) →
      Lib.Along (next ninodes) Orderly (start disk) as → s.panicked = none → s.Lossless) := by
  have hinv : s.Inv ∧ Ledger disk s :=
    Lib.run_induction (I := fun u => u.Inv ∧ Ledger disk u)
      (fun u a u' hu ha hn => ⟨hu.1.next ha hn, hu.2.next hu.1 hn⟩) ⟨inv_start hdisk,
        ledger_start⟩ hkeeps hr
  refine ⟨hinv.1.inOrder hinv.2, fun horphan horderly => ?_⟩
  have hloss : s.Inv ∧ (s.panicked = none → s.Lossless) := by
    refine Lib.run_induction (I := fun u => u.Inv ∧ (u.panicked = none → u.Lossless))
      (fun u a u' hu ha hn => ⟨hu.1.next ha.1 hn, fun hpanic => ?_⟩)
      ⟨inv_start hdisk, fun _ i ht hn => absurd hn (horphan i ht)⟩ (hkeeps.and horderly) hr
    exact (hu.2 (next_not_panicked hn)).next hu.1 ha.2 hn hpanic
  exact hloss.2

def twoInodes : Nat × Nat → Dinode
  | (1, 1) => { Dinode.zero with type := 1, nlink := 1 }
  | (1, 2) => { Dinode.zero with type := 2, nlink := 1 }
  | _ => .zero

def unlink : List (Act (Fin 2)) :=
  [.iget 0 1 2, .ilock 0 0, .step 0, .change 0 0 fun x => { x with nlink := 0 }, .iupdate 0 0,
    .iunlock 0 0, .iput 0 0]

def realloc : List (Act (Fin 2)) := [.ialloc 1 1 .file, .step 1, .step 1, .step 1]
def giveUp : List (Act (Fin 2)) := [.ilock 1 0, .step 1, .iunlock 1 0, .iput 1 0]

def freedTwice : List (Act (Fin 2)) :=
  unlink ++ List.replicate 4 (.step 0) ++ realloc ++ giveUp ++ List.replicate 4 (.step 1)

theorem inOrder_of_run_freedTwice :
    ∃ s, Lib.run (next 3) (start twoInodes) freedTwice = some s ∧ s.frees (1, 2) = 2 ∧
      s.InOrder twoInodes ∧ s.Lossless := by
  have hdisk : ∀ i, ((twoInodes i).type = 0 → (twoInodes i).nlink = 0) ∧
      ((twoInodes i).type ≠ 0 → (twoInodes i).nlink ≠ 0) := by
    intro i
    unfold twoInodes
    split <;> simp [Dinode.zero]
  have hkeeps : Lib.Along (next 3) Keeps (start twoInodes) freedTwice := by decide +kernel
  have horderly : Lib.Along (next 3) Orderly (start twoInodes) freedTwice := by decide +kernel
  obtain ⟨s, hs, hfrees, hpanic⟩ : ∃ s, Lib.run (next 3) (start twoInodes) freedTwice = some s ∧
      s.frees (1, 2) = 2 ∧ s.panicked = none :=
    Lib.exists_of_any (by decide +kernel)
  have h := inOrder_of_run (fun i => (hdisk i).1) hkeeps hs
  exact ⟨s, hs, hfrees, h.1, h.2 (fun i => (hdisk i).2) horderly hpanic⟩

def freedOnce : List (Act (Fin 2)) :=
  unlink ++ List.replicate 2 (.step 0) ++ realloc ++ [.step 0] ++ giveUp ++ [.step 0]

theorem inode_lost :
    ∃ s, Lib.run (next 3) (start twoInodes) freedOnce = some s ∧ s.panicked = none ∧
      (s.disk (1, 2)).type ≠ 0 ∧ (s.disk (1, 2)).nlink = 0 ∧ (∀ k, (s.entry k).ref = 0) ∧
      (∀ p k, s.held p k = 0) ∧ ∀ p, s.pc p = .idle := by
  exact Lib.exists_of_any (by decide +kernel)
end State
end Xv6.Itable
