import Xv6.Itable.Step

namespace Xv6.Itable
open Fs Function

def allocated (x : Dinode) : Nat := if x.type = 0 then 0 else 1

namespace State
variable {P : Type}

def Clearing (s : State P) (i : Nat × Nat) : Prop :=
  ∃ p k, s.pc p = .clear k ∧ (s.entry k).id = i

structure Ledger (disk : Nat × Nat → Dinode) (s : State P) : Prop where
  frees : ∀ i, s.frees i + allocated (s.disk i) = s.allocs i + allocated (disk i)
  clearing : ∀ i, s.Clearing i → s.truncs i = s.frees i + 1
  truncs : ∀ i, ¬s.Clearing i → s.truncs i = s.frees i

def Kept (s : State P) (i : Nat × Nat) : Prop :=
  (∃ p k, (s.entry k).id = i ∧ (0 < s.heldAt k p ∨ (s.stages k p).early)) ∨
    ∃ q, s.pc q = .allocGet i.1 i.2

/-- No inode without links is lost. -/
def Lossless (s : State P) : Prop :=
  ∀ i, (s.disk i).type ≠ 0 → (s.disk i).nlink = 0 → s.Kept i

def Orderly (s : State P) : Act P → Prop
  | .iput _ k => (s.disk (s.entry k).id).nlink = 0 →
      (s.entry k).valid ∧ ∀ q, (s.stages k q).puts = false
  | _ => True

instance [Fintype P] (s : State P) : ∀ a, Decidable (s.Orderly a)
  | .iput _ k => inferInstanceAs (Decidable ((s.disk (s.entry k).id).nlink = 0 →
      (s.entry k).valid ∧ ∀ q, (s.stages k q).puts = false))
  | .iget _ _ _ | .ialloc _ _ _ | .idup _ _ | .pass _ _ _ | .ilock _ _ | .change _ _ _
  | .iupdate _ _ | .iunlock _ _ | .step _ => inferInstanceAs (Decidable True)

variable {disk : Nat × Nat → Dinode} {s s' : State P} {p q : P} {k l : Fin ninode} {c : Pc}
  {i : Nat × Nat} {d : Dinode}

lemma allocated_congr {x y : Dinode} (h : x.type = 0 ↔ y.type = 0) :
    allocated x = allocated y := by
  unfold allocated
  simp only [h]

namespace Ledger
lemma keep (h : Ledger disk s) (hdisk : ∀ i, (s'.disk i).type = 0 ↔ (s.disk i).type = 0)
    (hallocs : s'.allocs = s.allocs) (hfrees : s'.frees = s.frees) (htruncs : s'.truncs = s.truncs)
    (hclear : ∀ i, s'.Clearing i ↔ s.Clearing i) : Ledger disk s' := by
  refine ⟨fun i => ?_, fun i hi => ?_, fun i hi => ?_⟩
  · rw [allocated_congr (hdisk i), hallocs, hfrees]
    exact h.frees i
  · rw [htruncs, hfrees]
    exact h.clearing i ((hclear i).mp hi)
  rw [htruncs, hfrees]
  exact h.truncs i fun hc => hi ((hclear i).mpr hc)
end Ledger

lemma clearing_iff [DecidableEq P] (hpc : s'.pc = update s.pc p c)
    (hold : ∀ k, s.pc p ≠ .clear k) (hnew : ∀ k, c ≠ .clear k)
    (hid : ∀ q k, s.pc q = .clear k → (s'.entry k).id = (s.entry k).id) (i : Nat × Nat) :
    s'.Clearing i ↔ s.Clearing i := by
  constructor
  · rintro ⟨q, k, hq, hi⟩
    rw [hpc] at hq
    by_cases hqp : q = p
    · rw [hqp, update_self] at hq
      exact absurd hq (hnew k)
    rw [update_of_ne hqp] at hq
    exact ⟨q, k, hq, (hid q k hq).symm.trans hi⟩
  rintro ⟨q, k, hq, hi⟩
  have hqp : q ≠ p := by
    rintro rfl
    exact hold k hq
  refine ⟨q, k, ?_, (hid q k hq).trans hi⟩
  rw [hpc, update_of_ne hqp, hq]

lemma clearing_congr (hpc : s'.pc = s.pc)
    (hid : ∀ q k, s.pc q = .clear k → (s'.entry k).id = (s.entry k).id) (i : Nat × Nat) :
    s'.Clearing i ↔ s.Clearing i := by
  constructor
  · rintro ⟨q, k, hq, hi⟩
    rw [hpc] at hq
    exact ⟨q, k, hq, (hid q k hq).symm.trans hi⟩
  rintro ⟨q, k, hq, hi⟩
  refine ⟨q, k, ?_, (hid q k hq).trans hi⟩
  rw [hpc, hq]

lemma id_setEntry {e : Entry P} (he : e.id = (s.entry k).id) (l : Fin ninode) :
    ((s.setEntry k e).entry l).id = (s.entry l).id := by
  by_cases hl : l = k
  · rw [hl, setEntry_entry, update_self, he]
  rw [setEntry_entry, update_of_ne hl]

namespace Ledger
lemma setEntry (h : Ledger disk s) {e : Entry P} (he : e.id = (s.entry k).id) :
    Ledger disk (s.setEntry k e) :=
  h.keep (fun _ => .rfl) rfl rfl rfl (clearing_congr rfl fun _ l _ => id_setEntry he l)
end Ledger

lemma Inv.ref_of_clear [Fintype P] (h : s.Inv) (hp : s.pc p = .clear k) :
    (s.entry k).ref = 1 := by
  refine ((h.ok k).early p ?_).1
  show (s.stages k p).early
  rw [stage_of_pc hp, show (Pc.clear k).stage k = .clear from if_pos rfl]
  rfl

variable [DecidableEq P]

lemma id_iget {dev inum : Nat} (hl : 0 < (s.entry l).ref) :
    ((s.iget p dev inum).entry l).id = (s.entry l).id := by
  unfold State.iget
  split
  · exact id_setEntry (s := s) (e := { s.entry _ with ref := (s.entry _).ref + 1 }) rfl l
  split
  · rfl
  rename_i k hk
  have hfound := List.find?_some hk
  have h0 : (s.entry k).ref = 0 := of_decide_eq_true hfound
  have hne : l ≠ k := by
    rintro rfl
    omega
  exact congrArg Entry.id (update_of_ne hne _ _)

lemma iget_frame {dev inum : Nat} : (s.iget p dev inum).disk = s.disk ∧
    (s.iget p dev inum).pc = s.pc ∧ (s.iget p dev inum).allocs = s.allocs ∧
    (s.iget p dev inum).truncs = s.truncs ∧ (s.iget p dev inum).frees = s.frees := by
  unfold State.iget
  split
  · exact ⟨rfl, rfl, rfl, rfl, rfl⟩
  split <;> exact ⟨rfl, rfl, rfl, rfl, rfl⟩

namespace Ledger
lemma setPc (h : Ledger disk s) (hold : ∀ k, s.pc p ≠ .clear k) (hnew : ∀ k, c ≠ .clear k) :
    Ledger disk (s.setPc p c) :=
  h.keep (fun _ => .rfl) rfl rfl rfl (clearing_iff rfl hold hnew fun _ _ _ => rfl)

lemma setHeld (h : Ledger disk s) {n : Nat} : Ledger disk (s.setHeld p k n) :=
  h.keep (fun _ => .rfl) rfl rfl rfl fun _ => .rfl
end Ledger

variable [Fintype P]

namespace Ledger
section
variable (h : Ledger disk s)
include h

lemma iget (hinv : s.Inv) {dev inum : Nat} : Ledger disk (s.iget p dev inum) := by
  obtain ⟨hdisk, hpc, ha, ht, hf⟩ : (s.iget p dev inum).disk = s.disk ∧ _ ∧ _ := iget_frame
  refine h.keep (fun i => by rw [hdisk]) ha hf ht (clearing_congr hpc fun q k hq => ?_)
  apply id_iget
  rw [hinv.ref_of_clear hq]
  omega

omit [DecidableEq P] [Fintype P] in
lemma setDisk (hold : (s.disk i).type ≠ 0) (hnew : d.type ≠ 0) : Ledger disk (s.setDisk i d) := by
  refine h.keep (fun j => ?_) rfl rfl rfl (clearing_congr rfl fun _ _ _ => rfl)
  rw [setDisk_disk]
  by_cases hj : j = i
  · rw [hj, update_self]
    exact iff_of_false hnew hold
  rw [update_of_ne hj]

omit [DecidableEq P] in
lemma iupdate (hinv : s.Inv) (ho : s.owns p k) : Ledger disk (s.iupdate k) := by
  have hold : (s.disk (s.entry k).id).type ≠ 0 := (hinv.ok k).typed p (hinv.held_of_owns ho)
  have hnew : (s.entry k).copy.type ≠ 0 := (hinv.ok k).copy_type ho.2 (stage_of_idle ho.1 k)
  exact (h.setDisk hold hnew).setEntry rfl

omit [Fintype P] in
lemma iput (hr : s.refers p k) : Ledger disk (s.iput p k) := by
  unfold State.iput
  split
  · split
    · refine (((h.setEntry ?_).setHeld).setPc (fun l hl => ?_) nofun)
      · rfl
      exact nomatch hr.1.symm.trans hl
    exact h.keep (fun _ => .rfl) rfl rfl rfl fun _ => .rfl
  refine (h.setEntry ?_).setHeld
  rfl

omit [Fintype P] in
lemma allocScan {ninodes dev inum : Nat} {type : FileType} (hp : ∀ k, s.pc p ≠ .clear k) :
    Ledger disk (s.allocScan ninodes p dev type inum) := by
  unfold State.allocScan
  split
  · split
    · rename_i h0
      have hclear : ∀ i, Clearing { (s.setDisk (dev, inum)
          { Dinode.zero with type := type.code }).setPc p (.allocGet dev inum) with
          allocs := update s.allocs (dev, inum) (s.allocs (dev, inum) + 1) } i ↔
          s.Clearing i := clearing_iff rfl hp nofun fun _ _ _ => rfl
      refine ⟨fun i => ?_, fun i hi => h.clearing i ((hclear i).mp hi),
        fun i hi => h.truncs i fun hc => hi ((hclear i).mpr hc)⟩
      have hold := h.frees i
      show s.frees i + allocated (update s.disk (dev, inum) _ i) =
        update s.allocs (dev, inum) _ i + _
      by_cases hi : i = (dev, inum)
      · rw [hi] at hold ⊢
        rw [update_self, update_self]
        have hnew : allocated { Dinode.zero with type := type.code } = 1 := by cases type <;> rfl
        have h0 : allocated (s.disk (dev, inum)) = 0 := if_pos h0
        omega
      rw [update_of_ne hi, update_of_ne hi]
      exact hold
    exact h.setPc hp nofun
  exact h.setPc hp nofun
end

omit [DecidableEq P] in
lemma not_clearing (hinv : s.Inv) (hp : (s.stages k p).early)
    (hq : s.pc q = .clear l) (hid : (s.entry l).id = (s.entry k).id) : q = p := by
  have hpos : 0 < (s.entry k).ref := (hinv.ok k).pos_of_puts (Stage.puts_of_early hp)
  have hlk : l = k := hinv.unique l k (by rw [hinv.ref_of_clear hq]; omega) hpos hid
  rw [hlk] at hq
  have hstage : (s.stages k q).locks := by
    rw [stage_of_pc hq, show (Pc.clear k).stage k = .clear from if_pos rfl]
    rfl
  exact (hinv.ok k).stage_of_lock ((hinv.ok k).owner p (Stage.locks_of_early hp)) hstage

omit [DecidableEq P] [Fintype P] in
lemma early_of_trunc (hp : s.pc p = .trunc k) : (s.stages k p).early := by
  rw [stage_of_pc hp, show (Pc.trunc k).stage k = .trunc from if_pos rfl]
  rfl

omit [DecidableEq P] [Fintype P] in
lemma early_of_clear (hp : s.pc p = .clear k) : (s.stages k p).early := by
  rw [stage_of_pc hp, show (Pc.clear k).stage k = .clear from if_pos rfl]
  rfl

omit [DecidableEq P] [Fintype P] in
lemma clearing_of_ne (hpc : ∀ q ≠ p, s'.pc q = s.pc q)
    (hentry : ∀ l, (s'.entry l).id = (s.entry l).id)
    (hp : (s.pc p).entry = some k) (hp' : (s'.pc p).entry = some k)
    (hi : i ≠ (s.entry k).id) : s'.Clearing i ↔ s.Clearing i := by
  have hne : ∀ q l, (s.entry l).id = i → s.pc q = .clear l ∨ s'.pc q = .clear l → q ≠ p := by
    rintro q l hl hq rfl
    have hlk : l = k := by
      rcases hq with hq | hq
      · rw [hq] at hp
        exact Option.some.inj hp
      rw [hq] at hp'
      exact Option.some.inj hp'
    exact hi (hlk ▸ hl.symm)
  constructor
  · rintro ⟨q, l, hq, hl⟩
    rw [hentry] at hl
    rw [hpc q (hne q l hl (.inr hq))] at hq
    exact ⟨q, l, hq, hl⟩
  rintro ⟨q, l, hq, hl⟩
  refine ⟨q, l, ?_, (hentry l).trans hl⟩
  rw [hpc q (hne q l hl (.inl hq)), hq]

section
variable (h : Ledger disk s) (hinv : s.Inv) {ninodes : Nat}
include h hinv

lemma trunc (hp : s.pc p = .trunc k) (hd : d.type ≠ 0)
    (hs : s' = { (s.store k d).setPc p (.clear k) with
      truncs := update s.truncs (s.entry k).id (s.truncs (s.entry k).id + 1) }) :
    Ledger disk s' := by
  have hearly := early_of_trunc hp
  have hpc : s'.pc = update s.pc p (.clear k) := by rw [hs]; rfl
  have hself : s'.pc p = .clear k := by rw [hpc, update_self]
  have hentry : ∀ l, (s'.entry l).id = (s.entry l).id := by
    rw [hs]
    exact id_setEntry rfl
  have hother : ∀ i ≠ (s.entry k).id, (s'.Clearing i ↔ s.Clearing i) := fun i hi =>
    clearing_of_ne (fun q hq => by rw [hpc, update_of_ne hq]) hentry (by rw [hp]; rfl)
      (by rw [hself]; rfl) hi
  have hnot : ¬s.Clearing (s.entry k).id := by
    rintro ⟨q, l, hq, hl⟩
    rw [not_clearing hinv hearly hq hl] at hq
    exact nomatch hp.symm.trans hq
  have htruncs : s'.truncs =
      update s.truncs (s.entry k).id (s.truncs (s.entry k).id + 1) := by rw [hs]
  have hfrees : s'.frees = s.frees := by rw [hs]; rfl
  refine ⟨fun i => ?_, fun i hi => ?_, fun i hi => ?_⟩
  · have hdisk := ((hinv.ok k).disk_of_early hearly).1
    rw [hs]
    exact (h.setDisk hdisk hd).frees i
  · rw [htruncs, hfrees]
    by_cases hik : i = (s.entry k).id
    · rw [hik, update_self, h.truncs _ hnot]
    rw [update_of_ne hik]
    exact h.clearing i ((hother i hik).mp hi)
  have hik : i ≠ (s.entry k).id := by
    rintro rfl
    exact hi ⟨p, k, hself, hentry k⟩
  rw [htruncs, hfrees, update_of_ne hik]
  exact h.truncs i fun hc => hi ((hother i hik).mpr hc)

lemma clear (hp : s.pc p = .clear k) (hd : d.type = 0)
    (hs : s' = { (s.store k d).setPc p (.release k) with
      frees := update s.frees (s.entry k).id (s.frees (s.entry k).id + 1) }) : Ledger disk s' := by
  have hearly := early_of_clear hp
  have hpc : s'.pc = update s.pc p (.release k) := by rw [hs]; rfl
  have hself : s'.pc p = .release k := by rw [hpc, update_self]
  have hentry : ∀ l, (s'.entry l).id = (s.entry l).id := by
    rw [hs]
    exact id_setEntry rfl
  have hother : ∀ i ≠ (s.entry k).id, (s'.Clearing i ↔ s.Clearing i) := fun i hi =>
    clearing_of_ne (fun q hq => by rw [hpc, update_of_ne hq]) hentry (by rw [hp]; rfl)
      (by rw [hself]; rfl) hi
  have hnot : ¬s'.Clearing (s.entry k).id := by
    rintro ⟨q, l, hq, hl⟩
    have hqp : q ≠ p := by
      rintro rfl
      exact nomatch hself.symm.trans hq
    rw [hpc, update_of_ne hqp] at hq
    exact hqp (not_clearing hinv hearly hq ((hentry l).symm.trans hl))
  have hfrees : s'.frees =
      update s.frees (s.entry k).id (s.frees (s.entry k).id + 1) := by rw [hs]
  have htruncs : s'.truncs = s.truncs := by rw [hs]; rfl
  refine ⟨fun i => ?_, fun i hi => ?_, fun i hi => ?_⟩
  · have hold := h.frees i
    have hdisk : s'.disk = update s.disk (s.entry k).id d := by rw [hs]; rfl
    have hallocs : s'.allocs = s.allocs := by rw [hs]; rfl
    rw [hfrees, hdisk, hallocs]
    by_cases hik : i = (s.entry k).id
    · have hone : allocated (s.disk (s.entry k).id) = 1 :=
        if_neg ((hinv.ok k).disk_of_early hearly).1
      have hzero : allocated d = 0 := if_pos hd
      rw [hik] at hold ⊢
      rw [update_self, update_self]
      omega
    rwa [update_of_ne hik, update_of_ne hik]
  · have hik : i ≠ (s.entry k).id := fun e => hnot (e ▸ hi)
    rw [hfrees, htruncs, update_of_ne hik]
    exact h.clearing i ((hother i hik).mp hi)
  rw [hfrees, htruncs]
  by_cases hik : i = (s.entry k).id
  · rw [hik, update_self]
    exact h.clearing _ ⟨p, k, hp, rfl⟩
  rw [update_of_ne hik]
  exact h.truncs i fun hc => hi ((hother i hik).mpr hc)

lemma step (hs : s.step ninodes p = some s') : Ledger disk s' := by
  unfold State.step at hs
  split at hs
  · cases hs
  all_goals cases hs
  · rename_i hp
    exact h.allocScan fun k hk => nomatch hp.symm.trans hk
  · rename_i hp
    refine (h.iget hinv).setPc (fun k hk => ?_) nofun
    rw [iget_frame.2.1] at hk
    exact nomatch hp.symm.trans hk
  · rename_i k hp
    unfold State.load
    split
    · exact h.setPc (fun k hk => nomatch hp.symm.trans hk) nofun
    split
    · exact h.keep (fun _ => .rfl) rfl rfl rfl fun _ => .rfl
    refine (h.setEntry ?_).setPc (fun k hk => nomatch hp.symm.trans hk) nofun
    rfl
  · rename_i k hp
    have hcopy : (s.entry k).copy.type ≠ 0 := ((hinv.ok k).fresh_of_early (early_of_trunc hp)).1
    exact h.trunc (d := { (s.entry k).copy with size := 0, addrs := fun _ => 0 }) hinv hp hcopy rfl
  · exact h.clear hinv ‹_› rfl rfl
  · rename_i k hp
    refine (h.setEntry ?_).setPc (fun k hk => nomatch hp.symm.trans hk) nofun
    rfl
  · rename_i k hp
    refine (h.setEntry ?_).setPc (fun k hk => nomatch hp.symm.trans hk) nofun
    rfl

lemma next {a : Act P} (hn : s.next ninodes a = some s') : Ledger disk s' := by
  unfold State.next at hn
  split at hn
  · cases hn
  cases a with
  | step p => exact h.step hinv hn
  | iget p dev inum =>
    dsimp only at hn
    split at hn <;> cases hn
    exact h.iget hinv
  | ialloc p dev type =>
    dsimp only at hn
    split at hn <;> cases hn
    refine h.setPc (fun k hk => ?_) nofun
    exact nomatch (‹s.pc p = _› : s.pc p = .idle).symm.trans hk
  | idup p k =>
    dsimp only at hn
    split at hn <;> cases hn
    refine (h.setEntry ?_).setHeld
    rfl
  | pass p q k =>
    dsimp only at hn
    split at hn <;> cases hn
    exact h.setHeld.setHeld
  | ilock p k =>
    dsimp only at hn
    split at hn <;> cases hn
    rename_i hg
    unfold State.ilock
    split
    · exact h.keep (fun _ => .rfl) rfl rfl rfl fun _ => .rfl
    refine (h.setEntry ?_).setPc (fun l hl => ?_) nofun
    · rfl
    exact nomatch hg.1.1.symm.trans hl
  | change p k f =>
    dsimp only at hn
    split at hn <;> cases hn
    refine h.setEntry ?_
    rfl
  | iupdate p k =>
    dsimp only at hn
    split at hn <;> cases hn
    exact h.iupdate hinv ‹_›
  | iunlock p k =>
    dsimp only at hn
    split at hn <;> cases hn
    unfold State.iunlock
    split
    · exact h.keep (fun _ => .rfl) rfl rfl rfl fun _ => .rfl
    refine h.setEntry ?_
    rfl
  | iput p k =>
    dsimp only at hn
    split at hn <;> cases hn
    exact h.iput ‹_›
end
end Ledger
end State
end Xv6.Itable
