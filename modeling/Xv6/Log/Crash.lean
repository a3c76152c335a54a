import Xv6.Lib.Machine
import Xv6.Log.Phases

namespace Xv6.Log
open List
open Lib (applyWrites)

structure Tx (start : Nat) where
  writes : List (Nat × Block)
  nonempty : 0 < writes.length
  length_le : writes.length ≤ logBlocks
  nodup : (writes.map Prod.fst).Nodup
  home : ∀ w ∈ writes, IsHome start w.1

namespace Tx
variable {start : Nat}

def stage (tx : Tx start) (s : Store) : Store :=
  tx.writes.foldl (fun s w => s.logWrite w.1 w.2) s

def applyAll (d : Disk) (txs : List (Tx start)) : Disk :=
  applyWrites d (txs.flatMap writes)

lemma applyAll_take_succ {d : Disk} {txs rest : List (Tx start)} {tx : Tx start} {k : Nat}
    (h : txs.drop k = tx :: rest) :
    applyAll d (txs.take (k + 1)) = applyWrites (applyAll d (txs.take k)) tx.writes := by
  have hk : txs[k]? = some tx := by
    have := congrArg head? h
    simpa [head?_drop] using this
  rw [applyAll, applyAll, take_add_one, hk, Option.toList_some, flatMap_append,
    Lib.applyWrites_append]
  simp [flatMap]
end Tx

inductive Mode where
  | running (pc : Option CommitPc)
  | recovering (pc : RecoverPc)
  | recovered
  deriving DecidableEq

/-- One committer, with power failures. -/
structure Machine (start : Nat) where
  store : Store
  mode : Mode
  todo : List (Tx start)
  /-- Ghost: how many headers reached the disk. -/
  committed : Nat

inductive Event where
  | begin
  | write
  | crash
  deriving DecidableEq

namespace Machine
variable {start : Nat}

def boot (d : Disk) (txs : List (Tx start)) : Machine start :=
  { store := { disk := d, lh := [], cache := fun _ => none }
    mode := .running none
    todo := txs
    committed := 0 }

def next (m : Machine start) : Event → Option (Machine start)
  | .begin =>
    match m.mode, m.todo with
    | .running none, tx :: rest =>
      let s := tx.stage m.store
      some { m with store := s, mode := .running (commitEntry s), todo := rest }
    | _, _ => none
  | .write =>
    match m.mode with
    | .running (some pc) =>
      let r := commitStep start m.store pc
      some { m with
        store := r.1
        mode := .running r.2
        committed := if pc = .writeHead then m.committed + 1 else m.committed }
    | .recovering pc =>
      let r := recoverStep start m.store pc
      some { m with
        store := r.1
        mode := match r.2 with
          | some pc' => .recovering pc'
          | none => .recovered }
    | _ => none
  | .crash =>
    let r := recoverEntry start m.store.crash
    some { m with store := r.1, mode := .recovering r.2 }

def ModeInv (d : Disk) (txs : List (Tx start)) (m : Machine start) : Prop :=
  match m.mode with
  | .running none =>
    Staged m.store [] ∧ getHeader (m.store.disk start) = [] ∧
      Represents start m.store.disk (Tx.applyAll d (txs.take m.committed)) ∧
      txs.drop m.committed = m.todo
  | .running (some pc) =>
    ∃ k tx, txs.drop k = tx :: m.todo ∧ m.committed = (if pc.committed then k + 1 else k) ∧
      CommitInv start (Tx.applyAll d (txs.take k)) tx.writes m.store pc
  | .recovering pc => RecoverInv start (Tx.applyAll d (txs.take m.committed)) m.store pc
  | .recovered =>
    (m.store.disk start).field 0 4 = 0 ∧
      Represents start m.store.disk (Tx.applyAll d (txs.take m.committed))

/-- The invariant of every run. -/
structure Inv (d : Disk) (txs : List (Tx start)) (m : Machine start) : Prop where
  committed_le : m.committed ≤ txs.length
  mode : ModeInv d txs m

variable {d : Disk} {txs : List (Tx start)} {m m' : Machine start}

lemma inv_boot (hd : headerCount (d start) = 0) : Inv d txs (boot d txs) := by
  have hclean : getHeader (d start) = [] := getHeader_eq_nil.mpr hd
  exact ⟨Nat.zero_le _, staged_nil rfl (fun _ => rfl), hclean,
    represents_of_clean hclean (fun _ _ => rfl), rfl⟩

lemma Inv.represents (h : Inv d txs m) :
    Represents start m.store.disk (Tx.applyAll d (txs.take m.committed)) := by
  have hmode := h.mode
  unfold ModeInv at hmode
  split at hmode
  · exact hmode.2.2.1
  · obtain ⟨k, tx, hk, hc, hinv⟩ := hmode
    have hr := hinv.represents
    rw [CommitPc.outcome] at hr
    rw [hc]
    split at hr
    · rwa [if_pos ‹_›, Tx.applyAll_take_succ hk]
    rwa [if_neg ‹_›]
  · exact hmode.represents
  exact hmode.2

lemma staged_stage (tx : Tx start) {s : Store} {ws : List (Nat × Block)} (hs : Staged s ws) :
    Staged (tx.stage s) (ws ++ tx.writes) ∧ (tx.stage s).disk = s.disk := by
  rw [Tx.stage]
  generalize tx.writes = us
  induction us generalizing s ws with
  | nil => simpa using hs
  | cons u us ih =>
    obtain ⟨hst, hdisk⟩ := ih (hs.logWrite u.1 u.2)
    exact ⟨by simpa using hst, hdisk⟩

lemma stage_lh (tx : Tx start) {s : Store} (hs : Staged s []) :
    (∀ b ∈ (tx.stage s).lh, IsHome start b) ∧ 0 < (tx.stage s).lh.length ∧
      (tx.stage s).lh.length ≤ logBlocks := by
  have hst := (staged_stage tx hs).1
  rw [nil_append] at hst
  have hperm : (tx.stage s).lh.Perm (tx.writes.map Prod.fst) :=
    (perm_ext_iff_of_nodup hst.nodup tx.nodup).mpr hst.mem_iff
  have hlen : (tx.stage s).lh.length = tx.writes.length := by rw [hperm.length_eq, length_map]
  refine ⟨fun b hb => ?_, hlen ▸ tx.nonempty, hlen ▸ tx.length_le⟩
  obtain ⟨w, hw, rfl⟩ := mem_map.mp ((hst.mem_iff b).mp hb)
  exact tx.home w hw

lemma Inv.begin (h : Inv d txs m) (hn : m.next .begin = some m') : Inv d txs m' := by
  simp only [next] at hn
  split at hn
  · rename_i tx rest hmode htodo
    cases hn
    have hm := h.mode
    simp only [ModeInv, hmode] at hm
    obtain ⟨hs, hclean, hrep, hdrop⟩ := hm
    obtain ⟨hst, hdisk⟩ := staged_stage tx hs
    obtain ⟨hhome, hpos, hle⟩ := stage_lh tx hs
    have hpc : commitEntry (tx.stage m.store) = some (.writeLog 0) := if_pos hpos
    obtain ⟨hinv, hnc⟩ := commitInv_entry
      (by simpa using hst) hhome hle (by rwa [hdisk]) (by rwa [hdisk]) hpc
    refine ⟨h.committed_le, ?_⟩
    simp only [ModeInv, hpc]
    exact ⟨m.committed, tx, hdrop.trans htodo, by rw [if_neg (by simp [hnc])], hinv⟩
  cases hn

lemma length_of_drop_eq_cons {α : Type*} {l rest : List α} {a : α} {k : Nat}
    (h : l.drop k = a :: rest) : k < l.length := by
  have hl := congrArg length h
  simp only [length_drop, length_cons] at hl
  omega

section
variable (h : Inv d txs m)
include h

lemma Inv.commitWrite {pc : CommitPc} (hmode : m.mode = .running (some pc))
    (hn : m.next .write = some m') : Inv d txs m' := by
  have hm := h.mode
  simp only [ModeInv, hmode] at hm
  obtain ⟨k, tx, hdrop, hk, hinv⟩ := hm
  have hklt := length_of_drop_eq_cons hdrop
  simp only [next, hmode, Option.some.injEq] at hn
  subst hn
  rcases hr : commitStep start m.store pc with ⟨s', r⟩
  cases r with
  | some pc' =>
    have hcs := committed_step hr
    have hc' : (if pc = .writeHead then m.committed + 1 else m.committed) =
        if pc'.committed then k + 1 else k := by
      by_cases hw : pc = .writeHead
      · have hp : pc'.committed := hcs.mpr (Or.inl hw)
        rw [if_pos hw, if_pos hp, hk, hw]
        rfl
      rw [if_neg hw, hk]
      simp only [hcs, hw, false_or]
    have hle : (if pc'.committed then k + 1 else k) ≤ txs.length := by split <;> omega
    exact ⟨hc'.le.trans hle, k, tx, hdrop, hc', hinv.step hr⟩
  | none =>
    obtain ⟨hclean, hrep, hst⟩ := hinv.done hr
    have he : pc = .eraseHead := by cases pc <;> simp [commitStep] at hr ⊢
    subst he
    have hk1 : m.committed = k + 1 := by simpa [CommitPc.committed] using hk
    refine ⟨by simpa using h.committed_le, hst, hclean, ?_, ?_⟩
    · simpa [hk1, Tx.applyAll_take_succ hdrop] using hrep
    have htail := congrArg tail hdrop
    simpa [hk1] using htail

omit h in
lemma field_eraseHead (s : Store) : ((s.eraseHead start).disk start).field 0 4 = 0 := by
  simp only [Store.eraseHead, Store.writeHead, Store.bwrite,
    Function.update_self, putHeader, putEntries]
  exact Block.field_setField (by decide) (by decide)

lemma Inv.recoverWrite {pc : RecoverPc} (hmode : m.mode = .recovering pc)
    (hn : m.next .write = some m') : Inv d txs m' := by
  have hm := h.mode
  simp only [ModeInv, hmode] at hm
  simp only [next, hmode, Option.some.injEq] at hn
  subst hn
  rcases hr : recoverStep start m.store pc with ⟨s', r⟩
  cases r with
  | some pc' => exact ⟨h.committed_le, hm.step hr⟩
  | none =>
    obtain ⟨-, hrep, -⟩ := hm.done hr
    refine ⟨h.committed_le, ?_, hrep⟩
    cases pc with
    | installTrans tail => simp [recoverStep] at hr
    | eraseHead =>
      cases hr
      exact field_eraseHead m.store

lemma Inv.write (hn : m.next .write = some m') : Inv d txs m' := by
  cases hmode : m.mode with
  | running pc =>
    cases pc with
    | some pc => exact h.commitWrite hmode hn
    | none => simp [next, hmode] at hn
  | recovering pc => exact h.recoverWrite hmode hn
  | recovered => simp [next, hmode] at hn

lemma Inv.crash (hn : m.next .crash = some m') : Inv d txs m' := by
  have hr := recoverInv_entry h.represents
  simp only [next, Option.some.injEq] at hn
  subst hn
  generalize recoverEntry start m.store.crash = r at hr ⊢
  exact ⟨h.committed_le, hr⟩

lemma Inv.step {e : Event} (hn : m.next e = some m') : Inv d txs m' := by
  cases e with
  | begin => exact h.begin hn
  | write => exact h.write hn
  | crash => exact h.crash hn
end

theorem recovered_eq_committed (d : Disk) (txs : List (Tx start))
    (hd : headerCount (d start) = 0) (es : List Event) (m : Machine start)
    (hr : Lib.run next (boot d txs) es = some m) (hm : m.mode = .recovered) :
    m.committed ≤ txs.length ∧
      (∀ b, IsHome start b → m.store.disk b = Tx.applyAll d (txs.take m.committed) b) ∧
      (m.store.disk start).field 0 4 = 0 := by
  have h : Inv d txs m :=
    Lib.run_invariant (fun _ _ _ h hn => h.step hn) (inv_boot hd) hr
  have hmode := h.mode
  simp only [ModeInv, hm] at hmode
  obtain ⟨hn, hrep⟩ := hmode
  have hclean : getHeader (m.store.disk start) = [] :=
    getHeader_eq_nil.mpr (by rw [headerCount, hn]; rfl)
  exact ⟨h.committed_le, fun b hb => hrep.of_clean hclean hb, hn⟩

def sampleTx : Tx 2 where
  writes := [(40, fun _ => 1), (41, fun _ => 2)]
  nonempty := by decide
  length_le := by decide
  nodup := by decide
  home := by decide

def sampleRun : List Event :=
  [.begin, .write, .write, .write, .write, .crash, .write, .crash, .write, .write, .write]

theorem recovered_eq_committed_sample :
    ∃ m, Lib.run next (boot (fun _ => Block.zero) [sampleTx]) sampleRun = some m ∧
      m.mode = .recovered ∧ m.committed = 1 ∧
      m.store.disk 40 = Tx.applyAll (fun _ => Block.zero) ([sampleTx].take 1) 40 :=
  ⟨_, rfl, rfl, rfl,
    (recovered_eq_committed (fun _ => Block.zero) [sampleTx] rfl sampleRun _ rfl rfl).2.1 40
      (by decide)⟩
end Machine
end Xv6.Log
