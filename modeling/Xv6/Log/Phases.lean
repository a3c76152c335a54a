import Xv6.Log.Represents

namespace Xv6.Log
open Function
open Lib (applyWrites)
variable {start : Nat} {L : Disk} {ws : List (Nat × Block)} {s : Store} {tail : Nat} {s' : Store}
  {pc : CommitPc}

lemma Store.entry_eq (h : tail < s.lh.length) : s.entry tail = s.lh[tail] := by
  simp [Store.entry, List.getD, h]

structure Logging (start : Nat) (L : Disk) (ws : List (Nat × Block)) (s : Store)
    (tail : Nat) : Prop where
  staged : Staged s ws
  home : ∀ b ∈ s.lh, IsHome start b
  length_le : s.lh.length ≤ logBlocks
  clean : getHeader (s.disk start) = []
  rep : Represents start s.disk L
  copied : ∀ i (hi : i < s.lh.length), i < tail → s.disk (start + i + 1) = applyWrites L ws s.lh[i]

structure Installing (start : Nat) (L : Disk) (s : Store) (tail : Nat) : Prop where
  header : getHeader (s.disk start) = s.lh
  rep : Represents start s.disk L
  installed : ∀ i (hi : i < s.lh.length), i < tail → s.disk s.lh[i] = s.disk (start + i + 1)

section
variable (h : Logging start L ws s tail)
include h

lemma Logging.unpinned_log {i : Nat} (hi : i < logBlocks) : s.cache (start + i + 1) = none :=
  h.staged.unpinned _ fun hm => (h.home _ hm).ne_logBlock hi rfl

lemma Logging.unpinned_start : s.cache start = none :=
  h.staged.unpinned _ fun hm => (h.home _ hm).ne_start rfl

lemma Logging.writeLog (ht : tail < s.lh.length) :
    Logging start L ws (s.writeLog start tail) (tail + 1) := by
  have hlen := lt_of_lt_of_le ht h.length_le
  have hv : s.bread (s.entry tail) = applyWrites L ws s.lh[tail] := by
    rw [Store.entry_eq ht, Store.bread, h.staged.pinned _ (List.getElem_mem ht) L, Option.getD_some]
  have hs : s.writeLog start tail =
      { s with disk := update s.disk (start + tail + 1)
                 (applyWrites L ws s.lh[tail]) } := by
    simp [Store.writeLog, Store.bwrite, hv, h.unpinned_log hlen]
  have hstart : update s.disk (start + tail + 1)
      (applyWrites L ws s.lh[tail]) start = s.disk start :=
    update_of_ne (by omega) _ _
  rw [hs]
  refine ⟨⟨h.staged.nodup, h.staged.mem_iff, h.staged.pinned, h.staged.unpinned⟩,
    h.home, h.length_le, (congrArg getHeader hstart).trans h.clean,
    h.rep.write_logBlock h.clean hlen _, fun i hi hlt => ?_⟩
  show update s.disk (start + tail + 1) _ (start + i + 1) = applyWrites L ws s.lh[i]
  by_cases hit : i = tail
  · subst hit
    rw [update_self]
  rw [update_of_ne (by omega)]
  exact h.copied i hi (by omega)
end

lemma Logging.writeHead (h : Logging start L ws s s.lh.length) :
    Installing start (applyWrites L ws) (s.writeHead start) 0 := by
  have hs : s.writeHead start =
      { s with disk := update s.disk start (putHeader (s.disk start) s.lh) } := by
    simp [Store.writeHead, Store.bwrite, Store.bread, h.unpinned_start]
  rw [hs]
  refine ⟨?_, ?_, fun i hi hlt => absurd hlt (Nat.not_lt_zero i)⟩
  · show getHeader (update s.disk start (putHeader (s.disk start) s.lh) start) = s.lh
    rw [update_self]
    exact getHeader_putHeader h.length_le fun b hb => (h.home b hb).2
  refine h.rep.write_head h.clean h.length_le h.home h.staged.nodup
    (fun i hi => (h.copied i hi hi).symm) fun b hb => ?_
  exact Lib.applyWrites_of_notMem fun hm => hb ((h.staged.mem_iff b).mpr hm)

lemma Installing.step (h : Installing start L s tail) (ht : tail < s.lh.length)
    (hc : s.cache (start + tail + 1) = none) (recovering : Bool) :
    Installing start L (s.installTrans start recovering tail) (tail + 1) ∧
      (s.installTrans start recovering tail).lh = s.lh := by
  have hlh : (s.installTrans start recovering tail).lh = s.lh := by cases recovering <;> rfl
  have hd : (s.installTrans start recovering tail).disk =
      update s.disk s.lh[tail] (s.disk (start + tail + 1)) := by
    cases recovering <;>
      simp [Store.installTrans, Store.bwrite, Store.bunpin, Store.bread, hc, Store.entry_eq ht]
  have hhdr := h.header
  have hmem : s.lh[tail] ∈ getHeader (s.disk start) := by rw [hhdr]; exact List.getElem_mem ht
  have hhome := h.rep.home _ hmem
  have hnd : s.lh.Nodup := hhdr ▸ h.rep.nodup
  have hle : s.lh.length ≤ logBlocks := hhdr ▸ h.rep.length_le
  refine ⟨⟨?_, ?_, fun i hi hlt => ?_⟩, hlh⟩
  · rw [hd, hlh, update_of_ne hhome.ne_start.symm, hhdr]
  · have hi := h.rep.install (by rwa [hhdr])
    simp only [hhdr] at hi
    rwa [hd]
  simp only [hlh] at hi ⊢
  have hne : start + i + 1 ≠ s.lh[tail] :=
    (hhome.ne_logBlock (lt_of_lt_of_le hi hle)).symm
  rw [hd, update_of_ne hne]
  by_cases hit : i = tail
  · subst hit
    rw [update_self]
  have hni : s.lh[i] ≠ s.lh[tail] := fun e => hit ((List.Nodup.getElem_inj_iff hnd).mp e)
  rw [update_of_ne hni]
  exact h.installed i hi (by omega)

lemma Installing.erase (h : Installing start L s s.lh.length) (hc : s.cache start = none) :
    getHeader ((s.eraseHead start).disk start) = [] ∧ Represents start (s.eraseHead start).disk L ∧
      (s.eraseHead start).lh = [] ∧ (s.eraseHead start).cache = s.cache := by
  have hs : s.eraseHead start =
      { s with lh := [], disk := update s.disk start (putHeader (s.disk start) []) } := by
    simp [Store.eraseHead, Store.writeHead, Store.bwrite, Store.bread, hc]
  rw [hs]
  refine ⟨?_, h.rep.erase ?_, rfl, rfl⟩
  · show getHeader (update s.disk start (putHeader (s.disk start) []) start) = []
    rw [update_self]
    exact getHeader_putHeader zero_le (by simp)
  rw [h.header]
  exact fun i hi => h.installed i hi hi

def PinnedFrom (s : Store) (tail : Nat) : Prop :=
  ∀ b ∉ s.lh.drop tail, s.cache b = none

def CommitInv (start : Nat) (L : Disk) (ws : List (Nat × Block)) (s : Store) : CommitPc → Prop
  | .writeLog tail => Logging start L ws s tail ∧ tail < s.lh.length
  | .writeHead => Logging start L ws s s.lh.length ∧ 0 < s.lh.length
  | .installTrans tail =>
    Installing start (applyWrites L ws) s tail ∧ tail < s.lh.length ∧ PinnedFrom s tail
  | .eraseHead => Installing start (applyWrites L ws) s s.lh.length ∧ PinnedFrom s s.lh.length

def CommitPc.committed : CommitPc → Bool
  | .writeLog _ | .writeHead => false
  | .installTrans _ | .eraseHead => true

def CommitPc.outcome (L : Disk) (ws : List (Nat × Block)) (pc : CommitPc) : Disk :=
  if pc.committed then applyWrites L ws else L

lemma CommitInv.represents (h : CommitInv start L ws s pc) :
    Represents start s.disk (pc.outcome L ws) := by
  cases pc with
  | writeLog tail
  | writeHead
  | installTrans tail
  | eraseHead => exact h.1.rep

lemma PinnedFrom.log (hp : PinnedFrom s tail) (h : Installing start L s tail) {i : Nat}
    (hi : i < logBlocks) : s.cache (start + i + 1) = none :=
  hp _ fun hm => (h.rep.home _ (h.header ▸ List.mem_of_mem_drop hm)).ne_logBlock hi rfl

lemma PinnedFrom.header (hp : PinnedFrom s tail) (h : Installing start L s tail) :
    s.cache start = none :=
  hp _ fun hm => (h.rep.home _ (h.header ▸ List.mem_of_mem_drop hm)).ne_start rfl

lemma PinnedFrom.step (hp : PinnedFrom s tail) (ht : tail < s.lh.length) :
    PinnedFrom (s.installTrans start false tail) (tail + 1) := by
  intro b hb
  have hlh : (s.installTrans start false tail).lh = s.lh := rfl
  rw [hlh] at hb
  have hc : (s.installTrans start false tail).cache b =
      update (s.bwrite s.lh[tail] (s.bread (start + tail + 1))).cache s.lh[tail] none b := by
    simp [Store.installTrans, Store.bunpin, Store.entry_eq ht]
  rw [hc]
  by_cases hbt : b = s.lh[tail]
  · rw [hbt, update_self]
  have hn : b ∉ s.lh.drop tail := by
    rw [List.drop_eq_getElem_cons ht, List.mem_cons, not_or]
    exact ⟨hbt, hb⟩
  have hnone := hp b hn
  rw [update_of_ne hbt, Store.bwrite]
  split <;> simp [update_of_ne hbt, hnone]

lemma CommitInv.step {pc pc' : CommitPc} (h : CommitInv start L ws s pc)
    (hstep : commitStep start s pc = (s', some pc')) : CommitInv start L ws s' pc' := by
  cases pc with
  | writeLog tail =>
    obtain ⟨hl, ht⟩ := h
    have hn := hl.writeLog ht
    simp only [commitStep, Prod.mk.injEq, Option.some.injEq] at hstep
    obtain ⟨rfl, rfl⟩ := hstep
    have hlh : (s.writeLog start tail).lh = s.lh := rfl
    split
    · rename_i hlt
      exact ⟨hn, hlt⟩
    rename_i hge
    have he : tail + 1 = s.lh.length := by omega
    rw [he] at hn
    exact ⟨hn, by rw [hlh]; omega⟩
  | writeHead =>
    obtain ⟨hl, hpos⟩ := h
    simp only [commitStep, Prod.mk.injEq, Option.some.injEq] at hstep
    obtain ⟨rfl, rfl⟩ := hstep
    refine ⟨hl.writeHead, hpos, fun b hb => ?_⟩
    have hc : (s.writeHead start).cache = s.cache := by
      simp [Store.writeHead, Store.bwrite, hl.unpinned_start]
    have hlh : (s.writeHead start).lh = s.lh := rfl
    rw [hlh, List.drop_zero] at hb
    rw [hc]
    exact hl.staged.unpinned b hb
  | installTrans tail =>
    obtain ⟨hi, ht, hp⟩ := h
    have hle : s.lh.length ≤ logBlocks := hi.header ▸ hi.rep.length_le
    have hn := (hi.step ht (hp.log hi (lt_of_lt_of_le ht hle)) false).1
    have hpn : PinnedFrom (s.installTrans start false tail) (tail + 1) := hp.step ht
    simp only [commitStep, Prod.mk.injEq, Option.some.injEq] at hstep
    obtain ⟨rfl, rfl⟩ := hstep
    have hlh : (s.installTrans start false tail).lh = s.lh := rfl
    split
    · rename_i hlt
      exact ⟨hn, hlt, hpn⟩
    rename_i hge
    have he : tail + 1 = s.lh.length := by omega
    rw [he] at hn hpn
    exact ⟨hn, hpn⟩
  | eraseHead => simp [commitStep] at hstep

lemma CommitInv.done (h : CommitInv start L ws s pc)
    (hstep : commitStep start s pc = (s', none)) :
    getHeader (s'.disk start) = [] ∧ Represents start s'.disk (applyWrites L ws) ∧
      Staged s' [] := by
  cases pc with
  | eraseHead =>
    obtain ⟨hi, hp⟩ := h
    simp only [commitStep, Prod.mk.injEq, and_true] at hstep
    subst hstep
    obtain ⟨hclean, hrep, hlh, hc⟩ := hi.erase (hp.header hi)
    refine ⟨hclean, hrep, staged_nil hlh (fun b => ?_)⟩
    rw [hc]
    exact hp b (by simp)
  | writeLog tail
  | writeHead
  | installTrans tail => simp [commitStep] at hstep

lemma committed_step {pc pc' : CommitPc} (h : commitStep start s pc = (s', some pc')) :
    pc'.committed ↔ pc = .writeHead ∨ pc.committed := by
  have hpc : (commitStep start s pc).2 = some pc' := by rw [h]
  cases pc with
  | writeLog tail
  | installTrans tail =>
    simp only [commitStep, Option.some.injEq] at hpc
    subst hpc
    split <;> simp [CommitPc.committed]
  | writeHead =>
    simp only [commitStep, Option.some.injEq] at hpc
    subst hpc
    simp [CommitPc.committed]
  | eraseHead => simp [commitStep] at hpc

lemma commitInv_entry (hs : Staged s ws) (hhome : ∀ b ∈ s.lh, IsHome start b)
    (hlen : s.lh.length ≤ logBlocks) (hclean : getHeader (s.disk start) = [])
    (hrep : Represents start s.disk L) (hpc : commitEntry s = some pc) :
    CommitInv start L ws s pc ∧ pc.committed = false := by
  simp only [commitEntry] at hpc
  split at hpc
  · rename_i hpos
    cases hpc
    exact ⟨⟨⟨hs, hhome, hlen, hclean, hrep,
      fun i hi hlt => absurd hlt (Nat.not_lt_zero i)⟩, hpos⟩, rfl⟩
  cases hpc

def RecoverInv (start : Nat) (L : Disk) (s : Store) : RecoverPc → Prop
  | .installTrans tail => Installing start L s tail ∧ tail < s.lh.length ∧ ∀ b, s.cache b = none
  | .eraseHead => Installing start L s s.lh.length ∧ ∀ b, s.cache b = none

lemma RecoverInv.represents {pc : RecoverPc} (h : RecoverInv start L s pc) :
    Represents start s.disk L := by
  cases pc with
  | installTrans tail
  | eraseHead => exact h.1.rep

lemma recoverInv_entry (hrep : Represents start s.disk L) :
    RecoverInv start L (recoverEntry start s.crash).1 (recoverEntry start s.crash).2 := by
  have hlh : (s.crash.readHead start).lh = getHeader (s.disk start) := rfl
  have hc : ∀ b, (s.crash.readHead start).cache b = none := fun _ => rfl
  have hi : ∀ tail, (∀ i < (s.crash.readHead start).lh.length, ¬i < tail) →
      Installing start L (s.crash.readHead start) tail :=
    fun tail hno => ⟨hlh.symm, hrep, fun i hi hlt => absurd hlt (hno i hi)⟩
  simp only [recoverEntry]
  split
  · rename_i hpos
    exact ⟨hi 0 (fun i _ => Nat.not_lt_zero i), hpos, hc⟩
  rename_i hpos
  exact ⟨hi _ (fun i hlt => by omega), hc⟩

lemma Store.installTrans_recovering_cache (hc : ∀ b, s.cache b = none) (b : Nat) :
    (s.installTrans start true tail).cache b = none := by
  simp [Store.installTrans, Store.bwrite, hc]

lemma RecoverInv.step {pc pc' : RecoverPc} (h : RecoverInv start L s pc)
    (hstep : recoverStep start s pc = (s', some pc')) : RecoverInv start L s' pc' := by
  cases pc with
  | installTrans tail =>
    obtain ⟨hi, ht, hc⟩ := h
    have hn := (hi.step ht (hc _) true).1
    have hcn : ∀ b, (s.installTrans start true tail).cache b = none :=
      Store.installTrans_recovering_cache hc
    simp only [recoverStep, Prod.mk.injEq, Option.some.injEq] at hstep
    obtain ⟨rfl, rfl⟩ := hstep
    have hlh : (s.installTrans start true tail).lh = s.lh := rfl
    split
    · rename_i hlt
      exact ⟨hn, hlt, hcn⟩
    rename_i hge
    have he : tail + 1 = s.lh.length := by omega
    rw [he] at hn
    exact ⟨hn, hcn⟩
  | eraseHead => simp [recoverStep] at hstep

lemma RecoverInv.done {pc : RecoverPc} (h : RecoverInv start L s pc)
    (hstep : recoverStep start s pc = (s', none)) :
    getHeader (s'.disk start) = [] ∧ Represents start s'.disk L ∧ Staged s' [] := by
  cases pc with
  | eraseHead =>
    obtain ⟨hi, hc⟩ := h
    simp only [recoverStep, Prod.mk.injEq, and_true] at hstep
    subst hstep
    obtain ⟨hclean, hrep, hlh, hcache⟩ := hi.erase (hc _)
    exact ⟨hclean, hrep, staged_nil hlh (fun b => by rw [hcache]; exact hc b)⟩
  | installTrans tail => simp [recoverStep] at hstep
end Xv6.Log
