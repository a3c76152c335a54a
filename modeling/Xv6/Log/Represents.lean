import Xv6.Log.Commit

namespace Xv6.Log
open Function

def IsHome (start b : Nat) : Prop := (b < start ∨ start + logBlocks < b) ∧ b < 2 ^ 32

instance (start b : Nat) : Decidable (IsHome start b) :=
  inferInstanceAs (Decidable (_ ∧ _))

lemma IsHome.ne_start {start b : Nat} (h : IsHome start b) : b ≠ start := by
  rintro rfl
  obtain ⟨h | h, -⟩ := h <;> omega

lemma IsHome.ne_logBlock {start b i : Nat} (h : IsHome start b) (hi : i < logBlocks) :
    b ≠ start + i + 1 := by
  rintro rfl
  obtain ⟨h | h, -⟩ := h <;> omega

structure Represents (start : Nat) (d L : Disk) : Prop where
  length_le : (getHeader (d start)).length ≤ logBlocks
  home : ∀ b ∈ getHeader (d start), IsHome start b
  nodup : (getHeader (d start)).Nodup
  logged : ∀ i (hi : i < (getHeader (d start)).length),
    L (getHeader (d start))[i] = d (start + i + 1)
  inPlace : ∀ b, IsHome start b → b ∉ getHeader (d start) → L b = d b

section
variable {start : Nat} {d L : Disk}

lemma represents_of_clean (hd : getHeader (d start) = [])
    (hL : ∀ b, IsHome start b → L b = d b) : Represents start d L := by
  constructor <;> simp [hd]
  exact hL

section
variable (h : Represents start d L) (hd : getHeader (d start) = [])
include h hd

lemma Represents.of_clean {b : Nat} (hb : IsHome start b) : d b = L b :=
  (h.inPlace b hb (by simp [hd])).symm

lemma Represents.write_logBlock {i : Nat} (hi : i < logBlocks) (v : Block) :
    Represents start (update d (start + i + 1) v) L := by
  have hs : update d (start + i + 1) v start = d start :=
    update_of_ne (by omega) v d
  refine represents_of_clean (by rw [hs, hd]) fun b hb => ?_
  rw [update_of_ne (hb.ne_logBlock hi), h.of_clean hd hb]

lemma Represents.write_head {L' : Disk} {lh : List Nat} (hlen : lh.length ≤ logBlocks)
    (hhome : ∀ b ∈ lh, IsHome start b) (hnd : lh.Nodup)
    (hlog : ∀ i (hi : i < lh.length), L' lh[i] = d (start + i + 1)) (hrest : ∀ b ∉ lh, L' b = L b) :
    Represents start (update d start (putHeader (d start) lh)) L' := by
  have hlh : getHeader (update d start (putHeader (d start) lh) start) = lh := by
    rw [update_self]
    exact getHeader_putHeader hlen fun b hb => (hhome b hb).2
  constructor <;> simp only [hlh]
  · exact hlen
  · exact hhome
  · exact hnd
  · intro i hi
    rw [hlog i hi, update_of_ne (by omega)]
  intro b hb hn
  rw [hrest b hn, update_of_ne hb.ne_start, h.of_clean hd hb]
end

lemma Represents.install (h : Represents start d L) {i : Nat}
    (hi : i < (getHeader (d start)).length) :
    Represents start (update d (getHeader (d start))[i] (d (start + i + 1))) L := by
  have hhome := h.home _ (List.getElem_mem hi)
  have hs : update d (getHeader (d start))[i] (d (start + i + 1)) start = d start :=
    update_of_ne hhome.ne_start.symm _ _
  constructor <;> simp only [hs]
  · exact h.length_le
  · exact h.home
  · exact h.nodup
  · intro j hj
    rw [h.logged j hj, update_of_ne]
    exact (hhome.ne_logBlock (lt_of_lt_of_le hj h.length_le)).symm
  intro b hb hn
  rw [h.inPlace b hb hn, update_of_ne]
  rintro rfl
  exact hn (List.getElem_mem hi)

lemma Represents.erase (h : Represents start d L)
    (hin : ∀ i (hi : i < (getHeader (d start)).length),
      d (getHeader (d start))[i] = d (start + i + 1)) :
    Represents start (update d start (putHeader (d start) [])) L := by
  have hs : getHeader (update d start (putHeader (d start) []) start) = [] := by
    rw [update_self]
    exact getHeader_putHeader zero_le (by simp)
  refine represents_of_clean hs fun b hb => ?_
  rw [update_of_ne hb.ne_start]
  by_cases hm : b ∈ getHeader (d start)
  · obtain ⟨i, hi, rfl⟩ := List.getElem_of_mem hm
    rw [h.logged i hi, hin i hi]
  exact h.inPlace b hb hm
end

structure Staged (s : Store) (ws : List (Nat × Block)) : Prop where
  nodup : s.lh.Nodup
  mem_iff : ∀ b, b ∈ s.lh ↔ b ∈ ws.map Prod.fst
  pinned : ∀ b ∈ s.lh, ∀ L : Disk, s.cache b = some (Lib.applyWrites L ws b)
  unpinned : ∀ b ∉ s.lh, s.cache b = none

variable {s : Store}

lemma staged_nil (hlh : s.lh = []) (hc : ∀ b, s.cache b = none) : Staged s [] := by
  constructor <;> simp [hlh, hc]

lemma Staged.mem_logWrite (b : Nat) (v : Block) (c : Nat) :
    c ∈ (s.logWrite b v).lh ↔ c ∈ s.lh ∨ c = b := by
  simp only [Store.logWrite]
  split
  · constructor
    · exact Or.inl
    rintro (h | rfl) <;> assumption
  simp

lemma Staged.logWrite {ws : List (Nat × Block)} (h : Staged s ws)
    (b : Nat) (v : Block) : Staged (s.logWrite b v) (ws ++ [(b, v)]) := by
  have hmem := Staged.mem_logWrite (s := s) b v
  refine ⟨?_, fun c => ?_, fun c hc L => ?_, fun c hc => ?_⟩
  · simp only [Store.logWrite]
    split
    · exact h.nodup
    rename_i hb
    exact List.nodup_append.mpr ⟨h.nodup, by simp, by rintro x hx y hy rfl; simp_all⟩
  · rw [hmem, h.mem_iff]
    simp
  · rw [Lib.applyWrites_concat]
    by_cases hcb : c = b
    · subst hcb
      simp [Store.logWrite]
    have hc' : c ∈ s.lh := ((hmem c).mp hc).resolve_right hcb
    simp [Store.logWrite, update_of_ne hcb, h.pinned c hc' L]
  rw [hmem, not_or] at hc
  simp [Store.logWrite, update_of_ne hc.2, h.unpinned c hc.1]
end Xv6.Log
