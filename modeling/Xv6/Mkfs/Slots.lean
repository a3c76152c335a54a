import Xv6.Mkfs.Image

namespace Xv6.Mkfs
open Fs Lib Function Dinode

structure Slots (d : Disk) (X : Nat → Dinode) (fi fb : Nat) : Prop where
  low : nmeta ≤ fb
  range : ∀ i k, i < fi → k < nslot → (X i).slot d k ≠ 0 →
    nmeta ≤ (X i).slot d k ∧ (X i).slot d k < fb
  once : ∀ i j k l, i < fi → j < fi → k < nslot → l < nslot → (X i).slot d k ≠ 0 →
    (X i).slot d k = (X j).slot d l → i = j ∧ k = l
  fresh : ∀ b, fb ≤ b → d b = .zero

variable {d d' : Disk} {X X' : Nat → Dinode} {fi fb i j k b : Nat}

lemma Slots.extend (i k : Nat) (h : Slots d X fi fb) (hslot : ∀ j l, j < fi → l < nslot →
      (X' j).slot d' l = if j = i ∧ l = k then fb else (X j).slot d l)
    (hfresh : ∀ b, fb < b → d' b = .zero) : Slots d' X' fi (fb + 1) where
  low := Nat.le_succ_of_le h.low
  range j l hj hl hne := by
    rw [hslot j l hj hl] at hne ⊢
    by_cases he : j = i ∧ l = k
    · rw [if_pos he]
      have := h.low
      omega
    rw [if_neg he] at hne ⊢
    have := h.range j l hj hl hne
    omega
  once j j' l l' hj hj' hl hl' hne heq := by
    rw [hslot j l hj hl] at hne heq
    rw [hslot j' l' hj' hl'] at heq
    by_cases he : j = i ∧ l = k
    · rw [if_pos he] at heq
      by_cases he' : j' = i ∧ l' = k
      · omega
      rw [if_neg he'] at heq
      have hlow := h.low
      have := h.range j' l' hj' hl' (by rw [← heq]; rw [nmeta_eq] at hlow; omega)
      omega
    rw [if_neg he] at hne heq
    by_cases he' : j' = i ∧ l' = k
    · rw [if_pos he'] at heq
      have := h.range j l hj hl hne
      omega
    rw [if_neg he'] at heq
    exact h.once j j' l l' hj hj' hl hl' hne heq
  fresh b hb := hfresh b hb

lemma Slots.fb_ne_zero (h : Slots d X fi fb) : fb ≠ 0 := by
  have hlow := h.low
  rw [nmeta_eq] at hlow
  omega

lemma update_slot {x : Dinode} (hj : j ≠ i) : (update X i x j).slot d k = (X j).slot d k := by
  rw [update_of_ne hj]

lemma Slots.setAddr (h : Slots d X fi fb) (hk : k ≤ ndirect) (h0 : (X i).addr k = 0) :
    Slots d (update X i ((X i).setAddr k fb)) fi (fb + 1) ∧
      ∀ l, ((X i).setAddr k fb).slot d l = if l = k then fb else (X i).slot d l := by
  have hslot : ∀ l, ((X i).setAddr k fb).slot d l = if l = k then fb else (X i).slot d l :=
    fun l => slot_setAddr hk fun _ => ⟨h0, h.fresh fb le_rfl⟩
  refine ⟨h.extend i k (fun j l _ _ => ?_) (fun b hb => h.fresh b (by omega)), hslot⟩
  by_cases hj : j = i
  · rw [hj, update_self, hslot]
    simp
  rw [update_slot hj, if_neg (fun he => hj he.1)]

lemma Slots.setWord (h : Slots d X fi fb) (hi : i < fi) (hk : ndirect < k) (hns : k < nslot)
    (hind : (X i).addr ndirect ≠ 0) (hfb : fb < 2 ^ 32) :
    let d' := update d ((X i).addr ndirect)
      ((d ((X i).addr ndirect)).setWord (k - (ndirect + 1)) fb)
    Slots d' X fi (fb + 1) ∧
      ∀ l < nslot, (X i).slot d' l = if l = k then fb else (X i).slot d l := by
  intro d'
  have hdir : (X i).slot d ndirect = (X i).addr ndirect := slot_direct (le_refl _)
  have hnd : ndirect < nslot := by decide
  have hself : ∀ l < nslot, (X i).slot d' l = if l = k then fb else (X i).slot d l := by
    intro l hl
    by_cases hle : l ≤ ndirect
    · rw [slot_direct hle, slot_direct hle, if_neg (by omega)]
    rw [slot_entry (by omega) hind, slot_entry (by omega) hind]
    show (update d _ _ _).word _ = _
    rw [ndirect_eq] at hk hle ⊢
    rw [nslot_eq] at hns hl
    rw [update_self, Block.word_setWord (by rw [bsize_eq]; omega) hfb]
    by_cases he : l = k
    · rw [if_pos he, if_pos (by omega)]
    rw [if_neg he, if_neg (by omega)]
  refine ⟨h.extend i k (fun j l hj hl => ?_) (fun b hb => ?_), hself⟩
  · by_cases hji : j = i
    · rw [hji, hself l hl]
      simp
    · -- another inode has another indirect block
      rw [if_neg (fun he => hji he.1)]
      refine slot_congr rfl (fun hne => update_of_ne (fun e => hji ?_) _ _)
      have hj' : (X j).slot d ndirect = (X j).addr ndirect := slot_direct (le_refl _)
      exact (h.once j i ndirect ndirect hj hi hnd hnd (by rw [hj']; exact hne)
        (by rw [hj', hdir, e])).1
  have hlt := (h.range i ndirect hi hnd (by rw [hdir]; exact hind)).2
  rw [hdir] at hlt
  show update d _ _ b = _
  rw [update_of_ne (by omega)]
  exact h.fresh b (by omega)

lemma Slots.setBlock {v : Block} (h : Slots d X fi fb) (hi : i < fi) (hk : k < nslot)
    (hne : k ≠ ndirect) (h0 : (X i).slot d k ≠ 0) (hj : j < fi) (l : Nat) :
    (X j).slot (update d ((X i).slot d k) v) l = (X j).slot d l := by
  refine slot_congr rfl fun hind => update_of_ne (fun e => hne ?_) _ _
  have hdir : (X j).slot d ndirect = (X j).addr ndirect := slot_direct le_rfl
  exact (h.once i j k ndirect hi hj hk (by decide) h0 (by rw [hdir, ← e])).2
end Xv6.Mkfs
