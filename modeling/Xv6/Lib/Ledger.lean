import Mathlib.Data.List.Nodup
import Mathlib.Algebra.Group.Defs

namespace Xv6.Lib
open List
variable {P B : Type*} [Zero B]

structure Ledger (area : B → Prop) (slot : P → B) (taken : B → Prop) (spare : List B) : Prop where
  zero : ¬area 0
  slot_area : ∀ p, slot p ≠ 0 → area (slot p)
  inj : ∀ p q, slot p ≠ 0 → slot p = slot q → p = q
  spare_area : ∀ b ∈ spare, area b
  spare_slot : ∀ b ∈ spare, ∀ p, slot p ≠ b
  spare_nodup : spare.Nodup
  taken_iff : ∀ b, area b → (taken b ↔ b ∈ spare ∨ ∃ p, slot p = b)

variable {area : B → Prop} {slot slot' : P → B} {taken taken' : B → Prop} {spare : List B} {b : B}

namespace Ledger
section
variable (h : Ledger area slot taken spare)
include h

lemma congr (hslot : ∀ p, slot' p = slot p) (htaken : ∀ c, area c → (taken' c ↔ taken c)) :
    Ledger area slot' taken' spare := by
  have hs : slot' = slot := funext hslot
  rw [hs]
  exact ⟨h.zero, h.slot_area, h.inj, h.spare_area, h.spare_slot, h.spare_nodup,
    fun c hc => (htaken c hc).trans (h.taken_iff c hc)⟩

lemma taken_of_spare (hb : b ∈ spare) : taken b :=
  (h.taken_iff b (h.spare_area b hb)).mpr (.inl hb)

lemma take (hb : area b) (hfree : ¬taken b) (htaken : ∀ c, area c → (taken' c ↔ c = b ∨ taken c))
    : Ledger area slot taken' (b :: spare) := by
  have hout : b ∉ spare ∧ ∀ p, slot p ≠ b := by rwa [h.taken_iff b hb, not_or, not_exists] at hfree
  refine ⟨h.zero, h.slot_area, h.inj, ?_, ?_, nodup_cons.mpr ⟨hout.1, h.spare_nodup⟩, ?_⟩
  · exact forall_mem_cons.mpr ⟨hb, h.spare_area⟩
  · exact forall_mem_cons.mpr ⟨hout.2, h.spare_slot⟩
  intro c hc
  rw [htaken c hc, h.taken_iff c hc, mem_cons, or_assoc]
end

lemma give (h : Ledger area slot taken (b :: spare))
    (htaken : ∀ c, area c → (taken' c ↔ c ≠ b ∧ taken c)) : Ledger area slot taken' spare := by
  have hnodup := nodup_cons.mp h.spare_nodup
  refine ⟨h.zero, h.slot_area, h.inj, fun c hc => h.spare_area c (mem_cons_of_mem b hc),
    fun c hc => h.spare_slot c (mem_cons_of_mem b hc), hnodup.2, fun c hc => ?_⟩
  rw [htaken c hc, h.taken_iff c hc, mem_cons]
  constructor
  · rintro ⟨hcb, (hcb' | hs) | hp⟩
    · exact absurd hcb' hcb
    · exact .inl hs
    exact .inr hp
  rintro (hs | ⟨p, hp⟩)
  · exact ⟨fun e => hnodup.1 (e ▸ hs), .inl (.inr hs)⟩
  exact ⟨fun e => h.spare_slot b mem_cons_self p (hp.trans e), .inr ⟨p, hp⟩⟩

lemma put {p : P} (h : Ledger area slot taken (b :: spare)) (hp : slot p = 0)
    (hself : slot' p = b) (hother : ∀ q ≠ p, slot' q = slot q) :
    Ledger area slot' taken spare := by
  have hnodup := nodup_cons.mp h.spare_nodup
  have hnew : ∀ q, slot q ≠ b := h.spare_slot b mem_cons_self
  have hb : area b := h.spare_area b mem_cons_self
  refine ⟨h.zero, fun q hq => ?_, fun q r hq hqr => ?_,
    fun c hc => h.spare_area c (mem_cons_of_mem b hc), fun c hc q => ?_, hnodup.2,
    fun c hc => ?_⟩
  · by_cases hqp : q = p
    · rwa [hqp, hself]
    rw [hother q hqp] at hq ⊢
    exact h.slot_area q hq
  · by_cases hqp : q = p <;> by_cases hrp : r = p
    · rw [hqp, hrp]
    · rw [hqp, hself, hother r hrp] at hqr
      exact absurd hqr.symm (hnew r)
    · rw [hrp, hself, hother q hqp] at hqr
      exact absurd hqr (hnew q)
    · rw [hother q hqp] at hq hqr
      rw [hother r hrp] at hqr
      exact h.inj q r hq hqr
  · by_cases hqp : q = p
    · rw [hqp, hself]
      exact fun e => hnodup.1 (e ▸ hc)
    rw [hother q hqp]
    exact h.spare_slot c (mem_cons_of_mem b hc) q
  rw [h.taken_iff c hc, mem_cons]
  constructor
  · rintro ((hcb | hs) | ⟨q, hq⟩)
    · exact .inr ⟨p, hself.trans hcb.symm⟩
    · exact .inl hs
    have hqp : q ≠ p := fun e => h.zero (by rwa [← hp, ← e, hq])
    exact .inr ⟨q, (hother q hqp).trans hq⟩
  rintro (hs | ⟨q, hq⟩)
  · exact .inl (.inr hs)
  by_cases hqp : q = p
  · rw [hqp, hself] at hq
    exact .inl (.inl hq.symm)
  rw [hother q hqp] at hq
  exact .inr ⟨q, hq⟩

lemma drop {dropped : List B} (h : Ledger area slot taken spare)
    (hslot : ∀ p, slot' p = slot p ∨ slot' p = 0) (hnodup : dropped.Nodup)
    (hmem : ∀ c, c ∈ dropped ↔ c ≠ 0 ∧ ∃ p, slot p = c ∧ slot' p = 0) :
    Ledger area slot' taken (dropped ++ spare) := by
  have hkept : ∀ p, slot' p ≠ 0 → slot' p = slot p := fun p hp => (hslot p).resolve_right hp
  have hfrom : ∀ c ∈ dropped, area c ∧ ∃ p, slot p = c ∧ slot' p = 0 := by
    intro c hc
    obtain ⟨h0, p, rfl, hp'⟩ := (hmem c).mp hc
    exact ⟨h.slot_area p h0, p, rfl, hp'⟩
  refine ⟨h.zero, fun p hp => ?_, fun p q hp hpq => ?_, fun c hc => ?_, fun c hc p hp => ?_, ?_,
    fun c hc => ?_⟩
  · have hs := hkept p hp
    rw [hs] at hp ⊢
    exact h.slot_area p hp
  · have hq : slot' q ≠ 0 := hpq ▸ hp
    rw [hkept p hp, hkept q hq] at hpq
    exact h.inj p q (hkept p hp ▸ hp) hpq
  · rcases mem_append.mp hc with hc | hc
    · exact (hfrom c hc).1
    exact h.spare_area c hc
  · rcases mem_append.mp hc with hc | hc
    · -- the slot would have held an item that another, cleared slot held
      obtain ⟨ha, q, hq, hq'⟩ := hfrom c hc
      have hp0 : slot' p ≠ 0 := fun e => h.zero (by rwa [← e, hp])
      rw [hkept p hp0] at hp
      have hqp : q = p := h.inj q p (fun e => h.zero (by rwa [← e, hq])) (hq.trans hp.symm)
      exact hp0 (hqp ▸ hq')
    have hp0 : slot' p ≠ 0 := fun e => h.zero (by rw [← e, hp]; exact h.spare_area c hc)
    exact h.spare_slot c hc p ((hkept p hp0).symm.trans hp)
  · refine nodup_append.mpr ⟨hnodup, h.spare_nodup, fun c hc e he hce => ?_⟩
    obtain ⟨-, p, hp, -⟩ := hfrom c hc
    exact h.spare_slot e he p (hp.trans hce)
  rw [h.taken_iff c hc, mem_append]
  have hc0 : c ≠ 0 := fun e => h.zero (e ▸ hc)
  constructor
  · rintro (hs | ⟨p, hp⟩)
    · exact .inl (.inr hs)
    · rcases hslot p with hp' | hp'
      · exact .inr ⟨p, hp'.trans hp⟩
      exact .inl (.inl ((hmem c).mpr ⟨hc0, p, hp, hp'⟩))
  rintro ((hd | hs) | ⟨p, hp⟩)
  · obtain ⟨-, p, hp, -⟩ := hfrom c hd
    exact .inr ⟨p, hp⟩
  · exact .inl hs
  exact .inr ⟨p, (hkept p (hp ▸ hc0)).symm.trans hp⟩
end Ledger
end Xv6.Lib
