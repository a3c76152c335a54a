import Mathlib.Logic.Basic

namespace Xv6.Lib
variable {α ι : Type} {R F F' : α → Prop} {H H' : ι → α → Prop} {k : ι} {t : α}

structure Split (R F : α → Prop) (H : ι → α → Prop) : Prop where
  cover : ∀ t, R t ↔ F t ∨ ∃ k, H k t
  apart : ∀ k t, H k t → ¬F t
  once : ∀ j k t, H j t → H k t → j = k

lemma Split.trade (h : Split R F H) (k : ι) (hother : ∀ j ≠ k, ∀ t, H' j t ↔ H j t)
    (htrade : ∀ t, H' k t ∨ F' t ↔ H k t ∨ F t) (hapart : ∀ t, H' k t → ¬F' t) :
    Split R F' H' := by
  have hkeep : ∀ j ≠ k, ∀ t, H' j t → ¬(H' k t ∨ F' t) := by
    intro j hj t ht hk
    have ht := (hother j hj t).mp ht
    rcases (htrade t).mp hk with hk | hf
    · exact hj (h.once j k t ht hk)
    exact h.apart j t ht hf
  refine ⟨fun t => ?_, fun j t ht hf => ?_, fun i j t hi hj => ?_⟩
  · rw [h.cover]
    constructor
    · rintro (hf | ⟨j, hj⟩)
      · exact ((htrade t).mpr (.inr hf)).elim (fun hk => .inr ⟨k, hk⟩) .inl
      · by_cases hjk : j = k
        · rw [hjk] at hj
          exact ((htrade t).mpr (.inl hj)).elim (fun hk => .inr ⟨k, hk⟩) .inl
        exact .inr ⟨j, (hother j hjk t).mpr hj⟩
    rintro (hf | ⟨j, hj⟩)
    · exact ((htrade t).mp (.inr hf)).elim (fun hk => .inr ⟨k, hk⟩) .inl
    by_cases hjk : j = k
    · rw [hjk] at hj
      exact ((htrade t).mp (.inl hj)).elim (fun hk => .inr ⟨k, hk⟩) .inl
    exact .inr ⟨j, (hother j hjk t).mp hj⟩
  · by_cases hjk : j = k
    · rw [hjk] at ht
      exact hapart t ht hf
    exact hkeep j hjk t ht (.inr hf)
  by_cases hik : i = k
  · by_cases hjk : j = k
    · rw [hik, hjk]
    rw [hik] at hi
    exact absurd (.inl hi) (hkeep j hjk t hj)
  by_cases hjk : j = k
  · rw [hjk] at hj
    exact absurd (.inl hj) (hkeep i hik t hi)
  exact h.once i j t ((hother i hik t).mp hi) ((hother j hjk t).mp hj)
end Xv6.Lib
