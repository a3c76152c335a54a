import Mathlib.Data.List.Nodup
import Mathlib.Logic.Function.Basic

namespace Xv6.Lib
variable {ι β : Type*} [DecidableEq ι]

def applyWrites (d : ι → β) : List (ι × β) → ι → β
  | [] => d
  | w :: ws => applyWrites (Function.update d w.1 w.2) ws

lemma applyWrites_append (d : ι → β) (us ws : List (ι × β)) :
    applyWrites d (us ++ ws) = applyWrites (applyWrites d us) ws := by
  induction us generalizing d with
  | nil => rfl
  | cons u us ih => exact ih (Function.update d u.1 u.2)

lemma applyWrites_concat (d : ι → β) (ws : List (ι × β)) (i : ι) (v : β) :
    applyWrites d (ws ++ [(i, v)]) = Function.update (applyWrites d ws) i v := by
  rw [applyWrites_append]
  rfl

lemma applyWrites_of_notMem {d : ι → β} {ws : List (ι × β)} {i : ι}
    (h : i ∉ ws.map Prod.fst) : applyWrites d ws i = d i := by
  induction ws generalizing d with
  | nil => rfl
  | cons w ws ih =>
    rw [List.map_cons, List.mem_cons, not_or] at h
    rw [applyWrites, ih h.2, Function.update_of_ne h.1]
end Xv6.Lib
