import Mathlib.Data.List.Basic

namespace Xv6.Grep
abbrev Str := List UInt8
def dot : UInt8 := 46
def star : UInt8 := 42
def caret : UInt8 := 94
def dollar : UInt8 := 36

def matchstar (here : Str → Bool) (c : UInt8) : Str → Bool
  | [] => here []
  | t :: text => here (t :: text) || (t = c || c = dot) && matchstar here c text

def matchone (here : Str → Bool) (c : UInt8) : Str → Bool
  | [] => false
  | t :: text => (c = dot || c = t) && here text

def matchhere : Str → Str → Bool
  | [], _ => true
  | [c], text => if c = dollar then text = [] else matchone (fun _ => true) c text
  | c :: d :: re, text =>
    if d = star then matchstar (matchhere re) c text else matchone (matchhere (d :: re)) c text

def matchFrom (re : Str) : Str → Bool
  | [] => matchhere re []
  | t :: text => matchhere re (t :: text) || matchFrom re text

def matchText : Str → Str → Bool
  | [], text => matchFrom [] text
  | c :: re, text => if c = caret then matchhere re text else matchFrom (c :: re) text

inductive Item where
  | one (c : UInt8)
  | many (c : UInt8)

def items : Str → List Item × Bool
  | [] => ([], false)
  | [c] => if c = dollar then ([], true) else ([.one c], false)
  | c :: d :: re =>
    if d = star then (.many c :: (items re).1, (items re).2)
    else (.one c :: (items (d :: re)).1, (items (d :: re)).2)

def Stands (c t : UInt8) : Prop := c = dot ∨ c = t

def Item.Lang : Item → Set Str
  | .one c => {u | ∃ t, u = [t] ∧ Stands c t}
  | .many c => {u | ∀ t ∈ u, Stands c t}

def Lang : List Item → Set Str
  | [] => {[]}
  | i :: is => {w | ∃ u ∈ i.Lang, ∃ v ∈ Lang is, w = u ++ v}

def Starts (re text : Str) : Prop :=
  ∃ u ∈ Lang (items re).1, ∃ v, text = u ++ v ∧ ((items re).2 → v = [])

def Occurs (re text : Str) : Prop :=
  if re.head? = some caret then Starts re.tail text
  else ∃ before after, text = before ++ after ∧ Starts re after

variable {c d t : UInt8} {re text : Str} {here : Str → Bool}

lemma matchstar_iff : ∀ text, matchstar here c text ↔
    ∃ u v, text = u ++ v ∧ (∀ t ∈ u, Stands c t) ∧ here v := by
  intro text
  induction text with
  | nil =>
    rw [matchstar]
    constructor
    · exact fun h => ⟨[], [], rfl, by simp, h⟩
    rintro ⟨u, v, huv, -, hv⟩
    obtain ⟨rfl, rfl⟩ := List.append_eq_nil_iff.mp huv.symm
    exact hv
  | cons t text ih =>
    rw [matchstar, Bool.or_eq_true, Bool.and_eq_true, ih]
    have hstands : (decide (t = c) || decide (c = dot)) ↔ Stands c t := by
      rw [Bool.or_eq_true, decide_eq_true_eq, decide_eq_true_eq, or_comm, @eq_comm _ t]
      rfl
    rw [hstands]
    constructor
    · rintro (h | ⟨ht, u, v, rfl, hu, hv⟩)
      · exact ⟨[], t :: text, rfl, by simp, h⟩
      exact ⟨t :: u, v, rfl, List.forall_mem_cons.mpr ⟨ht, hu⟩, hv⟩
    rintro ⟨u, v, huv, hu, hv⟩
    cases u with
    | nil =>
      rw [List.nil_append] at huv
      exact .inl (huv ▸ hv)
    | cons x u =>
      obtain ⟨rfl, rfl⟩ := List.cons.inj huv
      obtain ⟨hx, hu⟩ := List.forall_mem_cons.mp hu
      exact .inr ⟨hx, u, v, rfl, hu, hv⟩

lemma starts_many : Starts (c :: star :: re) text ↔
    ∃ u v, text = u ++ v ∧ (∀ t ∈ u, Stands c t) ∧ Starts re v := by
  rw [Starts, items, if_pos rfl]
  constructor
  · rintro ⟨w, ⟨u, hu, v, hv, rfl⟩, rest, rfl, hend⟩
    exact ⟨u, v ++ rest, List.append_assoc u v rest, hu, v, hv, rest, rfl, hend⟩
  rintro ⟨u, v, rfl, hu, w, hw, rest, rfl, hend⟩
  exact ⟨u ++ w, ⟨u, hu, w, hw, rfl⟩, rest, (List.append_assoc u w rest).symm, hend⟩

lemma starts_one (h : items (c :: re) = (.one c :: (items re).1, (items re).2)) :
    Starts (c :: re) text ↔ ∃ t rest, text = t :: rest ∧ Stands c t ∧ Starts re rest := by
  rw [Starts, h]
  constructor
  · rintro ⟨w, ⟨u, ⟨t, rfl, ht⟩, v, hv, rfl⟩, rest, rfl, hend⟩
    exact ⟨t, v ++ rest, rfl, ht, v, hv, rest, rfl, hend⟩
  rintro ⟨t, rest, rfl, ht, v, hv, rest', rfl, hend⟩
  exact ⟨t :: v, ⟨[t], ⟨t, rfl, ht⟩, v, hv, rfl⟩, rest', rfl, hend⟩

lemma starts_nil : Starts [] text := ⟨[], rfl, text, rfl, nofun⟩

lemma starts_dollar : Starts [dollar] text ↔ text = [] := by
  rw [Starts, items, if_pos rfl]
  constructor
  · rintro ⟨u, rfl, v, rfl, hend⟩
    exact hend rfl
  rintro rfl
  exact ⟨[], rfl, [], rfl, fun _ => rfl⟩

lemma stands_iff : (decide (c = dot) || decide (c = t)) ↔ Stands c t := by
  rw [Bool.or_eq_true, decide_eq_true_eq, decide_eq_true_eq]
  rfl

lemma matchone_iff (ih : ∀ text, here text ↔ Starts re text)
    (h : items (c :: re) = (.one c :: (items re).1, (items re).2)) :
    matchone here c text ↔ Starts (c :: re) text := by
  rw [starts_one h]
  cases text with
  | nil => simp [matchone]
  | cons t text =>
    rw [matchone, Bool.and_eq_true, stands_iff, ih]
    constructor
    · exact fun ⟨ht, hs⟩ => ⟨t, text, rfl, ht, hs⟩
    rintro ⟨t', rest', e, ht, hs⟩
    cases e
    exact ⟨ht, hs⟩

lemma matchhere_iff : ∀ re text, matchhere re text ↔ Starts re text
  | [], _ => ⟨fun _ => starts_nil, fun _ => rfl⟩
  | [c], text => by
    rw [matchhere]
    by_cases hc : c = dollar
    · rw [if_pos hc, hc, starts_dollar, decide_eq_true_eq]
    rw [if_neg hc]
    have hitems : items [c] = (.one c :: (items []).1, (items []).2) := if_neg hc
    exact matchone_iff (fun _ => ⟨fun _ => starts_nil, fun _ => rfl⟩) hitems
  | c :: d :: re, text => by
    rw [matchhere]
    by_cases hd : d = star
    · rw [if_pos hd, hd, starts_many, matchstar_iff]
      constructor
      · rintro ⟨u, v, huv, hu, hv⟩
        exact ⟨u, v, huv, hu, (matchhere_iff re v).mp hv⟩
      rintro ⟨u, v, huv, hu, hv⟩
      exact ⟨u, v, huv, hu, (matchhere_iff re v).mpr hv⟩
    rw [if_neg hd]
    have hitems : items (c :: d :: re) = (.one c :: (items (d :: re)).1, (items (d :: re)).2) := by
      rw [items, if_neg hd]
    exact matchone_iff (matchhere_iff (d :: re)) hitems

lemma matchFrom_iff (re : Str) : ∀ text, matchFrom re text ↔
    ∃ before after, text = before ++ after ∧ Starts re after := by
  intro text
  induction text with
  | nil =>
    rw [matchFrom, matchhere_iff]
    constructor
    · exact fun h => ⟨[], [], rfl, h⟩
    rintro ⟨before, after, e, h⟩
    obtain ⟨-, rfl⟩ := List.append_eq_nil_iff.mp e.symm
    exact h
  | cons t text ih =>
    rw [matchFrom, Bool.or_eq_true, matchhere_iff, ih]
    constructor
    · rintro (h | ⟨before, after, rfl, h⟩)
      · exact ⟨[], t :: text, rfl, h⟩
      exact ⟨t :: before, after, rfl, h⟩
    rintro ⟨before, after, e, h⟩
    cases before with
    | nil => exact .inl (by rwa [e])
    | cons x before =>
      obtain ⟨rfl, rfl⟩ := List.cons.inj e
      exact .inr ⟨before, after, rfl, h⟩

theorem match_iff_occurs (re text : Str) : matchText re text ↔ Occurs re text := by
  cases re with
  | nil => exact matchFrom_iff [] text
  | cons c re =>
    rw [matchText, Occurs]
    by_cases hc : c = caret
    · rw [if_pos hc, if_pos (by rw [hc]; rfl)]
      exact matchhere_iff re text
    rw [if_neg hc, if_neg (by simpa using hc)]
    exact matchFrom_iff (c :: re) text
end Xv6.Grep
