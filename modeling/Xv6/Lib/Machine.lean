import Mathlib

namespace Xv6.Lib
variable {σ α : Type*}

def run (next : σ → α → Option σ) : σ → List α → Option σ
  | s, [] => some s
  | s, a :: as => (next s a).bind fun s' => run next s' as

variable {next : σ → α → Option σ}

/-- One instance for the examples of all modules. -/
instance neZero_two : NeZero 2 := ⟨by decide⟩

lemma run_cons {s s' : σ} {a : α} {as : List α} (h : run next s (a :: as) = some s') :
    ∃ t, next s a = some t ∧ run next t as = some s' := by
  simpa [run, Option.bind_eq_some_iff] using h

lemma run_append (s : σ) (as bs : List α) :
    run next s (as ++ bs) = (run next s as).bind fun t => run next t bs := by
  induction as generalizing s with
  | nil => rfl
  | cons a as ih =>
    simp only [List.cons_append, run, Option.bind_assoc]
    exact congrArg _ (funext ih)

def Along (next : σ → α → Option σ) (P : σ → α → Prop) : σ → List α → Prop
  | _, [] => True
  | s, a :: as =>
    P s a ∧ match next s a with
      | none => True
      | some s' => Along next P s' as

instance decidableAlong (P : σ → α → Prop) [∀ s a, Decidable (P s a)] :
    ∀ (s : σ) (as : List α), Decidable (Along next P s as)
  | _, [] => inferInstanceAs (Decidable True)
  | s, a :: as =>
    have : Decidable (match next s a with
        | none => True
        | some s' => Along next P s' as) :=
      match next s a with
      | none => inferInstanceAs (Decidable True)
      | some s' => decidableAlong P s' as
    inferInstanceAs (Decidable (_ ∧ _))

lemma along_cons {P : σ → α → Prop} {s t : σ} {a : α} {as : List α} (ht : next s a = some t) :
    Along next P s (a :: as) ↔ P s a ∧ Along next P t as := by
  rw [Along, ht]

lemma Along.mono {P Q : σ → α → Prop} (hPQ : ∀ s a, P s a → Q s a) {s : σ} {as : List α}
    (h : Along next P s as) : Along next Q s as := by
  induction as generalizing s with
  | nil => trivial
  | cons a as ih =>
    refine ⟨hPQ s a h.1, ?_⟩
    have hrest := h.2
    cases hn : next s a with
    | none => trivial
    | some t =>
      rw [hn] at hrest
      exact ih hrest

lemma Along.and {P Q : σ → α → Prop} {s : σ} {as : List α} (hP : Along next P s as)
    (hQ : Along next Q s as) : Along next (fun s a => P s a ∧ Q s a) s as := by
  induction as generalizing s with
  | nil => trivial
  | cons a as ih =>
    refine ⟨⟨hP.1, hQ.1⟩, ?_⟩
    have hP := hP.2
    have hQ := hQ.2
    cases hn : next s a with
    | none => trivial
    | some t =>
      rw [hn] at hP hQ
      exact ih hP hQ

lemma run_induction {I : σ → Prop} {P : σ → α → Prop}
    (hstep : ∀ s a s', I s → P s a → next s a = some s' → I s')
    {s s' : σ} {as : List α} (hs : I s) (hP : Along next P s as)
    (hr : run next s as = some s') : I s' := by
  induction as generalizing s with
  | nil => cases hr; exact hs
  | cons a as ih =>
    obtain ⟨t, ht, hr⟩ := run_cons hr
    obtain ⟨ha, hP⟩ := (along_cons ht).mp hP
    exact ih (hstep s a t hs ha ht) hP hr

lemma along_true (s : σ) (as : List α) : Along next (fun _ _ => True) s as := by
  induction as generalizing s with
  | nil => trivial
  | cons a as ih =>
    refine ⟨trivial, ?_⟩
    cases next s a with
    | none => trivial
    | some t => exact ih t

lemma along_of_forall_mem {P : α → Prop} (s : σ) {as : List α} (h : ∀ a ∈ as, P a) :
    Along next (fun _ a => P a) s as := by
  induction as generalizing s with
  | nil => trivial
  | cons a as ih =>
    refine ⟨h a List.mem_cons_self, ?_⟩
    cases next s a with
    | none => trivial
    | some t => exact ih t fun b hb => h b (List.mem_cons_of_mem a hb)

lemma run_invariant {I : σ → Prop} (hstep : ∀ s a s', I s → next s a = some s' → I s')
    {s s' : σ} {as : List α} (hs : I s) (hr : run next s as = some s') : I s' :=
  run_induction (fun s a s' h _ => hstep s a s' h) hs (along_true s as) hr

def Visits (next : σ → α → Option σ) (P : σ → Prop) (s : σ) (as : List α) : Prop :=
  ∃ bs t, bs <+: as ∧ run next s bs = some t ∧ P t

lemma visits_self {P : σ → Prop} {s : σ} (as : List α) (h : P s) : Visits next P s as :=
  ⟨[], s, List.nil_prefix, rfl, h⟩

lemma visits_cons {P : σ → Prop} {s t : σ} {a : α} {as : List α} (ht : next s a = some t)
    (h : Visits next P t as) : Visits next P s (a :: as) := by
  obtain ⟨bs, u, hbs, hu, hP⟩ := h
  refine ⟨a :: bs, u, List.cons_prefix_cons.mpr ⟨rfl, hbs⟩, ?_, hP⟩
  rwa [run, ht, Option.bind_some]

lemma exists_of_any {o : Option σ} {P : σ → Prop} [DecidablePred P]
    (h : o.any (fun s => decide (P s))) : ∃ s, o = some s ∧ P s := by
  obtain ⟨s, hs, hP⟩ := (Option.any_eq_true _ _).mp h
  exact ⟨s, hs, of_decide_eq_true hP⟩
end Xv6.Lib
