import Mathlib.Logic.Basic

namespace Xv6.Lib
variable {σ ε α β : Type}

def wp (m : StateT σ (Except ε) α) (s : σ) (Q : α → σ → Prop) (E : ε → Prop) : Prop :=
  match m s with
  | .ok (a, s') => Q a s'
  | .error e => E e

variable {m : StateT σ (Except ε) α} {f : α → StateT σ (Except ε) β} {s s' : σ}
  {Q Q' : α → σ → Prop} {E E' : ε → Prop} {R : β → σ → Prop} {a : α}

@[simp] lemma wp_pure : wp (pure a) s Q E ↔ Q a s := Iff.rfl
@[simp] lemma wp_get {Q : σ → σ → Prop} : wp get s Q E ↔ Q s s := Iff.rfl
@[simp] lemma wp_set {Q : PUnit → σ → Prop} : wp (set s') s Q E ↔ Q ⟨⟩ s' := Iff.rfl

@[simp] lemma wp_modify {g : σ → σ} {Q : PUnit → σ → Prop} :
    wp (modify g) s Q E ↔ Q ⟨⟩ (g s) := Iff.rfl

@[simp] lemma wp_throw {e : ε} : wp (throw e : StateT σ (Except ε) α) s Q E ↔ E e := Iff.rfl

@[simp] lemma wp_bind : wp (m >>= f) s R E ↔ wp m s (fun a s' => wp (f a) s' R E) E := by
  have hrun : (m >>= f) s = (m s).bind (fun p => f p.1 p.2) := rfl
  unfold wp
  rw [hrun]
  cases m s <;> rfl

@[simp] lemma wp_map {g : α → β} : wp (g <$> m) s R E ↔ wp m s (fun a s' => R (g a) s') E := by
  have hrun : (g <$> m) s = (m s).map (fun p => (g p.1, p.2)) := rfl
  unfold wp
  rw [hrun]
  cases m s <;> rfl

lemma wp_ite {c : Prop} [Decidable c] {m' : StateT σ (Except ε) α} (h : c → wp m s Q E)
    (h' : ¬c → wp m' s Q E) : wp (if c then m else m') s Q E := by
  split
  · exact h ‹_›
  exact h' ‹_›

lemma bind_of_ok (h : m s = .ok (a, s')) : (m >>= f) s = f a s' := by
  show (m s).bind (fun p => f p.1 p.2) = f a s'
  rw [h]
  rfl

lemma wp_mono (h : wp m s Q E) (hQ : ∀ a s', Q a s' → Q' a s') (hE : ∀ e, E e → E' e) :
    wp m s Q' E' := by
  unfold wp at *
  cases hm : m s with
  | ok p =>
    rw [hm] at h
    exact hQ p.1 p.2 h
  | error e =>
    rw [hm] at h
    exact hE e h

lemma wp_bind_of (h : wp m s Q E) (hf : ∀ a s', Q a s' → wp (f a) s' R E) : wp (m >>= f) s R E :=
  wp_bind.mpr (wp_mono h hf (fun _ he => he))

lemma wp_imp (h : wp m s Q E) (hQ : ∀ a s', Q a s' → Q' a s') : wp m s Q' E :=
  wp_mono h hQ fun _ he => he

lemma wp_ok (h : wp m s Q E) (hm : m s = .ok (a, s')) : Q a s' := by
  unfold wp at h
  rwa [hm] at h

lemma wp_of_ok (hm : m s = .ok (a, s')) : wp m s Q E ↔ Q a s' := by
  unfold wp
  rw [hm]

lemma wp_self (hE : ∀ e, E e) : wp m s (fun a s' => m s = .ok (a, s')) E := by
  unfold wp
  cases hm : m s with
  | ok p => rfl
  | error e => exact hE e

lemma wp_and (h : wp m s Q E) (h' : wp m s Q' E') :
    wp m s (fun a s' => Q a s' ∧ Q' a s') (fun e => E e ∧ E' e) := by
  unfold wp at *
  cases hm : m s with
  | ok p
  | error e =>
    rw [hm] at h h'
    exact ⟨h, h'⟩

lemma wp_both (h : wp m s Q E) (h' : wp m s Q' E) : wp m s (fun a s' => Q a s' ∧ Q' a s') E :=
  wp_mono (wp_and h h') (fun _ _ hq => hq) fun _ he => he.1

lemma wp_error {e : ε} (h : wp m s Q E) (hm : m s = .error e) : E e := by
  unfold wp at h
  rwa [hm] at h

lemma wp_total (h : wp m s Q fun _ => False) : ∃ a s', m s = .ok (a, s') ∧ Q a s' := by
  unfold wp at h
  cases hm : m s with
  | ok p =>
    rw [hm] at h
    exact ⟨p.1, p.2, rfl, h⟩
  | error e =>
    rw [hm] at h
    exact h.elim
attribute [irreducible] wp
end Xv6.Lib
