import Xv6.Sched.Reach

namespace Xv6.Sched
namespace State
variable {m n : Nat} {s : State m n} {c : Fin m} {initproc p q : Fin n} {k : Pc n} {x : Op n}

namespace Inv
lemma proc_cases (h : s.Inv) (hc : s.proc c = some p) :
    s.exec c = .proc p ∨ s.holder (.proc p) = some c ∧ s.Off p := by
  cases ht : s.exec c with
  | proc q =>
    rw [(h.cur c q ht).1] at hc
    cases hc
    exact .inl rfl
  | sched c' =>
    cases h.sched _ _ ht
    have hhand := h.hand c ht
    have hann := h.ann c
    rw [ht] at hann
    rw [hc] at hhand
    refine .inr ⟨?_, ?_⟩
    · apply h.holder_of_other
      rw [ht]
      cases hpc : s.pc (.sched c) <;> rw [hpc] at hhand <;> cases hhand <;> rfl
    cases hpc : s.pc (.sched c) <;> rw [hpc] at hhand hann <;> cases hhand <;> exact hann.2

lemma proc_inj (h : s.Inv) {c' : Fin m} (hc : s.proc c = some p) (hc' : s.proc c' = some p) :
    c = c' := by
  rcases h.proc_cases hc with he | ⟨hl, hoff⟩
  · rcases h.proc_cases hc' with he' | ⟨-, hoff'⟩
    · exact h.inj c c' p he he'
    exact absurd he (hoff' c)
  rcases h.proc_cases hc' with he' | ⟨hl', -⟩
  · exact absurd he' (hoff c')
  exact Option.some.inj (hl.symm.trans hl')

lemma running_iff (h : s.Inv) (hfree : s.holder (.proc p) = none) :
    s.state p = .running ↔ ∃ c, s.exec c = .proc p := by
  constructor
  · intro hrun
    by_contra hno
    have hoff : s.Off p := fun c hc => hno ⟨c, hc⟩
    have hpark := h.off p hoff
    rw [Parked, hrun] at hpark
    obtain ⟨-, c, hc, hpick⟩ := hpark
    have hl : s.holder (.proc p) = some c := by
      apply h.holder_of_other
      rw [hc]
      cases hpc : s.pc (.sched c) <;> rw [hpc] at hpick <;> cases hpick <;> rfl
    rw [hfree] at hl
    cases hl
  rintro ⟨c, hc⟩
  apply (h.on c p hc).running
  by_contra hown
  rw [h.holder_of_own hc (by simpa using hown)] at hfree
  cases hfree

lemma running_iff_current (h : s.Inv) (hfree : s.holder (.proc p) = none) :
    s.state p = .running ↔ ∃! c, s.proc c = some p := by
  rw [h.running_iff hfree]
  constructor
  · rintro ⟨c, hc⟩
    exact ⟨c, (h.cur c p hc).1, fun c' hc' => h.proc_inj hc' (h.cur c p hc).1⟩
  rintro ⟨c, hc, -⟩
  rcases h.proc_cases hc with he | ⟨hl, -⟩
  · exact ⟨c, he⟩
  rw [hfree] at hl
  cases hl
end Inv

lemma procCode_free {K : Pc n} (h : s.procCode c initproc p x K = some (.free q k)) :
    K = .waitFree q ∨ K = .forkFree q := by
  unfold procCode call sleep free at h
  repeat' split at h
  all_goals first | (cases h; done) | simp_all

lemma code_free (h : s.code c initproc x = some (.free q k)) :
    s.pc (s.exec c) = .waitFree q ∨ s.pc (s.exec c) = .forkFree q := by
  rcases code_cases h with ⟨-, h⟩ | h | ⟨c', -, h⟩ | ⟨p, -, h⟩
  · cases h
  · unfold wakeCode at h
    repeat' split at h
    all_goals cases h
  · unfold schedCode free at h
    repeat' split at h
    all_goals cases h
  exact procCode_free h

lemma Inv.off_of_free (h : s.Inv) (hcode : s.code c initproc x = some (.free q k)) : s.Off q := by
  have hann := h.ann c
  rcases code_free hcode with hpc | hpc <;> rw [hpc] at hann
  · exact h.off_of_other (by rw [hpc]; rfl)
      (by rw [show s.state q = .zombie from hann]; exact nofun)
  exact h.off_of_other (by rw [hpc]; rfl) (by rw [hann.1]; exact nofun)
end State

variable {m n : Nat} {s : State m n} {initproc : Fin n} {as : List (Label m n)}

theorem current_of_run (hr : Lib.run (next initproc) (boot initproc) as = some s) :
    (∀ p, s.holder (.proc p) = none → (s.state p = .running ↔ ∃! c, s.proc c = some p)) ∧
      (∀ p c c', s.proc c = some p → s.proc c' = some p → c = c') ∧
      (∀ p c c', s.exec c = .proc p → s.exec c' = .proc p → c = c') ∧
      ∀ c x q k, s.code c initproc x = some (.free q k) → ∀ c', s.exec c' ≠ .proc q := by
  have h := State.inv_of_run hr
  exact ⟨fun p hfree => h.running_iff_current hfree, fun p c c' hc hc' => h.proc_inj hc hc',
    fun p c c' => h.inj c c' p, fun c x q k hcode => h.off_of_free hcode⟩

def startInit : List (Label 2 1) := ⟨1, .scan⟩ :: List.replicate 6 ⟨1, .go⟩

theorem current_of_run_startInit :
    ∃ s, Lib.run (next 0) (boot 0) startInit = some s ∧ s.state 0 = .running ∧
      ∃! c, s.proc c = some 0 := by
  obtain ⟨s, hs, hfree, hstate⟩ : ∃ s, Lib.run (next 0) (boot 0) startInit = some s ∧
      s.holder (.proc 0) = none ∧ s.state 0 = .running :=
    Lib.exists_of_any (by decide +kernel)
  exact ⟨s, hs, hstate, ((current_of_run hs).1 0 hfree).mp hstate⟩
end Xv6.Sched
