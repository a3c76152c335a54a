import Xv6.Sched.Sleeplock

namespace Xv6.Sleeplock
open Option State
open Function (update update_self update_of_ne)
variable {π : Type}

namespace Pc
def inside : Pc π → Bool
  | .test | .sleepAcquire | .sleepRelease | .setLocked | .setPid | .release | .clearLocked
  | .clearPid | .wakeLoop _ | .wakeTest _ _ | .wakeSet _ _ | .wakeRelease _ _ | .holdingTest _
  | .holdingRelease _ _ => true
  | _ => false

def has (p : π) : Pc π → Option π
  | .sleepRelease | .sleepChan | .sleepState | .sched | .sleepTidy | .sleepUnlock
  | .yield .state _ | .yield .sched _ | .yield .release _ => some p
  | .wakeTest q _ | .wakeSet q _ | .wakeRelease q _ => some q
  | _ => none

def owns : Pc π → Bool
  | .setPid | .release | .held | .releaseAcquire | .clearLocked => true
  | .holdingAcquire k | .holdingTest k | .holdingRelease _ k | .yield _ k => k.owns
  | _ => false

def holds : Pc π → Bool
  | .held => true
  | .holdingAcquire k | .holdingTest k | .holdingRelease _ k | .yield _ k => k.holds
  | _ => false

def knows : Pc π → Option Bool
  | .setLocked | .clearPid => some false
  | .sleepAcquire | .sleepRelease => some true
  | _ => none

def falls : Pc π → Bool
  | .sleepChan | .sleepState | .sched => true
  | _ => false

def remaining (procs : List π) : Pc π → List π
  | .clearPid => procs
  | .wakeLoop rest | .wakeRelease _ rest => rest
  | .wakeTest q rest | .wakeSet q rest => q :: rest
  | _ => []

def resumes : Pc π → Bool
  | .sleepTidy | .yield .release _ => true
  | _ => false

def Wf : Pc π → Prop
  | .holdingAcquire k | .holdingTest k | .holdingRelease _ k => k = .out ∨ k = .held
  | .yield _ k => k.open ∧ k.Wf
  | _ => True

lemma owns_of_holds {k : Pc π} (h : k.holds) : k.owns := by
  induction k with
  | held => rfl
  | holdingAcquire k ih | holdingTest k ih | holdingRelease r k ih | yield st k ih => exact ih h
  | _ => cases h

lemma has_of_resumes {p : π} {k : Pc π} (h : k.resumes) : k.has p = some p := by
  cases k with
  | sleepTidy => rfl
  | yield st k =>
    cases st with
    | release => rfl
    | _ => cases h
  | _ => cases h

lemma inside_of_mem {p : π} {procs : List π} {k : Pc π} (h : p ∈ k.remaining procs) :
    k.inside := by
  cases k <;> first | rfl | cases h
end Pc
namespace Instr
def target : Instr π → Pc π
  | .goto k | .acquire k | .release k | .lock _ k | .unlock _ k | .locked _ k | .pid _ k
  | .chan _ k | .state _ _ k | .swtch k => k

def inside (b : Bool) : Instr π → Bool
  | .acquire _ => true
  | .release _ => false
  | _ => b

def value (b : Bool) : Instr π → Bool
  | .locked v _ => v
  | _ => b

def has (o : Option π) : Instr π → Option π
  | .lock q _ => some q
  | .unlock _ _ => none
  | _ => o

def owner (p : π) (o : Option π) : Instr π → Option π
  | .locked true _ => some p
  | .locked false _ => none
  | _ => o
end Instr

lemma Pc.wf_of_open {k : Pc π} (h : k = .out ∨ k = .held) : k.open ∧ k.Wf := by
  rcases h with rfl | rfl <;> exact ⟨rfl, trivial⟩

lemma Pc.open_false {k : Pc π} (h : k.open) (p : π) :
    k.inside = false ∧ k.has p = none ∧ k.knows = none ∧ k.falls = false := by
  cases k <;> first | exact ⟨rfl, rfl, rfl, rfl⟩ | cases h

variable {T : Table π} {s s' : State π} {o : Option π} {p q : π} {i : Instr π} {K k : Pc π}

def State.Waits (s : State π) (p : π) : Prop :=
  (s.pc p).falls ∨ s.state p = .sleeping

/-- `o` is the process that has the sleep-lock. -/
structure Inv (T : Table π) (o : Option π) (s : State π) : Prop where
  wf : ∀ p, (s.pc p).Wf
  off : ∀ p, s.on p = false → (s.pc p).resumes
  holder : ∀ p, (s.pc p).inside ↔ s.holder = some p
  has : ∀ p q, s.on p → (s.pc p).has p = some q → s.plock q = some (.proc p)
  locked : s.locked = o.isSome
  owner : ∀ p, (s.pc p).owns ↔ o = some p
  pid : ∀ p, o = some p → s.pc p ≠ .setPid → s.pid = T.pid p
  knows : ∀ p b, (s.pc p).knows = some b → s.locked = b
  sleeping : ∀ p, s.state p = .sleeping → s.pc p = .sched ∨ s.pc p = .sleepTidy ∧ s.on p = false
  chan : ∀ p, s.pc p = .sleepState ∨ s.pc p = .sched ∨ s.state p = .sleeping → s.chan p
  waits : ∀ p, s.locked = false → s.Waits p → ∃ q, p ∈ (s.pc q).remaining T.procs

namespace Inv
section
variable (h : Inv T o s)
include h

lemma on_of_falls (hf : (s.pc p).falls) : s.on p := by
  by_contra hoff
  have hr := h.off p (Bool.eq_false_iff.mpr hoff)
  cases hK : s.pc p with
  | sleepChan | sleepState | sched =>
    rw [hK] at hr
    cases hr
  | _ =>
    rw [hK] at hf
    cases hf

lemma plock_of_falls (hf : (s.pc p).falls) : s.plock p = some (.proc p) := by
  refine h.has p p (h.on_of_falls hf) ?_
  cases hK : s.pc p with
  | sleepChan | sleepState | sched => rfl
  | _ =>
    rw [hK] at hf
    cases hf

lemma not_mem_of_waits (hp : s.Waits p) : p ∉ (s.pc p).remaining T.procs := by
  have hK : (s.pc p).falls ∨ s.pc p = .sleepTidy := by
    rcases hp with hf | hst
    · exact .inl hf
    exact (h.sleeping p hst).imp (fun hK => by rw [hK]; rfl) (·.1)
  cases hpc : s.pc p with
  | sleepChan | sleepState | sched | sleepTidy => exact List.not_mem_nil
  | _ =>
    rw [hpc] at hK
    rcases hK with hK | hK <;> cases hK

lemma holder_of_knows {b : Bool} (hb : (s.pc p).knows = some b) : s.holder = some p := by
  refine (h.holder p).mp ?_
  cases hK : s.pc p with
  | setLocked | clearPid | sleepAcquire | sleepRelease => rfl
  | _ =>
    rw [hK] at hb
    cases hb

lemma not_sleeping (hon : s.on p) (hK : (s.pc p).open) : s.state p ≠ .sleeping := by
  intro hst
  rcases h.sleeping p hst with hpc | ⟨-, hoff⟩
  · rw [hpc] at hK
    cases hK
  rw [hon] at hoff
  cases hoff
end
end Inv

lemma inv_init : Inv T none (init : State π) where
  wf _ := ⟨rfl, trivial⟩
  off _ _ := rfl
  holder _ := ⟨nofun, nofun⟩
  has _ _ := nofun
  locked := rfl
  owner _ := ⟨nofun, nofun⟩
  pid _ := nofun
  knows _ _ := nofun
  sleeping _ := nofun
  chan _ := by rintro (h | h | h) <;> cases h
  waits _ _ := by rintro (h | h) <;> cases h

variable [DecidableEq π] {b : Bool}

/-- The principle behind `fun_cases` below. -/
alias code_cases := State.code.fun_cases_unfolding

lemma code_wf (h : K.Wf) : (s.code T p K).target.Wf := by
  fun_cases State.code T s p K
  all_goals first | trivial | exact h | exact (Pc.wf_of_open h).2 | exact h.2

lemma code_inside (h : K.Wf) : (s.code T p K).target.inside = (s.code T p K).inside K.inside := by
  fun_cases State.code T s p K
  all_goals first
      | rfl
      | exact (Pc.open_false (Pc.wf_of_open h).1 p).1
      | exact (Pc.open_false h.1 p).1

lemma code_has (h : K.Wf) : (s.code T p K).target.has p = (s.code T p K).has (K.has p) := by
  fun_cases State.code T s p K
  all_goals first
      | rfl
      | exact (Pc.open_false (Pc.wf_of_open h).1 p).2.1
      | exact (Pc.open_false h.1 p).2.1

lemma code_owns : (s.code T p K).target.owns = (s.code T p K).value K.owns := by
  fun_cases State.code T s p K <;> rfl

lemma code_locked (h : s.code T p K = .locked b k) : K.inside ∧
    (b ∧ K = .setLocked ∧ k = .setPid ∨ b = false ∧ K.owns ∧ k = .clearPid) := by
  revert h
  fun_cases State.code T s p K <;> rintro ⟨⟩ <;> simp [Pc.inside, Pc.owns]

lemma code_pid {v : Nat} (h : s.code T p K = .pid v k) :
    K = .setPid ∧ v = T.pid p ∨ K = .clearPid := by
  revert h
  fun_cases State.code T s p K <;> rintro ⟨⟩ <;> simp

lemma code_knows (h : K.Wf) (hK : ∀ b, K.knows = some b → s.locked = b)
    (hb : (s.code T p K).target.knows = some b) : (s.code T p K).value s.locked = b := by
  have hnone : ∀ {k : Pc π}, k.open → k.knows ≠ some b := fun hk => by
    rw [(Pc.open_false hk p).2.2.1]
    exact nofun
  revert hb
  fun_cases State.code T s p K <;> intro hb
  case case3 hlocked | case4 hlocked =>
    cases hb
    simpa [Instr.value] using hlocked
  all_goals first
      | exact hK b hb
      | exact some.inj hb
      | exact absurd hb (hnone (Pc.wf_of_open h).1)
      | exact absurd hb (hnone h.1)
      | cases hb

lemma code_swtch (h : s.code T p K = .swtch k) : K.has p = some p ∧ k.resumes := by
  revert h
  fun_cases State.code T s p K <;> rintro ⟨⟩ <;> exact ⟨rfl, rfl⟩

lemma code_sleeping (h : s.code T p K = .state q .sleeping k) :
    q = p ∧ K = .sleepState ∧ k = .sched := by
  revert h
  fun_cases State.code T s p K <;> rintro ⟨⟩
  exact ⟨rfl, rfl, rfl⟩

lemma code_falls (h : K.Wf) (hk : (s.code T p K).target.falls) : K.falls ∨ K = .sleepRelease := by
  have hnone : ∀ {k : Pc π}, k.open → k.falls ≠ true := fun hk => by
    rw [(Pc.open_false hk p).2.2.2]
    exact nofun
  revert hk
  fun_cases State.code T s p K <;> intro hk
  all_goals first
      | exact .inr rfl
      | exact .inl rfl
      | exact absurd hk (hnone (Pc.wf_of_open h).1)
      | exact absurd hk (hnone h.1)
      | cases hk

lemma code_sleep (h : K.Wf) : ((s.code T p K).target = .sleepState → K = .sleepChan) ∧
    ((s.code T p K).target = .sched → K = .sleepState) ∧
    ((s.code T p K).target = .sleepTidy → K = .sched) := by
  fun_cases State.code T s p K
  all_goals refine ⟨?_, ?_, ?_⟩ <;> intro hk <;> cases hk
  all_goals first | rfl | (rcases h with h | h <;> cases h)

lemma code_remaining (h : q ∈ K.remaining T.procs) :
    q ∈ (s.code T p K).target.remaining T.procs ∨ q = p ∨ K.has p = some q ∧
      ((∃ k, s.code T p K = .state q .runnable k) ∨ ¬(s.state q = .sleeping ∧ s.chan q)) := by
  cases K with
  | clearPid | wakeRelease x rest => exact .inl h
  | wakeLoop rest =>
    cases rest with
    | nil => cases h
    | cons x rest =>
      by_cases hx : x = p
      · rw [State.code, if_pos hx]
        rcases List.mem_cons.mp h with hq | hq
        · exact .inr (.inl (hq.trans hx))
        exact .inl hq
      rw [State.code, if_neg hx]
      exact .inl h
  | wakeTest x rest =>
    by_cases hx : s.state x = .sleeping ∧ s.chan x
    · rw [State.code, if_pos hx]
      exact .inl h
    rw [State.code, if_neg hx]
    rcases List.mem_cons.mp h with rfl | hq
    · exact .inr (.inr ⟨rfl, .inr hx⟩)
    exact .inl hq
  | wakeSet x rest =>
    rcases List.mem_cons.mp h with rfl | hq
    · exact .inr (.inr ⟨rfl, .inl ⟨_, rfl⟩⟩)
    exact .inl hq
  | _ => cases h

namespace State
lemma exec_acquire (hs : s.exec p (.acquire k) = some s') :
    s.holder = none ∧ s' = { s with holder := some p }.setPc p k := by
  rw [exec] at hs
  split at hs
  · exact ⟨‹_›, (some.inj hs).symm⟩
  cases hs

lemma exec_release (hs : s.exec p (.release k) = some s') :
    s.holder = some p ∧ s' = { s with holder := none }.setPc p k := by
  rw [exec] at hs
  split at hs
  · exact ⟨‹_›, (some.inj hs).symm⟩
  cases hs

lemma exec_lock (hs : s.exec p (.lock q k) = some s') : s.plock q = none ∧
    s' = { s with plock := update s.plock q (some (.proc p)) }.setPc p k := by
  rw [exec] at hs
  split at hs
  · exact ⟨‹_›, (some.inj hs).symm⟩
  cases hs

lemma exec_unlock (hs : s.exec p (.unlock q k) = some s') : s.plock q = some (.proc p) ∧
    s' = { s with plock := update s.plock q none }.setPc p k := by
  rw [exec] at hs
  split at hs
  · exact ⟨‹_›, (some.inj hs).symm⟩
  cases hs

section
variable (hs : s.exec p i = some s')
include hs

lemma exec_data : s'.pc = update s.pc p i.target ∧ s'.locked = i.value s.locked ∧
      (s'.pid = s.pid ∨ ∃ v k, i = .pid v k ∧ s'.pid = v) ∧
      (s'.chan = s.chan ∨ ∃ b k, i = .chan b k ∧ s'.chan = update s.chan p b) ∧
      (s'.state = s.state ∨ ∃ q v k, i = .state q v k ∧ s'.state = update s.state q v) ∧
      (s'.on = s.on ∨ ∃ k, i = .swtch k ∧ s'.on = update s.on p false) := by
  cases i with
  | acquire k =>
    obtain ⟨-, rfl⟩ := exec_acquire hs
    exact ⟨rfl, rfl, .inl rfl, .inl rfl, .inl rfl, .inl rfl⟩
  | release k =>
    obtain ⟨-, rfl⟩ := exec_release hs
    exact ⟨rfl, rfl, .inl rfl, .inl rfl, .inl rfl, .inl rfl⟩
  | lock q k =>
    obtain ⟨-, rfl⟩ := exec_lock hs
    exact ⟨rfl, rfl, .inl rfl, .inl rfl, .inl rfl, .inl rfl⟩
  | unlock q k =>
    obtain ⟨-, rfl⟩ := exec_unlock hs
    exact ⟨rfl, rfl, .inl rfl, .inl rfl, .inl rfl, .inl rfl⟩
  | goto k | locked b k =>
    cases hs
    exact ⟨rfl, rfl, .inl rfl, .inl rfl, .inl rfl, .inl rfl⟩
  | pid v k =>
    cases hs
    exact ⟨rfl, rfl, .inr ⟨v, k, rfl, rfl⟩, .inl rfl, .inl rfl, .inl rfl⟩
  | chan b k =>
    cases hs
    exact ⟨rfl, rfl, .inl rfl, .inr ⟨b, k, rfl, rfl⟩, .inl rfl, .inl rfl⟩
  | state q v k =>
    cases hs
    exact ⟨rfl, rfl, .inl rfl, .inl rfl, .inr ⟨q, v, k, rfl, rfl⟩, .inl rfl⟩
  | swtch k =>
    cases hs
    exact ⟨rfl, rfl, .inl rfl, .inl rfl, .inl rfl, .inr ⟨k, rfl, rfl⟩⟩

lemma exec_holder : (s'.holder = some p ↔ i.inside (decide (s.holder = some p))) ∧
      (q ≠ p → (s'.holder = some q ↔ s.holder = some q)) := by
  cases i with
  | acquire k =>
    obtain ⟨hfree, rfl⟩ := exec_acquire hs
    simp [setPc, Instr.inside, hfree, eq_comm]
  | release k =>
    obtain ⟨hheld, rfl⟩ := exec_release hs
    simp [setPc, Instr.inside, hheld, eq_comm]
  | lock q k =>
    obtain ⟨-, rfl⟩ := exec_lock hs
    simp [setPc, Instr.inside]
  | unlock q k =>
    obtain ⟨-, rfl⟩ := exec_unlock hs
    simp [setPc, Instr.inside]
  | _ =>
    cases hs
    simp [setPc, Instr.inside]

lemma exec_plock {r : π} (hr : r ≠ p) (hsw : ∀ k, i = .swtch k → s.plock p = some (.proc p))
    (hq : s.plock q = some (.proc r)) : s'.plock q = some (.proc r) := by
  have hne : some (Holder.proc p) ≠ some (.proc r) := fun e => by
    cases e
    exact hr rfl
  cases i with
  | acquire k =>
    obtain ⟨-, rfl⟩ := exec_acquire hs
    exact hq
  | release k =>
    obtain ⟨-, rfl⟩ := exec_release hs
    exact hq
  | lock x k =>
    obtain ⟨hx, rfl⟩ := exec_lock hs
    have hxq : q ≠ x := by
      rintro rfl
      rw [hx] at hq
      cases hq
    exact (update_of_ne hxq ..).trans hq
  | unlock x k =>
    obtain ⟨hx, rfl⟩ := exec_unlock hs
    have hxq : q ≠ x := by
      rintro rfl
      exact hne (hx.symm.trans hq)
    exact (update_of_ne hxq ..).trans hq
  | swtch k =>
    cases hs
    have hxq : q ≠ p := by
      rintro rfl
      exact hne ((hsw k rfl).symm.trans hq)
    exact (update_of_ne hxq ..).trans hq
  | _ =>
    cases hs
    exact hq

lemma exec_has (hon : s'.on p)
    (ho : ∀ q, o = some q → s.plock q = some (.proc p)) (hq : i.has o = some q) :
    s'.plock q = some (.proc p) := by
  cases i with
  | acquire k =>
    obtain ⟨-, rfl⟩ := exec_acquire hs
    exact ho q hq
  | release k =>
    obtain ⟨-, rfl⟩ := exec_release hs
    exact ho q hq
  | lock x k =>
    obtain ⟨-, rfl⟩ := exec_lock hs
    cases hq
    exact update_self ..
  | unlock x k => cases hq
  | swtch k =>
    cases hs
    simp [setPc] at hon
  | _ =>
    cases hs
    exact ho q hq
end
end State
namespace Inv
lemma step_pc (hs : s.exec p i = some s') (q : π) :
    q = p ∧ s'.pc q = i.target ∨ q ≠ p ∧ s'.pc q = s.pc q := by
  have hpc := (exec_data hs).1
  by_cases hq : q = p
  · exact .inl ⟨hq, by rw [hpc, hq, update_self]⟩
  exact .inr ⟨hq, by rw [hpc, update_of_ne hq]⟩

section Step
variable (h : Inv T o s) (hs : s.exec p (s.code T p (s.pc p)) = some s')
include h hs

lemma step_wf (q : π) : (s'.pc q).Wf := by
  rcases step_pc hs q with ⟨rfl, hq⟩ | ⟨-, hq⟩ <;> rw [hq]
  · exact code_wf (h.wf q)
  exact h.wf q

lemma step_off (hon : s.on p) (q : π) (hoff : s'.on q = false) : (s'.pc q).resumes := by
  rcases step_pc hs q with ⟨rfl, hq⟩ | ⟨hne, hq⟩ <;> rw [hq]
  · rcases (exec_data hs).2.2.2.2.2 with hsame | ⟨k, hk, -⟩
    · rw [hsame, hon] at hoff
      cases hoff
    rw [hk]
    exact (code_swtch hk).2
  refine h.off q ?_
  rcases (exec_data hs).2.2.2.2.2 with hsame | ⟨k, -, hupd⟩
  · rwa [hsame] at hoff
  rwa [hupd, update_of_ne hne] at hoff

lemma step_holder (q : π) : (s'.pc q).inside ↔ s'.holder = some q := by
  rcases step_pc hs q with ⟨rfl, hq⟩ | ⟨hne, hq⟩ <;> rw [hq]
  · have hin : decide (s.holder = some q) = (s.pc q).inside := by
      rw [Bool.eq_iff_iff, decide_eq_true_iff, h.holder q]
    rw [code_inside (h.wf q), (exec_holder (q := q) hs).1, hin]
  rw [h.holder q, (exec_holder hs).2 hne]

lemma step_has (hon : s.on p) (q r : π) (hq : s'.on q)
    (hr : (s'.pc q).has q = some r) : s'.plock r = some (.proc q) := by
  rcases step_pc hs q with ⟨rfl, hpc⟩ | ⟨hne, hpc⟩ <;> rw [hpc] at hr
  · rw [code_has (h.wf q)] at hr
    exact exec_has hs hq (fun x hx => h.has q x hon hx) hr
  have hqon : s.on q := by
    rcases (exec_data hs).2.2.2.2.2 with hsame | ⟨k, -, hupd⟩
    · rwa [hsame] at hq
    rwa [hupd, update_of_ne hne] at hq
  exact exec_plock hs hne (fun k hk => h.has p p hon (code_swtch hk).1) (h.has q r hqon hr)

lemma step_locked : s'.locked = ((s.code T p (s.pc p)).owner p o).isSome := by
  rw [(exec_data hs).2.1, h.locked]
  cases s.code T p (s.pc p) with
  | locked b k => cases b <;> rfl
  | _ => rfl

lemma step_owner (q : π) : (s'.pc q).owns ↔ (s.code T p (s.pc p)).owner p o = some q := by
  have hown : (s.code T p (s.pc p)).owner p o = some q ↔
      if q = p then (s.code T p (s.pc p)).value (s.pc q).owns
        else (s.pc q).owns := by
    cases hc : s.code T p (s.pc p) with
    | locked b k =>
      obtain ⟨-, ⟨rfl, hK, -⟩ | ⟨rfl, hK, -⟩⟩ := code_locked hc
      · have hnone : o = none := by
          have := h.locked.symm.trans (h.knows p false (by rw [hK]; rfl))
          simpa using this
        have hq : (s.pc q).owns = false := by
          rw [Bool.eq_false_iff, ne_eq, h.owner q, hnone]
          exact nofun
        simp [Instr.owner, Instr.value, hq, eq_comm]
      have hp := (h.owner p).mp hK
      have hqp : o = some q ↔ q = p := by rw [hp, some.injEq, eq_comm]
      by_cases hq : q = p <;> simp [Instr.owner, Instr.value, h.owner q, hqp, hq]
    | _ => simp [Instr.owner, Instr.value, h.owner q]
  rw [hown]
  rcases step_pc hs q with ⟨rfl, hpc⟩ | ⟨hne, hpc⟩ <;> rw [hpc]
  · rw [if_pos rfl, code_owns]
  rw [if_neg hne]

lemma step_knows (q : π) (b : Bool) (hb : (s'.pc q).knows = some b) : s'.locked = b := by
  rw [(exec_data hs).2.1]
  rcases step_pc hs q with ⟨rfl, hpc⟩ | ⟨hne, hpc⟩ <;> rw [hpc] at hb
  · exact code_knows (h.wf q) (h.knows q) hb
  rw [← h.knows q b hb]
  cases hc : s.code T p (s.pc p) with
  | locked v k =>
    have hp := (h.holder p).mp (code_locked hc).1
    exact absurd (some.inj ((h.holder_of_knows hb).symm.trans hp)) hne
  | _ => rfl

lemma step_pid (q : π) (ho : (s.code T p (s.pc p)).owner p o = some q)
    (hq : s'.pc q ≠ .setPid) : s'.pid = T.pid q := by
  by_cases hc : ∃ v k, s.code T p (s.pc p) = .pid v k
  · obtain ⟨v, k, hc⟩ := hc
    rw [hc] at ho hs
    cases hs
    rcases code_pid hc with ⟨hK, rfl⟩ | hK
    · have hp := (h.owner p).mp (by rw [hK]; rfl)
      rw [← some.inj (hp.symm.trans ho)]
      rfl
    have hfree := h.locked.symm.trans (h.knows p false (by rw [hK]; rfl))
    rw [show o = some q from ho] at hfree
    cases hfree
  have hsame : s'.pid = s.pid :=
    (exec_data hs).2.2.1.resolve_right fun ⟨v, k, hv, _⟩ => hc ⟨v, k, hv⟩
  have hold : o = some q := by
    cases hc : s.code T p (s.pc p) with
    | locked b k =>
      rw [hc] at ho
      obtain ⟨-, ⟨rfl, -, rfl⟩ | ⟨rfl, -, -⟩⟩ := code_locked hc
      · cases ho
        exact absurd (by rw [(exec_data hs).1, hc, update_self]; rfl) hq
      cases ho
    | _ => rwa [hc] at ho
  rw [hsame]
  refine h.pid q hold fun hK => ?_
  rcases step_pc hs q with ⟨rfl, -⟩ | ⟨-, hpc⟩
  · exact hc ⟨_, _, by rw [hK]; rfl⟩
  exact hq (hpc.trans hK)

omit h in
lemma step_state (q : π) (hq : s'.state q = .sleeping) :
    s.state q = .sleeping ∨ q = p ∧ s.pc p = .sleepState ∧ s'.pc p = .sched := by
  rcases (exec_data hs).2.2.2.2.1 with hsame | ⟨r, v, k, hc, hupd⟩
  · exact .inl (by rwa [hsame] at hq)
  by_cases hr : q = r
  · rw [hupd, hr, update_self] at hq
    rw [hq] at hc
    obtain ⟨rfl, hK, rfl⟩ := code_sleeping hc
    exact .inr ⟨hr, hK, by rw [(exec_data hs).1, hc, update_self]; rfl⟩
  rw [hupd, update_of_ne hr] at hq
  exact .inl hq

lemma step_sleeping (hon : s.on p) (q : π) (hq : s'.state q = .sleeping) :
    s'.pc q = .sched ∨ s'.pc q = .sleepTidy ∧ s'.on q = false := by
  rcases step_state hs q hq with hold | ⟨rfl, -, hpc⟩
  · rcases step_pc hs q with ⟨rfl, -⟩ | ⟨hne, hpc⟩
    · rcases h.sleeping q hold with hK | ⟨-, hoff⟩
      · rw [hK] at hs
        cases hs
        simp [State.setPc]
      rw [hon] at hoff
      cases hoff
    · rw [hpc]
      refine (h.sleeping q hold).imp id fun ⟨hK, hoff⟩ => ⟨hK, ?_⟩
      rcases (exec_data hs).2.2.2.2.2 with hsame | ⟨k, -, hupd⟩
      · rwa [hsame]
      rwa [hupd, update_of_ne hne]
  exact .inl hpc

lemma step_chan (hon : s.on p) (q : π)
    (hq : s'.pc q = .sleepState ∨ s'.pc q = .sched ∨ s'.state q = .sleeping) :
    s'.chan q := by
  rcases step_pc hs q with ⟨rfl, hpc⟩ | ⟨hne, hpc⟩
  · -- only `sleep` leads here, and it has set the channel before
    obtain ⟨hchan, hstate, htidy⟩ := code_sleep (h.wf q)
    have hK : s.pc q = .sleepChan ∨ s.pc q = .sleepState ∨ s.pc q = .sched := by
      rcases hq with hq | hq | hq
      · exact .inl (hchan (hpc.symm.trans hq))
      · exact .inr (.inl (hstate (hpc.symm.trans hq)))
      rcases step_sleeping h hs hon q hq with hq | ⟨hq, -⟩
      · exact .inr (.inl (hstate (hpc.symm.trans hq)))
      exact .inr (.inr (htidy (hpc.symm.trans hq)))
    rcases hK with hK | hK | hK <;> rw [hK] at hs <;> cases hs
    · exact update_self ..
    · exact h.chan q (.inl hK)
    exact h.chan q (.inr (.inl hK))
  have hold : s'.chan q = s.chan q := by
    rcases (exec_data hs).2.2.2.1 with hsame | ⟨b, k, -, hupd⟩
    · rw [hsame]
    rw [hupd, update_of_ne hne]
  rw [hpc] at hq
  rw [hold]
  refine h.chan q (hq.imp id (.imp id fun hst => ?_))
  exact (step_state hs q hst).resolve_right fun he => hne he.1

lemma step_waits_back (hfree : s'.locked = false) (hq : s'.Waits q) : s.Waits q := by
  rcases hq with hf | hst
  · rcases step_pc hs q with ⟨rfl, hpc⟩ | ⟨-, hpc⟩ <;> rw [hpc] at hf
    · refine (code_falls (h.wf q) hf).elim .inl fun hK => ?_
      have hlocked := h.knows q true (by rw [hK]; rfl)
      rw [hK] at hs
      obtain ⟨-, rfl⟩ := exec_release hs
      rw [show s.locked = false from hfree] at hlocked
      cases hlocked
    exact .inl hf
  rcases step_state hs q hst with hold | ⟨rfl, hK, -⟩
  · exact .inr hold
  exact .inl (by rw [hK]; rfl)

lemma step_waits (hon : s.on p) (q : π) (hfree : s'.locked = false) (hq : s'.Waits q) :
    ∃ r, q ∈ (s'.pc r).remaining T.procs := by
  have hold := step_waits_back h hs hfree hq
  have hpc : s'.pc p = (s.code T p (s.pc p)).target := by rw [(exec_data hs).1, update_self]
  cases hl : s.locked with
  | true =>
    have hv := (exec_data hs).2.1
    rw [hfree, hl] at hv
    cases hc : s.code T p (s.pc p) with
    | locked b k =>
      rw [hc] at hpc hv
      obtain ⟨-, ⟨rfl, -⟩ | ⟨-, -, rfl⟩⟩ := code_locked hc
      · cases hv
      exact ⟨p, by rw [hpc]; exact T.mem q⟩
    | _ =>
      rw [hc] at hv
      cases hv
  | false =>
    obtain ⟨r, hr⟩ := h.waits q hl hold
    have hqr : q ≠ r := by
      rintro rfl
      exact h.not_mem_of_waits hold hr
    by_cases hrp : r = p
    · subst hrp
      rcases code_remaining hr with hmem | he | ⟨hhas, hw⟩
      · exact ⟨r, by rwa [hpc]⟩
      · exact absurd he hqr
      have hlock := h.has r q hon hhas
      have hnf : (s.pc q).falls ≠ true := fun hf => by
        have he := hlock.symm.trans (h.plock_of_falls hf)
        cases he
        exact hqr rfl
      have hst := hold.resolve_left hnf
      rcases hw with ⟨k, hc⟩ | hw
      · rw [hc] at hs
        cases hs
        rcases hq with hf | hq
        · exact absurd (by simpa [State.setPc, hqr] using hf) hnf
        simp [State.setPc] at hq
      exact absurd ⟨hst, h.chan q (.inr (.inr hst))⟩ hw
    refine ⟨r, ?_⟩
    rwa [(exec_data hs).1, update_of_ne hrp]
end Step
section
variable (h : Inv T o s)
include h

lemma step (hon : s.on p) (hs : s.exec p (s.code T p (s.pc p)) = some s') :
    Inv T ((s.code T p (s.pc p)).owner p o) s' where
  wf := step_wf h hs
  off := step_off h hs hon
  holder := step_holder h hs
  has := step_has h hs hon
  locked := step_locked h hs
  owner := step_owner h hs
  pid := step_pid h hs
  knows := step_knows h hs
  sleeping := step_sleeping h hs hon
  chan := step_chan h hs hon
  waits := step_waits h hs hon

lemma turn (hon : s.on p = true) (hK : (s.pc p).open = true) (hwf : k.Wf) (hin : k.inside = false)
    (hhas : k.has p = none) (howns : k.owns = (s.pc p).owns) (hknows : k.knows = none)
    (hfalls : k.falls = false) : Inv T o (s.setPc p k) := by
  have hfalse := Pc.open_false hK p
  have hout : s.holder ≠ some p := fun e => by
    have := (h.holder p).mpr e
    rw [hfalse.1] at this
    cases this
  have hold : ∀ q, (s.setPc p k).Waits q → s.Waits q := fun q hq => by
    refine hq.imp (fun hf => ?_) id
    by_cases hqp : q = p
    · rw [hqp, setPc_pc, update_self, hfalls] at hf
      cases hf
    rwa [setPc_pc, update_of_ne hqp] at hf
  have hback : ∀ (P : π → Pc π → Prop), P p k → (∀ q, q ≠ p → P q (s.pc q)) →
      ∀ q, P q ((s.setPc p k).pc q) := fun P hp hq =>
    (Function.forall_update_iff s.pc P).mpr ⟨hp, hq⟩
  constructor
  case wf => exact hback _ hwf fun q _ => h.wf q
  case off =>
    refine hback (fun q K => s.on q = false → K.resumes = true) (fun hoff => ?_) fun q _ => h.off q
    rw [hon] at hoff
    cases hoff
  case holder =>
    refine hback (fun q K => K.inside = true ↔ s.holder = some q) ?_ fun q _ => h.holder q
    simp [hin, hout]
  case has =>
    refine hback (fun q K => ∀ r, s.on q = true → K.has q = some r → s.plock r = some (.proc q))
      (fun r _ hr => ?_) fun q _ => h.has q
    rw [hhas] at hr
    cases hr
  case locked => exact h.locked
  case owner =>
    refine hback (fun q K => K.owns = true ↔ o = some q) ?_ fun q _ => h.owner q
    rw [howns]
    exact h.owner p
  case pid =>
    refine hback (fun q K => o = some q → K ≠ .setPid → s.pid = T.pid q) (fun ho _ => ?_)
      fun q _ => h.pid q
    refine h.pid p ho fun e => ?_
    rw [e] at hK
    cases hK
  case knows =>
    refine hback (fun q K => ∀ b, K.knows = some b → s.locked = b) (fun b hb => ?_)
      fun q _ => h.knows q
    rw [hknows] at hb
    cases hb
  case sleeping =>
    refine hback (fun q K => s.state q = .sleeping → K = .sched ∨ K = .sleepTidy ∧ s.on q = false)
      (fun hst => ?_) fun q _ => h.sleeping q
    exact absurd hst (h.not_sleeping hon hK)
  case chan =>
    refine hback (fun q K => K = .sleepState ∨ K = .sched ∨ s.state q = .sleeping →
      s.chan q = true) (fun hp => ?_) fun q _ => h.chan q
    rcases hp with rfl | rfl | hst
    · cases hfalls
    · cases hfalls
    exact absurd hst (h.not_sleeping hon hK)
  case waits =>
    intro q hfree hq
    obtain ⟨r, hr⟩ := h.waits q hfree (hold q hq)
    have hrp : r ≠ p := by
      rintro rfl
      have := Pc.inside_of_mem hr
      rw [hfalse.1] at this
      cases this
    exact ⟨r, by rwa [setPc_pc, update_of_ne hrp]⟩

lemma plock {v : Option (Holder π)} (hq : ∀ p, s.plock q ≠ some (.proc p)) :
    Inv T o { s with plock := update s.plock q v } :=
  { h with
    has := fun p r hon hr => by
      have hold := h.has p r hon hr
      have hrq : r ≠ q := by
        rintro rfl
        exact hq p hold
      exact (update_of_ne hrq ..).trans hold }

lemma run (hother : s.plock q = some .other) : Inv T o { s with
      state := update s.state q .running
      on := update s.on q true
      plock := update s.plock q (some (.proc q)) } := by
  have hback : ∀ r, update s.state q .running r = .sleeping →
      r ≠ q ∧ s.state r = .sleeping := fun r hr => by
    by_cases hrq : r = q
    · rw [hrq, update_self] at hr
      cases hr
    exact ⟨hrq, by rwa [update_of_ne hrq] at hr⟩
  have hne : ∀ {p r}, s.plock r = some (.proc p) → r ≠ q := fun hr e => by
    rw [e, hother] at hr
    cases hr
  have hon : ∀ {r}, r ≠ q → update s.on q true r = s.on r := fun hr => update_of_ne hr ..
  exact { h with
    off := fun r hr => by
      by_cases hrq : r = q
      · simp [hrq] at hr
      exact h.off r ((hon hrq).symm.trans hr)
    has := fun p r hp' hr => by
      by_cases hp : s.on p
      · have hold := h.has p r hp hr
        exact (update_of_ne (hne hold) ..).trans hold
      have hpq : p = q := by
        by_contra hpq
        exact hp ((hon hpq).symm.trans hp')
      have hown := Pc.has_of_resumes (p := p) (h.off p (Bool.eq_false_iff.mpr hp))
      rw [some.inj (hr.symm.trans hown), hpq]
      exact update_self ..
    sleeping := fun r hr => by
      obtain ⟨hrq, hst⟩ := hback r hr
      exact (h.sleeping r hst).imp id fun ⟨hK, hoff⟩ => ⟨hK, (hon hrq).trans hoff⟩
    chan := fun r hr => h.chan r (hr.imp id (.imp id fun hst => (hback r hst).2))
    waits := fun r hfree hr => h.waits r hfree (hr.imp id fun hst => (hback r hst).2) }

lemma next {a : Label π} (ha : Sleeplock.next T s a = some s') : ∃ o', Inv T o' s' := by
  cases a with
  | step p =>
    simp only [Sleeplock.next, ite_none_right_eq_some] at ha
    exact ⟨_, h.step ha.1 ha.2⟩
  | holding p =>
    simp only [Sleeplock.next, ite_none_right_eq_some, some.injEq] at ha
    obtain ⟨⟨hon, hK⟩, rfl⟩ := ha
    exact ⟨o, h.turn hon (Pc.wf_of_open hK).1 hK rfl rfl rfl rfl rfl⟩
  | interrupt p =>
    simp only [Sleeplock.next, ite_none_right_eq_some, some.injEq] at ha
    obtain ⟨⟨hon, hK⟩, rfl⟩ := ha
    exact ⟨o, h.turn hon hK ⟨hK, h.wf p⟩ rfl rfl rfl rfl rfl⟩
  | lock q =>
    simp only [Sleeplock.next, ite_none_right_eq_some, some.injEq] at ha
    obtain ⟨hfree, rfl⟩ := ha
    exact ⟨o, h.plock fun p e => by rw [hfree] at e; cases e⟩
  | unlock q =>
    simp only [Sleeplock.next, ite_none_right_eq_some, some.injEq] at ha
    obtain ⟨hother, rfl⟩ := ha
    exact ⟨o, h.plock fun p e => by rw [hother] at e; cases e⟩
  | kill q =>
    simp only [Sleeplock.next, ite_none_right_eq_some, some.injEq] at ha
    obtain ⟨-, rfl⟩ := ha
    have hback : ∀ r, update s.state q .runnable r = .sleeping →
        s.state r = .sleeping := fun r hr => by
      by_cases hrq : r = q
      · rw [hrq, update_self] at hr
        cases hr
      rwa [update_of_ne hrq] at hr
    exact ⟨o, { h with
      sleeping := fun r hr => h.sleeping r (hback r hr)
      chan := fun r hr => h.chan r (hr.imp id (.imp id (hback r)))
      waits := fun r hfree hr => h.waits r hfree (hr.imp id (hback r)) }⟩
  | run q =>
    simp only [Sleeplock.next, ite_none_right_eq_some, some.injEq] at ha
    obtain ⟨⟨hother, -⟩, rfl⟩ := ha
    exact ⟨o, h.run hother⟩
end
end Inv

lemma inv_of_run {as : List (Label π)} (hr : Lib.run (next T) init as = some s) :
    ∃ o, Inv T o s := by
  have hstep : ∀ t a t', (∃ o, Inv T o t) → next T t a = some t' → ∃ o, Inv T o t' :=
    fun t a t' ⟨o, h⟩ ha => h.next ha
  exact Lib.run_invariant hstep ⟨none, inv_init⟩ hr

theorem acquiresleep_excludes (T : Table π) (as : List (Label π)) (s : State π)
    (hr : Lib.run (next T) init as = some s) :
    (∀ p q, (s.pc p).holds → (s.pc q).holds → p = q) ∧
      (∀ p, (s.pc p).holds → s.pid = T.pid p) ∧
      (s.holder = none → (∃ p, s.state p = .sleeping ∧ s.chan p) → s.locked) := by
  obtain ⟨o, h⟩ := inv_of_run hr
  have howner : ∀ p, (s.pc p).holds → o = some p := fun p hp =>
    (h.owner p).mp (Pc.owns_of_holds hp)
  refine ⟨fun p q hp hq => ?_, fun p hp => ?_, fun hfree ⟨p, hst, _⟩ => ?_⟩
  · exact some.inj ((howner p hp).symm.trans (howner q hq))
  · refine h.pid p (howner p hp) fun hK => ?_
    rw [hK] at hp
    cases hp
  by_contra hlocked
  obtain ⟨q, hq⟩ := h.waits p (Bool.eq_false_iff.mpr hlocked) (.inr hst)
  have hholder := (h.holder q).mp (Pc.inside_of_mem hq)
  rw [hfree] at hholder
  cases hholder

def pair : Table (Fin 2) :=
  { procs := [0, 1]
    mem := by decide
    pid := fun p => p + 1 }

def pairTrace : List (Label (Fin 2)) :=
  ([.lock 0, .run 0] : List (Label _)) ++ (List.replicate 7 (.step 0) : List (Label _)) ++
    ([.lock 1, .run 1] : List (Label _)) ++ (List.replicate 9 (.step 1) : List (Label _)) ++
    ([.unlock 1] : List (Label _))

theorem acquiresleep_excludes_pair :
    ∃ s, Lib.run (next pair) init pairTrace = some s ∧ (s.pc 0).holds ∧
      s.pid = pair.pid 0 ∧ s.holder = none ∧ s.state 1 = .sleeping ∧ s.locked := by
  obtain ⟨s, hs, hholds, hfree, hst, hchan⟩ : ∃ s, Lib.run (next pair) init pairTrace = some s ∧
      (s.pc 0).holds ∧ s.holder = none ∧ s.state 1 = .sleeping ∧ s.chan 1 :=
    Lib.exists_of_any (by decide +kernel)
  obtain ⟨-, hpid, hlocked⟩ := acquiresleep_excludes pair pairTrace s hs
  exact ⟨s, hs, hholds, hpid 0 hholds, hfree, hst, hlocked hfree ⟨1, hst, hchan⟩⟩
end Xv6.Sleeplock
