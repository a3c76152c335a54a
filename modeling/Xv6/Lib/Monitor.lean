import Xv6.Lib.Machine

namespace Xv6.Lib.Monitor
open Function

inductive Cmd (σ κ χ ε : Type) where
  | act (f : ε → σ → σ × κ)
  | killed (yes no : κ)
  | wakeup (c : χ) (k : κ)
  | sleep (c : χ) (k : κ)
  | ret (v : Int)
  | die

namespace Cmd
variable {σ τ κ κ' χ χ' ε : Type}

def lift (get : τ → σ) (set : σ → τ → τ) (loc : κ → κ') (chan : χ → χ') :
    Cmd σ κ χ ε → Cmd τ κ' χ' ε
  | .act f => .act fun e d => (set (f e (get d)).1 d, loc (f e (get d)).2)
  | .killed yes no => .killed (loc yes) (loc no)
  | .wakeup c k => .wakeup (chan c) (loc k)
  | .sleep c k => .sleep (chan c) (loc k)
  | .ret v => .ret v
  | .die => .die

def Keeps (R : κ → Prop) : Cmd σ κ χ ε → Prop
  | .act f => ∀ e d, R (f e d).2
  | .killed yes no => R yes ∧ R no
  | .wakeup _ k => R k
  | _ => True

lemma Keeps.of_forall {R : κ → Prop} (hR : ∀ k, R k) (c : Cmd σ κ χ ε) : c.Keeps R := by
  cases c with
  | act f => exact fun e d => hR _
  | killed yes no => exact ⟨hR _, hR _⟩
  | wakeup c k => exact hR k
  | sleep _ _ | ret _ | die => trivial

variable {get : τ → σ} {set : σ → τ → τ} {loc : κ → κ'} {chan : χ → χ'} {c : Cmd σ κ χ ε}

lemma Keeps.lift {R : κ' → Prop} (h : c.Keeps fun k => R (loc k)) :
    (c.lift get set loc chan).Keeps R := by
  cases c with
  | act f => exact fun e d => h e (get d)
  | killed _ _ | wakeup _ _ => exact h
  | sleep _ _ | ret _ | die => trivial

def Arms (armed : κ → σ → Bool) (k : κ) : Cmd σ κ χ ε → Prop
  | .act f => ∀ e d, armed (f e d).2 (f e d).1 → armed k d
  | .killed yes _ => ∀ d, armed yes d = false
  | .wakeup _ k' => ∀ d, armed k' d → armed k d
  | .sleep _ k' => ∀ d, armed k d ∧ armed k' d = false
  | _ => True

lemma Arms.lift {armed : κ → σ → Bool} {armed' : κ' → τ → Bool} {k : κ} (h : c.Arms armed k)
    (harmed : ∀ k d, armed' (loc k) d = armed k (get d)) (hget : ∀ x d, get (set x d) = x) :
    (c.lift get set loc chan).Arms armed' (loc k) := by
  cases c with
  | act f =>
    intro e d harm
    rw [harmed, hget] at harm
    rw [harmed]
    exact h e (get d) harm
  | killed yes no => exact fun d => (harmed yes d).trans (h (get d))
  | wakeup c k' =>
    intro d harm
    rw [harmed] at harm ⊢
    exact h (get d) harm
  | sleep c k' =>
    intro d
    rw [harmed, harmed]
    exact h (get d)
  | ret _ | die => trivial

lemma lift_eq_act {f : ε → τ → τ × κ'} (h : c.lift get set loc chan = .act f) (e : ε) (d : τ) :
    ∃ x, (f e d).1 = set x d := by
  cases c <;> cases h
  exact ⟨_, rfl⟩
end Cmd

inductive Phase where
  | running
  | runnable
  | sleeping
  | dead
  deriving DecidableEq

inductive Status (π κ χ : Type) where
  | idle
  | enter (k : κ)
  | on (k : κ)
  | waking (c : χ) (rest : List π) (k : κ)
  | asleep (k : κ)
  deriving DecidableEq

namespace Status
variable {π κ χ : Type}

def inside : Status π κ χ → Option κ
  | .on k | .waking _ _ k => some k
  | _ => none
end Status

/-- The code of the processes under locks. -/
structure Program (π σ κ χ ε l : Type) where
  code : π → κ → Cmd σ κ χ ε
  lock : κ → l
  entry : π → κ → Bool
  procs : List π

structure State (π σ κ χ l : Type) where
  data : σ
  holder : l → Option π
  phase : π → Phase
  chan : π → Option χ
  killed : π → Bool
  status : π → Status π κ χ

inductive Label (π κ ε : Type) where
  | call (p : π) (k : κ)
  | acquire (p : π)
  | step (p : π) (e : ε)
  | run (p : π)
  | yield (p : π)
  | kill (p : π)

variable {π σ κ χ ε l : Type} [DecidableEq π] [DecidableEq χ] [DecidableEq l]

namespace State
@[simps] def start (d : σ) : State π σ κ χ l :=
  { data := d
    holder := fun _ => none
    phase := fun _ => .running
    chan := fun _ => none
    killed := fun _ => false
    status := fun _ => .idle }

section
variable (s : State π σ κ χ l)

@[simps] def setStatus (p : π) (v : Status π κ χ) : State π σ κ χ l :=
  { s with status := update s.status p v }

@[simps] def setPhase (p : π) (v : Phase) : State π σ κ χ l :=
  { s with phase := update s.phase p v }

@[simps] def setHolder (a : l) (v : Option π) : State π σ κ χ l :=
  { s with holder := update s.holder a v }

@[simps] def setChan (p : π) (v : Option χ) : State π σ κ χ l :=
  { s with chan := update s.chan p v }

@[simps] def setData (d : σ) : State π σ κ χ l := { s with data := d }

@[simps] def setKilled (p : π) : State π σ κ χ l :=
  { s with killed := update s.killed p true }

def wakeOne (p : π) (c : χ) (q : π) : State π σ κ χ l :=
  if q ≠ p ∧ s.phase q = .sleeping ∧ s.chan q = some c then s.setPhase q .runnable else s
end

variable {s : State π σ κ χ l} {p q : π}

omit [DecidableEq l] in
lemma wakeOne_eq {c : χ} : ∃ ph, s.wakeOne p c q = { s with phase := ph } ∧
    ∀ r, ph r = if r = q ∧ q ≠ p ∧ s.phase q = .sleeping ∧ s.chan q = some c then .runnable
      else s.phase r := by
  unfold wakeOne
  split
  · rename_i hc
    refine ⟨_, rfl, fun r => ?_⟩
    rw [update_apply]
    simp [hc]
  rename_i hc
  exact ⟨s.phase, rfl, fun r => by simp [hc]⟩
end State
namespace Program
variable (P : Program π σ κ χ ε l)

def exec (s : State π σ κ χ l) (p : π) (k : κ) (e : ε) : State π σ κ χ l :=
  match P.code p k with
  | .act f => (s.setStatus p (.on (f e s.data).2)).setData (f e s.data).1
  | .killed yes no => s.setStatus p (.on (if s.killed p then yes else no))
  | .wakeup c k' => s.setStatus p (.waking c P.procs k')
  | .sleep c k' =>
    (((s.setHolder (P.lock k) none).setPhase p .sleeping).setStatus p (.asleep k')).setChan p
      (some c)
  | .ret _ => (s.setHolder (P.lock k) none).setStatus p .idle
  | .die => ((s.setHolder (P.lock k) none).setPhase p .dead).setStatus p .idle

def resume (s : State π σ κ χ l) (p : π) : State π σ κ χ l :=
  match s.status p with
  | .asleep k => ((s.setPhase p .running).setStatus p (.enter k)).setChan p none
  | _ => s.setPhase p .running

def next (s : State π σ κ χ l) : Label π κ ε → Option (State π σ κ χ l)
  | .call p k =>
    match s.status p with
    | .idle =>
      if s.phase p = .running ∧ P.entry p k then some (s.setStatus p (.enter k)) else none
    | _ => none
  | .acquire p =>
    match s.status p with
    | .enter k =>
      if s.phase p = .running ∧ s.holder (P.lock k) = none then
        some ((s.setHolder (P.lock k) (some p)).setStatus p (.on k))
      else none
    | _ => none
  | .step p e =>
    if s.phase p = .running then
      match s.status p with
      | .on k => some (P.exec s p k e)
      | .waking c (q :: rest) k => some ((s.wakeOne p c q).setStatus p (.waking c rest k))
      | .waking _ [] k => some (s.setStatus p (.on k))
      | _ => none
    else none
  | .run p => if s.phase p = .runnable then some (resume s p) else none
  | .yield p =>
    if s.phase p = .running ∧ (s.status p).inside = none then some (s.setPhase p .runnable)
    else none
  | .kill p => some ((if s.phase p = .sleeping then s.setPhase p .runnable else s).setKilled p)

inductive Step (s : State π σ κ χ l) : Label π κ ε → State π σ κ χ l → Prop
  | call (p : π) (k : κ) (hst : s.status p = .idle) (hrun : s.phase p = .running)
      (hk : P.entry p k) : Step s (.call p k) (s.setStatus p (.enter k))
  | acquire (p : π) (k : κ) (hst : s.status p = .enter k) (hrun : s.phase p = .running)
      (hfree : s.holder (P.lock k) = none) :
    Step s (.acquire p) ((s.setHolder (P.lock k) (some p)).setStatus p (.on k))
  | act (p : π) (k : κ) (e : ε) (f : ε → σ → σ × κ) (hst : s.status p = .on k)
      (hrun : s.phase p = .running) (hc : P.code p k = .act f) :
    Step s (.step p e) ((s.setStatus p (.on (f e s.data).2)).setData (f e s.data).1)
  | killed (p : π) (k : κ) (e : ε) (yes no : κ) (hst : s.status p = .on k)
      (hrun : s.phase p = .running) (hc : P.code p k = .killed yes no) :
    Step s (.step p e) (s.setStatus p (.on (if s.killed p then yes else no)))
  | wakeup (p : π) (k : κ) (e : ε) (c : χ) (k' : κ) (hst : s.status p = .on k)
      (hrun : s.phase p = .running) (hc : P.code p k = .wakeup c k') :
    Step s (.step p e) (s.setStatus p (.waking c P.procs k'))
  | sleep (p : π) (k : κ) (e : ε) (c : χ) (k' : κ) (hst : s.status p = .on k)
      (hrun : s.phase p = .running) (hc : P.code p k = .sleep c k') :
    Step s (.step p e) ((((s.setHolder (P.lock k) none).setPhase p .sleeping).setStatus p
      (.asleep k')).setChan p (some c))
  | ret (p : π) (k : κ) (e : ε) (v : Int) (hst : s.status p = .on k)
      (hrun : s.phase p = .running) (hc : P.code p k = .ret v) :
    Step s (.step p e) ((s.setHolder (P.lock k) none).setStatus p .idle)
  | die (p : π) (k : κ) (e : ε) (hst : s.status p = .on k) (hrun : s.phase p = .running)
      (hc : P.code p k = .die) :
    Step s (.step p e) (((s.setHolder (P.lock k) none).setPhase p .dead).setStatus p .idle)
  | round (p : π) (c : χ) (q : π) (rest : List π) (k : κ) (e : ε)
      (hst : s.status p = .waking c (q :: rest) k) (hrun : s.phase p = .running) :
    Step s (.step p e) ((s.wakeOne p c q).setStatus p (.waking c rest k))
  | woken (p : π) (c : χ) (k : κ) (e : ε) (hst : s.status p = .waking c [] k)
      (hrun : s.phase p = .running) : Step s (.step p e) (s.setStatus p (.on k))
  | run (p : π) (hph : s.phase p = .runnable) (hst : ∀ k, s.status p ≠ .asleep k) :
    Step s (.run p) (s.setPhase p .running)
  | resume (p : π) (k : κ) (hph : s.phase p = .runnable) (hst : s.status p = .asleep k) :
    Step s (.run p) (((s.setPhase p .running).setStatus p (.enter k)).setChan p none)
  | yield (p : π) (hrun : s.phase p = .running) (hst : (s.status p).inside = none) :
    Step s (.yield p) (s.setPhase p .runnable)
  | kill (p : π) (hph : s.phase p ≠ .sleeping) :
    Step s (.kill p) (s.setKilled p)
  | rouse (p : π) (hph : s.phase p = .sleeping) :
    Step s (.kill p) ((s.setPhase p .runnable).setKilled p)

variable {P} {s s' : State π σ κ χ l} {a : Label π κ ε} {v : Status π κ χ}

lemma step_of_next (h : P.next s a = some s') : P.Step s a s' := by
  cases a with
  | call p k =>
    rw [next] at h
    split at h
    · rename_i hst
      split at h
      · rename_i hc
        cases h
        exact .call p k hst hc.1 hc.2
      cases h
    cases h
  | acquire p =>
    rw [next] at h
    split at h
    · rename_i k hst
      split at h
      · rename_i hc
        cases h
        exact .acquire p k hst hc.1 hc.2
      cases h
    cases h
  | step p e =>
    rw [next] at h
    split at h
    · rename_i hrun
      split at h
      · rename_i k hst
        cases h
        unfold exec
        split
        · rename_i f hc
          exact .act p k e f hst hrun hc
        · rename_i yes no hc
          exact .killed p k e yes no hst hrun hc
        · rename_i c k' hc
          exact .wakeup p k e c k' hst hrun hc
        · rename_i c k' hc
          exact .sleep p k e c k' hst hrun hc
        · rename_i v hc
          exact .ret p k e v hst hrun hc
        rename_i hc
        exact .die p k e hst hrun hc
      · rename_i c q rest k hst
        cases h
        exact .round p c q rest k e hst hrun
      · rename_i c k hst
        cases h
        exact .woken p c k e hst hrun
      cases h
    cases h
  | run p =>
    rw [next] at h
    split at h
    · rename_i hph
      cases h
      unfold resume
      split
      · rename_i k hst
        exact .resume p k hph hst
      rename_i hst
      exact .run p hph hst
    cases h
  | yield p =>
    rw [next] at h
    split at h
    · rename_i hc
      cases h
      exact .yield p hc.1 hc.2
    cases h
  | kill p =>
    rw [next] at h
    cases h
    split
    · rename_i hph
      exact .rouse p hph
    rename_i hph
    exact .kill p hph

def WellLocked (P : Program π σ κ χ ε l) : Prop :=
  ∀ p k, (P.code p k).Keeps fun k' => P.lock k' = P.lock k

def held (P : Program π σ κ χ ε l) (v : Status π κ χ) : Option l := v.inside.map P.lock

structure Mutex (P : Program π σ κ χ ε l) (s : State π σ κ χ l) : Prop where
  holder : ∀ p a, P.held (s.status p) = some a ↔ s.holder a = some p
  running : ∀ p, (s.status p).inside ≠ none → s.phase p = .running
  asleep : ∀ p, s.phase p = .sleeping → ∃ k, s.status p = .asleep k

structure Moves (p : π) (v : Status π κ χ) (s s' : State π σ κ χ l) : Prop where
  self : s'.status p = v
  other : ∀ q ≠ p, s'.status q = s.status q
  holder : s'.holder = s.holder
  phase : ∀ q, s'.phase q = s.phase q ∨ s.phase q = .sleeping ∧ s'.phase q = .runnable
  chan : s'.chan = s.chan

omit [DecidableEq χ] [DecidableEq l] in
lemma moves_setStatus {p : π} : Moves p v s (s.setStatus p v) :=
  ⟨by simp, fun q hq => by simp [hq], rfl, fun _ => .inl rfl, rfl⟩

omit [DecidableEq χ] [DecidableEq l] in
lemma moves_act {p : π} {d : σ} : Moves p v s ((s.setStatus p v).setData d) :=
  ⟨by simp, fun q hq => by simp [hq], rfl, fun _ => .inl rfl, rfl⟩

omit [DecidableEq l] in
lemma moves_round {p q : π} {c : χ} : Moves p v s ((s.wakeOne p c q).setStatus p v) := by
  obtain ⟨ph, hs, hph⟩ := State.wakeOne_eq (s := s) (p := p) (q := q) (c := c)
  rw [hs]
  refine ⟨by simp, fun r hr => by simp [hr], rfl, fun r => ?_, rfl⟩
  show ph r = _ ∨ _ ∧ ph r = _
  rw [hph]
  split
  · rename_i hc
    exact .inr ⟨by rw [hc.1]; exact hc.2.2.1, rfl⟩
  exact .inl rfl

namespace Mutex
omit [DecidableEq π] [DecidableEq χ] [DecidableEq l] in
lemma start {d : σ} : Mutex P (.start d) := ⟨fun _ _ => iff_of_false nofun nofun, nofun, nofun⟩

omit [DecidableEq π] [DecidableEq χ] [DecidableEq l] in
lemma eq_of_lock (h : Mutex P s) {p q : π} {k k' : κ} (hp : (s.status p).inside = some k)
    (hq : (s.status q).inside = some k') (hlock : P.lock k = P.lock k') : p = q := by
  have hholder := (h.holder p (P.lock k)).mp (by rw [held, hp]; rfl)
  have hholder' := (h.holder q (P.lock k)).mp (by rw [held, hq, hlock]; rfl)
  rw [hholder] at hholder'
  exact Option.some.inj hholder'

variable {p : π}

omit [DecidableEq χ] [DecidableEq l] in
lemma move {v : Status π κ χ} (h : Mutex P s) (hm : Moves p v s s')
    (hrun : s.phase p = .running) (hheld : P.held v = P.held (s.status p)) : Mutex P s' := by
  have hphase : ∀ q, s.phase q ≠ .sleeping → s'.phase q = s.phase q := fun q hq =>
    (hm.phase q).resolve_right (fun e => hq e.1)
  have hp : s'.phase p = .running := by rw [hphase p (by rw [hrun]; exact nofun), hrun]
  refine ⟨fun q a => ?_, fun q hq => ?_, fun q hq => ?_⟩
  · rw [hm.holder, ← h.holder]
    by_cases hqp : q = p
    · rw [hqp, hm.self, hheld]
    rw [hm.other q hqp]
  · by_cases hqp : q = p
    · rw [hqp]
      exact hp
    · rw [hm.other q hqp] at hq
      have hr := h.running q hq
      rw [hphase q (by rw [hr]; exact nofun), hr]
  have hqp : q ≠ p := by
    rintro rfl
    rw [hp] at hq
    cases hq
  have hold : s.phase q = .sleeping := by
    rcases hm.phase q with e | e
    · rw [← e, hq]
    exact e.1
  rw [hm.other q hqp]
  exact h.asleep q hold

omit [DecidableEq χ] in
lemma update {a : l} {v : Option π} (h : Mutex P s)
    (hother : ∀ q ≠ p, s'.status q = s.status q ∧ s'.phase q = s.phase q)
    (hholder : ∀ b, s'.holder b = if b = a then v else s.holder b)
    (hself : ∀ b, P.held (s'.status p) = some b ↔ b = a ∧ v = some p)
    (hold : ∀ b ≠ a, P.held (s.status p) ≠ some b)
    (hv : v = none ∨ v = some p) (hfree : ∀ q ≠ p, s.holder a ≠ some q)
    (hrun : (s'.status p).inside ≠ none → s'.phase p = .running)
    (hsleep : s'.phase p = .sleeping → ∃ k, s'.status p = .asleep k) : Mutex P s' := by
  refine ⟨fun q b => ?_, fun q hq => ?_, fun q hq => ?_⟩
  · rw [hholder]
    by_cases hqp : q = p
    · rw [hqp, hself]
      by_cases hb : b = a
      · simp [hb]
      simp only [hb, false_and, if_false, false_iff]
      exact fun e => hold b hb ((h.holder p b).mpr e)
    rw [(hother q hqp).1, h.holder]
    by_cases hb : b = a
    · rw [if_pos hb, hb]
      refine iff_of_false (hfree q hqp) ?_
      rcases hv with hv | hv
      · rw [hv]
        exact nofun
      rw [hv]
      exact fun e => hqp (Option.some.inj e).symm
    rw [if_neg hb]
  · by_cases hqp : q = p
    · rw [hqp] at hq ⊢
      exact hrun hq
    · rw [(hother q hqp).1] at hq
      rw [(hother q hqp).2]
      exact h.running q hq
  by_cases hqp : q = p
  · rw [hqp] at hq ⊢
    exact hsleep hq
  rw [(hother q hqp).2] at hq
  rw [(hother q hqp).1]
  exact h.asleep q hq

omit [DecidableEq χ] in
lemma leave {k : κ} {v : Status π κ χ} {t : Phase} (h : Mutex P s)
    (hst : s.status p = .on k) (hv : v.inside = none)
    (hother : ∀ q ≠ p, s'.status q = s.status q ∧ s'.phase q = s.phase q)
    (hself : s'.status p = v) (hph : s'.phase p = t)
    (hholder : ∀ b, s'.holder b = if b = P.lock k then none else s.holder b)
    (hsleep : t = .sleeping → ∃ k, v = .asleep k) : Mutex P s' := by
  have hheld : P.held (s.status p) = some (P.lock k) := by rw [hst]; rfl
  refine h.update hother hholder (fun b => ?_) (fun b hb e => ?_) (.inl rfl) (fun q hq e => ?_)
    (fun hin => ?_) (fun hs => ?_)
  · rw [hself, held, hv]
    simp
  · rw [hheld] at e
    exact hb (Option.some.inj e).symm
  · rw [(h.holder p _).mp hheld] at e
    exact hq (Option.some.inj e).symm
  · rw [hself] at hin
    exact absurd hv hin
  rw [hself]
  exact hsleep (hph ▸ hs)

lemma step (hP : P.WellLocked) (h : Mutex P s) (hs : P.Step s a s') : Mutex P s' := by
  cases hs with
  | call p k hst hrun hk
  | woken p c k e hst hrun => exact h.move moves_setStatus hrun (by rw [hst]; rfl)
  | acquire p k hst hrun hfree =>
    refine h.update (p := p) (a := P.lock k) (v := some p) (fun q hq => ⟨by simp [hq], rfl⟩)
      (fun b => by simp [update_apply]) (fun b => ?_) (fun b _ e => ?_) (.inr rfl)
      (fun q _ e => ?_) (fun _ => hrun) (fun hs => ?_)
    · simp [held, Status.inside, eq_comm]
    · rw [hst] at e
      cases e
    · rw [hfree] at e
      cases e
    simp [hrun] at hs
  | act p k e f hst hrun hc =>
    have hlock := hP p k
    rw [hc] at hlock
    exact h.move moves_act hrun (by rw [hst]; exact congrArg some (hlock e s.data))
  | killed p k e yes no hst hrun hc =>
    have hlock := hP p k
    rw [hc] at hlock
    refine h.move moves_setStatus hrun ?_
    rw [hst]
    split
    · exact congrArg some hlock.1
    exact congrArg some hlock.2
  | wakeup p k e c k' hst hrun hc =>
    have hlock := hP p k
    rw [hc] at hlock
    exact h.move moves_setStatus hrun (by rw [hst]; exact congrArg some hlock)
  | sleep p k e c k' hst hrun hc =>
    exact h.leave (v := .asleep k') hst rfl (fun q hq => by simp [hq]) (by simp) (by simp; rfl)
      (fun b => by simp [update_apply]) (fun _ => ⟨k', rfl⟩)
  | ret p k e v hst hrun hc =>
    exact h.leave (v := .idle) hst rfl (fun q hq => by simp [hq]) (by simp) hrun
      (fun b => by simp [update_apply]) nofun
  | die p k e hst hrun hc =>
    exact h.leave (v := .idle) (t := .dead) hst rfl (fun q hq => by simp [hq]) (by simp) (by simp)
      (fun b => by simp [update_apply]) nofun
  | round p c q rest k e hst hrun => exact h.move moves_round hrun (by rw [hst]; rfl)
  | run p hph hst =>
    refine ⟨h.holder, fun q hq => ?_, fun q hq => ?_⟩
    · by_cases hqp : q = p
      · simp [hqp]
      simpa [hqp] using h.running q hq
    by_cases hqp : q = p
    · simp [hqp] at hq
    exact h.asleep q (by simpa [hqp] using hq)
  | resume p k hph hst =>
    refine ⟨fun q a => ?_, fun q hq => ?_, fun q hq => ?_⟩
    · refine Iff.trans ?_ (h.holder q a)
      by_cases hqp : q = p
      · rw [hqp, hst]
        simp [held, Status.inside]
      simp [hqp]
    · by_cases hqp : q = p
      · simp [hqp]
      simpa [hqp] using h.running q (by simpa [hqp] using hq)
    by_cases hqp : q = p
    · simp [hqp] at hq
    simpa [hqp] using h.asleep q (by simpa [hqp] using hq)
  | yield p hrun hst =>
    refine ⟨h.holder, fun q hq => ?_, fun q hq => ?_⟩
    · have hqp : q ≠ p := by
        rintro rfl
        exact hq hst
      simpa [hqp] using h.running q hq
    by_cases hqp : q = p
    · simp [hqp] at hq
    exact h.asleep q (by simpa [hqp] using hq)
  | kill p hph => exact ⟨h.holder, h.running, h.asleep⟩
  | rouse p hph =>
    refine ⟨h.holder, fun q hq => ?_, fun q hq => ?_⟩
    · have hr := h.running q hq
      have hqp : q ≠ p := by
        rintro rfl
        rw [hph] at hr
        cases hr
      simpa [hqp] using hr
    by_cases hqp : q = p
    · simp [hqp] at hq
    exact h.asleep q (by simpa [hqp] using hq)
end Mutex
end Program
end Xv6.Lib.Monitor
