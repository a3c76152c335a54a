import Xv6.Lib.Machine

namespace Xv6.Intr
open Function

inductive Panic
  | acquire
  | release
  | popInterruptible
  | popOff
  | schedLock
  | schedLocks
  | schedRunning
  | schedInterruptible

def Panic.inPopOff : Panic → Bool
  | .popInterruptible | .popOff => true
  | _ => false

inductive Item (ℓ : Type)
  | push
  | wait (l : ℓ)
  | lock (l : ℓ)
  deriving DecidableEq

inductive Stage
  | new
  | running
  | switched (intena : Bool)
  deriving DecidableEq

/-- `struct cpu`; `out` lists the calls to undo. -/
structure Cpu (π ℓ : Type) where
  noff : Int
  intena : Bool
  intr : Bool
  proc : Option π
  out : List (Item ℓ)

structure State (π κ ℓ : Type) where
  cpu : κ → Cpu π ℓ
  stage : π → Stage
  locked : ℓ → Option κ
  panicked : Option Panic

inductive Op (π ℓ : Type)
  | pushOff
  | popOff
  | acquire (l : ℓ)
  | take
  | release (l : ℓ)
  | intr (b : Bool)
  | swtch (p : π)
  | sched (running : Bool)
  | free (p : π)
  deriving DecidableEq

variable {π κ ℓ : Type} [DecidableEq π] [DecidableEq κ] [DecidableEq ℓ]

namespace Cpu
def pushOff (x : Cpu π ℓ) (i : Item ℓ) : Cpu π ℓ :=
  { x with
    intr := false
    intena := if x.noff = 0 then x.intr else x.intena
    noff := x.noff + 1
    out := i :: x.out }

def popOff (x : Cpu π ℓ) (i : Item ℓ) : Except Panic (Cpu π ℓ) :=
  if x.intr = true then throw .popInterruptible
  else if x.noff < 1 then throw .popOff
  else return { x with
    noff := x.noff - 1
    intr := if x.noff - 1 = 0 ∧ x.intena = true then true else x.intr
    out := x.out.erase i }
end Cpu
namespace State
section
variable (s : State π κ ℓ)

def panic (e : Panic) : State π κ ℓ := { s with panicked := some e }
def set (c : κ) (x : Cpu π ℓ) : State π κ ℓ := { s with cpu := update s.cpu c x }

def setStage (p : π) (g : Stage) : State π κ ℓ :=
  { s with stage := update s.stage p g }

def popOff (c : κ) (i : Item ℓ) : State π κ ℓ :=
  match (s.cpu c).popOff i with
  | .ok x => s.set c x
  | .error e => s.panic e

def acquire (c : κ) (l : ℓ) : State π κ ℓ :=
  let s := s.set c ((s.cpu c).pushOff (.wait l))
  if s.locked l = some c then s.panic .acquire else s

def release (c : κ) (l : ℓ) : State π κ ℓ :=
  if s.locked l ≠ some c then s.panic .release
  else { s with locked := update s.locked l none }.popOff c (.lock l)
end

def sched (plock : π → ℓ) (s : State π κ ℓ) (c : κ) (p : π) (running : Bool) : State π κ ℓ :=
  let x := s.cpu c
  if s.locked (plock p) ≠ some c then s.panic .schedLock
  else if x.noff ≠ 1 then s.panic .schedLocks
  else if running = true then s.panic .schedRunning
  else if x.intr = true then s.panic .schedInterruptible
  else (s.set c { x with proc := none }).setStage p (.switched x.intena)

def swtch (s : State π κ ℓ) (c : κ) (p : π) : Option (State π κ ℓ) :=
  let x := { s.cpu c with proc := some p }
  match s.stage p with
  | .new => some ((s.set c x).setStage p .running)
  | .switched b => some ((s.set c { x with intena := b }).setStage p .running)
  | .running => none
end State

def next (plock : π → ℓ) (s : State π κ ℓ) (a : κ × Op π ℓ) : Option (State π κ ℓ) :=
  let c := a.1
  let x := s.cpu c
  if s.panicked.isSome then none
  else match x.out, a.2 with
    | .wait l :: out, op =>
      if op = .take ∧ s.locked l = none then
        some ({ s with locked := update s.locked l (some c) }.set c { x with
          out := .lock l :: out })
      else none
    | _, .take => none
    | _, .pushOff => some (s.set c (x.pushOff .push))
    | out, .popOff => if .push ∈ out then some (s.popOff c .push) else none
    | _, .acquire l => some (s.acquire c l)
    | out, .release l => if .lock l ∈ out then some (s.release c l) else none
    | out, .intr b => if out = [] then some (s.set c { x with intr := b }) else none
    | out, .swtch p => if x.proc = none ∧ out = [.lock (plock p)] then s.swtch c p else none
    | out, .sched running =>
      match x.proc, out with
      | some p, [.lock _] => some (s.sched plock c p running)
      | _, _ => none
    | _, .free p =>
      match s.stage p with
      | .switched _ => some (s.setStage p .new)
      | _ => none

def boot (intena intr : κ → Bool) : State π κ ℓ where
  cpu c := ⟨0, intena c, intr c, none, []⟩
  stage _ := .new
  locked _ := none
  panicked := none

namespace Cpu
structure Ok (x : Cpu π ℓ) : Prop where
  off : 0 < x.noff → x.intr = false
  count : x.noff = x.out.length

structure Step (x y : Cpu π ℓ) : Prop where
  ok : y.Ok
  proc : y.proc = x.proc
  enter : x.out = [] → y.out ≠ [] → y.intena = x.intr
  nested : x.out ≠ [] → y.intena = x.intena
  leave : x.out ≠ [] → y.out = [] → y.intr = x.intena

variable {x : Cpu π ℓ} {i : Item ℓ}

omit [DecidableEq π] [DecidableEq ℓ]

lemma Ok.step_self (h : x.Ok) : x.Step x :=
  ⟨h, rfl, fun hn hne => absurd hn hne, fun _ => rfl, fun hne hn => absurd hn hne⟩

lemma Ok.step_pushOff (h : x.Ok) : x.Step (x.pushOff i) := by
  have hcount := h.count
  refine ⟨⟨fun _ => rfl, ?_⟩, rfl, fun hn _ => ?_, fun hne => ?_, fun _ hn => ?_⟩
  · exact congrArg (· + 1) hcount
  · exact if_pos (by rw [hcount, hn]; rfl)
  · exact if_neg (by simpa [hcount] using hne)
  cases hn

lemma Ok.popOff [DecidableEq ℓ] (h : x.Ok) (hi : i ∈ x.out) : ∃ y, x.popOff i = .ok y ∧
    x.Step y := by
  have hlen := List.length_erase_of_mem hi
  have hpos := List.length_pos_of_mem hi
  have hcount := h.count
  have hoff := h.off (by omega)
  refine ⟨_, by rw [Cpu.popOff, if_neg (by simp [hoff]), if_neg (by omega)]; rfl, ?_⟩
  refine ⟨⟨fun hpos' => ?_, ?_⟩, rfl, fun hn => ?_, fun _ => rfl, fun _ hn => ?_⟩
  · dsimp only at hpos' ⊢
    rw [if_neg (by omega), hoff]
  · dsimp only
    omega
  · rw [hn] at hi
    cases hi
  dsimp only at hn ⊢
  rw [hn, List.length_nil] at hlen
  have hzero : x.noff - 1 = 0 := by omega
  simp [hzero, hoff]

lemma Ok.step_take {j : Item ℓ} {out : List (Item ℓ)} (h : x.Ok) (ho : x.out = i :: out) :
    x.Step { x with out := j :: out } := by
  have hcount := h.count
  rw [ho] at hcount
  refine ⟨⟨h.off, hcount⟩, rfl, fun hn => ?_, fun _ => rfl, fun _ hn => ?_⟩
  · cases ho.symm.trans hn
  cases hn

lemma Ok.step_intr (h : x.Ok) (ho : x.out = []) (b : Bool) : x.Step { x with intr := b } := by
  have hcount := h.count
  rw [ho, List.length_nil] at hcount
  refine ⟨⟨fun hpos => ?_, h.count⟩, rfl, fun _ hne => absurd ho hne, fun _ => rfl,
    fun hne => absurd ho hne⟩
  dsimp only at hpos
  omega
end Cpu

inductive Step (c : κ) (cpu : κ → Cpu π ℓ) (stage : π → Stage) : (κ → Cpu π ℓ) → (π → Stage) → Prop
  | thread (y : Cpu π ℓ) (h : (cpu c).Step y) : Step c cpu stage (update cpu c y) stage
  | swtch (p : π) (b : Bool) (hc : (cpu c).proc = none) (hp : stage p ≠ .running)
      (hb : ∀ e, stage p = .switched e → b = e) :
      Step c cpu stage (update cpu c { cpu c with proc := some p, intena := b })
        (update stage p .running)
  | sched (p : π) (hc : (cpu c).proc = some p) (hout : (cpu c).out ≠ []) :
      Step c cpu stage (update cpu c { cpu c with proc := none })
        (update stage p (.switched (cpu c).intena))
  | free (p : π) (hp : stage p ≠ .running) : Step c cpu stage cpu (update stage p .new)

structure Inv (cpu : κ → Cpu π ℓ) (stage : π → Stage) : Prop where
  ok : ∀ c, (cpu c).Ok
  runs : ∀ c p, (cpu c).proc = some p → stage p = .running
  once : ∀ c c' p, (cpu c).proc = some p → (cpu c').proc = some p → c = c'

def Outstanding (p : π) (cpu : κ → Cpu π ℓ) (stage : π → Stage) : Prop :=
  stage p ≠ .new ∧ ∀ c, (cpu c).proc = some p → (cpu c).out ≠ []

instance [Fintype κ] (p : π) (cpu : κ → Cpu π ℓ) (stage : π → Stage) :
    Decidable (Outstanding p cpu stage) :=
  inferInstanceAs (Decidable (_ ∧ _))

structure Since (p : π) (b : Bool) (cpu : κ → Cpu π ℓ) (stage : π → Stage) : Prop where
  intena : ∀ c, (cpu c).proc = some p → (cpu c).intena = b
  saved : ∀ e, stage p = .switched e → e = b

variable {cpu cpu' : κ → Cpu π ℓ} {stage stage' : π → Stage} {c : κ} {p : π} {b : Bool}

section
omit [DecidableEq ℓ]

lemma Inv.step (h : Inv cpu stage) (hs : Step c cpu stage cpu' stage') : Inv cpu' stage' := by
  obtain ⟨hok, hruns, honce⟩ := h
  have hc := hok c
  cases hs with
  | thread y hy =>
    obtain ⟨hyok, hproc⟩ := hy
    refine ⟨?_, ?_, ?_⟩ <;> grind
  | swtch p b hn hp hb =>
    have hx : Cpu.Ok { cpu c with proc := some p, intena := b } := ⟨hc.off, hc.count⟩
    refine ⟨?_, ?_, ?_⟩ <;> grind
  | sched p hp hout =>
    have hx : Cpu.Ok { cpu c with proc := (none : Option π) } := ⟨hc.off, hc.count⟩
    refine ⟨?_, ?_, ?_⟩ <;> grind
  | free p hp => refine ⟨?_, ?_, ?_⟩ <;> grind

lemma Since.start (hi : Inv cpu stage) (hc : (cpu c).proc = some p) (hout : (cpu c).out = [])
    (ho : Outstanding p cpu' stage') (hs : Step c cpu stage cpu' stage') :
    Since p (cpu c).intr cpu' stage' := by
  obtain ⟨-, hruns, honce⟩ := hi
  obtain ⟨-, ho⟩ := ho
  cases hs with
  | thread y hy =>
    have hproc := hy.proc
    have henter := hy.enter
    constructor <;> grind
  | swtch q e hn => cases hn.symm.trans hc
  | sched q hq hne => exact absurd hout hne
  | free q hq => constructor <;> grind

lemma Since.step (h : Since p b cpu stage) (hi : Inv cpu stage) (ho : Outstanding p cpu stage)
    (ho' : Outstanding p cpu' stage') (hs : Step c cpu stage cpu' stage') :
    Since p b cpu' stage' := by
  obtain ⟨-, hruns, honce⟩ := hi
  obtain ⟨hold, hout⟩ := ho
  obtain ⟨hintena, hsaved⟩ := h
  cases hs with
  | thread y hy =>
    have hproc := hy.proc
    have hnested := hy.nested
    constructor <;> grind
  | swtch q e hn hq he =>
    have heb : q = p → e = b := by
      rintro rfl
      cases hg : stage q with
      | new => exact absurd hg hold
      | running => exact absurd hg hq
      | switched e' => rw [he e' hg, hsaved e' hg]
    constructor <;> grind
  | sched q hq hne => constructor <;> grind
  | free q hq =>
    obtain ⟨hnew, -⟩ := ho'
    constructor <;> grind

lemma Since.intr_eq (h : Since p b cpu stage) (ho : Outstanding p cpu stage)
    (hc : (cpu c).proc = some p) (hout : (cpu' c).out = [])
    (hs : Step c cpu stage cpu' stage') : (cpu' c).intr = b := by
  have hne := ho.2 c hc
  have hb := h.intena c hc
  cases hs with
  | thread y hy =>
    rw [update_self] at hout ⊢
    rw [hy.leave hne hout, hb]
  | swtch q e hn => cases hn.symm.trans hc
  | sched q hq =>
    rw [update_self] at hout
    exact absurd hout hne
  | free q hq => exact absurd hout hne

lemma Step.keep (h : (cpu c).Ok) : Step c cpu stage cpu stage := by
  have hstep : Step c cpu stage (update cpu c (cpu c)) stage := .thread _ h.step_self
  rwa [update_eq_self] at hstep
end

variable {plock : π → ℓ} {s t : State π κ ℓ} {op : Op π ℓ} {i : Item ℓ}

lemma popOff_step (h : Inv s.cpu s.stage) (hi : i ∈ (s.cpu c).out)
    (hnone : ∀ e ∈ s.panicked, e.inPopOff = false) :
    Step c s.cpu s.stage (s.popOff c i).cpu (s.popOff c i).stage ∧
      ∀ e ∈ (s.popOff c i).panicked, e.inPopOff = false := by
  obtain ⟨y, hy, hstep⟩ := (h.ok c).popOff hi
  rw [State.popOff, hy]
  exact ⟨.thread y hstep, hnone⟩

lemma next_step (h : Inv s.cpu s.stage) (hn : next plock s (c, op) = some t) :
    Step c s.cpu s.stage t.cpu t.stage ∧ ∀ e ∈ t.panicked, e.inPopOff = false := by
  have hok := h.ok c
  unfold next at hn
  dsimp only at hn
  split at hn
  · cases hn
  rename_i hp
  have hnone : ∀ e ∈ s.panicked, e.inPopOff = false := by simp_all
  split at hn
  · rename_i ho
    split at hn
    · cases hn
      exact ⟨.thread _ (hok.step_take ho), hnone⟩
    cases hn
  · cases hn
  · cases hn
    exact ⟨.thread _ hok.step_pushOff, hnone⟩
  · split at hn
    · cases hn
      exact popOff_step h ‹_› hnone
    cases hn
  · cases hn
    rw [State.acquire]
    split
    · exact ⟨.thread _ hok.step_pushOff, by simp [State.panic, Panic.inPopOff]⟩
    exact ⟨.thread _ hok.step_pushOff, hnone⟩
  · rename_i l _
    split at hn
    · cases hn
      rw [State.release]
      split
      · exact ⟨.keep hok, by simp [State.panic, Panic.inPopOff]⟩
      exact popOff_step (s := { s with locked := update s.locked l none }) h ‹_› hnone
    cases hn
  · split at hn
    · cases hn
      exact ⟨.thread _ (hok.step_intr ‹_› _), hnone⟩
    cases hn
  · split at hn
    · rename_i hg
      unfold State.swtch at hn
      split at hn
      · rename_i hg'
        cases hn
        exact ⟨.swtch _ _ hg.1 (by simp [hg']) (by simp [hg']), hnone⟩
      · rename_i hg'
        cases hn
        exact ⟨.swtch _ _ hg.1 (by simp [hg']) (by simp [hg']), hnone⟩
      cases hn
    cases hn
  · split at hn
    · rename_i p l hproc ho
      cases hn
      unfold State.sched
      dsimp only
      split_ifs
      all_goals try exact ⟨.keep hok, by simp [State.panic, Panic.inPopOff]⟩
      exact ⟨.sched p hproc (by simp [ho]), hnone⟩
    cases hn
  split at hn
  · rename_i hg
    cases hn
    exact ⟨.free _ (by simp [hg]), hnone⟩
  cases hn

def Safe (s : State π κ ℓ) : Prop := Inv s.cpu s.stage ∧ ∀ e ∈ s.panicked, e.inPopOff = false

omit [DecidableEq π] [DecidableEq κ] [DecidableEq ℓ] in
lemma safe_boot (intena intr : κ → Bool) : Safe (boot intena intr : State π κ ℓ) := by
  refine ⟨⟨fun c => ⟨?_, ?_⟩, ?_, ?_⟩, ?_⟩ <;> simp [boot]

lemma Safe.next {a : κ × Op π ℓ} (h : Safe s) (hn : next plock s a = some t) : Safe t := by
  obtain ⟨hstep, hpanic⟩ := next_step h.1 hn
  exact ⟨h.1.step hstep, hpanic⟩

lemma since_of_run {bs : List (κ × Op π ℓ)} (h : Safe s) (hs : Since p b s.cpu s.stage)
    (hout : Lib.Along (Intr.next plock) (fun w _ => Outstanding p w.cpu w.stage) s bs)
    (hr : Lib.run (Intr.next plock) s bs = some t) (hend : Outstanding p t.cpu t.stage) :
    Safe t ∧ Since p b t.cpu t.stage := by
  obtain ⟨ht, hsince⟩ := Lib.run_induction
    (I := fun w => Safe w ∧ (Outstanding p w.cpu w.stage → Since p b w.cpu w.stage))
    (fun w a w' hw ho hn => ⟨hw.1.next hn, fun ho' =>
      (hw.2 ho).step hw.1.1 ho ho' (next_step hw.1.1 hn).1⟩) ⟨h, fun _ => hs⟩ hout hr
  exact ⟨ht, hsince hend⟩

theorem interrupts_restored (plock : π → ℓ) (intena intr : κ → Bool) {as : List (κ × Op π ℓ)}
    (hr : Lib.run (next plock) (boot intena intr) as = some s) :
    (∀ c, 0 < (s.cpu c).noff → (s.cpu c).intr = false) ∧
      (∀ c, (s.cpu c).noff = (s.cpu c).out.length) ∧
      s.panicked ≠ some .popInterruptible ∧ s.panicked ≠ some .popOff ∧
      ∀ p c op t, (s.cpu c).proc = some p → (s.cpu c).out = [] → next plock s (c, op) = some t →
        Outstanding p t.cpu t.stage → ∀ bs u c' op' v,
        Lib.Along (next plock) (fun w _ => Outstanding p w.cpu w.stage) t bs →
        Lib.run (next plock) t bs = some u → Outstanding p u.cpu u.stage →
        (u.cpu c').proc = some p → next plock u (c', op') = some v → (v.cpu c').out = [] →
        (v.cpu c').intr = (s.cpu c).intr := by
  have h : Safe s := Lib.run_invariant (fun _ _ _ hs hn => hs.next hn) (safe_boot intena intr) hr
  refine ⟨fun c => (h.1.ok c).off, fun c => (h.1.ok c).count, fun he => ?_, fun he => ?_, ?_⟩
  · cases h.2 _ he
  · cases h.2 _ he
  intro p c op t hc hnil hcall ht bs u c' op' v halong hrun hu hc' hundo hv
  have hstart := Since.start h.1 hc hnil ht (next_step h.1 hcall).1
  obtain ⟨hsafe, hsince⟩ := since_of_run (h.next hcall) hstart halong hrun hu
  exact hsince.intr_eq hu hc' hv (next_step hsafe.1 hundo).1

def started : List (Bool × Op Unit Unit) :=
  [(true, .acquire ()), (true, .take), (true, .swtch ()), (true, .release ()), (true, .intr true)]

def moved : List (Bool × Op Unit Unit) :=
  [(true, .take), (true, .sched false), (true, .release ()), (false, .acquire ()), (false, .take),
    (false, .swtch ())]

theorem interrupts_restored_moved :
    ∃ s t u v, Lib.run (next id) (boot (fun _ => false) fun _ => false) started = some s ∧
      next id s (true, .acquire ()) = some t ∧ Lib.run (next id) t moved = some u ∧
      next id u (false, .release ()) = some v ∧ (v.cpu false).intr = (s.cpu true).intr :=
  ⟨_, _, _, _, rfl, rfl, rfl, rfl,
    (interrupts_restored id _ _ (rfl : Lib.run _ (boot _ _) started = some _)).2.2.2.2 ()
      true (.acquire ()) _ rfl rfl rfl (by decide) moved _ false (.release ()) _ (by decide) rfl
      (by decide) rfl rfl rfl⟩
end Xv6.Intr
