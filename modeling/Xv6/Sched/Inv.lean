import Xv6.Sched.Kernel

namespace Xv6.Sched
variable {m n : Nat}

namespace Pc
def own : Pc n → Bool
  | .sleepRelease _ _ _ | .sleepChan _ _ _ | .sleepState _ _ _ | .sched _ | .swtch _
  | .sleepTidy _ _ _ | .sleepUnlock _ _ | .yieldState _ | .yieldRelease _ | .forkret
  | .exitState | .exitUnlock | .zombie | .waitKilledRelease => true
  | _ => false

def other : Pc n → Option (Fin n)
  | .wakeTest _ q _ _ | .wakeSet _ q _ _ | .wakeRelease _ q _ _
  | .waitTest q _ | .waitFree q | .waitRelease q
  | .forkTest q _ | .forkUsed q | .forkContext q | .forkFree q | .forkFail q | .forkRelease q
  | .forkRun q | .forkUnlock q
  | .scanTest q _ | .scanRun q _ | .scanProc q _ | .scanSwtch q _ | .scanBack q _
  | .scanDone q _ | .scanRelease q _ => some q
  | _ => none

def handed : Pc n → Option (Fin n)
  | .scanSwtch q _ | .scanBack q _ => some q
  | _ => none

def picked : Pc n → Option (Fin n)
  | .scanProc q _ | .scanSwtch q _ => some q
  | _ => none

def forks : Pc n → Option (Fin n)
  | .forkRelease q | .forkWait q | .forkParent q | .forkUnwait q | .forkLock q | .forkRun q =>
    some q
  | .intr k | .sleepAcquire _ _ k | .sleepRelease _ _ k | .sleepChan _ _ k | .sleepState _ _ k
  | .sched k | .swtch k | .sleepTidy _ _ k | .sleepUnlock _ k | .sleepReacquire _ k
  | .wakeLoop _ _ k | .wakeTest _ _ _ k | .wakeSet _ _ _ k | .wakeRelease _ _ _ k
  | .yieldAcquire k | .yieldState k | .yieldRelease k => k.forks
  | _ => none

def plain : Pc n → Bool
  | .sleepAcquire _ _ _ | .sleepRelease _ _ _ | .sleepChan _ _ _ | .sleepState _ _ _ | .sched _
  | .swtch _ | .exitUnlock | .zombie | .wakeSet _ _ _ _ | .waitFree _ | .forkUsed _
  | .forkContext _ | .forkFree _ | .scanRun _ _ | .scanProc _ _ | .scanSwtch _ _
  | .scanBack _ _ => false
  | _ => true

def safe (k : Pc n) : Bool := !k.own && k.other.isNone && k.plain

def resumes : Pc n → Bool
  | .sleepTidy _ _ _ | .yieldRelease _ | .forkret => true
  | _ => false

def WF : Pc n → Prop
  | .sleepAcquire _ lk k | .sleepRelease _ lk k | .sleepChan _ lk k | .sleepState _ lk k
  | .sleepTidy _ lk k | .sleepUnlock lk k | .sleepReacquire lk k =>
    lk.cond ∧ k.safe ∧ k.WF
  | .intr k | .wakeLoop _ _ k | .wakeTest _ _ _ k | .wakeSet _ _ _ k | .wakeRelease _ _ _ k
  | .yieldAcquire k | .yieldState k | .yieldRelease k => k.safe ∧ k.WF
  | .sched r | .swtch r => r.WF
  | _ => True

def bySched : Pc n → Bool
  | .home | .scanLoop _ | .scanTest _ _ | .scanRun _ _ | .scanProc _ _ | .scanSwtch _ _
  | .scanBack _ _ | .scanDone _ _ | .scanRelease _ _ => true
  | .intr k | .wakeLoop _ _ k | .wakeTest _ _ _ k | .wakeSet _ _ _ k | .wakeRelease _ _ _ k =>
    k.bySched
  | _ => false

variable {k : Pc n}

lemma own_of_other {q : Fin n} (h : k.other = some q) : k.own = false := by
  cases k <;> first | rfl | cases h

lemma own_of_resumes (h : k.resumes) : k.own := by cases k <;> first | rfl | cases h
lemma plain_of_resumes (h : k.resumes) : k.plain := by cases k <;> first | rfl | cases h

section
variable (h : k.safe)
include h

lemma plain_of_safe : k.plain := by
  simp only [safe, Bool.and_eq_true] at h
  exact h.2

lemma own_of_safe : k.own = false := by
  simp only [safe, Bool.and_eq_true, Bool.not_eq_true'] at h
  exact h.1.1

lemma other_of_safe : k.other = none := by
  simp only [safe, Bool.and_eq_true, Option.isNone_iff_eq_none] at h
  exact h.1.2

lemma handed_of_safe : k.handed = none := by cases k <;> first | rfl | cases h
lemma picked_of_safe : k.picked = none := by cases k <;> first | rfl | cases h
end

lemma safe_of_bySched (h : k.bySched) (hk : k.other = none) : k.safe := by
  cases k <;> first | rfl | (cases h; done) | cases hk
end Pc

def plock (t : Thread m n) (k : Pc n) : Option (Fin n) :=
  match t with
  | .proc p => if k.own then some p else k.other
  | .sched _ => k.other

lemma plock_of_safe {t : Thread m n} {k : Pc n} (h : k.safe) : plock t k = none := by
  cases t with
  | sched c => exact Pc.other_of_safe h
  | proc p =>
    simp only [plock, Pc.own_of_safe h]
    exact Pc.other_of_safe h

namespace State
variable (s : State m n)

def Off (p : Fin n) : Prop := ∀ c, s.exec c ≠ .proc p
def NoFork (q : Fin n) : Prop := ∀ t, (s.pc t).forks ≠ some q

/-- What holds of a process that a CPU executes. -/
def On (c : Fin m) (p : Fin n) (k : Pc n) : Prop :=
  match k with
  | .sleepAcquire _ lk _ | .sleepRelease _ lk _ => s.state p = .running ∧ s.holder lk = some c
  | .sleepChan _ lk _ => s.state p = .running ∧ s.holder lk ≠ some c
  | .sleepState ch lk _ => s.state p = .running ∧ s.holder lk ≠ some c ∧ s.chan p = some ch
  | .sched (.sleepTidy ch lk _) | .swtch (.sleepTidy ch lk _) =>
    s.state p = .sleeping ∧ s.holder lk ≠ some c ∧ s.chan p = some ch
  | .sched (.yieldRelease _) | .swtch (.yieldRelease _) => s.state p = .runnable
  | .sched .zombie | .swtch .zombie | .exitUnlock => s.state p = .zombie
  | .sched _ | .swtch _ | .zombie => False
  | _ => s.state p = .running

/-- What the code knows at a program point. -/
def Ann (k : Pc n) : Prop :=
  match k with
  | .wakeSet ch q _ _ => s.state q = .sleeping ∧ s.chan q = some ch
  | .waitFree q => s.state q = .zombie
  | .forkUsed q => s.state q = .unused
  | .forkContext q | .forkFree q => s.state q = .used ∧ s.NoFork q
  | .scanRun q _ => s.state q = .runnable
  | .scanProc q _ | .scanSwtch q _ => s.state q = .running ∧ s.Off q
  | .scanBack q _ => s.state q ≠ .running ∧ s.Off q
  | _ => True

/-- What holds of a process that no CPU executes. -/
def Parked (p : Fin n) (k : Pc n) : Prop :=
  match s.state p with
  | .unused | .used | .zombie => True
  | .sleeping => ∃ ch lk k', k = .sleepTidy ch lk k' ∧ s.chan p = some ch
  | .runnable => k.resumes
  | .running => k.resumes ∧ ∃ c, s.exec c = .sched c ∧ (s.pc (.sched c)).picked = some p

structure Base : Prop where
  held : ∀ c l, s.holder l = some c ↔ l ∈ s.held c
  nodup : ∀ c, (s.held c).Nodup
  wf : ∀ t, (s.pc t).WF
  sched : ∀ c, (s.pc (.sched c)).bySched

/-- The invariant of every run. -/
structure Inv : Prop where
  base : s.Base
  sched : ∀ c c', s.exec c = .sched c' → c' = c
  inj : ∀ c c' p, s.exec c = .proc p → s.exec c' = .proc p → c = c'
  lock : ∀ c q, s.holder (.proc q) = some c ↔ plock (s.exec c) (s.pc (s.exec c)) = some q
  cur : ∀ c p, s.exec c = .proc p → s.proc c = some p ∧ ∃ rest, s.pc (.sched c) = .scanBack p rest
  hand : ∀ c, s.exec c = .sched c → s.proc c = (s.pc (.sched c)).handed
  on : ∀ c p, s.exec c = .proc p → s.On c p (s.pc (.proc p))
  off : ∀ p, s.Off p → s.Parked p (s.pc (.proc p))
  ann : ∀ c, s.Ann (s.pc (s.exec c))
  forks : ∀ t q, (s.pc t).forks = some q → s.state q = .used ∧ s.pc (.proc q) = .forkret
  fork : ∀ t t' q, (s.pc t).forks = some q → (s.pc t').forks = some q → t = t'

variable {s} {s' : State m n} {c : Fin m} {p q : Fin n} {k : Pc n}

lemma on_of_plain (hk : k.plain) : s.On c p k ↔ s.state p = .running := by
  cases k <;> first | rfl | cases hk

lemma on_of_other (hk : k.other = some q) : s.On c p k ↔ s.state p = .running := by
  cases k <;> first | rfl | cases hk

lemma ann_of_plain (hk : k.plain) : s.Ann k := by cases k <;> trivial

lemma On.congr (h : s.On c p k) (hstate : s'.state p = s.state p) (hchan : s'.chan p = s.chan p)
    (hholder : ∀ l, s'.holder l = some c ↔ s.holder l = some c) : s'.On c p k := by
  unfold On at h ⊢
  simp only [hstate, hchan, hholder, ne_eq] at h ⊢
  exact h

lemma On.running (h : s.On c p k) (hk : k.own = false) : s.state p = .running := by
  cases k <;> first | exact h | exact h.1 | cases hk

lemma On.state_ne (h : s.On c p k) : s.state p ≠ .used ∧ s.state p ≠ .unused := by
  unfold On at h
  split at h <;> simp_all

lemma Ann.congr (h : s.Ann k) (hcell : ∀ q, k.other = some q → s'.state q = s.state q ∧
      s'.chan q = s.chan q) (hoff : ∀ q, k.other = some q → s.Off q → s'.Off q)
    (hfork : ∀ q, k.other = some q → s.NoFork q → s'.NoFork q) : s'.Ann k := by
  cases k with
  | wakeSet ch q rest k =>
    obtain ⟨hstate, hchan⟩ := hcell q rfl
    exact ⟨hstate.trans h.1, hchan.trans h.2⟩
  | waitFree q | forkUsed q | scanRun q rest => exact (hcell q rfl).1.trans h
  | forkContext q | forkFree q => exact ⟨(hcell q rfl).1.trans h.1, hfork q rfl h.2⟩
  | scanProc q rest | scanSwtch q rest => exact ⟨(hcell q rfl).1.trans h.1, hoff q rfl h.2⟩
  | scanBack q rest =>
    refine ⟨?_, hoff q rfl h.2⟩
    rw [(hcell q rfl).1]
    exact h.1
  | _ => trivial

lemma parked_sleeping {ch : Chan n} {lk : Lock n} (hstate : s.state p = .sleeping)
    (hchan : s.chan p = some ch) : s.Parked p (.sleepTidy ch lk k) := by
  unfold Parked
  rw [hstate]
  exact ⟨ch, lk, k, rfl, hchan⟩

lemma parked_runnable (hstate : s.state p = .runnable) (hk : k.resumes) : s.Parked p k := by
  unfold Parked
  rwa [hstate]

lemma parked_zombie (hstate : s.state p = .zombie) : s.Parked p k := by
  unfold Parked
  rw [hstate]
  trivial

lemma parked_used (hstate : s.state p = .used) : s.Parked p k := by
  unfold Parked
  rw [hstate]
  trivial

lemma parked_unused (hstate : s.state p = .unused) : s.Parked p k := by
  unfold Parked
  rw [hstate]
  trivial

lemma NoFork.setPc {t : Thread m n} (h : ∀ u ≠ t, (s.pc u).forks ≠ some q)
    (hk : k.forks ≠ some q) : (s.setPc t k).NoFork q := by
  intro u hu
  by_cases ht : u = t
  · rw [setPc_pc, ht, Function.update_self] at hu
    exact hk hu
  rw [setPc_pc, Function.update_of_ne ht] at hu
  exact h u ht hu

lemma Parked.congr (h : s.Parked p k) (hstate : s'.state p = s.state p)
    (hchan : s'.chan p = s.chan p)
    (hpick : ∀ c, s.exec c = .sched c → (s.pc (.sched c)).picked = some p →
      s'.exec c = .sched c ∧ (s'.pc (.sched c)).picked = some p) : s'.Parked p k := by
  unfold Parked at h ⊢
  rw [hstate, hchan]
  cases hst : s.state p <;> rw [hst] at h
  case running =>
    obtain ⟨hk, c, hc, hp⟩ := h
    exact ⟨hk, c, hpick c hc hp⟩
  all_goals exact h
end State
end Xv6.Sched
