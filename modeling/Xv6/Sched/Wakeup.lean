import Xv6.Sched.Current

namespace Xv6.Sched
open Lib
open Function (update update_self update_of_ne)
variable {m n : Nat}

namespace Pc
def pre : Pc n → Bool
  | .sleepAcquire _ _ _ | .sleepRelease _ _ _ | .sleepChan _ _ _ | .sleepState _ _ _ => true
  | _ => false

def args : Pc n → Option (Chan n × Lock n)
  | .sleepAcquire ch lk _ | .sleepRelease ch lk _ | .sleepChan ch lk _ | .sleepState ch lk _
  | .sched (.sleepTidy ch lk _) | .swtch (.sleepTidy ch lk _) | .sleepTidy ch lk _ => some (ch, lk)
  | _ => none

variable {k : Pc n}

lemma pre_of_safe (h : k.safe) : k.pre = false := by cases k <;> first | rfl | cases h
lemma pre_of_resumes (h : k.resumes) : k.pre = false := by cases k <;> first | rfl | cases h

lemma cond_of_args {ch : Chan n} {lk : Lock n} (hwf : k.WF)
    (h : k.args = some (ch, lk)) : lk.cond := by
  unfold args at h
  split at h
  all_goals first | (cases h; exact hwf.1) | cases h

def back : Pc n → Option (Fin n)
  | .scanBack q _ | .scanDone q _ => some q
  | _ => none

def remaining : Pc n → List (Fin n)
  | .wakeLoop _ rest _ => rest
  | .wakeTest _ q rest _ | .wakeSet _ q rest _ => q :: rest
  | .wakeRelease _ _ rest _ => rest
  | _ => []

def wakes (ch : Chan n) : Pc n → Bool
  | .wakeLoop ch' _ _ | .wakeTest ch' _ _ _ | .wakeSet ch' _ _ _ | .wakeRelease ch' _ _ _ =>
    decide (ch' = ch)
  | _ => false
end Pc
namespace State
variable {s s' : State m n} {c : Fin m} {initproc p q : Fin n} {k K : Pc n} {x : Op n}
  {i : Instr n} {ch : Chan n} {lk : Lock n} {N : Nat} {a : Label m n}

def Undone (s : State m n) (p : Fin n) : Prop :=
  (∃ c, s.exec c = .proc p) ∧ (s.pc (.proc p)).pre ∨ s.state p = .sleeping

def Has (s : State m n) (t : Thread m n) (l : Lock n) : Prop :=
  ∃ c, s.exec c = t ∧ s.holder l = some c

lemma wakeCode_target (hwf : K.WF) (h : s.wakeCode c K = some i) : i.target.pre = false := by
  unfold wakeCode at h
  repeat' split at h
  all_goals cases h
  case h_1 => exact Pc.pre_of_safe hwf.1
  all_goals rfl

lemma procCode_target (hwf : K.WF) (h : s.procCode c initproc p x K = some i)
    (hpre : i.target.pre) (hsw : ∀ k, i ≠ .swtchSched k) :
    (∃ k, i = .sleep p k) ∨ K.pre ∧ i.target.args = K.args := by
  unfold procCode call sleep free at h
  repeat' split at h
  all_goals first
    | (cases h; done)
    | (cases h; exact .inl ⟨_, rfl⟩)
    | (cases h; exact .inr ⟨rfl, rfl⟩)
    | (cases h; cases hpre)
    | (cases h; exact absurd rfl (hsw _))
    | (cases h; rw [Instr.target, Pc.pre_of_safe hwf.1] at hpre; cases hpre)
    | (cases h; rw [Instr.target, Pc.pre_of_safe hwf.2.1] at hpre; cases hpre)

def From (s : State m n) (c : Fin m) : Instr n → Prop
  | .state q .sleeping k =>
    s.exec c = .proc q ∧ (s.pc (.proc q)).pre ∧ k.args = (s.pc (.proc q)).args
  | .sleep q _ => s.exec c = .proc q
  | .context q _ => s.pc (s.exec c) = .forkContext q
  | .swtchProc q _ => ∃ c' rest, s.exec c = .sched c' ∧ s.pc (s.exec c) = .scanSwtch q rest
  | _ => True

lemma code_from (h : s.code c initproc x = some i) : s.From c i := by
  rcases code_cases h with ⟨-, rfl⟩ | h | ⟨c', hc, h⟩ | ⟨p, hp, h⟩
  · trivial
  · unfold wakeCode at h
    repeat' split at h
    all_goals first
      | (cases h; done)
      | (cases h; trivial)
  · generalize hK : s.pc (s.exec c) = K at h
    unfold schedCode free at h
    repeat' split at h
    all_goals first
      | (cases h; done)
      | (cases h; trivial)
      | (cases h; exact ⟨c', _, hc, hK⟩)
  generalize hK : s.pc (s.exec c) = K at h
  unfold procCode call sleep free at h
  repeat' split at h
  all_goals first
    | (cases h; done)
    | (cases h; trivial)
    | (cases h; rw [hp] at hK; exact ⟨hp, by rw [hK]; rfl, by rw [hK]; rfl⟩)

lemma Undone.back (hu : s'.Undone p) (hexec : ∀ c, s'.exec c = .proc p → s.exec c = .proc p)
    (hpc : s'.pc (.proc p) = s.pc (.proc p))
    (hstate : s'.state p = .sleeping → s.state p = .sleeping) : s.Undone p := by
  rcases hu with ⟨⟨c, hc⟩, hpre⟩ | hsleep
  · rw [hpc] at hpre
    exact .inl ⟨⟨c, hexec c hc⟩, hpre⟩
  exact .inr (hstate hsleep)

lemma undone_of_other (h : s.Inv) (hcode : s.code c initproc x = some i)
    (hs : s.step c i = some s') (hne : s.exec c ≠ .proc p) :
    s'.sleeps p = s.sleeps p ∧ (s'.Undone p → s.Undone p ∧ s'.pc (.proc p) = s.pc (.proc p)) := by
  have hpc : ∀ k, update s.pc (s.exec c) k (.proc p) = s.pc (.proc p) := fun k =>
    update_of_ne hne.symm ..
  cases i with
  | goto k | parent q v k | proc v k | chan q v k =>
    cases hs
    exact ⟨rfl, fun hu => ⟨hu.back (fun _ => id) (hpc k) id, hpc k⟩⟩
  | acquire l k =>
    obtain ⟨-, rfl⟩ := step_acquire hs
    exact ⟨rfl, fun hu => ⟨hu.back (fun _ => id) (hpc k) id, hpc k⟩⟩
  | release l k =>
    obtain ⟨-, rfl⟩ := step_release hs
    exact ⟨rfl, fun hu => ⟨hu.back (fun _ => id) (hpc k) id, hpc k⟩⟩
  | state q v k =>
    cases hs
    refine ⟨rfl, fun hu => ⟨hu.back (fun _ => id) (hpc k) (fun hsleep => ?_), hpc k⟩⟩
    by_cases hpq : p = q
    · have hv : v = .sleeping := by simpa [hpq] using hsleep
      rw [hv] at hcode
      rw [(code_from hcode).1, hpq] at hne
      exact absurd rfl hne
    simpa [hpq] using hsleep
  | free q k =>
    cases hs
    refine ⟨rfl, fun hu => ⟨hu.back (fun _ => id) (hpc k) (fun hsleep => ?_), hpc k⟩⟩
    by_cases hpq : p = q
    · simp [freeproc, hpq] at hsleep
    simpa [freeproc, hpq] using hsleep
  | context q k =>
    cases hs
    have hK := code_from hcode
    have hann := h.ann c
    rw [hK] at hann
    by_cases hpq : p = q
    · -- a process that is being made
      have hoff : s.Off p := h.off_of_other (by rw [hK, hpq]; rfl)
        (by rw [hpq, hann.1]; simp)
      refine ⟨rfl, fun hu => ?_⟩
      rcases hu with ⟨⟨c', hc'⟩, -⟩ | hsleep
      · exact absurd hc' (hoff c')
      have hused : s.state p = .used := by rw [hpq]; exact hann.1
      cases hused.symm.trans hsleep
    have hpc' : ((s.setPc (.proc q) .forkret).setPc (s.exec c) k).pc (.proc p) =
        s.pc (.proc p) := by
      simp [Ne.symm hne, hpq]
    exact ⟨rfl, fun hu => ⟨hu.back (fun _ => id) hpc' id, hpc'⟩⟩
  | sleep q k =>
    cases hs
    have hpq : p ≠ q := fun e => hne (by rw [e]; exact code_from hcode)
    exact ⟨by simp [hpq], fun hu => ⟨hu.back (fun _ => id) (hpc k) id, hpc k⟩⟩
  | swtchProc q k =>
    cases hs
    refine ⟨rfl, fun hu => ⟨?_, hpc k⟩⟩
    by_cases hpq : p = q
    · -- it is resumed after `sched`, or starts
      obtain ⟨c', rest, hc', hK⟩ := code_from hcode
      have hann := h.ann c
      rw [hK] at hann
      have hpark := h.off q hann.2
      rw [Parked, hann.1] at hpark
      rcases hu with ⟨-, hpre⟩ | hsleep
      · rw [show State.pc _ (.proc p) = s.pc (.proc p) from hpc k, hpq,
          Pc.pre_of_resumes hpark.1] at hpre
        cases hpre
      exact .inr hsleep
    refine hu.back (fun c' hc' => ?_) (hpc k) id
    by_cases hcc : c' = c
    · rw [hcc, setExec_exec, update_self] at hc'
      exact absurd (Thread.proc.inj hc').symm hpq
    rwa [setExec_exec, update_of_ne hcc] at hc'
  | swtchSched k =>
    cases hs
    refine ⟨rfl, fun hu => ⟨hu.back (fun c' hc' => ?_) (hpc k) id, hpc k⟩⟩
    by_cases hcc : c' = c
    · rw [hcc, setExec_exec, update_self] at hc'
      cases hc'
    rwa [setExec_exec, update_of_ne hcc] at hc'

lemma On.sleeping (hon : s.On c p K) (hsleep : s.state p = .sleeping) :
    ∃ ch lk k, (K = .sched (.sleepTidy ch lk k) ∨ K = .swtch (.sleepTidy ch lk k)) ∧
      s.holder lk ≠ some c ∧ s.chan p = some ch := by
  unfold On at hon
  split at hon
  all_goals first
    | exact ⟨_, _, _, .inl rfl, hon.2⟩
    | exact ⟨_, _, _, .inr rfl, hon.2⟩
    | exact hon.elim
    | exact nomatch hsleep.symm.trans hon
    | exact nomatch hsleep.symm.trans hon.1

lemma step_pc (hs : s.step c i = some s') : s'.pc (s.exec c) = i.target := by
  cases i with
  | acquire l k =>
    obtain ⟨-, rfl⟩ := step_acquire hs
    simp [Instr.target]
  | release l k =>
    obtain ⟨-, rfl⟩ := step_release hs
    simp [Instr.target]
  | _ =>
    cases hs
    simp [Instr.target]

lemma step_sleeps (hs : s.step c i = some s') : s.sleeps p ≤ s'.sleeps p ∧
    ∀ k, i = .sleep p k → s'.sleeps p ≠ s.sleeps p := by
  cases i with
  | acquire l k =>
    obtain ⟨-, rfl⟩ := step_acquire hs
    exact ⟨le_rfl, nofun⟩
  | release l k =>
    obtain ⟨-, rfl⟩ := step_release hs
    exact ⟨le_rfl, nofun⟩
  | sleep q k =>
    cases hs
    by_cases hpq : p = q
    · simp [hpq]
    simp [hpq, Ne.symm hpq]
  | _ =>
    cases hs
    exact ⟨le_rfl, nofun⟩

lemma step_state (hs : s.step c i = some s') (hsleep : s'.state p = .sleeping)
    (hold : s.state p ≠ .sleeping) : ∃ k, i = .state p .sleeping k := by
  cases i with
  | acquire l k =>
    obtain ⟨-, rfl⟩ := step_acquire hs
    exact absurd hsleep hold
  | release l k =>
    obtain ⟨-, rfl⟩ := step_release hs
    exact absurd hsleep hold
  | state q v k =>
    cases hs
    by_cases hpq : p = q
    · rw [hpq] at hsleep ⊢
      exact ⟨k, by simpa using hsleep⟩
    exact absurd (by simpa [hpq] using hsleep) hold
  | free q k =>
    cases hs
    by_cases hpq : p = q
    · simp [freeproc, hpq] at hsleep
    exact absurd (by simpa [freeproc, hpq] using hsleep) hold
  | _ =>
    cases hs
    exact absurd hsleep hold

lemma undone_of_own (h : s.Inv) (hcode : s.code c initproc x = some i)
    (hs : s.step c i = some s') (hp : s.exec c = .proc p) (hsleeps : s'.sleeps p = s.sleeps p)
    (hu : s'.Undone p) :
    s.Undone p ∧ (s'.pc (.proc p)).args = (s.pc (.proc p)).args := by
  have hpc : s'.pc (.proc p) = i.target := by
    rw [← hp]
    exact step_pc hs
  have hwf := h.base.wf (.proc p)
  rw [hpc]
  by_cases hold : s.state p = .sleeping
  · refine ⟨.inr hold, ?_⟩
    obtain ⟨ch, lk, k, hK, -⟩ := (h.on c p hp).sleeping hold
    have hheld : s.held c ≠ [] := by
      have hl := h.holder_of_own hp (by rcases hK with hK | hK <;> rw [hK] <;> rfl)
      rw [h.base.held] at hl
      exact List.ne_nil_of_mem hl
    rcases code_cases hcode with ⟨hnil, -⟩ | hcode | ⟨c', hc', -⟩ | ⟨q, hq, hcode⟩
    · exact absurd hnil hheld
    · rw [hp] at hcode
      rcases hK with hK | hK <;> rw [hK] at hcode <;> cases hcode
    · rw [hp] at hc'
      cases hc'
    rw [hp] at hcode
    rcases hK with hK | hK <;> rw [hK] at hcode ⊢
    · rw [procCode] at hcode
      split at hcode
      · cases hcode
        rfl
      cases hcode
    cases hcode
    rfl
  rcases hu with ⟨⟨c', hc'⟩, hpre⟩ | hsleep
  · rw [hpc] at hpre
    have hsw : ∀ k, i ≠ .swtchSched k := by
      rintro k rfl
      cases hs
      by_cases hcc : c' = c
      · rw [hcc, setExec_exec, update_self] at hc'
        cases hc'
      rw [setExec_exec, update_of_ne hcc] at hc'
      exact hcc (h.inj c' c p hc' hp)
    rcases code_cases hcode with ⟨-, rfl⟩ | hcode | ⟨c', hc', -⟩ | ⟨q, hq, hcode⟩
    · cases hpre
    · rw [hp] at hcode
      rw [wakeCode_target hwf hcode] at hpre
      cases hpre
    · rw [hp] at hc'
      cases hc'
    rw [hp] at hcode hq
    cases hq
    rcases procCode_target hwf hcode hpre hsw with ⟨k, hk⟩ | ⟨hpreK, hargs⟩
    · exact absurd hsleeps ((step_sleeps hs).2 k hk)
    exact ⟨.inl ⟨⟨c, hp⟩, hpreK⟩, hargs⟩
  obtain ⟨k, rfl⟩ := step_state hs hsleep hold
  obtain ⟨-, hpreK, hargs⟩ := code_from hcode
  exact ⟨.inl ⟨⟨c, hp⟩, hpreK⟩, hargs⟩

lemma undone_of_next (h : s.Inv) (hn : next initproc s a = some s') :
    s.sleeps p ≤ s'.sleeps p ∧ (s'.sleeps p = s.sleeps p → s'.Undone p →
      s.Undone p ∧ (s'.pc (.proc p)).args = (s.pc (.proc p)).args) := by
  obtain ⟨i, hcode, hs⟩ := Option.bind_eq_some_iff.mp hn
  refine ⟨(step_sleeps hs).1, fun hsleeps hu => ?_⟩
  by_cases hp : s.exec a.cpu = .proc p
  · exact undone_of_own h hcode hs hp hsleeps hu
  obtain ⟨hu, hpc⟩ := (undone_of_other h hcode hs hp).2 hu
  exact ⟨hu, by rw [hpc]⟩

structure Sleeps (s : State m n) (p : Fin n) (N : Nat) (ch : Chan n) (lk : Lock n) : Prop where
  count : s.sleeps p = N
  undone : s.Undone p
  args : (s.pc (.proc p)).args = some (ch, lk)

lemma sleeps_of_next (h : s.Inv) (hn : next initproc s a = some s') (hN : N ≤ s.sleeps p)
    (hargs : s.sleeps p = N → s.Undone p → (s.pc (.proc p)).args = some (ch, lk))
    (hs' : s'.sleeps p = N) (hu' : s'.Undone p) :
    s.Sleeps p N ch lk ∧ (s'.pc (.proc p)).args = some (ch, lk) := by
  obtain ⟨hle, hback⟩ := undone_of_next (p := p) h hn
  have hsame : s'.sleeps p = s.sleeps p := by omega
  obtain ⟨hu, hargs'⟩ := hback hsame hu'
  have hold := hargs (hsame.symm.trans hs') hu
  exact ⟨⟨hsame.symm.trans hs', hu, hold⟩, hargs'.trans hold⟩

lemma Inv.chan_of_args (h : s.Inv) (hsleep : s.state p = .sleeping)
    (hargs : (s.pc (.proc p)).args = some (ch, lk)) : s.chan p = some ch := by
  by_cases hoff : s.Off p
  · have hpark := h.off p hoff
    rw [Parked, hsleep] at hpark
    obtain ⟨ch', lk', k, hK, hchan⟩ := hpark
    rw [hK] at hargs
    cases hargs
    exact hchan
  obtain ⟨c, hc⟩ := not_forall.mp hoff
  obtain ⟨ch', lk', k, hK, -, hchan⟩ := (h.on c p (not_not.mp hc)).sleeping hsleep
  rcases hK with hK | hK <;> rw [hK] at hargs <;> cases hargs <;> exact hchan

lemma Sleeps.locked (h : s.Inv) (hz : s.Sleeps p N ch lk)
    (hlk : s.holder lk = some c) (hne : s.exec c ≠ .proc p) :
    (∃ c', s.exec c' = .proc p ∧ s.holder (.proc p) = some c') ∨ s.state p = .sleeping := by
  rcases hz.undone with ⟨⟨c', hc'⟩, hpre⟩ | hsleep
  · have hon := h.on c' p hc'
    have hargs := hz.args
    have hother : s.holder lk ≠ some c' := fun e => by
      rw [hlk] at e
      cases e
      exact hne hc'
    cases hK : s.pc (.proc p) <;> rw [hK] at hpre hon hargs <;> cases hpre
    · cases hargs
      exact absurd hon.2 hother
    · cases hargs
      exact absurd hon.2 hother
    · exact .inl ⟨c', hc', h.holder_of_own hc' (by rw [hK]; rfl)⟩
    exact .inl ⟨c', hc', h.holder_of_own hc' (by rw [hK]; rfl)⟩
  exact .inr hsleep

lemma frame_of_step {c0 : Fin m} {l : Lock n} (h : s.Inv)
    (hcode : s.code c initproc x = some i) (hs : s.step c i = some s') (hne : c0 ≠ c)
    (hl : s.holder l = some c0) :
    s'.exec c0 = s.exec c0 ∧ s'.pc (s.exec c0) = s.pc (s.exec c0) ∧ s'.holder l = some c0 := by
  have hpc : ∀ k, update s.pc (s.exec c) k (s.exec c0) = s.pc (s.exec c0) := fun k =>
    update_of_ne (h.ne_of_ne hne) ..
  cases i with
  | acquire l' k =>
    obtain ⟨hfree, rfl⟩ := step_acquire hs
    have hll : l ≠ l' := fun e => by
      rw [e, hfree] at hl
      cases hl
    exact ⟨rfl, hpc k, by simpa [hll] using hl⟩
  | release l' k =>
    obtain ⟨hheld, rfl⟩ := step_release hs
    have hll : l ≠ l' := fun e => by
      rw [e, hheld] at hl
      exact hne (Option.some.inj hl).symm
    exact ⟨rfl, hpc k, by simpa [hll] using hl⟩
  | context q k =>
    cases hs
    have hK := code_from hcode
    have hann := h.ann c
    rw [hK] at hann
    have hoff : s.Off q := h.off_of_other (c := c) (by rw [hK]; rfl) (by rw [hann.1]; simp)
    refine ⟨rfl, ?_, hl⟩
    show update (update s.pc (.proc q) .forkret) _ k _ = _
    rw [update_of_ne (h.ne_of_ne hne), update_of_ne (hoff c0)]
  | swtchProc q k | swtchSched k =>
    cases hs
    exact ⟨update_of_ne hne .., hpc k, hl⟩
  | _ =>
    cases hs
    exact ⟨rfl, hpc _, hl⟩

structure Seeks (s : State m n) (t : Thread m n) (p : Fin n) (ch : Chan n) (lk : Lock n) :
    Prop where
  has : s.Has t lk
  wakes : (s.pc t).wakes ch
  mem : p ∈ (s.pc t).remaining

section
variable (h : s.Inv) {as : List (Label m n)} {t : Thread m n}
include h

lemma seeks_of_wake (hcode : s.wakeCode c (s.pc (s.exec c)) = some i) (hs : s.step c i = some s')
    (hlk : s.holder lk = some c) (hz : s.Sleeps p N ch lk) (hu' : s'.Undone p)
    (hwakes : (s.pc (s.exec c)).wakes ch) (hmem : p ∈ (s.pc (s.exec c)).remaining) :
    s'.Seeks (s.exec c) p ch lk := by
  have hcond : ∀ q, lk ≠ .proc q := Inv.ne_proc (Pc.cond_of_args (h.base.wf _) hz.args)
  have hne : s.exec c ≠ .proc p := by
    intro hp
    have hargs := hz.args
    rw [hp] at hwakes
    cases hK : s.pc (.proc p) <;> rw [hK] at hwakes hargs <;> first | cases hwakes | cases hargs
  have hmk : s'.exec c = s.exec c → s'.holder lk = some c → i.target.wakes ch →
      p ∈ i.target.remaining → s'.Seeks (s.exec c) p ch lk := fun hexec hholder hw hm => by
    rw [← step_pc hs] at hw hm
    exact ⟨⟨c, hexec, hholder⟩, hw, hm⟩
  cases hK : s.pc (s.exec c) <;> rw [hK] at hcode hwakes hmem <;> try cases hcode
  case wakeLoop ch' rest k =>
    cases rest with
    | nil => cases hmem
    | cons q rest =>
      rw [wakeCode] at hcode
      split at hcode
      · rename_i hcur
        cases hcode
        cases hs
        have hpq : p ≠ q := by
          rintro rfl
          rcases h.proc_cases hcur with hp | ⟨hl, -⟩
          · exact hne hp
          rw [h.lock, hK, Inv.plock_shared _ rfl] at hl
          cases hl
        exact hmk rfl hlk hwakes ((List.mem_cons.mp hmem).resolve_left hpq)
      cases hcode
      obtain ⟨-, rfl⟩ := step_acquire hs
      exact hmk rfl (by simpa [hcond q] using hlk) hwakes hmem
  case wakeTest ch' q rest k =>
    have hch : ch' = ch := of_decide_eq_true hwakes
    rw [wakeCode] at hcode
    split at hcode
    · cases hcode
      cases hs
      exact hmk rfl hlk hwakes hmem
    rename_i htest
    cases hcode
    cases hs
    have hpq : p ≠ q := by
      rintro rfl
      have hl := h.holder_of_other (by rw [hK]; rfl)
      rcases hz.locked h hlk hne with ⟨c', hc', hl'⟩ | hsleep
      · rw [hl] at hl'
        cases hl'
        exact hne hc'
      exact htest ⟨hsleep, hch ▸ h.chan_of_args hsleep hz.args⟩
    exact hmk rfl hlk hwakes ((List.mem_cons.mp hmem).resolve_left hpq)
  case wakeSet ch' q rest k =>
    cases hs
    have hpq : p ≠ q := by
      rintro rfl
      have hann := h.ann c
      rw [hK] at hann
      have hoff := h.off_of_other (by rw [hK]; rfl) (by rw [hann.1]; simp)
      rcases hu' with ⟨⟨c', hc'⟩, -⟩ | hsleep
      · exact hoff c' hc'
      simp at hsleep
    exact hmk rfl hlk hwakes ((List.mem_cons.mp hmem).resolve_left hpq)
  case wakeRelease ch' q rest k =>
    obtain ⟨-, rfl⟩ := step_release hs
    exact hmk rfl (by simpa [hcond q] using hlk) hwakes hmem

lemma seeks_of_next (hn : next initproc s a = some s') (hz : s.Sleeps p N ch lk)
    (hk : s.Seeks t p ch lk) (hu' : s'.Undone p) : s'.Seeks t p ch lk := by
  obtain ⟨i, hcode, hs⟩ := Option.bind_eq_some_iff.mp hn
  obtain ⟨⟨c0, rfl, hlk⟩, hwakes, hmem⟩ := hk
  by_cases hc : c0 = a.cpu
  · rw [hc] at hlk hwakes hmem ⊢
    rcases code_cases hcode with ⟨hnil, -⟩ | hcode | ⟨c', -, hcode⟩ | ⟨q, -, hcode⟩
    · rw [h.base.held, hnil] at hlk
      cases hlk
    · exact seeks_of_wake h hcode hs hlk hz hu' hwakes hmem
    · cases hK : s.pc (s.exec a.cpu) <;> rw [hK] at hwakes hcode <;>
        first | cases hwakes | cases hcode
    cases hK : s.pc (s.exec a.cpu) <;> rw [hK] at hwakes hcode <;>
      first | cases hwakes | cases hcode
  obtain ⟨hexec, hpc, hholder⟩ := frame_of_step h hcode hs hc hlk
  exact ⟨⟨c0, hexec, hholder⟩, by rwa [hpc], by rwa [hpc]⟩

lemma args_of_run (hN : s.sleeps p = N)
    (hargs : (s.pc (.proc p)).args = some (ch, lk)) (hr : run (next initproc) s as = some s') :
    s'.Inv ∧ N ≤ s'.sleeps p ∧
      (s'.sleeps p = N → s'.Undone p → (s'.pc (.proc p)).args = some (ch, lk)) := by
  refine run_invariant (I := fun s => s.Inv ∧ N ≤ s.sleeps p ∧
    (s.sleeps p = N → s.Undone p → (s.pc (.proc p)).args = some (ch, lk)))
    (fun u a u' hu hn => ?_) ⟨h, le_of_eq hN.symm, fun _ _ => hargs⟩ hr
  refine ⟨hu.1.next hn, le_trans hu.2.1 (undone_of_next hu.1 hn).1, fun hs' hu' => ?_⟩
  exact (sleeps_of_next hu.1 hn hu.2.1 hu.2.2 hs' hu').2

lemma seeks_of_run (hN : N ≤ s.sleeps p)
    (hargs : s.sleeps p = N → s.Undone p → (s.pc (.proc p)).args = some (ch, lk))
    (hk : s.Seeks t p ch lk) (hr : run (next initproc) s as = some s') (hs' : s'.sleeps p = N)
    (hu' : s'.Undone p) : s'.Seeks t p ch lk := by
  refine (run_invariant (I := fun s => (s.Inv ∧ N ≤ s.sleeps p ∧
    (s.sleeps p = N → s.Undone p → (s.pc (.proc p)).args = some (ch, lk))) ∧
    (s.sleeps p = N → s.Undone p → s.Seeks t p ch lk))
    (fun u a u' hu hn => ?_) ⟨⟨h, hN, hargs⟩, fun _ _ => hk⟩ hr).2 hs' hu'
  obtain ⟨⟨hinv, hle, hargs⟩, hseeks⟩ := hu
  have hback := fun hs' hu' => sleeps_of_next hinv hn hle hargs hs' hu'
  refine ⟨⟨hinv.next hn, le_trans hle (undone_of_next hinv hn).1, fun hs' hu' => (hback hs' hu').2⟩,
    fun hs' hu' => ?_⟩
  have hz := (hback hs' hu').1
  exact seeks_of_next hinv hn hz (hseeks hz.count hz.undone) hu'

lemma Inv.holder_cases (hc : s.holder (.proc p) = some c) :
    s.exec c = .proc p ∨ (s.pc (s.exec c)).back = some p ∨
      s.exec c ≠ .proc p ∧ (s.pc (s.exec c)).other = some p ∧ (s.pc (s.exec c)).back = none := by
  by_cases hp : s.exec c = .proc p
  · exact .inl hp
  have hother : (s.pc (s.exec c)).other = some p := by
    rw [h.lock] at hc
    cases ht : s.exec c with
    | sched c' =>
      rwa [ht] at hc
    | proc q =>
      rw [ht] at hc hp
      rw [plock] at hc
      split at hc
      · exact absurd (congrArg Thread.proc (Option.some.inj hc)) hp
      exact hc
  right
  cases hK : s.pc (s.exec c) <;> rw [hK] at hother <;> first
      | exact .inl hother
      | exact .inr ⟨hp, hother, rfl⟩

lemma Inv.sleeping (hsleep : s.state p = .sleeping) :
    ∃ ch lk, (s.pc (.proc p)).args = some (ch, lk) ∧ s.chan p = some ch ∧ ¬s.Has (.proc p) lk := by
  by_cases hoff : s.Off p
  · have hpark := h.off p hoff
    rw [Parked, hsleep] at hpark
    obtain ⟨ch, lk, k, hK, hchan⟩ := hpark
    exact ⟨ch, lk, by rw [hK]; rfl, hchan, fun h => h.elim fun c hc => hoff c hc.1⟩
  obtain ⟨c, hc⟩ := not_forall.mp hoff
  have hc := not_not.mp hc
  obtain ⟨ch, lk, k, hK, hholder, hchan⟩ := (h.on c p hc).sleeping hsleep
  refine ⟨ch, lk, by rcases hK with hK | hK <;> rw [hK] <;> rfl, hchan, ?_⟩
  rintro ⟨c', hc', hl⟩
  rw [h.inj c' c p hc' hc] at hl
  exact hholder hl
end
end State

theorem no_lost_wakeup {m n : Nat} (initproc : Fin n) :
    (∀ (as bs cs : List (Label m n)) (s1 s2 s3 : State m n) (p : Fin n) (t : Thread m n)
        (ch : Chan n) (lk : Lock n) (k k2 k3 : Pc n),
      run (next initproc) (boot initproc) as = some s1 →
      s1.pc (.proc p) = .sleepAcquire ch lk k → s1.Has (.proc p) lk →
      run (next initproc) s1 bs = some s2 →
      s2.pc t = .wakeLoop ch (List.finRange n) k2 → s2.Has t lk →
      run (next initproc) s2 cs = some s3 → s3.pc t = .wakeLoop ch [] k3 →
      ¬(s3.state p = .sleeping ∧ s3.chan p = some ch ∧ s3.sleeps p = s1.sleeps p)) ∧
    ∀ (as : List (Label m n)) (s : State m n) (p : Fin n),
      run (next initproc) (boot initproc) as = some s → s.state p = .sleeping →
      (∃ ch lk, (s.pc (.proc p)).args = some (ch, lk) ∧ s.chan p = some ch ∧ ¬s.Has (.proc p) lk) ∧
      ∀ c, s.holder (.proc p) = some c → s.exec c = .proc p ∨ (s.pc (s.exec c)).back = some p ∨
        s.exec c ≠ .proc p ∧ (s.pc (s.exec c)).other = some p ∧ (s.pc (s.exec c)).back = none := by
  constructor
  · intro as bs cs s1 s2 s3 p t ch lk k k2 k3 h1 hsleep _ h2 hwake hlk h3 hret
    rintro ⟨hstate, -, hcount⟩
    have hinv1 := State.inv_of_run h1
    have hargs1 : (s1.pc (.proc p)).args = some (ch, lk) := by
      rw [hsleep]
      rfl
    obtain ⟨hinv2, hle, hargs⟩ := State.args_of_run hinv1 rfl hargs1 h2
    have hseeks : s2.Seeks t p ch lk := by
      refine ⟨hlk, ?_, ?_⟩
      · rw [hwake]
        simp [Pc.wakes]
      rw [hwake]
      exact List.mem_finRange p
    have hmem := (State.seeks_of_run hinv2 hle hargs hseeks h3 hcount (.inr hstate)).mem
    rw [hret] at hmem
    cases hmem
  intro as s p hr hstate
  have h := State.inv_of_run hr
  exact ⟨h.sleeping hstate, fun c hc => h.holder_cases hc⟩

def gos (c : Fin 2) (k : Nat) : List (Label 2 2) := List.replicate k ⟨c, .go⟩

def sleepTrace : List (Label 2 2) :=
  ⟨0, .scan⟩ :: gos 0 6 ++ ⟨0, .fork⟩ :: gos 0 13 ++ ⟨1, .scan⟩ :: gos 1 9 ++
    [⟨0, .acquire 0⟩, ⟨0, .sleep (.other 5) 0⟩]

def wakeTrace : List (Label 2 2) := gos 0 8 ++ [⟨1, .acquire 0⟩, ⟨1, .wakeup (.other 5)⟩]

theorem no_lost_wakeup_pair : ∃ s1 s2 s3 : State 2 2, run (next 0) (boot 0) sleepTrace = some s1 ∧
      run (next 0) s1 wakeTrace = some s2 ∧ run (next 0) s2 (gos 1 5) = some s3 ∧
      s2.state 0 = .sleeping ∧ s3.state 0 = .runnable ∧
      ¬(s3.state 0 = .sleeping ∧ s3.chan 0 = some (.other 5) ∧ s3.sleeps 0 = s1.sleeps 0) := by
  have hrun : ((run (next 0) (boot 0) sleepTrace).bind fun s1 =>
      (run (next 0) s1 wakeTrace).bind fun s2 =>
      (run (next 0) s2 (gos 1 5)).map fun s3 => decide (
        (s1.pc (.proc 0) = .sleepAcquire (.other 5) (.other 0) .home ∧
          s1.exec 0 = .proc 0 ∧ s1.holder (.other 0) = some 0) ∧
        (s2.state 0 = .sleeping ∧ s2.pc (.proc 1) = .wakeLoop (.other 5) [0, 1] .home ∧
          s2.exec 1 = .proc 1 ∧ s2.holder (.other 0) = some 1) ∧
        s3.state 0 = .runnable ∧ s3.pc (.proc 1) = .wakeLoop (.other 5) [] .home)) =
      some true := by
    decide +kernel
  obtain ⟨s1, h1, hrun⟩ := Option.bind_eq_some_iff.mp hrun
  obtain ⟨s2, h2, hrun⟩ := Option.bind_eq_some_iff.mp hrun
  obtain ⟨s3, h3, hrun⟩ := Option.map_eq_some_iff.mp hrun
  obtain ⟨⟨hsleep, hexec1, hholder1⟩, ⟨hstate2, hwake, hexec2, hholder2⟩, hstate3, hret⟩ :=
    of_decide_eq_true hrun
  exact ⟨s1, s2, s3, h1, h2, h3, hstate2, hstate3,
    (no_lost_wakeup 0).1 sleepTrace wakeTrace (gos 1 5) s1 s2 s3 0 (.proc 1) (.other 5) (.other 0)
      .home .home .home h1 hsleep ⟨0, hexec1, hholder1⟩ h2 hwake ⟨1, hexec2, hholder2⟩ h3 hret⟩
end Xv6.Sched
