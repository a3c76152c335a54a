import Xv6.Sched.Step

namespace Xv6.Sched.State
variable {m n : Nat} {s s' : State m n} {c : Fin m} {initproc p q : Fin n} {k k0 : Pc n}
  {t : Thread m n} {x : Op n} {i : Instr n} {l : Lock n}

lemma step_acquire (h : s.step c (.acquire l k) = some s') :
    s.holder l = none ∧ s' = (s.acquire c l).setPc (s.exec c) k := by
  rw [step] at h
  split at h
  · rename_i hfree
    cases h
    exact ⟨hfree, rfl⟩
  cases h

lemma step_release (h : s.step c (.release l k) = some s') :
    s.holder l = some c ∧ s' = (s.release c l).setPc (s.exec c) k := by
  rw [step] at h
  split at h
  · rename_i hl
    cases h
    exact ⟨hl, rfl⟩
  cases h

lemma code_cases (h : s.code c initproc x = some i) :
    s.held c = [] ∧ i = .goto (.intr (s.pc (s.exec c))) ∨ s.wakeCode c (s.pc (s.exec c)) = some i ∨
      (∃ c', s.exec c = .sched c' ∧ s.schedCode c x (s.pc (s.exec c)) = some i) ∨
      ∃ p, s.exec c = .proc p ∧ s.procCode c initproc p x (s.pc (s.exec c)) = some i := by
  unfold code at h
  split at h
  · split at h
    · rename_i hheld
      cases h
      exact .inl ⟨hheld, rfl⟩
    cases h
  rcases Option.or_eq_some_iff.mp h with h | ⟨-, h⟩
  · exact .inr (.inl h)
  cases ht : s.exec c with
  | sched c' =>
    rw [ht] at h
    exact .inr (.inr (.inl ⟨c', rfl, h⟩))
  | proc p =>
    rw [ht] at h
    exact .inr (.inr (.inr ⟨p, rfl, h⟩))

namespace Inv
section
variable (h : s.Inv) {l : Lock n}
include h

lemma gotoPlain (ht : s.exec c = t) (hpc : s.pc t = k0) (hold : k0.plain)
    (hk : k.plain) (hm : Moves t k0 k) (hlock : plock t k = plock t k0) :
    (s.setPc (s.exec c) k).Inv := by
  subst ht hpc
  exact h.goto hm hlock (h.on_plain hold hk rfl) (ann_of_plain hk)

lemma gotoProc (hp : s.exec c = .proc p) (hpc : s.pc (.proc p) = k0)
    (hm : Moves (.proc p : Thread m n) k0 k)
    (hlock : plock (.proc p : Thread m n) k = plock (.proc p : Thread m n) k0) (hon : s.On c p k)
    (hann : (s.setPc (s.exec c) k).Ann k) : (s.setPc (s.exec c) k).Inv := by
  rw [← hpc, ← hp] at hm hlock
  refine h.goto hm hlock (fun q hq => ?_) hann
  cases hp.symm.trans hq
  exact hon

lemma acquirePlain (ht : s.exec c = t) (hpc : s.pc t = k0)
    (hs : s.step c (.acquire (.proc q) k) = some s') (hold : k0.plain) (hk : k.plain)
    (hm : Moves t k0 k) (hnone : plock t k0 = none) (hlock : plock t k = some q) : s'.Inv := by
  subst ht hpc
  obtain ⟨hfree, rfl⟩ := step_acquire hs
  refine h.acquire hfree hm (fun r => ?_) (h.on_plain hold hk rfl) (ann_of_plain hk)
  rw [hnone, hlock]
  simp

lemma acquireOther (ht : s.exec c = t) (hpc : s.pc t = k0)
    (hs : s.step c (.acquire l k) = some s') (hold : k0.plain) (hk : k.plain)
    (hm : Moves t k0 k) (hlock : plock t k = plock t k0) (hl : ∀ q, l ≠ .proc q) : s'.Inv := by
  subst ht hpc
  obtain ⟨hfree, rfl⟩ := step_acquire hs
  refine h.acquire hfree hm (fun r => ?_) (h.on_plain hold hk rfl) (ann_of_plain hk)
  rw [hlock]
  simp [hl]

lemma releasePlain (ht : s.exec c = t) (hpc : s.pc t = k0)
    (hs : s.step c (.release (.proc q) k) = some s') (hold : k0.plain) (hk : k.plain)
    (hm : Moves t k0 k) (hlock : plock t k0 = some q) (hnone : plock t k = none) : s'.Inv := by
  subst ht hpc
  obtain ⟨hl, rfl⟩ := step_release hs
  refine h.release hl hm (fun r => ?_) (h.on_plain hold hk rfl) (ann_of_plain hk)
  rw [hnone, hlock]
  simp

lemma releaseOther (ht : s.exec c = t) (hpc : s.pc t = k0)
    (hs : s.step c (.release l k) = some s') (hold : k0.plain) (hk : k.plain)
    (hm : Moves t k0 k) (hlock : plock t k = plock t k0) (hl : ∀ q, l ≠ .proc q) : s'.Inv := by
  subst ht hpc
  obtain ⟨hl', rfl⟩ := step_release hs
  refine h.release hl' hm (fun r => ?_) (h.on_plain hold hk rfl) (ann_of_plain hk)
  rw [hlock]
  simp [hl]

lemma free (hpc : s.pc (s.exec c) = k) (hk : k.safe) (hwf : k.WF) (hhand : k.handed = none)
    (hpick : k.picked = none) (hcode : State.free k x = some i) (hs : s.step c i = some s') :
    s'.Inv := by
  have hplain := Pc.plain_of_safe hk
  have hself : Moves (s.exec c) k k := ⟨rfl, fun _ h => h, fun _ h => h, id, fun _ _ => id⟩
  cases x <;> cases hcode
  case acquire j => exact h.acquireOther rfl hpc hs hplain hplain hself rfl nofun
  case release j => exact h.releaseOther rfl hpc hs hplain hplain hself rfl nofun
  case wakeup ch =>
    cases hs
    refine h.gotoPlain rfl hpc hplain rfl ⟨hhand, fun q hq => ?_, fun _ h => h,
      fun _ => ⟨hk, hwf⟩, fun _ _ => id⟩ ?_
    · rw [hpick] at hq
      cases hq
    rw [plock_of_safe hk]
    cases s.exec c <;> rfl
end

lemma plock_shared (t : Thread m n) (hk : k.own = false) : plock t k = k.other := by
  cases t with
  | sched c => rfl
  | proc p => simp only [plock, hk]; rfl

lemma wake (h : s.Inv) (hcode : s.wakeCode c (s.pc (s.exec c)) = some i)
    (hs : s.step c i = some s') : s'.Inv := by
  have hwf := h.base.wf (s.exec c)
  cases hpc : s.pc (s.exec c) <;> rw [hpc] at hcode hwf <;> try cases hcode
  case wakeLoop ch rest k =>
    cases rest with
    | nil =>
      cases hcode
      cases hs
      refine h.gotoPlain rfl hpc rfl (Pc.plain_of_safe hwf.1)
        ⟨?_, by rintro _ ⟨⟩, fun _ h => h, And.right, fun _ _ => id⟩ ?_
      · exact (Pc.handed_of_safe hwf.1).symm
      rw [plock_of_safe hwf.1, plock_shared _ rfl]
      rfl
    | cons q rest =>
      rw [wakeCode] at hcode
      split at hcode
      · cases hcode
        cases hs
        exact h.gotoPlain rfl hpc rfl rfl ⟨rfl, by rintro _ ⟨⟩, fun _ h => h, id, fun _ _ => id⟩
          (by rw [plock_shared _ rfl, plock_shared _ rfl]; rfl)
      cases hcode
      exact h.acquirePlain rfl hpc hs rfl rfl ⟨rfl, by rintro _ ⟨⟩, fun _ h => h, id, fun _ _ => id⟩
        (plock_shared _ rfl) (plock_shared _ rfl)
  case wakeTest ch q rest k =>
    rw [wakeCode] at hcode
    split at hcode
    · rename_i hasleep
      cases hcode
      cases hs
      refine h.goto ?_ ?_ (fun p hp => ?_) hasleep
      · rw [hpc]
        exact ⟨rfl, by rintro _ ⟨⟩, fun _ h => h, id, fun _ _ => id⟩
      · rw [hpc, plock_shared _ rfl, plock_shared _ rfl]
        rfl
      rw [hp] at hpc
      exact (h.on c p hp).running (by rw [hpc]; rfl)
    cases hcode
    cases hs
    exact h.gotoPlain rfl hpc rfl rfl ⟨rfl, by rintro _ ⟨⟩, fun _ h => h, id, fun _ _ => id⟩
      (by rw [plock_shared _ rfl, plock_shared _ rfl]; rfl)
  case wakeSet ch q rest k =>
    cases hs
    have hann := h.ann c
    rw [hpc] at hann
    have hoff := h.off_of_other (by rw [hpc]; rfl) (by rw [hann.1]; simp)
    have hpark := h.off q hoff
    rw [Parked, hann.1] at hpark
    obtain ⟨ch', lk, k', hk', -⟩ := hpark
    have hno : s.NoFork q := h.noFork (by rw [hann.1]; simp)
    have hno' := hno (s.exec c)
    rw [hpc] at hno'
    exact h.otherStep rfl hpc ⟨rfl, rfl, rfl, rfl, rfl⟩ (fun r hr => by simp [hr]) rfl rfl
      ⟨rfl, by rintro _ ⟨⟩, fun _ h => h, id, fun _ _ => id⟩ (by rw [hann.1]; simp)
      (parked_runnable (by simp) (by rw [hk']; rfl)) trivial (fun t _ => hno t) hno'
  case wakeRelease ch q rest k =>
    exact h.releasePlain rfl hpc hs rfl rfl ⟨rfl, by rintro _ ⟨⟩, fun _ h => h, id, fun _ _ => id⟩
      (plock_shared _ rfl) (plock_shared _ rfl)

lemma interrupt (h : s.Inv) (hheld : s.held c = []) :
    (s.setPc (s.exec c) (.intr (s.pc (s.exec c)))).Inv := by
  have hnone : ∀ l, s.holder l ≠ some c := fun l hl => by
    rw [h.base.held, hheld] at hl
    cases hl
  have hlock : plock (s.exec c) (s.pc (s.exec c)) = none := by
    cases hq : plock (s.exec c) (s.pc (s.exec c)) with
    | none => rfl
    | some q => exact absurd ((h.lock c q).mpr hq) (hnone _)
  have hsafe : (s.pc (s.exec c)).safe := by
    cases ht : s.exec c with
    | sched c' =>
      rw [ht] at hlock
      exact Pc.safe_of_bySched (h.base.sched c') hlock
    | proc p =>
      have hon := h.on c p ht
      rw [ht] at hlock
      by_cases hown : (s.pc (.proc p)).own
      · simp [plock, hown] at hlock
      simp only [plock, hown] at hlock
      cases hpc : s.pc (.proc p) <;> rw [hpc] at hon hlock hown <;>
        first | rfl | (cases hlock; done) | exact absurd rfl hown | exact absurd hon.2 (hnone _)
  refine h.gotoPlain rfl rfl (Pc.plain_of_safe hsafe) rfl ⟨Pc.handed_of_safe hsafe, ?_,
    fun _ h => h,
    fun hwf => ⟨hsafe, hwf⟩, fun _ _ => id⟩ ?_
  · rw [Pc.picked_of_safe hsafe]
    simp
  rw [hlock, plock_shared _ rfl]
  rfl

lemma sched_step (h : s.Inv) (hc : s.exec c = .sched c)
    (hcode : s.schedCode c x (s.pc (.sched c)) = some i) (hs : s.step c i = some s') :
    s'.Inv := by
  have hwf := h.base.wf (.sched c)
  have hann := h.ann c
  rw [hc] at hann
  have hself : ∀ {k0}, s.pc (.sched c) = k0 → s.pc (s.exec c) = k0 := fun e => by rw [hc, e]
  have scan : ∀ {K k : Pc n}, K.handed = k.handed → K.picked = none → k.forks = none → k.WF →
      k.bySched = true → Moves (.sched c) K k := fun hh hpk hf hw hb =>
    ⟨hh, fun _ hq => (by cases hpk.symm.trans hq), fun _ hq => (by cases hf.symm.trans hq),
      fun _ => hw, fun _ _ _ => hb⟩
  cases hpc : s.pc (.sched c) <;> rw [hpc] at hcode hwf hann <;> try cases hcode
  case home =>
    unfold schedCode at hcode
    dsimp only at hcode
    split at hcode
    · split at hcode
      · cases hcode
        cases hs
        exact h.gotoPlain hc hpc rfl rfl (scan rfl rfl rfl trivial rfl) rfl
      cases hcode
    exact h.free (hself hpc) rfl trivial rfl rfl hcode hs
  case intr k =>
    unfold schedCode at hcode
    dsimp only at hcode
    split at hcode
    · split at hcode
      · cases hcode
        cases hs
        exact h.gotoPlain hc hpc rfl (Pc.plain_of_safe hwf.1)
          ⟨(Pc.handed_of_safe hwf.1).symm, by rintro _ ⟨⟩, fun _ h => h, And.right, fun _ _ => id⟩
          (plock_of_safe hwf.1)
      cases hcode
    exact h.free (hself hpc) rfl hwf rfl rfl hcode hs
  case scanLoop rest =>
    cases rest with
    | nil =>
      cases hcode
      cases hs
      exact h.gotoPlain hc hpc rfl rfl (scan rfl rfl rfl trivial rfl) rfl
    | cons q rest =>
      cases hcode
      exact h.acquirePlain hc hpc hs rfl rfl (scan rfl rfl rfl trivial rfl) rfl rfl
  case scanTest q rest =>
    rw [schedCode] at hcode
    split at hcode
    · rename_i hrunnable
      cases hcode
      cases hs
      refine h.goto ?_ ?_ (fun p hp => ?_) hrunnable
      · rw [hc, hpc]
        exact scan rfl rfl rfl trivial rfl
      · rw [hself hpc, hc]
        rfl
      rw [hc] at hp
      cases hp
    cases hcode
    cases hs
    exact h.gotoPlain hc hpc rfl rfl (scan rfl rfl rfl trivial rfl) rfl
  case scanRun q rest =>
    cases hs
    have hne : s.state q ≠ .running := by rw [show s.state q = .runnable from hann]; simp
    have hother : (s.pc (s.exec c)).other = some q := by rw [hself hpc]; rfl
    have hoff := h.off_of_other hother hne
    have hpark := h.off q hoff
    rw [Parked, show s.state q = .runnable from hann] at hpark
    refine h.otherStep (q := q) hc hpc ⟨rfl, rfl, rfl, rfl, rfl⟩ (fun r hr => by simp [hr])
      rfl rfl (scan rfl rfl rfl trivial rfl) hne ?_ ⟨by simp, hoff⟩
      (fun t _ => h.noFork ?_ t) (by rintro ⟨⟩)
    · unfold Parked
      rw [show State.state _ q = .running by simp]
      exact ⟨hpark, c, hc, by simp [hc, Pc.picked]⟩
    rw [show s.state q = .runnable from hann]
    simp
  case scanProc q rest =>
    cases hs
    exact h.setProc hc rfl (by rw [hpc]; rfl) rfl (by rw [hpc]; exact fun _ h => h) rfl trivial rfl
      hann
  case scanSwtch q rest =>
    cases hs
    exact h.swtchProc hc hpc
  case scanBack q rest =>
    cases hs
    exact h.setProc hc rfl (by rw [hpc]; rfl) rfl (by rw [hpc]; rintro _ ⟨⟩) rfl trivial rfl trivial
  case scanDone q rest | scanRelease q rest =>
    exact h.releasePlain hc hpc hs rfl rfl (scan rfl rfl rfl trivial rfl) rfl rfl

lemma ne_proc {lk : Lock n} (h : lk.cond) (q : Fin n) : lk ≠ .proc q := by
  rintro rfl
  cases h

section
variable (h : s.Inv) (hp : s.exec c = .proc p)
include h hp

lemma sleep {ch : Chan n} {lk : Lock n} (hpc : s.pc (s.exec c) = k0)
    (hcode : s.sleep c p ch lk k = some i) (hs : s.step c i = some s') (hold : k0.plain)
    (hlock : plock (s.exec c) k0 = none) (hhand : k0.handed = none)
    (hpick : ∀ q, k0.picked ≠ some q) (hcond : lk.cond) (hk : k.safe) (hwf : k.WF)
    (hforks : ∀ q, k.forks ≠ some q) : s'.Inv := by
  rw [State.sleep] at hcode
  split at hcode
  · rename_i hheld
    cases hcode
    cases hs
    refine (h.countSleep (p := p)).goto (c := c) ⟨?_, fun q hq => ?_, fun q hq => ?_,
      fun _ => ⟨hcond, hk, hwf⟩, fun c' e => ?_⟩ ?_ (fun q hq => ⟨?_, hheld⟩) trivial
    · show (s.pc (s.exec c)).handed = _
      rw [hpc, hhand]
      rfl
    · rw [show (s.countSleep p).pc ((s.countSleep p).exec c) = k0 from hpc] at hq
      exact absurd hq (hpick q)
    · exact absurd hq (hforks q)
    · exact nomatch hp.symm.trans e
    · show plock (s.exec c) _ = plock (s.exec c) (s.pc (s.exec c))
      rw [hpc, hlock, hp]
      rfl
    rw [countSleep_exec] at hq
    rw [← hpc, hq] at hold
    exact (on_of_plain hold).mp (h.on c q hq)
  cases hcode

lemma call (hpc : s.pc (.proc p) = .home) (hcode : s.call c initproc p x = some i)
    (hs : s.step c i = some s') : s'.Inv := by
  have hself : s.pc (s.exec c) = .home := by rw [hp, hpc]
  unfold State.call at hcode
  split at hcode
  · exact h.sleep hp hself hcode hs rfl (by rw [hp]; rfl) rfl nofun rfl rfl trivial nofun
  · split at hcode
    · cases hcode
    cases hcode
    exact h.acquireOther hp hpc hs rfl rfl ⟨rfl, nofun, nofun, fun _ => trivial, nofun⟩ rfl nofun
  · cases hcode
    exact h.acquireOther hp hpc hs rfl rfl ⟨rfl, nofun, nofun, fun _ => trivial, nofun⟩ rfl nofun
  · cases hcode
    cases hs
    exact h.gotoPlain hp hpc rfl rfl ⟨rfl, nofun, nofun, fun _ => trivial, nofun⟩ rfl
  exact h.free hself rfl trivial rfl rfl hcode hs

omit h hp in
lemma keep {K k : Pc n} (hh : K.handed = k.handed) (hpk : K.picked = none)
    (hf : k.forks = K.forks) (hw : K.WF → k.WF) : Moves (.proc p : Thread m n) K k :=
  ⟨hh, fun _ hq => (by cases hpk.symm.trans hq), fun _ hq => hf ▸ hq, hw, by simp⟩

omit h hp in
lemma leave {K k : Pc n} (hh : K.handed = k.handed) (hpk : K.picked = none)
    (hf : k.forks = none) (hw : k.WF) : Moves (.proc p : Thread m n) K k :=
  ⟨hh, fun _ hq => (by cases hpk.symm.trans hq), fun _ hq => (by cases hf.symm.trans hq),
    fun _ => hw, by simp⟩

variable (hs : s.step c i = some s')
include hs

lemma intr_step (hpc : s.pc (.proc p) = .intr k)
    (hcode : s.procCode c initproc p x (.intr k) = some i) : s'.Inv := by
  have hwf := h.base.wf (.proc p)
  rw [hpc] at hwf
  unfold procCode at hcode
  dsimp only at hcode
  split at hcode
  · split at hcode
    · cases hcode
      cases hs
      exact h.gotoPlain hp hpc rfl (Pc.plain_of_safe hwf.1)
        (keep (Pc.handed_of_safe hwf.1).symm rfl rfl And.right) (plock_of_safe hwf.1)
    cases hcode
  · split at hcode
    · cases hcode
      cases hs
      exact h.gotoPlain hp hpc rfl rfl (keep rfl rfl rfl (fun hwf => ⟨rfl, hwf⟩)) rfl
    cases hcode
  exact h.free (by rw [hp, hpc]) rfl hwf rfl rfl hcode hs

lemma sleepAcquire {ch : Chan n} {lk : Lock n} (hpc : s.pc (.proc p) = .sleepAcquire ch lk k)
    (hcode : s.procCode c initproc p x (.sleepAcquire ch lk k) = some i) : s'.Inv := by
  have hwf := h.base.wf (.proc p)
  have hon := h.on c p hp
  rw [hpc] at hwf hon
  cases hcode
  obtain ⟨hfree, rfl⟩ := step_acquire hs
  refine h.acquire hfree ?_ (fun q => ?_) (fun q hq => ?_) trivial
  · rw [hp, hpc]
    exact keep rfl rfl rfl id
  · rw [hp, hpc]
    simp [plock, Pc.own, Pc.other]
  rw [hp] at hq
  cases hq
  refine ⟨hon.1, ?_⟩
  rw [acquire_holder, Function.update_of_ne (ne_proc hwf.1 p)]
  exact hon.2

lemma sleepRelease {ch : Chan n} {lk : Lock n} (hpc : s.pc (.proc p) = .sleepRelease ch lk k)
    (hcode : s.procCode c initproc p x (.sleepRelease ch lk k) = some i) : s'.Inv := by
  have hwf := h.base.wf (.proc p)
  have hon := h.on c p hp
  rw [hpc] at hwf hon
  cases hcode
  obtain ⟨hl, rfl⟩ := step_release hs
  refine h.release hl ?_ (fun q => ?_) (fun q hq => ?_) trivial
  · rw [hp, hpc]
    exact keep rfl rfl rfl id
  · rw [hp, hpc]
    exact ⟨fun hq => hq.2, fun hq => ⟨ne_proc hwf.1 q, hq⟩⟩
  rw [hp] at hq
  cases hq
  exact ⟨hon.1, by simp⟩

lemma exitScan {rest : List (Fin n)} (hpc : s.pc (.proc p) = .exitScan rest)
    (hcode : s.procCode c initproc p x (.exitScan rest) = some i) : s'.Inv := by
  cases rest with
  | nil =>
    rw [procCode] at hcode
    split at hcode <;> cases hcode <;> cases hs
    · exact h.gotoPlain hp hpc rfl rfl (leave rfl rfl rfl ⟨rfl, trivial⟩) rfl
    exact h.gotoPlain hp hpc rfl rfl (leave rfl rfl rfl trivial) rfl
  | cons q rest =>
    rw [procCode] at hcode
    split at hcode <;> cases hcode <;> cases hs
    · exact (h.setParent).gotoPlain hp hpc rfl rfl
        (leave rfl rfl rfl trivial) rfl
    exact h.gotoPlain hp hpc rfl rfl (leave rfl rfl rfl trivial) rfl

lemma exitUnlock (hpc : s.pc (.proc p) = .exitUnlock)
    (hcode : s.procCode c initproc p x .exitUnlock = some i) : s'.Inv := by
  have hon := h.on c p hp
  rw [hpc] at hon
  cases hcode
  obtain ⟨hl, rfl⟩ := step_release hs
  refine h.release hl ?_ (fun q => ?_) (fun q hq => ?_) trivial
  · rw [hp, hpc]
    exact leave rfl rfl rfl trivial
  · rw [hp, hpc]
    exact ⟨fun hq => hq.2, fun hq => ⟨by simp, hq⟩⟩
  rw [hp] at hq
  cases hq
  exact hon

lemma waitScan {rest : List (Fin n)} {kids : Bool} (hpc : s.pc (.proc p) = .waitScan rest kids)
    (hcode : s.procCode c initproc p x (.waitScan rest kids) = some i) : s'.Inv := by
  cases rest with
  | nil =>
    rw [procCode] at hcode
    split at hcode <;> cases hcode <;> cases hs <;>
      exact h.gotoPlain hp hpc rfl rfl (leave rfl rfl rfl trivial) rfl
  | cons q rest =>
    rw [procCode] at hcode
    split at hcode <;> cases hcode
    · exact h.acquirePlain hp hpc hs rfl rfl (leave rfl rfl rfl trivial) rfl rfl
    cases hs
    exact h.gotoPlain hp hpc rfl rfl (leave rfl rfl rfl trivial) rfl

lemma waitTest {rest : List (Fin n)} (hpc : s.pc (.proc p) = .waitTest q rest)
    (hcode : s.procCode c initproc p x (.waitTest q rest) = some i) : s'.Inv := by
  have hon := h.on c p hp
  rw [hpc] at hon
  unfold procCode at hcode
  dsimp only at hcode
  split at hcode
  · rename_i hzombie
    split at hcode <;> cases hcode <;> cases hs
    · exact h.gotoPlain hp hpc rfl rfl (leave rfl rfl rfl trivial) rfl
    exact h.gotoProc hp hpc (leave rfl rfl rfl trivial) rfl hon hzombie
  cases hcode
  exact h.releasePlain hp hpc hs rfl rfl (leave rfl rfl rfl trivial) rfl rfl

lemma waitFree (hpc : s.pc (.proc p) = .waitFree q)
    (hcode : s.procCode c initproc p x (.waitFree q) = some i) : s'.Inv := by
  have hzombie := h.ann c
  rw [hp, hpc] at hzombie
  change s.state q = .zombie at hzombie
  cases hcode
  cases hs
  exact h.otherStep hp hpc ⟨rfl, rfl, rfl, rfl, rfl⟩ fun r hr => by simp [freeproc, hr]
    rfl rfl (leave rfl rfl rfl trivial) (by rw [hzombie]; simp)
    (parked_unused (by simp [freeproc])) trivial
    (fun t _ => h.noFork (by rw [hzombie]; simp) t) (by rintro ⟨⟩)

lemma forkUsed (hpc : s.pc (.proc p) = .forkUsed q)
    (hcode : s.procCode c initproc p x (.forkUsed q) = some i) : s'.Inv := by
  have hunused := h.ann c
  rw [hp, hpc] at hunused
  change s.state q = .unused at hunused
  have hno : s.NoFork q := h.noFork (by rw [hunused]; simp)
  cases hcode
  cases hs
  exact h.otherStep hp hpc ⟨rfl, rfl, rfl, rfl, rfl⟩ fun r hr => by simp [hr]
    rfl rfl (leave rfl rfl rfl trivial) (by rw [hunused]; simp) (parked_used (by simp))
    ⟨by simp, NoFork.setPc (fun t _ => hno t) (by rintro ⟨⟩)⟩ (fun t _ => hno t) (by rintro ⟨⟩)

lemma forkContext (hpc : s.pc (.proc p) = .forkContext q)
    (hcode : s.procCode c initproc p x (.forkContext q) = some i) : s'.Inv := by
  have hon := h.on c p hp
  have hann := h.ann c
  rw [hp] at hann
  rw [hpc] at hon hann
  unfold procCode at hcode
  dsimp only at hcode
  split at hcode <;> cases hcode <;> cases hs
  · exact h.gotoProc hp hpc (leave rfl rfl rfl trivial) rfl hon
      ⟨hann.1, NoFork.setPc (fun t _ => hann.2 t) (by rintro ⟨⟩)⟩
  have hself : s.pc (s.exec c) = .forkContext q := by rw [hp, hpc]
  refine h.context (by rw [hself]; rfl) rfl (by rw [hself]; exact ⟨rfl, rfl⟩) hp trivial
    (fun r hr => ?_) hann.1 hann.2 rfl
  exact (Option.some.inj hr).symm

lemma forkFree (hpc : s.pc (.proc p) = .forkFree q)
    (hcode : s.procCode c initproc p x (.forkFree q) = some i) : s'.Inv := by
  have hann := h.ann c
  rw [hp, hpc] at hann
  cases hcode
  cases hs
  exact h.otherStep hp hpc ⟨rfl, rfl, rfl, rfl, rfl⟩ fun r hr => by simp [freeproc, hr]
    rfl rfl (leave rfl rfl rfl trivial) (by rw [hann.1]; simp)
    (parked_unused (by simp [freeproc])) trivial (fun t _ => hann.2 t) (by rintro ⟨⟩)

lemma forkRelease (hpc : s.pc (.proc p) = .forkRelease q)
    (hcode : s.procCode c initproc p x (.forkRelease q) = some i) : s'.Inv := by
  have hon := h.on c p hp
  rw [hpc] at hon
  unfold procCode at hcode
  dsimp only at hcode
  split at hcode <;> cases hcode
  · cases hs
    have hfork : (s.pc (s.exec c)).forks = some q := by rw [hp, hpc]; rfl
    exact h.gotoProc hp hpc (leave rfl rfl rfl trivial) rfl hon ⟨(h.forks _ q hfork).1,
      NoFork.setPc (fun t ht hq => ht (h.fork t _ q hq hfork)) (by rintro ⟨⟩)⟩
  exact h.releasePlain hp hpc hs rfl rfl (keep rfl rfl rfl fun _ => trivial) rfl rfl

lemma forkRun (hpc : s.pc (.proc p) = .forkRun q)
    (hcode : s.procCode c initproc p x (.forkRun q) = some i) : s'.Inv := by
  have hfork : (s.pc (s.exec c)).forks = some q := by rw [hp, hpc]; rfl
  obtain ⟨hused, hret⟩ := h.forks _ q hfork
  cases hcode
  cases hs
  exact h.otherStep hp hpc ⟨rfl, rfl, rfl, rfl, rfl⟩ fun r hr => by simp [hr]
    rfl rfl (leave rfl rfl rfl trivial) (by rw [hused]; simp)
    (parked_runnable (by simp) (by rw [hret]; rfl)) trivial
    (fun t ht hq => ht (h.fork t _ q hq hfork)) (by rintro ⟨⟩)

lemma proc_step (hcode : s.procCode c initproc p x (s.pc (.proc p)) = some i) : s'.Inv := by
  have hwf := h.base.wf (.proc p)
  have hon := h.on c p hp
  cases hpc : s.pc (.proc p) <;> rw [hpc] at hcode hwf hon
  case home => exact h.call hp hpc hcode hs
  case intr k => exact h.intr_step hp hs hpc hcode
  case sleepAcquire ch lk k => exact h.sleepAcquire hp hs hpc hcode
  case sleepRelease ch lk k => exact h.sleepRelease hp hs hpc hcode
  case exitScan rest => exact h.exitScan hp hs hpc hcode
  case exitUnlock => exact h.exitUnlock hp hs hpc hcode
  case waitScan rest kids => exact h.waitScan hp hs hpc hcode
  case waitTest q rest => exact h.waitTest hp hs hpc hcode
  case waitFree q => exact h.waitFree hp hs hpc hcode
  case forkUsed q => exact h.forkUsed hp hs hpc hcode
  case forkContext q => exact h.forkContext hp hs hpc hcode
  case forkFree q => exact h.forkFree hp hs hpc hcode
  case forkRelease q => exact h.forkRelease hp hs hpc hcode
  case forkRun q => exact h.forkRun hp hs hpc hcode
  case waitSleep =>
    exact h.sleep hp (by rw [hp, hpc]) hcode hs rfl (by rw [hp]; rfl) rfl (by rintro _ ⟨⟩) rfl rfl
      trivial (by rintro _ ⟨⟩)
  case sched r =>
    rw [procCode] at hcode
    split at hcode <;> cases hcode
    cases hs
    exact h.gotoProc hp hpc (keep rfl rfl rfl id) rfl (by cases r <;> exact hon) trivial
  case waitKilledRelease =>
    unfold procCode at hcode
    dsimp only at hcode
    split at hcode <;> cases hcode <;>
      exact h.releasePlain hp hpc hs rfl rfl (leave rfl rfl rfl trivial) rfl rfl
  case forkScan rest =>
    cases rest <;> cases hcode
    · cases hs
      exact h.gotoPlain hp hpc rfl rfl (leave rfl rfl rfl trivial) rfl
    exact h.acquirePlain hp hpc hs rfl rfl (leave rfl rfl rfl trivial) rfl rfl
  case forkTest q rest =>
    rw [procCode] at hcode
    split at hcode <;> cases hcode
    · cases hs
      exact h.gotoProc hp hpc (leave rfl rfl rfl trivial) rfl hon ‹_›
    exact h.releasePlain hp hpc hs rfl rfl (leave rfl rfl rfl trivial) rfl rfl
  all_goals cases hcode
  case sleepChan ch lk k =>
    cases hs
    exact h.ownStep hp hpc ⟨rfl, rfl, rfl, rfl, rfl⟩ (fun q hq => by simp [hq]) rfl rfl
      (keep rfl rfl rfl id) ⟨hon.1, hon.2, by simp⟩ trivial
  case sleepState ch lk k =>
    cases hs
    exact h.ownStep hp hpc ⟨rfl, rfl, rfl, rfl, rfl⟩ (fun q hq => by simp [hq]) rfl rfl
      (keep rfl rfl rfl id) ⟨by simp, hon.2.1, hon.2.2⟩ trivial
  case swtch r =>
    cases hs
    exact h.swtchSched hp hpc
  case sleepTidy ch lk k =>
    cases hs
    exact h.ownStep hp hpc ⟨rfl, rfl, rfl, rfl, rfl⟩ (fun q hq => by simp [hq]) rfl rfl
      (keep rfl rfl rfl id) hon trivial
  case sleepUnlock lk k =>
    exact h.releasePlain hp hpc hs rfl rfl (keep rfl rfl rfl id) rfl rfl
  case sleepReacquire lk k =>
    exact h.acquireOther hp hpc hs rfl (Pc.plain_of_safe hwf.2.1)
      (keep (Pc.handed_of_safe hwf.2.1).symm rfl rfl (fun h => h.2.2))
      (plock_of_safe hwf.2.1) (ne_proc hwf.1)
  case yieldAcquire k => exact h.acquirePlain hp hpc hs rfl rfl (keep rfl rfl rfl id) rfl rfl
  case yieldState k =>
    cases hs
    exact h.ownStep hp hpc ⟨rfl, rfl, rfl, rfl, rfl⟩ (fun q hq => by simp [hq]) rfl rfl
      (keep rfl rfl rfl id) (by simp [On]) trivial
  case yieldRelease k =>
    exact h.releasePlain hp hpc hs rfl (Pc.plain_of_safe hwf.1)
      (keep (Pc.handed_of_safe hwf.1).symm rfl rfl And.right) rfl (plock_of_safe hwf.1)
  case forkret | waitRelease q | forkFail q | forkUnlock q =>
    exact h.releasePlain hp hpc hs rfl rfl (leave rfl rfl rfl trivial) rfl rfl
  case exitInit rest =>
    cases hs
    exact h.gotoPlain hp hpc rfl rfl (leave rfl rfl rfl ⟨rfl, trivial⟩) rfl
  case exitLock | waitKilled =>
    exact h.acquirePlain hp hpc hs rfl rfl (leave rfl rfl rfl trivial) rfl rfl
  case exitState =>
    cases hs
    exact h.ownStep hp hpc ⟨rfl, rfl, rfl, rfl, rfl⟩ (fun q hq => by simp [hq]) rfl rfl
      (leave rfl rfl rfl trivial) (by simp [On]) trivial
  case waitDone => exact h.releaseOther hp hpc hs rfl rfl (leave rfl rfl rfl trivial) rfl (by simp)
  case forkWait q =>
    exact h.acquireOther hp hpc hs rfl rfl (keep rfl rfl rfl fun _ => trivial) rfl (by simp)
  case forkParent q =>
    cases hs
    exact (h.setParent (q := q)).gotoPlain (c := c) hp hpc rfl rfl
      (keep rfl rfl rfl fun _ => trivial) rfl
  case forkUnwait q =>
    exact h.releaseOther hp hpc hs rfl rfl (keep rfl rfl rfl fun _ => trivial) rfl (by simp)
  case forkLock q =>
    exact h.acquirePlain hp hpc hs rfl rfl (keep rfl rfl rfl fun _ => trivial) rfl rfl
end

lemma next {a : Label m n} (h : s.Inv) (hn : Sched.next initproc s a = some s') : s'.Inv := by
  obtain ⟨i, hcode, hs⟩ := Option.bind_eq_some_iff.mp hn
  rcases code_cases hcode with ⟨hheld, rfl⟩ | hcode | ⟨c', ht, hcode⟩ | ⟨p, ht, hcode⟩
  · cases hs
    exact h.interrupt hheld
  · exact h.wake hcode hs
  · cases h.sched _ _ ht
    rw [ht] at hcode
    exact h.sched_step ht hcode hs
  rw [ht] at hcode
  exact h.proc_step ht hs hcode
end Inv

lemma inv_boot : (boot initproc : State m n).Inv := by
  have hpc : ∀ c, (boot initproc : State m n).pc (.sched c) = .home := fun c => rfl
  have hforks : ∀ t q, ((boot initproc : State m n).pc t).forks ≠ some q := by
    intro t q
    show (if t = .proc initproc then Pc.forkret else Pc.home).forks ≠ some q
    split <;> exact nofun
  refine ⟨⟨fun c l => iff_of_false nofun nofun, fun c => List.nodup_nil, fun t => ?_,
    fun c => rfl⟩, fun c c' he => (Thread.sched.inj he).symm, nofun,
    fun c q => iff_of_false nofun nofun, nofun, fun c _ => rfl, nofun, fun p _ => ?_,
    fun c => trivial, fun t q hq => absurd hq (hforks t q), fun t t' q hq => absurd hq (hforks t q)⟩
  · show (if t = .proc initproc then Pc.forkret else Pc.home).WF
    split <;> trivial
  by_cases hp : p = initproc
  · exact parked_runnable (by simp [boot, hp]) (by simp [boot, hp, Pc.resumes])
  exact parked_unused (by simp [boot, hp])

lemma inv_of_run {as : List (Label m n)} (hr : Lib.run (next initproc)
    (boot initproc) as = some s) :
    s.Inv :=
  Lib.run_invariant (fun _ _ _ h hn => h.next hn) inv_boot hr
end Xv6.Sched.State
