import Xv6.Lib.Monitor

namespace Xv6.Lib.Monitor.Program
open State
open Function (update update_self update_of_ne update_eq_self)
variable {π σ κ χ ε l : Type} [DecidableEq π] [DecidableEq χ] [DecidableEq l]
  {P : Program π σ κ χ ε l} {s s' : State π σ κ χ l} {a : Label π κ ε}

def Enters (P : Program π σ κ χ ε l) (p : π) (k : κ) : Prop :=
  P.entry p k ∨ ∃ k₀ c, P.code p k₀ = .sleep c k

structure Outline (P : Program π σ κ χ ε l) (inv : σ → Prop) (ann : π → κ → σ → Prop) : Prop where
  enter : ∀ p k d, P.Enters p k → inv d → ann p k d
  act : ∀ p k f e d, P.code p k = .act f → inv d → ann p k d →
    inv (f e d).1 ∧ ann p (f e d).2 (f e d).1
  killed : ∀ p k yes no d, P.code p k = .killed yes no → ann p k d → ann p yes d ∧ ann p no d
  wakeup : ∀ p k c k' d, P.code p k = .wakeup c k' → ann p k d → ann p k' d
  stable : ∀ p k q k' f e d, P.code q k' = .act f → P.lock k' ≠ P.lock k → inv d → ann q k' d →
    ann p k d → ann p k (f e d).1

/-- The annotations are true. -/
structure Holds (P : Program π σ κ χ ε l) (inv : σ → Prop) (ann : π → κ → σ → Prop)
    (s : State π σ κ χ l) : Prop where
  mutex : P.Mutex s
  inv : inv s.data
  ann : ∀ p k, (s.status p).inside = some k → ann p k s.data
  enters : ∀ p k, s.status p = .enter k ∨ s.status p = .asleep k → P.Enters p k

variable {inv : σ → Prop} {ann : π → κ → σ → Prop}

namespace Holds
section
variable (h : P.Holds inv ann s) (hmutex : P.Mutex s') (hdata : s'.data = s.data)
include h hmutex hdata

omit [DecidableEq χ] [DecidableEq l] in
lemma move {p : π} {v : Status π κ χ} (hstatus : s'.status = update s.status p v)
    (hann : ∀ k, v.inside = some k → ann p k s.data)
    (henter : ∀ k, v = .enter k ∨ v = .asleep k → P.Enters p k) : P.Holds inv ann s' := by
  refine ⟨hmutex, by rw [hdata]; exact h.inv, fun q k hq => ?_, fun q k hq => ?_⟩
  · rw [hdata]
    rw [hstatus] at hq
    by_cases hqp : q = p
    · rw [hqp, update_self] at hq
      rw [hqp]
      exact hann k hq
    rw [update_of_ne hqp] at hq
    exact h.ann q k hq
  rw [hstatus] at hq
  by_cases hqp : q = p
  · rw [hqp, update_self] at hq
    rw [hqp]
    exact henter k hq
  rw [update_of_ne hqp] at hq
  exact h.enters q k hq

omit [DecidableEq π] [DecidableEq χ] [DecidableEq l] in
lemma same (hstatus : s'.status = s.status) : P.Holds inv ann s' :=
  ⟨hmutex, by rw [hdata]; exact h.inv, by rw [hdata, hstatus]; exact h.ann,
    by rw [hstatus]; exact h.enters⟩
end

omit [DecidableEq π] [DecidableEq χ] [DecidableEq l] in
lemma start {d : σ} (hd : inv d) : P.Holds inv ann (.start d) :=
  ⟨Mutex.start, hd, nofun, fun _ _ h => h.elim nofun nofun⟩

omit [DecidableEq π] [DecidableEq χ] [DecidableEq l] in
lemma on {p : π} {k : κ} (h : P.Holds inv ann s) (hst : s.status p = .on k) :
    ann p k s.data := h.ann p k (by rw [hst]; rfl)

lemma step (hP : P.WellLocked) (hO : P.Outline inv ann) (h : P.Holds inv ann s)
    (hs : P.Step s a s') : P.Holds inv ann s' := by
  have hmutex := h.mutex.step hP hs
  cases hs with
  | call p k hst hrun hk =>
    refine h.move hmutex rfl rfl nofun fun k' hk' => ?_
    rcases hk' with e | e
    · cases e
      exact .inl hk
    cases e
  | acquire p k hst hrun hfree =>
    refine h.move hmutex rfl rfl (fun k' hk' => ?_) nofun
    cases hk'
    exact hO.enter p k _ (h.enters p k (.inl hst)) h.inv
  | act p k e f hst hrun hc =>
    obtain ⟨hinv, hann⟩ := hO.act p k f e s.data hc h.inv (h.on hst)
    refine ⟨hmutex, hinv, fun q k' hq => ?_, fun q k' hq => ?_⟩
    · by_cases hqp : q = p
      · rw [hqp] at hq ⊢
        simp only [setData_status, setStatus_status, update_self] at hq
        cases hq
        exact hann
      · simp only [setData_status, setStatus_status, ne_eq, hqp, not_false_eq_true,
          update_of_ne] at hq
        exact hO.stable q k' p k f e s.data hc
          (fun elock => hqp (h.mutex.eq_of_lock hq (by rw [hst]; rfl) elock.symm)) h.inv (h.on hst)
          (h.ann q k' hq)
    by_cases hqp : q = p
    · simp [hqp] at hq
    exact h.enters q k' (by simpa [hqp] using hq)
  | killed p k e yes no hst hrun hc =>
    obtain ⟨hyes, hno⟩ := hO.killed p k yes no s.data hc (h.on hst)
    refine h.move hmutex rfl rfl (fun k' hk' => ?_) nofun
    cases hk'
    split
    · exact hyes
    exact hno
  | wakeup p k e c k' hst hrun hc =>
    refine h.move hmutex rfl rfl (fun j hj => ?_) nofun
    cases hj
    exact hO.wakeup p k c k' s.data hc (h.on hst)
  | sleep p k e c k' hst hrun hc =>
    refine h.move hmutex rfl rfl nofun fun j hj => ?_
    rcases hj with e | e
    · cases e
    cases e
    exact .inr ⟨k, c, hc⟩
  | ret p k e v hst hrun hc
  | die p k e hst hrun hc => exact h.move hmutex rfl rfl nofun nofun
  | round p c q rest k e hst hrun =>
    obtain ⟨ph, hs, -⟩ := wakeOne_eq (s := s) (p := p) (q := q) (c := c)
    rw [hs] at hmutex ⊢
    refine h.move hmutex rfl rfl (fun j hj => ?_) nofun
    exact h.ann p j (by rwa [hst])
  | woken p c k e hst hrun =>
    refine h.move hmutex rfl rfl (fun j hj => ?_) nofun
    exact h.ann p j (by rwa [hst])
  | run p hph hst
  | yield p hrun hst
  | kill p hph
  | rouse p hph => exact h.same hmutex rfl rfl
  | resume p k hph hst =>
    refine h.move hmutex rfl rfl nofun fun j hj => ?_
    rcases hj with e | e
    · cases e
      exact h.enters p k (.inr hst)
    cases e
end Holds

lemma killed_of_step (hs : P.Step s a s') {p : π} (h : s.killed p) : s'.killed p := by
  cases hs with
  | round r c q rest k e hst hrun =>
    obtain ⟨ph, hs, -⟩ := wakeOne_eq (s := s) (p := r) (q := q) (c := c)
    rwa [hs]
  | kill q hph | rouse q hph =>
    by_cases hqp : p = q
    · simp [hqp]
    simpa [hqp] using h
  | _ => exact h

omit [DecidableEq π] [DecidableEq χ] [DecidableEq l] in
lemma outline_true : P.Outline (fun _ => True) (fun _ _ _ => True) :=
  ⟨fun _ _ _ _ _ => trivial, fun _ _ _ _ _ _ _ _ => ⟨trivial, trivial⟩,
    fun _ _ _ _ _ _ _ => ⟨trivial, trivial⟩, fun _ _ _ _ _ _ _ => trivial,
    fun _ _ _ _ _ _ _ _ _ _ _ _ => trivial⟩

structure Waits (P : Program π σ κ χ ε l) (inv : σ → Prop) (ann : π → κ → σ → Prop)
    (guard : χ → σ → Prop) (owes : κ → χ → Prop) : Prop where
  procs : ∀ p, p ∈ P.procs
  act : ∀ p k f e d c, P.code p k = .act f → inv d → ann p k d → owes k c ∨ guard c d →
    owes (f e d).2 c ∨ guard c (f e d).1
  killed : ∀ p k yes no c, P.code p k = .killed yes no → owes k c → owes no c
  wakeup : ∀ p k c k' c', P.code p k = .wakeup c k' → owes k c' → c' = c ∨ owes k' c'
  sleep : ∀ p k c k' d, P.code p k = .sleep c k' → ann p k d → guard c d ∧ ∀ c', ¬owes k c'
  ret : ∀ p k v c, P.code p k = .ret v → ¬owes k c
  die : ∀ p k c, P.code p k = .die → ¬owes k c

variable {guard : χ → σ → Prop} {owes : κ → χ → Prop}

def Owing (owes : κ → χ → Prop) (v : Status π κ χ) (c : χ) (p : π) : Prop :=
  match v with
  | .on k => owes k c
  | .waking c' rest k => c' = c ∧ p ∈ rest ∨ owes k c
  | _ => False

def Rightly (guard : χ → σ → Prop) (owes : κ → χ → Prop) (s : State π σ κ χ l) : Prop :=
  ∀ p c, s.phase p = .sleeping → s.chan p = some c →
    guard c s.data ∨ ∃ q, Owing owes (s.status q) c p

def Unharmed (P : Program π σ κ χ ε l) (owes : κ → χ → Prop) (s : State π σ κ χ l) :
    Label π κ ε → Prop
  | .step p _ => ∀ k yes no c, s.status p = .on k → P.code p k = .killed yes no → owes k c →
    s.killed p = false
  | _ => True

namespace Rightly
omit [DecidableEq π] [DecidableEq χ] [DecidableEq l] in
lemma start {d : σ} : Rightly guard owes (.start d : State π σ κ χ l) := nofun

omit [DecidableEq χ] [DecidableEq l] in
lemma move {p : π} {v : Status π κ χ} (h : Rightly guard owes s) (hdata : s'.data = s.data)
    (hstatus : s'.status = update s.status p v)
    (hphase : ∀ q, s'.phase q = .sleeping → s.phase q = .sleeping ∧ s'.chan q = s.chan q)
    (hv : ∀ c q, s'.phase q = .sleeping → s.chan q = some c → Owing owes (s.status p) c q →
      Owing owes v c q) : Rightly guard owes s' := by
  intro q c hq hc
  obtain ⟨hsleep, hchan⟩ := hphase q hq
  rw [hchan] at hc
  rw [hdata]
  rcases h q c hsleep hc with hg | ⟨r, hr⟩
  · exact .inl hg
  refine .inr ⟨r, ?_⟩
  rw [hstatus]
  by_cases hrp : r = p
  · rw [hrp] at hr ⊢
    rw [update_self]
    exact hv c q hq hc hr
  rwa [update_of_ne hrp]

omit [DecidableEq π] [DecidableEq χ] [DecidableEq l] in
lemma same (h : Rightly guard owes s) (hdata : s'.data = s.data) (hstatus : s'.status = s.status)
    (hphase : ∀ q, s'.phase q = .sleeping → s.phase q = .sleeping)
    (hchan : s'.chan = s.chan) : Rightly guard owes s' := by
  intro q c hq hc
  rw [hdata, hstatus]
  exact h q c (hphase q hq) (by rwa [hchan] at hc)

lemma step (hW : P.Waits inv ann guard owes) (hh : P.Holds inv ann s)
    (h : Rightly guard owes s) (hu : P.Unharmed owes s a) (hs : P.Step s a s') :
    Rightly guard owes s' := by
  cases hs with
  | call p k hst hrun hk
  | acquire p k hst hrun hfree =>
    refine h.move rfl rfl (fun q hq => ⟨hq, rfl⟩) fun c q _ _ ho => ?_
    rw [hst] at ho
    exact ho.elim
  | act p k e f hst hrun hc =>
    have hstep := fun c => hW.act p k f e s.data c hc hh.inv (hh.on hst)
    intro q c hq hchan
    have hold : owes (f e s.data).2 c ∨ guard c (f e s.data).1 ∨
        ∃ r ≠ p, Owing owes (s.status r) c q := by
      rcases h q c hq hchan with hg | ⟨r, hr⟩
      · exact (hstep c (.inr hg)).imp_right .inl
      by_cases hrp : r = p
      · rw [hrp, hst] at hr
        exact (hstep c (.inl hr)).imp_right .inl
      exact .inr (.inr ⟨r, hrp, hr⟩)
    rcases hold with ho | hg | ⟨r, hrp, hr⟩
    · exact .inr ⟨p, by simpa [Owing] using ho⟩
    · exact .inl hg
    exact .inr ⟨r, by simpa [hrp] using hr⟩
  | killed p k e yes no hst hrun hc =>
    refine h.move rfl rfl (fun q hq => ⟨hq, rfl⟩) fun c q _ _ ho => ?_
    rw [hst] at ho
    rw [hu k yes no c hst hc ho]
    exact hW.killed p k yes no c hc ho
  | wakeup p k e c k' hst hrun hc =>
    refine h.move rfl rfl (fun q hq => ⟨hq, rfl⟩) fun c' q _ _ ho => ?_
    rw [hst] at ho
    rcases hW.wakeup p k c k' c' hc ho with e | ho
    · exact .inl ⟨e.symm, hW.procs q⟩
    exact .inr ho
  | sleep p k e c k' hst hrun hc =>
    obtain ⟨hg, hno⟩ := hW.sleep p k c k' s.data hc (hh.on hst)
    intro q c' hq hchan
    by_cases hqp : q = p
    · have hcc : c = c' := by simpa [hqp] using hchan
      exact .inl (hcc ▸ hg)
    rcases h q c' (by simpa [hqp] using hq) (by simpa [hqp] using hchan) with hg | ⟨r, hr⟩
    · exact .inl hg
    have hrp : r ≠ p := by
      rintro rfl
      rw [hst] at hr
      exact hno c' hr
    exact .inr ⟨r, by simpa [hrp] using hr⟩
  | ret p k e v hst hrun hc =>
    refine h.move rfl rfl (fun q hq => ⟨hq, rfl⟩) fun c q _ _ ho => ?_
    rw [hst] at ho
    exact (hW.ret p k v c hc ho).elim
  | die p k e hst hrun hc =>
    refine h.move rfl rfl (fun q hq => ⟨?_, rfl⟩) fun c q _ _ ho => ?_
    · by_cases hqp : q = p
      · simp [hqp] at hq
      simpa [hqp] using hq
    rw [hst] at ho
    exact (hW.die p k c hc ho).elim
  | round p c r rest k e hst hrun =>
    have hm : Moves p (.waking c rest k) s _ := moves_round (q := r) (c := c)
    obtain ⟨ph, hs, hph⟩ := wakeOne_eq (s := s) (p := p) (q := r) (c := c)
    rw [hs] at hm ⊢
    refine h.move rfl rfl (fun q hq => ⟨?_, rfl⟩) fun c' q hq hchan ho => ?_
    · rcases hm.phase q with e | e
      · rw [← e, hq]
      exact e.1
    rw [hst] at ho
    rcases ho with ⟨rfl, hmem⟩ | ho
    · rcases List.mem_cons.mp hmem with rfl | hmem
      · -- the round would have woken `q`
        have hsleep : s.phase q = .sleeping := by
          rcases hm.phase q with e | e
          · rw [← e, hq]
          exact e.1
        have hqp : q ≠ p := by
          rintro rfl
          rw [hrun] at hsleep
          cases hsleep
        have hwoken : ph q = .runnable := by rw [hph, if_pos ⟨rfl, hqp, hsleep, hchan⟩]
        exact absurd (hwoken.symm.trans hq) nofun
      exact .inl ⟨rfl, hmem⟩
    exact .inr ho
  | woken p c k e hst hrun =>
    refine h.move rfl rfl (fun q hq => ⟨hq, rfl⟩) fun c' q _ _ ho => ?_
    rw [hst] at ho
    exact ho.elim (fun hmem => absurd hmem.2 List.not_mem_nil) id
  | run p hph hst
  | yield p hrun hst
  | rouse p hph =>
    refine h.same rfl rfl (fun q hq => ?_) rfl
    by_cases hqp : q = p
    · simp [hqp] at hq
    simpa [hqp] using hq
  | resume p k hph hst =>
    refine h.move rfl rfl (fun q hq => ?_) fun c q _ _ ho => ?_
    · by_cases hqp : q = p
      · simp [hqp] at hq
      simpa [hqp] using hq
    rw [hst] at ho
    exact ho.elim
  | kill p hph => exact h.same rfl rfl (fun q hq => hq) rfl
end Rightly

structure Armed (P : Program π σ κ χ ε l) (armed : κ → σ → Bool) : Prop where
  entry : ∀ p k d, P.entry p k → armed k d = false
  code : ∀ p k, (P.code p k).Arms armed k
  stable : ∀ k q k' f e d, P.code q k' = .act f → P.lock k' ≠ P.lock k →
    armed k (f e d).1 → armed k d

variable {armed : κ → σ → Bool}

omit [DecidableEq π] [DecidableEq χ] [DecidableEq l] in
lemma Armed.enter (hA : P.Armed armed) {p : π} {k : κ} (h : P.Enters p k) (d : σ) :
    armed k d = false := by
  rcases h with h | ⟨k0, c, h⟩
  · exact hA.entry p k d h
  have harms := hA.code p k0
  rw [h] at harms
  exact (harms d).2

def Roused (armed : κ → σ → Bool) (s : State π σ κ χ l) : Prop :=
  ∀ p, s.killed p → s.phase p ≠ .sleeping ∧
    ∀ k, (s.status p).inside = some k → armed k s.data = false

def Clear (armed : κ → σ → Bool) (s : State π σ κ χ l) : Label π κ ε → Prop
  | .kill p => ∀ k ∈ (s.status p).inside, armed k s.data = false
  | _ => True

instance (s : State π σ κ χ l) (a : Label π κ ε) : Decidable (Clear armed s a) := by
  cases a <;> unfold Clear <;> infer_instance

namespace Roused
omit [DecidableEq π] [DecidableEq χ] [DecidableEq l] in
lemma start {d : σ} : Roused armed (.start d : State π σ κ χ l) := nofun

omit [DecidableEq χ] [DecidableEq l] in
lemma move {p : π} {v : Status π κ χ} (h : Roused armed s) (hkilled : s'.killed = s.killed)
    (hdata : s'.data = s.data) (hstatus : s'.status = update s.status p v)
    (hphase : ∀ q ≠ p, s'.phase q = .sleeping → s.phase q = .sleeping)
    (hv : s.killed p → s'.phase p ≠ .sleeping ∧ ∀ k, v.inside = some k → armed k s.data = false) :
    Roused armed s' := by
  intro q hq
  rw [hkilled] at hq
  rw [hdata, hstatus]
  by_cases hqp : q = p
  · rw [hqp] at hq ⊢
    rw [update_self]
    exact hv hq
  rw [update_of_ne hqp]
  exact ⟨fun e => (h q hq).1 (hphase q hqp e), (h q hq).2⟩

lemma step (hA : P.Armed armed) (hh : P.Holds inv ann s) (h : Roused armed s)
    (hclear : Clear armed s a) (hs : P.Step s a s') : Roused armed s' := by
  have hrunning : ∀ {p}, s.phase p = .running → s.phase p ≠ .sleeping := fun e => by
    rw [e]
    exact nofun
  have hon : ∀ {p k}, s.killed p = true → s.status p = .on k → armed k s.data = false :=
    fun hk hst => (h _ hk).2 _ (by rw [hst]; rfl)
  cases hs with
  | call p k hst hrun hk
  | ret p k e v hst hrun hc =>
    exact h.move rfl rfl rfl (fun q _ hq => hq) (fun _ => ⟨hrunning hrun, nofun⟩)
  | acquire p k hst hrun hfree =>
    refine h.move rfl rfl rfl (fun q _ hq => hq) (fun _ => ⟨hrunning hrun, fun j hj => ?_⟩)
    cases hj
    exact hA.enter (hh.enters p k (.inl hst)) s.data
  | act p k e f hst hrun hc =>
    have harms := hA.code p k
    rw [hc] at harms
    intro q hq
    refine ⟨(h q hq).1, fun j hj => Bool.eq_false_iff.mpr fun harm => ?_⟩
    by_cases hqp : q = p
    · rw [hqp] at hq hj
      simp only [setData_status, setStatus_status, update_self] at hj
      cases hj
      exact nomatch (harms e s.data harm).symm.trans (hon hq hst)
    simp only [setData_status, setStatus_status, ne_eq, hqp, not_false_eq_true, update_of_ne] at hj
    have hne : P.lock k ≠ P.lock j := fun elock =>
      hqp (hh.mutex.eq_of_lock hj (by rw [hst]; rfl) elock.symm)
    have harm' := hA.stable j p k f e s.data hc hne harm
    rw [(h q hq).2 j hj] at harm'
    cases harm'
  | killed p k e yes no hst hrun hc =>
    have harms := hA.code p k
    rw [hc] at harms
    refine h.move rfl rfl rfl (fun q _ hq => hq) (fun hk => ⟨hrunning hrun, fun j hj => ?_⟩)
    rw [hk] at hj
    cases hj
    exact harms s.data
  | wakeup p k e c k' hst hrun hc =>
    have harms := hA.code p k
    rw [hc] at harms
    refine h.move rfl rfl rfl (fun q _ hq => hq)
      (fun hk => ⟨hrunning hrun, fun j hj => Bool.eq_false_iff.mpr fun harm => ?_⟩)
    cases hj
    have harm' := harms s.data harm
    rw [hon hk hst] at harm'
    cases harm'
  | sleep p k e c k' hst hrun hc =>
    have harms := hA.code p k
    rw [hc] at harms
    refine h.move rfl rfl rfl (fun q hqp hq => by simpa [hqp] using hq) (fun hk => ?_)
    have harm := (harms s.data).1
    rw [hon hk hst] at harm
    cases harm
  | die p k e hst hrun hc
  | resume p k hph hst =>
    exact h.move rfl rfl rfl (fun q hqp hq => by simpa [hqp] using hq) (fun _ => ⟨by simp, nofun⟩)
  | round p c q rest k e hst hrun =>
    have hm : Moves p (.waking c rest k) s _ := moves_round (q := q) (c := c)
    obtain ⟨ph, hs, -⟩ := wakeOne_eq (s := s) (p := p) (q := q) (c := c)
    rw [hs] at hm ⊢
    refine h.move rfl rfl rfl (fun r _ hr => ?_) (fun hk => ⟨?_, fun j hj => ?_⟩)
    · rcases hm.phase r with e | e
      · rw [← e, hr]
      exact e.1
    · rcases hm.phase p with e | e
      · rw [e]
        exact hrunning hrun
      rw [hrun] at e
      cases e.1
    exact (h p hk).2 j (by rw [hst]; exact hj)
  | woken p c k e hst hrun =>
    exact h.move rfl rfl rfl (fun q _ hq => hq)
      (fun hk => ⟨hrunning hrun, fun j hj => (h p hk).2 j (by rw [hst]; exact hj)⟩)
  | run p hph hst
  | yield p hrun hst =>
    exact h.move rfl rfl (update_eq_self p _).symm
      (fun q hqp hq => by simpa [hqp] using hq) (fun hk => ⟨by simp, (h p hk).2⟩)
  | kill p hph =>
    intro q hq
    by_cases hqp : q = p
    · rw [hqp]
      exact ⟨hph, hclear⟩
    exact h q (by simpa [hqp] using hq)
  | rouse p hph =>
    intro q hq
    by_cases hqp : q = p
    · rw [hqp]
      exact ⟨by simp, hclear⟩
    simpa [hqp] using h q (by simpa [hqp] using hq)
end Roused
end Xv6.Lib.Monitor.Program
