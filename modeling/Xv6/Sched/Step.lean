import Xv6.Sched.Inv

namespace Xv6.Sched.State
open Function (update update_self update_of_ne)
variable {m n : Nat} {s s' : State m n} {c : Fin m} {p q : Fin n} {k : Pc n}

namespace Base
lemma setPc (h : s.Base) {t : Thread m n} (hk : k.WF)
    (hsched : ∀ c, t = .sched c → k.bySched = true) : (s.setPc t k).Base := by
  refine ⟨h.held, h.nodup, fun t' => ?_, fun c => ?_⟩
  · by_cases ht : t' = t
    · simpa [ht] using hk
    simpa [ht] using h.wf t'
  by_cases ht : .sched c = t
  · simpa [ht] using hsched c ht.symm
  simpa [ht] using h.sched c

variable {l : Lock n}

lemma acquire (h : s.Base) (hfree : s.holder l = none) : (s.acquire c l).Base := by
  have hnone : ∀ c', l ∉ s.held c' := fun c' hmem => by
    rw [← h.held, hfree] at hmem
    cases hmem
  refine ⟨fun c' l' => ?_, fun c' => ?_, h.wf, h.sched⟩
  · by_cases hl : l' = l
    · by_cases hc : c' = c
      · simp [hl, hc]
      simp [hl, hc, Ne.symm hc, hnone]
    · by_cases hc : c' = c
      · simpa [hl, hc] using h.held c l'
      simpa [hl, hc] using h.held c' l'
  by_cases hc : c' = c
  · simpa [hc] using ⟨hnone c, h.nodup c⟩
  simpa [hc] using h.nodup c'

lemma release (h : s.Base) (hl : s.holder l = some c) : (s.release c l).Base := by
  refine ⟨fun c' l' => ?_, fun c' => ?_, h.wf, h.sched⟩
  · by_cases hl' : l' = l
    · by_cases hc : c' = c
      · simp [hl', hc, (h.nodup c).mem_erase_iff]
      · have hnone : l ∉ s.held c' := by
          rw [← h.held, hl]
          exact fun e => hc (Option.some.inj e).symm
        simp [hl', hc, hnone]
    · by_cases hc : c' = c
      · simpa [hl', hc, (h.nodup c).mem_erase_iff] using h.held c l'
      simpa [hl', hc] using h.held c' l'
  by_cases hc : c' = c
  · simpa [hc] using (h.nodup c).erase l
  simpa [hc] using h.nodup c'
end Base
namespace Inv
lemma ne_of_ne (h : s.Inv) {c' : Fin m} (hc : c' ≠ c) : s.exec c' ≠ s.exec c := by
  intro e
  cases ht : s.exec c with
  | sched c0 =>
    have hc0 := h.sched c c0 ht
    have hc0' := h.sched c' c0 (e.trans ht)
    exact hc (hc0'.symm.trans hc0)
  | proc p => exact hc (h.inj c' c p (e.trans ht) ht)

lemma holder_of_other (h : s.Inv) (hq : (s.pc (s.exec c)).other = some q) :
    s.holder (.proc q) = some c := by
  apply (h.lock c q).mpr
  cases ht : s.exec c with
  | sched c0 =>
    rw [ht] at hq
    exact hq
  | proc p =>
    rw [ht] at hq
    simp only [plock, Pc.own_of_other hq]
    exact hq

lemma holder_of_own (h : s.Inv) (hp : s.exec c = .proc p) (hown : (s.pc (.proc p)).own = true) :
    s.holder (.proc p) = some c := by
  apply (h.lock c p).mpr
  rw [hp]
  simp only [plock, hown]
  rfl

lemma off_of_other (h : s.Inv) (hq : (s.pc (s.exec c)).other = some q)
    (hstate : s.state q ≠ .running) : s.Off q := by
  intro c' hc'
  have hon := h.on c' q hc'
  by_cases hown : (s.pc (.proc q)).own = true
  · have hholder := h.holder_of_own hc' hown
    rw [h.holder_of_other hq] at hholder
    cases hholder
    rw [hc'] at hq
    rw [Pc.own_of_other hq] at hown
    cases hown
  exact hstate (hon.running (Bool.eq_false_iff.mpr hown))

structure Local (s s' : State m n) (c : Fin m) (k : Pc n) : Prop where
  exec : s'.exec = s.exec
  pc : s'.pc = update s.pc (s.exec c) k
  proc : ∀ c', c' ≠ c → s'.proc c' = s.proc c'
  holder : ∀ c', c' ≠ c → ∀ l, s'.holder l = some c' ↔ s.holder l = some c'
  cell : ∀ q, s.holder (.proc q) ≠ some c → s'.state q = s.state q ∧ s'.chan q = s.chan q
  seen : ∀ q, s.holder (.proc q) = some c → s.exec c ≠ .proc q →
    (s'.state q = s.state q ∧ s'.chan q = s.chan q) ∨ (s.Off q ∧ s'.Parked q (s.pc (.proc q)))

namespace Local
section
variable (h : Local s s' c k) {c' : Fin m}
include h

lemma pc_self : s'.pc (s.exec c) = k := by rw [h.pc, update_self]

lemma pc_other {t : Thread m n} (ht : t ≠ s.exec c) : s'.pc t = s.pc t := by
  rw [h.pc, update_of_ne ht]

lemma cell_on (hs : s.Inv) (hc : c' ≠ c) (hp : s.exec c' = .proc p) :
    s'.state p = s.state p ∧ s'.chan p = s.chan p := by
  by_cases hl : s.holder (.proc p) = some c
  · have hne : s.exec c ≠ .proc p := fun e => hc (hs.inj c' c p hp e)
    rcases h.seen p hl hne with e | ⟨hoff, -⟩
    · exact e
    exact absurd hp (hoff c')
  exact h.cell p hl

lemma cell_locked (hc : c' ≠ c) (hl : s.holder (.proc q) = some c') :
    s'.state q = s.state q ∧ s'.chan q = s.chan q :=
  h.cell q (fun e => hc (Option.some.inj (hl.symm.trans e)))
end
end Local

structure Goes (s s' : State m n) (c : Fin m) (k : Pc n) : Prop where
  base : s'.Base
  lock : ∀ q, s'.holder (.proc q) = some c ↔ plock (s.exec c) k = some q
  hand : s.exec c = .sched c → s'.proc c = k.handed
  cur : ∀ p, s.exec c = .proc p → s'.proc c = s.proc c
  pick : ∀ q, (s.pc (s.exec c)).picked = some q → k.picked = some q
  on : ∀ p, s.exec c = .proc p → s'.On c p k
  ann : s'.Ann k
  forks : ∀ q, k.forks = some q → (s.pc (s.exec c)).forks = some q ∨
    s.state q = .used ∧ s.pc (.proc q) = .forkret ∧ s.NoFork q ∧ s.holder (.proc q) = some c
  used : ∀ t q, (s'.pc t).forks = some q → s'.state q = s.state q

lemma local_fork (hl : Local s s' c k) (hg : Goes s s' c k) (t : Thread m n)
    (q : Fin n) (hq : (s'.pc t).forks = some q) :
    (s.pc t).forks = some q ∨ t = s.exec c ∧ s.state q = .used ∧ s.pc (.proc q) = .forkret ∧
      s.NoFork q ∧ s.holder (.proc q) = some c := by
  by_cases ht : t = s.exec c
  · rw [ht] at hq ⊢
    rw [hl.pc_self] at hq
    exact (hg.forks q hq).imp_right fun hnew => ⟨rfl, hnew⟩
  rw [hl.pc_other ht] at hq
  exact .inl hq

lemma localStep (h : s.Inv) (hl : Local s s' c k) (hg : Goes s s' c k) : s'.Inv := by
  have hexec := hl.exec
  refine ⟨hg.base, ?_, ?_, ?_, ?_, ?_, ?_, ?_, ?_, ?_, ?_⟩
  · rw [hexec]
    exact h.sched
  · rw [hexec]
    exact h.inj
  · intro c' q
    rw [hexec]
    by_cases hc : c' = c
    · rw [hc, hl.pc_self]
      exact hg.lock q
    rw [hl.holder c' hc, hl.pc_other (h.ne_of_ne hc)]
    exact h.lock c' q
  · intro c' p hp
    rw [hexec] at hp
    have hne : Thread.sched c' ≠ s.exec c := by
      intro e
      have hcc := h.sched c c' e.symm
      rw [hcc, ← e] at hp
      cases hp
    have hproc : s'.proc c' = s.proc c' := by
      by_cases hc : c' = c
      · rw [hc] at hp ⊢
        exact hg.cur p hp
      exact hl.proc c' hc
    rw [hproc, hl.pc_other hne]
    exact h.cur c' p hp
  · intro c' hc'
    rw [hexec] at hc'
    by_cases hc : c' = c
    · rw [hc] at hc' ⊢
      rw [← hc', hl.pc_self]
      exact hg.hand hc'
    rw [hl.proc c' hc, hl.pc_other (by rw [← hc']; exact h.ne_of_ne hc)]
    exact h.hand c' hc'
  · intro c' p hp
    rw [hexec] at hp
    by_cases hc : c' = c
    · rw [hc] at hp ⊢
      rw [← hp, hl.pc_self]
      exact hg.on p hp
    rw [hl.pc_other (by rw [← hp]; exact h.ne_of_ne hc)]
    obtain ⟨hstate, hchan⟩ := hl.cell_on h hc hp
    exact (h.on c' p hp).congr hstate hchan (hl.holder c' hc)
  · intro p hp
    have hoff : s.Off p := fun c' => by rw [← hexec]; exact hp c'
    rw [hl.pc_other (fun e => hoff c e.symm)]
    have hpark := h.off p hoff
    have hcongr : s'.state p = s.state p → s'.chan p = s.chan p →
        s'.Parked p (s.pc (.proc p)) := by
      intro hstate hchan
      refine hpark.congr hstate hchan (fun c' hc' hpicked => ⟨by rw [hexec, hc'], ?_⟩)
      by_cases hc : c' = c
      · rw [hc] at hc' hpicked ⊢
        rw [← hc'] at hpicked ⊢
        rw [hl.pc_self]
        exact hg.pick p hpicked
      rw [hl.pc_other (by rw [← hc']; exact h.ne_of_ne hc)]
      exact hpicked
    by_cases hlk : s.holder (.proc p) = some c
    · rcases hl.seen p hlk (hoff c) with ⟨hstate, hchan⟩ | ⟨-, hpark'⟩
      · exact hcongr hstate hchan
      exact hpark'
    obtain ⟨hstate, hchan⟩ := hl.cell p hlk
    exact hcongr hstate hchan
  · intro c'
    rw [hexec]
    by_cases hc : c' = c
    · rw [hc, hl.pc_self]
      exact hg.ann
    rw [hl.pc_other (h.ne_of_ne hc)]
    refine (h.ann c').congr (fun q hq => hl.cell_locked hc (h.holder_of_other hq))
      (fun q _ hoff c0 => by rw [hexec]; exact hoff c0) (fun q hq hno t ht => ?_)
    rcases local_fork hl hg t q ht with hold | ⟨-, -, -, -, hholder⟩
    · exact hno t hold
    rw [h.holder_of_other hq] at hholder
    exact hc (Option.some.inj hholder)
  · intro t q hq
    have hold : s.state q = .used ∧ s.pc (.proc q) = .forkret := by
      rcases local_fork hl hg t q hq with hq | ⟨-, hst, hpc, -⟩
      · exact h.forks t q hq
      exact ⟨hst, hpc⟩
    refine ⟨by rw [hg.used t q hq, hold.1], ?_⟩
    rw [hl.pc_other (fun e => ?_), hold.2]
    exact ((h.on c q e.symm).state_ne).1 hold.1
  intro t t' q ht ht'
  rcases local_fork hl hg t q ht with hq | ⟨hq, -, -, hno, -⟩
  · rcases local_fork hl hg t' q ht' with hq' | ⟨hq', -, -, hno', -⟩
    · exact h.fork t t' q hq hq'
    exact absurd hq (hno' t)
  rcases local_fork hl hg t' q ht' with hq' | ⟨hq', -⟩
  · exact absurd hq' (hno t')
  rw [hq, hq']

lemma noFork (h : s.Inv) (hstate : s.state q ≠ .used) : s.NoFork q := fun t ht =>
  hstate (h.forks t q ht).1

structure Moves (t : Thread m n) (k k' : Pc n) : Prop where
  hand : k.handed = k'.handed
  pick : ∀ q, k.picked = some q → k'.picked = some q
  forks : ∀ q, k'.forks = some q → k.forks = some q
  wf : k.WF → k'.WF
  sched : ∀ c, t = .sched c → k.bySched = true → k'.bySched = true

lemma Moves.bySched (hm : Moves (s.exec c) (s.pc (s.exec c)) k) (h : s.Inv) (c' : Fin m)
    (hc : s.exec c = .sched c') : k.bySched = true := by
  apply hm.sched c' hc
  rw [hc]
  exact h.base.sched c'

section
variable (h : s.Inv) {k0 : Pc n} {l : Lock n}
include h

lemma on_plain (hold : (s.pc (s.exec c)).plain = true) (hk : k.plain = true)
    (hstate : s'.state = s.state) (p : Fin n) (hp : s.exec c = .proc p) : s'.On c p k := by
  rw [on_of_plain hk, hstate]
  rw [hp] at hold
  exact (on_of_plain hold).mp (h.on c p hp)

lemma goto (hm : Moves (s.exec c) (s.pc (s.exec c)) k)
    (hlock : plock (s.exec c) k = plock (s.exec c) (s.pc (s.exec c)))
    (hon : ∀ p, s.exec c = .proc p → s.On c p k) (hann : (s.setPc (s.exec c) k).Ann k) :
    (s.setPc (s.exec c) k).Inv := by
  refine h.localStep (c := c) (k := k) ⟨rfl, rfl, fun _ _ => rfl, fun _ _ _ => .rfl,
    fun _ _ => ⟨rfl, rfl⟩,
    fun _ _ _ => .inl ⟨rfl, rfl⟩⟩ ?_
  refine ⟨h.base.setPc (hm.wf (h.base.wf _)) (hm.bySched h), fun q => ?_, fun hc => ?_,
    fun _ _ => rfl, hm.pick,
    hon, hann, fun q hq => .inl (hm.forks q hq), fun _ _ _ => rfl⟩
  · rw [hlock]
    exact h.lock c q
  rw [← hm.hand, hc]
  exact h.hand c hc

lemma setParent {v : Option (Fin n)} : (s.setParent q v).Inv :=
  ⟨⟨h.base.held, h.base.nodup, h.base.wf, h.base.sched⟩, h.sched, h.inj, h.lock, h.cur, h.hand,
    h.on, h.off,
    h.ann, h.forks, h.fork⟩

lemma countSleep : (s.countSleep p).Inv :=
  ⟨⟨h.base.held, h.base.nodup, h.base.wf, h.base.sched⟩, h.sched, h.inj, h.lock, h.cur, h.hand,
    h.on, h.off,
    h.ann, h.forks, h.fork⟩

lemma lockStep {v : Option (Fin m)} {held : Fin m → List (Lock n)}
    (hs : s' = { s with holder := update s.holder l v, held := held }) (hbase : s'.Base)
    (hold : s.holder l = none ∨ s.holder l = some c) (hv : v = none ∨ v = some c)
    (hm : Moves (s.exec c) (s.pc (s.exec c)) k)
    (hlock : ∀ q, s'.holder (.proc q) = some c ↔ plock (s.exec c) k = some q)
    (hon : ∀ p, s.exec c = .proc p → s'.On c p k) (hann : (s'.setPc (s.exec c) k).Ann k) :
    (s'.setPc (s.exec c) k).Inv := by
  subst hs
  refine h.localStep (c := c) (k := k) ⟨rfl, rfl, fun _ _ => rfl, fun c' hc l' => ?_,
    fun _ _ => ⟨rfl, rfl⟩, fun _ _ _ => .inl ⟨rfl, rfl⟩⟩ ?_
  · show update s.holder l v l' = some c' ↔ _
    by_cases hl : l' = l
    · have hne : ∀ {w : Option (Fin m)}, w = none ∨ w = some c → w ≠ some c' := by
        intro w hw e
        rcases hw with hw | hw
        · rw [hw] at e
          cases e
        rw [hw] at e
        exact hc (Option.some.inj e).symm
      rw [hl, update_self]
      exact iff_of_false (hne hv) (hne hold)
    rw [update_of_ne hl]
  refine ⟨hbase.setPc (hm.wf (h.base.wf _)) (hm.bySched h), hlock, fun hc => ?_, fun _ _ => rfl,
    hm.pick,
    hon, hann, fun q hq => .inl (hm.forks q hq), fun _ _ _ => rfl⟩
  rw [← hm.hand, hc]
  exact h.hand c hc

lemma acquire (hfree : s.holder l = none) (hm : Moves (s.exec c) (s.pc (s.exec c)) k)
    (hlock : ∀ q, (l = .proc q ∨ plock (s.exec c) (s.pc (s.exec c)) = some q) ↔
      plock (s.exec c) k = some q) (hon : ∀ p, s.exec c = .proc p → (s.acquire c l).On c p k)
    (hann : ((s.acquire c l).setPc (s.exec c) k).Ann k) :
    ((s.acquire c l).setPc (s.exec c) k).Inv := by
  refine h.lockStep rfl (h.base.acquire hfree) (.inl hfree) (.inr rfl) hm (fun q => ?_) hon hann
  rw [← hlock q, ← h.lock c q]
  show update s.holder l (some c) (.proc q) = some c ↔ _
  by_cases hl : Lock.proc q = l
  · rw [hl, update_self]
    exact iff_of_true rfl (.inl rfl)
  rw [update_of_ne hl]
  exact ⟨.inr, fun hor => hor.resolve_left (fun e => hl e.symm)⟩

lemma release (hl : s.holder l = some c) (hm : Moves (s.exec c) (s.pc (s.exec c)) k)
    (hlock : ∀ q, (l ≠ .proc q ∧ plock (s.exec c) (s.pc (s.exec c)) = some q) ↔
      plock (s.exec c) k = some q) (hon : ∀ p, s.exec c = .proc p → (s.release c l).On c p k)
    (hann : ((s.release c l).setPc (s.exec c) k).Ann k) :
    ((s.release c l).setPc (s.exec c) k).Inv := by
  refine h.lockStep rfl (h.base.release hl) (.inr hl) (.inl rfl) hm (fun q => ?_) hon hann
  rw [← hlock q, ← h.lock c q]
  show update s.holder l none (.proc q) = some c ↔ _
  by_cases hlq : Lock.proc q = l
  · rw [hlq, update_self]
    exact iff_of_false nofun fun hand => hand.1 rfl
  rw [update_of_ne hlq]
  exact ⟨fun e => ⟨fun e' => hlq e'.symm, e⟩, fun hand => hand.2⟩

lemma ownStep (hp : s.exec c = .proc p) (hk0 : s.pc (.proc p) = k0)
    (hs : s'.exec = s.exec ∧ s'.pc = s.pc ∧ s'.proc = s.proc ∧ s'.holder = s.holder ∧
      s'.held = s.held) (hcell : ∀ q, q ≠ p → s'.state q = s.state q ∧ s'.chan q = s.chan q)
    (hown : k0.own = true) (hk : k.own = true) (hm : Moves (.proc p : Thread m n) k0 k)
    (hon : s'.On c p k) (hann : (s'.setPc (s.exec c) k).Ann k) : (s'.setPc (s.exec c) k).Inv := by
  subst hk0
  rw [← hp] at hm
  obtain ⟨hexec, hpc, hproc, hholder, hheld⟩ := hs
  have hlocked := h.holder_of_own hp hown
  have hnofork : s.NoFork p := h.noFork ((h.on c p hp).state_ne).1
  refine h.localStep (c := c) (k := k) ⟨hexec, ?_, fun c' _ => ?_, fun c' _ l => ?_, fun q hq => ?_,
    fun q hq hne => ?_⟩ ?_
  · show update s'.pc _ _ = _
    rw [hpc]
  · exact congrFun hproc c'
  · show s'.holder l = _ ↔ _
    rw [hholder]
  · exact hcell q (fun e => hq (e ▸ hlocked))
  · exact .inl (hcell q (fun e => hne (e ▸ hp)))
  have hbase : s'.Base := ⟨by rw [hholder, hheld]; exact h.base.held,
    by rw [hheld]; exact h.base.nodup, by rw [hpc]; exact h.base.wf,
    by rw [hpc]; exact h.base.sched⟩
  refine ⟨hbase.setPc (hm.wf (h.base.wf _)) (hm.bySched h), fun q => ?_, fun hc => ?_,
    fun _ _ => ?_, hm.pick,
    fun q hq => ?_, hann, fun q hq => .inl (hm.forks q hq), fun t q hq => (hcell q ?_).1⟩
  · show s'.holder _ = _ ↔ _
    rw [hholder, h.lock c q, hp]
    simp only [plock, hown, hk, if_true]
  · rw [hp] at hc
    cases hc
  · exact congrFun hproc c
  · rw [hp] at hq
    cases hq
    exact hon
  rintro rfl
  have hq' : (update s'.pc (s.exec c) k t).forks = some q := hq
  by_cases ht : t = s.exec c
  · rw [ht, update_self] at hq'
    exact hnofork (s.exec c) (hm.forks q hq')
  rw [update_of_ne ht, hpc] at hq'
  exact hnofork t hq'

lemma otherStep {t : Thread m n} (ht : s.exec c = t) (hk0 : s.pc t = k0)
    (hs : s'.exec = s.exec ∧ s'.pc = s.pc ∧ s'.proc = s.proc ∧ s'.holder = s.holder ∧
      s'.held = s.held) (hcell : ∀ r, r ≠ q → s'.state r = s.state r ∧ s'.chan r = s.chan r)
    (hother : k0.other = some q) (hk : k.other = some q) (hm : Moves t k0 k)
    (hstate : s.state q ≠ .running) (hpark : (s'.setPc (s.exec c) k).Parked q (s.pc (.proc q)))
    (hann : (s'.setPc (s.exec c) k).Ann k) (hnofork : ∀ t, t ≠ s.exec c → (s.pc t).forks ≠ some q)
    (hforks : k.forks ≠ some q) : (s'.setPc (s.exec c) k).Inv := by
  subst ht hk0
  obtain ⟨hexec, hpc, hproc, hholder, hheld⟩ := hs
  have hlocked := h.holder_of_other hother
  have hoff := h.off_of_other hother hstate
  refine h.localStep (c := c) (k := k) ⟨hexec, ?_, fun c' _ => ?_, fun c' _ l => ?_, fun r hr => ?_,
    fun r hr hne => ?_⟩ ?_
  · show update s'.pc _ _ = _
    rw [hpc]
  · exact congrFun hproc c'
  · show s'.holder l = _ ↔ _
    rw [hholder]
  · exact hcell r (fun e => hr (e ▸ hlocked))
  · by_cases hrq : r = q
    · rw [hrq]
      exact .inr ⟨hoff, hpark⟩
    exact .inl (hcell r hrq)
  have hbase : s'.Base := ⟨by rw [hholder, hheld]; exact h.base.held,
    by rw [hheld]; exact h.base.nodup, by rw [hpc]; exact h.base.wf,
    by rw [hpc]; exact h.base.sched⟩
  refine ⟨hbase.setPc (hm.wf (h.base.wf _)) (hm.bySched h), fun r => ?_, fun hc => ?_,
    fun _ _ => ?_, hm.pick,
    fun r hr => ?_, hann, fun r hr => .inl (hm.forks r hr), fun t r hr => (hcell r ?_).1⟩
  · show s'.holder _ = _ ↔ _
    rw [hholder, h.lock c r]
    cases ht : s.exec c with
    | sched c0 =>
      rw [ht] at hother
      simp only [plock, hother, hk]
    | proc p =>
      rw [ht] at hother
      simp only [plock, Pc.own_of_other hother, Pc.own_of_other hk, hother, hk]
  · show s'.proc c = _
    rw [congrFun hproc c, ← hm.hand, hc]
    exact h.hand c hc
  · exact congrFun hproc c
  · have hrun : s.state r = .running := by
      rw [hr] at hother
      exact (h.on c r hr).running (Pc.own_of_other hother)
    have hrq : r ≠ q := fun e => hstate (e ▸ hrun)
    exact (on_of_other hk).mpr ((hcell r hrq).1.trans hrun)
  rintro rfl
  have hr' : (update s'.pc (s.exec c) k t).forks = some r := hr
  by_cases ht : t = s.exec c
  · rw [ht, update_self] at hr'
    exact hforks hr'
  rw [update_of_ne ht, hpc] at hr'
  exact hnofork t ht hr'

lemma setProc {v : Option (Fin n)} (hc : s.exec c = .sched c) (hv : k.handed = v)
    (hother : (s.pc (.sched c)).other = some q) (hk : k.other = some q)
    (hpick : ∀ r, (s.pc (.sched c)).picked = some r → k.picked = some r) (hforks : k.forks = none)
    (hwf : k.WF) (hsched : k.bySched = true) (hann : ((s.setProc c v).setPc (s.exec c) k).Ann k) :
    ((s.setProc c v).setPc (s.exec c) k).Inv := by
  refine h.localStep (c := c) (k := k) ⟨rfl, rfl, fun c' hne => ?_, fun _ _ _ => .rfl,
    fun _ _ => ⟨rfl, rfl⟩, fun _ _ _ => .inl ⟨rfl, rfl⟩⟩ ?_
  · show update s.proc c v c' = _
    rw [update_of_ne hne]
  have hbase : (s.setProc c v).Base := ⟨h.base.held, h.base.nodup, h.base.wf, h.base.sched⟩
  refine ⟨hbase.setPc hwf (fun _ _ => hsched), fun r => ?_, fun _ => ?_, fun p hp => ?_, ?_,
    fun p hp => ?_, hann,
    fun r hr => ?_, fun _ _ _ => rfl⟩
  · show s.holder _ = _ ↔ _
    rw [h.lock c r, hc]
    simp only [plock, hother, hk]
  · show update s.proc c v c = _
    rw [update_self, hv]
  · rw [hc] at hp
    cases hp
  · rw [hc]
    exact hpick
  · rw [hc] at hp
    cases hp
  rw [hforks] at hr
  cases hr

lemma context (hother : (s.pc (s.exec c)).other = some q) (hk : k.other = some q)
    (hm : (s.pc (s.exec c)).handed = k.handed ∧ (s.pc (s.exec c)).picked = none)
    (hp : s.exec c = .proc p) (hwf : k.WF) (hforks : ∀ r, k.forks = some r → r = q)
    (hstate : s.state q = .used) (hno : s.NoFork q) (hplain : k.plain = true) :
    ((s.setPc (.proc q) .forkret).setPc (s.exec c) k).Inv := by
  have hoff : s.Off q := h.off_of_other hother (by rw [hstate]; exact nofun)
  have hlocked := h.holder_of_other hother
  have hset : (s.setPc (.proc q) .forkret).Inv := by
    have hpc : ∀ c', (s.setPc (.proc q) .forkret).pc (s.exec c') = s.pc (s.exec c') := fun c' =>
      update_of_ne (fun e => hoff c' e) ..
    have hsched : ∀ c', (s.setPc (.proc q) .forkret).pc (.sched c') = s.pc (.sched c') :=
      fun c' => by simp
    have hfork : ∀ t r, ((s.setPc (.proc q) .forkret).pc t).forks = some r →
        t ≠ .proc q ∧ (s.pc t).forks = some r := by
      intro t r hr
      by_cases ht : t = .proc q
      · rw [ht, setPc_pc, update_self] at hr
        cases hr
      rw [setPc_pc, update_of_ne ht] at hr
      exact ⟨ht, hr⟩
    refine ⟨h.base.setPc trivial nofun, h.sched, h.inj, fun c' r => ?_, fun c' p hp => ?_,
      fun c' hc' => ?_, fun c' p hp => ?_, fun p hp => ?_, fun c' => ?_, fun t r hr => ?_,
      fun t t' r ht ht' => h.fork t t' r (hfork t r ht).2 (hfork t' r ht').2⟩
    · show s.holder _ = _ ↔ plock (s.exec c') _ = _
      rw [show (s.setPc (.proc q) .forkret).exec = s.exec from rfl, hpc]
      exact h.lock c' r
    · rw [hsched]
      exact h.cur c' p hp
    · rw [hsched]
      exact h.hand c' hc'
    · rw [setPc_pc, update_of_ne (fun e => hoff c' (hp.trans e))]
      exact h.on c' p hp
    · by_cases hpq : p = q
      · exact parked_used (by rw [setPc_state, hpq, hstate])
      rw [setPc_pc, update_of_ne (fun e => hpq (Thread.proc.inj e))]
      exact (h.off p hp).congr rfl rfl (fun c' hc' hpk => ⟨hc', by rw [hsched]; exact hpk⟩)
    · rw [show (s.setPc (.proc q) .forkret).exec = s.exec from rfl, hpc]
      exact (h.ann c').congr (fun _ _ => ⟨rfl, rfl⟩) (fun _ _ hoff => hoff)
        (fun r _ hno t ht => hno t (hfork t r ht).2)
    obtain ⟨hst, hpc'⟩ := h.forks t r (hfork t r hr).2
    refine ⟨hst, ?_⟩
    by_cases hrq : r = q
    · rw [hrq, setPc_pc, update_self]
    rw [setPc_pc, update_of_ne (fun e => hrq (Thread.proc.inj e))]
    exact hpc'
  have hself : (s.setPc (.proc q) .forkret).pc (s.exec c) = s.pc (s.exec c) :=
    update_of_ne (fun e => hoff c e) ..
  refine hset.localStep (c := c) (k := k) ⟨rfl, rfl, fun _ _ => rfl, fun _ _ _ => .rfl,
    fun _ _ => ⟨rfl, rfl⟩, fun _ _ _ => .inl ⟨rfl, rfl⟩⟩ ?_
  refine ⟨hset.base.setPc hwf (fun c' hc' => ?_), fun r => ?_, fun hc => ?_, fun _ _ => rfl,
    fun r hr => ?_,
    fun p hp => ?_, ann_of_plain hplain, fun r hr => .inr ?_, fun _ _ _ => rfl⟩
  · have hc : s.exec c = .sched c' := hc'
    rw [hp] at hc
    cases hc
  · show s.holder _ = _ ↔ plock (s.exec c) k = _
    rw [h.lock c r]
    cases ht : s.exec c with
    | sched c0 =>
      rw [ht] at hother
      simp only [plock, hother, hk]
    | proc p =>
      rw [ht] at hother
      simp only [plock, Pc.own_of_other hother, Pc.own_of_other hk, hother, hk]
  · have hc' : s.exec c = .sched c := hc
    show s.proc c = _
    rw [← hm.1, hc']
    exact h.hand c hc
  · rw [show (s.setPc (.proc q) .forkret).exec = s.exec from rfl, hself, hm.2] at hr
    cases hr
  · have hp' : s.exec c = .proc p := hp
    rw [on_of_plain hplain]
    rw [hp'] at hother
    exact (h.on c p hp).running (Pc.own_of_other hother)
  rw [hforks r hr]
  refine ⟨hstate, ?_, fun t ht => ?_, hlocked⟩
  · rw [setPc_pc, update_self]
  by_cases htq : t = .proc q
  · rw [htq, setPc_pc, update_self] at ht
    cases ht
  rw [setPc_pc, update_of_ne htq] at ht
  exact hno t ht
end

structure Switch (s s' : State m n) (c : Fin m) (q : Fin n) (t t' : Thread m n) (k : Pc n) :
    Prop where
  turn : t = .sched c ∧ t' = .proc q ∧ s.Off q ∨ t = .proc q ∧ t' = .sched c
  exec : s.exec c = t
  exec' : s'.exec = update s.exec c t'
  pc : s'.pc = update s.pc t k
  data : s'.holder = s.holder ∧ s'.held = s.held ∧ s'.proc = s.proc ∧ s'.state = s.state ∧
    s'.chan = s.chan
  lock : plock t (s.pc t) = some q
  lock' : plock t' (s.pc t') = some q
  forks : ∀ r, k.forks = some r → (s.pc t).forks = some r
  wf : k.WF
  sched : t = .sched c → k.bySched = true
  pick : ∀ r, (s.pc t).picked = some r → r = q

namespace Switch
variable {t t' : Thread m n}

section
variable (hw : Switch s s' c q t t' k) {c' : Fin m} {u : Thread m n}
include hw

lemma ne : t' ≠ t := by
  rcases hw.turn with ⟨rfl, rfl, -⟩ | ⟨rfl, rfl⟩
  · exact nofun
  exact nofun

lemma sched_ne (hc : c' ≠ c) : Thread.sched c' ≠ t := by
  rcases hw.turn with ⟨rfl, -, -⟩ | ⟨rfl, -⟩
  · exact fun e => hc (Thread.sched.inj e)
  exact nofun

lemma proc_ne (hp : p ≠ q) : Thread.proc p ≠ t := by
  rcases hw.turn with ⟨rfl, -, -⟩ | ⟨rfl, -⟩
  · exact nofun
  exact fun e => hp (Thread.proc.inj e)

lemma exec_self : s'.exec c = t' := by rw [hw.exec', update_self]
lemma exec_other (hc : c' ≠ c) : s'.exec c' = s.exec c' := by rw [hw.exec', update_of_ne hc]
lemma pc_other (hu : u ≠ t) : s'.pc u = s.pc u := by rw [hw.pc, update_of_ne hu]

lemma pc_of_ne (h : s.Inv) (hc : c' ≠ c) : s'.pc (s.exec c') = s.pc (s.exec c') :=
  hw.pc_other (by rw [← hw.exec]; exact h.ne_of_ne hc)

lemma exec_proc (hp : p ≠ q) : s'.exec c' = .proc p ↔ s.exec c' = .proc p := by
  by_cases hc : c' = c
  · rw [hc, hw.exec_self, hw.exec]
    have hp' : Thread.proc q ≠ (Thread.proc p : Thread m n) := fun e => hp (Thread.proc.inj e).symm
    rcases hw.turn with ⟨rfl, rfl, -⟩ | ⟨rfl, rfl⟩
    · exact iff_of_false hp' nofun
    exact iff_of_false nofun hp'
  rw [hw.exec_other hc]

lemma only (h : s.Inv) (he : s'.exec c' = .proc q) : c' = c := by
  by_contra hc
  rw [hw.exec_other hc] at he
  rcases hw.turn with ⟨-, -, hoff⟩ | ⟨ht, -⟩
  · exact hoff c' he
  exact hc (h.inj c' c q he (hw.exec.trans ht))

lemma fork {r : Fin n} (hr : (s'.pc u).forks = some r) : (s.pc u).forks = some r := by
  by_cases hu : u = t
  · rw [hu, hw.pc, update_self] at hr
    rw [hu]
    exact hw.forks r hr
  rwa [hw.pc_other hu] at hr
end
end Switch

lemma switch {t t' : Thread m n} (h : s.Inv) (hw : Switch s s' c q t t' k)
    (hcur : t' = .proc q → s.proc c = some q ∧ ∃ rest, k = .scanBack q rest)
    (hhand : t' = .sched c → s.proc c = (s.pc (.sched c)).handed)
    (hon : t' = .proc q → s.On c q (s.pc (.proc q)))
    (hoff : t' = .sched c → s'.Parked q k) (hann : s'.Ann (s.pc t')) : s'.Inv := by
  obtain ⟨hholder, hheld, hproc, hst, hch⟩ := hw.data
  have hlocked : s.holder (.proc q) = some c := by
    rw [h.lock, hw.exec]
    exact hw.lock
  refine ⟨⟨by rw [hholder, hheld]; exact h.base.held, by rw [hheld]; exact h.base.nodup,
    fun u => ?_, fun c' => ?_⟩, fun c' c0 he => ?_, fun c1 c2 p h1 h2 => ?_, fun c' r => ?_,
    fun c' p hp => ?_, fun c' hc' => ?_, fun c' p hp => ?_, fun p hp => ?_, fun c' => ?_,
      fun u r hr => ?_,
    fun u u' r hu hu' => h.fork u u' r (hw.fork hu) (hw.fork hu')⟩
  · by_cases hu : u = t
    · rw [hu, hw.pc, update_self]
      exact hw.wf
    rw [hw.pc_other hu]
    exact h.base.wf u
  · by_cases hu : .sched c' = t
    · have hc : c' = c := h.sched c c' (hw.exec.trans hu.symm)
      rw [hu, hw.pc, update_self]
      exact hw.sched (by rw [← hu, hc])
    rw [hw.pc_other hu]
    exact h.base.sched c'
  · by_cases hc : c' = c
    · rw [hc, hw.exec_self] at he
      rw [hc]
      rcases hw.turn with ⟨-, ht', -⟩ | ⟨-, ht'⟩
      · rw [ht'] at he
        cases he
      rw [ht'] at he
      exact (Thread.sched.inj he).symm
    rw [hw.exec_other hc] at he
    exact h.sched c' c0 he
  · by_cases hpq : p = q
    · rw [hpq] at h1 h2
      rw [hw.only h h1, hw.only h h2]
    exact h.inj c1 c2 p ((hw.exec_proc hpq).mp h1) ((hw.exec_proc hpq).mp h2)
  · rw [hholder]
    by_cases hc : c' = c
    · rw [hc, hw.exec_self, hw.pc_other hw.ne, h.lock c r, hw.exec, hw.lock, hw.lock']
    rw [hw.exec_other hc, hw.pc_of_ne h hc]
    exact h.lock c' r
  · rw [hproc]
    by_cases hc : c' = c
    · rw [hc, hw.exec_self] at hp
      rcases hw.turn with ⟨ht, ht', -⟩ | ⟨-, ht'⟩
      · obtain ⟨hcp, rest, hk⟩ := hcur ht'
        rw [ht'] at hp
        cases hp
        rw [hc, hw.pc, ht, update_self]
        exact ⟨hcp, rest, hk⟩
      rw [ht'] at hp
      cases hp
    rw [hw.exec_other hc] at hp
    rw [hw.pc_other (hw.sched_ne hc)]
    exact h.cur c' p hp
  · rw [hproc]
    by_cases hc : c' = c
    · rw [hc, hw.exec_self] at hc'
      rw [hc, hw.pc_other (by rw [← hc']; exact hw.ne)]
      exact hhand hc'
    rw [hw.exec_other hc] at hc'
    rw [hw.pc_other (hw.sched_ne hc)]
    exact h.hand c' hc'
  · by_cases hc : c' = c
    · rw [hc, hw.exec_self] at hp
      have hpq : p = q := by
        rcases hw.turn with ⟨-, ht', -⟩ | ⟨-, ht'⟩
        · rw [ht'] at hp
          exact (Thread.proc.inj hp).symm
        rw [ht'] at hp
        cases hp
      rw [hpq] at hp
      rw [hpq, hc, hw.pc_other (by rw [← hp]; exact hw.ne)]
      exact (hon hp).congr (by rw [hst]) (by rw [hch]) fun l => by rw [hholder]
    · rw [hw.exec_other hc] at hp
      rw [← hp, hw.pc_of_ne h hc, hp]
      exact (h.on c' p hp).congr (by rw [hst]) (by rw [hch]) fun l => by rw [hholder]
  · by_cases hpq : p = q
    · have hsched : t = .proc q ∧ t' = .sched c := by
        rcases hw.turn with ⟨-, ht', -⟩ | hto
        · exact absurd (hw.exec_self.trans ht') (hpq ▸ hp c)
        exact hto
      rw [hpq, hw.pc, hsched.1, update_self]
      exact hoff hsched.2
    · have hold : s.Off p := fun c' he => hp c' ((hw.exec_proc hpq).mpr he)
      rw [hw.pc_other (hw.proc_ne hpq)]
      refine (h.off p hold).congr (by rw [hst]) (by rw [hch]) fun c' hc' hpk => ?_
      have hc : c' ≠ c := by
        rintro rfl
        rw [← hc', hw.exec] at hpk
        exact hpq (hw.pick p hpk)
      rw [hw.exec_other hc, hw.pc_other (hw.sched_ne hc)]
      exact ⟨hc', hpk⟩
  · by_cases hc : c' = c
    · rw [hc, hw.exec_self, hw.pc_other hw.ne]
      exact hann
    · rw [hw.exec_other hc, hw.pc_of_ne h hc]
      refine (h.ann c').congr (fun r _ => by rw [hst, hch]; exact ⟨rfl, rfl⟩)
        (fun r hr hoffr c0 he => ?_) (fun r _ hno u hu => hno u (hw.fork hu))
      have hrq : r ≠ q := by
        rintro rfl
        rw [h.holder_of_other hr] at hlocked
        exact hc (Option.some.inj hlocked)
      exact hoffr c0 ((hw.exec_proc hrq).mp he)
  obtain ⟨hused, hret⟩ := h.forks u r (hw.fork hr)
  refine ⟨by rw [hst]; exact hused, ?_⟩
  rw [hw.pc_other (fun e => ?_)]
  · exact hret
  exact ((h.on c r (hw.exec.trans e.symm)).state_ne).1 hused

lemma swtchProc {rest : List (Fin n)} (h : s.Inv) (hc : s.exec c = .sched c)
    (hpc : s.pc (.sched c) = .scanSwtch q rest) :
    ((s.setPc (s.exec c) (.scanBack q rest)).setExec c (.proc q)).Inv := by
  obtain ⟨hstate, hoff⟩ : s.state q = .running ∧ s.Off q := by
    have hann := h.ann c
    rw [hc, hpc] at hann
    exact hann
  have hresume : (s.pc (.proc q)).resumes = true := by
    have hpark := h.off q hoff
    rw [Parked, hstate] at hpark
    exact hpark.1
  have hown : (s.pc (.proc q)).own = true := Pc.own_of_resumes hresume
  have hplain : (s.pc (.proc q)).plain = true := Pc.plain_of_resumes hresume
  refine h.switch (c := c) (q := q) (t := .sched c)
    (k := .scanBack q rest) ⟨.inl ⟨rfl, rfl, hoff⟩, hc, rfl, by rw [hc]; rfl,
    ⟨rfl, rfl, rfl, rfl, rfl⟩, by rw [hpc]; rfl, by simp only [plock, hown, if_true], nofun,
    trivial, fun _ => rfl, fun r hr => ?_⟩ (fun _ => ⟨?_, rest, rfl⟩) nofun
    (fun _ => (on_of_plain hplain).mpr hstate) nofun (ann_of_plain hplain)
  · rw [hpc] at hr
    exact (Option.some.inj hr).symm
  rw [h.hand c hc, hpc]
  rfl

lemma swtchSched (h : s.Inv) (hp : s.exec c = .proc p) (hpc : s.pc (.proc p) = .swtch k) :
    ((s.setPc (s.exec c) k).setExec c (.sched c)).Inv := by
  obtain ⟨hcp, rest, hback⟩ := h.cur c p hp
  have hon := h.on c p hp
  rw [hpc] at hon
  have hwf := h.base.wf (.proc p)
  rw [hpc] at hwf
  have hstate : s.state p ≠ .running := by
    cases k <;> first | exact hon.elim | (intro e; simp_all [On])
  have hpark : ((s.setPc (s.exec c) k).setExec c (.sched c)).Parked p k := by
    cases k with
    | sleepTidy ch lk k => exact parked_sleeping hon.1 hon.2.2
    | yieldRelease k => exact parked_runnable hon rfl
    | zombie => exact parked_zombie hon
    | _ => exact hon.elim
  refine h.switch (c := c) (q := p) (t := .proc p) (k := k) ⟨.inr ⟨rfl, rfl⟩, hp, rfl,
    by rw [hp]; rfl,
    ⟨rfl, rfl, rfl, rfl, rfl⟩, by rw [hpc]; rfl, by rw [hback]; rfl, fun r hr => ?_, hwf,
    nofun, fun r hr => ?_⟩ nofun (fun _ => ?_) nofun (fun _ => hpark) ?_
  · rw [hpc]
    exact hr
  · rw [hpc] at hr
    cases hr
  · rw [hcp, hback]
    rfl
  rw [hback]
  refine ⟨hstate, fun c' he => ?_⟩
  by_cases hc : c' = c
  · simp [hc] at he
  simp only [setExec_exec, setPc_exec, update_of_ne hc] at he
  exact hc (h.inj c' c p he hp)
end Inv
end Xv6.Sched.State
