import Xv6.Proc.Family

namespace Xv6.Proc.Kernel
open Function List

structure History (s : Kernel) : Prop where
  id_lt : ∀ i, (s.proc i).state ≠ .unused → s.id i < s.nextId
  id_inj : ∀ i j, (s.proc i).state ≠ .unused → (s.proc j).state ≠ .unused → s.id i = s.id j → i = j
  exit_lt : ∀ e ∈ s.exits, e.id < s.nextId
  exit_nodup : (s.exits.map Exit.id).Nodup
  zombie : ∀ i, (s.proc i).state = .zombie →
    ⟨s.id i, (s.proc i).pid, (s.proc i).xstate⟩ ∈ s.exits ∧ s.id i ∉ s.reaped.map Reaped.id
  alive : ∀ i, (s.proc i).state ≠ .unused → (s.proc i).state ≠ .zombie →
    s.id i ∉ s.exits.map Exit.id
  reaped_nodup : (s.reaped.map Reaped.id).Nodup
  reaped_mem : ∀ w ∈ s.reaped, ⟨w.id, w.pid, w.status⟩ ∈ s.exits
  by_parent : ∀ w ∈ s.reaped, w.parent = some w.caller ∧
    (w.callerId = w.forkedBy ∨ w.caller = initproc)
  settled : ∀ e ∈ s.exits, e.id ∈ s.reaped.map Reaped.id ∨
    ∃ i, (s.proc i).state = .zombie ∧ s.id i = e.id
  forked : ∀ i q, (s.proc i).parent = some q → s.forkedBy i = s.id q ∨ q = initproc

lemma boot_state {i : Fin nproc} (hi : i ≠ initproc) : (boot.proc i).state = .unused := by
  simp [boot, hi, free]

lemma boot_init : (boot.proc initproc).state = .runnable := rfl

lemma history_boot : History boot := by
  have hinit : ∀ i, (boot.proc i).state ≠ .unused → i = initproc := by
    intro i hi
    by_contra hne
    exact hi (boot_state hne)
  have hz : ∀ i, (boot.proc i).state ≠ .zombie := by
    intro i
    by_cases hi : i = initproc
    · rw [hi, boot_init]
      simp
    rw [boot_state hi]
    simp
  refine ⟨?_, ?_, ?_, nodup_nil, ?_, ?_, nodup_nil, ?_, ?_, ?_, ?_⟩
  · exact fun _ _ => Nat.zero_lt_one
  · intro i j hi hj _
    rw [hinit i hi, hinit j hj]
  · simp [boot]
  · exact fun i hi => absurd hi (hz i)
  · simp [boot]
  · simp [boot]
  · simp [boot]
  · simp [boot]
  simp [boot_parent]

variable {s s' : Kernel} {p q : Fin nproc} {c : Pc} {np : Fin nproc}

structure Uneventful (s s' : Kernel) : Prop where
  id : s'.id = s.id
  forkedBy : s'.forkedBy = s.forkedBy
  nextId : s'.nextId = s.nextId
  exits : s'.exits = s.exits
  reaped : s'.reaped = s.reaped
  unused : ∀ i, (s'.proc i).state = .unused ↔ (s.proc i).state = .unused
  zombie : ∀ i, (s'.proc i).state = .zombie → (s.proc i).state = .zombie ∧
    (s'.proc i).pid = (s.proc i).pid ∧ (s'.proc i).xstate = (s.proc i).xstate
  stays : ∀ i, (s.proc i).state = .zombie → (s'.proc i).state = .zombie
  parent : ∀ i q, (s'.proc i).parent = some q → (s.proc i).parent = some q ∨ q = initproc

lemma History.uneventful (h : History s) (hu : Uneventful s s') : History s' := by
  have hstate : ∀ i, (s'.proc i).state ≠ .unused → (s.proc i).state ≠ .unused :=
    fun i hi e => hi ((hu.unused i).mpr e)
  refine ⟨fun i hi => ?_, fun i j hi hj hij => ?_, ?_, ?_, fun i hi => ?_, fun i hi hz => ?_, ?_,
    ?_,
    ?_, fun e he => ?_, fun i q hi => ?_⟩
  · rw [hu.id, hu.nextId]
    exact h.id_lt i (hstate i hi)
  · rw [hu.id] at hij
    exact h.id_inj i j (hstate i hi) (hstate j hj) hij
  · rw [hu.exits, hu.nextId]
    exact h.exit_lt
  · rw [hu.exits]
    exact h.exit_nodup
  · obtain ⟨h1, h2, h3⟩ := hu.zombie i hi
    rw [h2, h3, hu.id, hu.exits, hu.reaped]
    exact h.zombie i h1
  · rw [hu.id, hu.exits]
    exact h.alive i (hstate i hi) fun e => hz (hu.stays i e)
  · rw [hu.reaped]
    exact h.reaped_nodup
  · rw [hu.reaped, hu.exits]
    exact h.reaped_mem
  · rw [hu.reaped]
    exact h.by_parent
  · rw [hu.exits] at he
    rw [hu.reaped, hu.id]
    exact (h.settled e he).imp_right fun ⟨i, hi, hid⟩ => ⟨i, hu.stays i hi, hid⟩
  rw [hu.forkedBy, hu.id]
  rcases hu.parent i q hi with hi | rfl
  · exact h.forked i q hi
  exact .inr rfl

lemma uneventful_move {l : Option (Fin nproc)} {n : Bool} :
    Uneventful s { s.setPc p c with wait_lock := l, panicked := n } :=
  ⟨rfl, rfl, rfl, rfl, rfl, fun _ => Iff.rfl, fun _ hi => ⟨hi, rfl, rfl⟩, fun _ hi => hi,
    fun _ _ hi => .inl hi⟩

lemma uneventful_slot {v : Proc} {f : Fin nproc → Pc} {l : Option (Fin nproc)} {n : Int}
    (hun : v.state = .unused ↔ (s.proc q).state = .unused)
    (hz : v.state = .zombie → (s.proc q).state = .zombie ∧ v.pid = (s.proc q).pid ∧
      v.xstate = (s.proc q).xstate) (hst : (s.proc q).state = .zombie → v.state = .zombie)
    (hpar : ∀ x, v.parent = some x → (s.proc q).parent = some x ∨ x = initproc) :
    Uneventful s { s.setProc q v with pc := f, wait_lock := l, nextpid := n } := by
  have hne : ∀ i, i ≠ q → update s.proc q v i = s.proc i :=
    fun i hi => update_of_ne hi v s.proc
  refine ⟨rfl, rfl, rfl, rfl, rfl, fun i => ?_, fun i hi => ?_, fun i hi => ?_, fun i x hi => ?_⟩
  · show (update s.proc q v i).state = .unused ↔ _
    by_cases hiq : i = q
    · rwa [hiq, update_self]
    rw [hne i hiq]
  · change (update s.proc q v i).state = .zombie at hi
    show _ ∧ (update s.proc q v i).pid = _ ∧ (update s.proc q v i).xstate = _
    by_cases hiq : i = q
    · rw [hiq, update_self] at hi ⊢
      exact hz hi
    rw [hne i hiq] at hi ⊢
    exact ⟨hi, rfl, rfl⟩
  · show (update s.proc q v i).state = .zombie
    by_cases hiq : i = q
    · rw [hiq, update_self]
      exact hst (hiq ▸ hi)
    rwa [hne i hiq]
  change (update s.proc q v i).parent = some x at hi
  by_cases hiq : i = q
  · rw [hiq, update_self] at hi
    exact hiq ▸ hpar x hi
  rw [hne i hiq] at hi
  exact .inl hi

lemma History.forkFound (h : History s) (hf : Family s) (hu : (s.proc np).state = .unused) :
    History
      { (s.setProc np { s.proc np with state := .used, pid := s.nextpid }).setPc p
          (.forkParent np) with
        nextpid := s.nextpid + 1
        id := update s.id np s.nextId
        nextId := s.nextId + 1 } := by
  have hne : ∀ i, (s.proc i).state ≠ .unused → i ≠ np := fun i hi e => hi (e ▸ hu)
  have hpar : ∀ i q, (s.proc i).parent = some q → q ≠ np := by
    intro i q hi
    have hl := hf.live i q hi
    rintro rfl
    rw [hu] at hl
    cases hl
  have hid : ∀ i, i ≠ np → update s.id np s.nextId i = s.id i :=
    fun i hi => update_of_ne hi s.nextId s.id
  generalize hv : ({ s.proc np with state := .used, pid := s.nextpid } : Proc) = v
  have hvs : v.state = .used := by rw [← hv]
  have hproc : ∀ i, i ≠ np → update s.proc np v i = s.proc i :=
    fun i hi => update_of_ne hi v s.proc
  have hself : update s.proc np v np = v := update_self np v s.proc
  have hstate : ∀ i, i ≠ np → (update s.proc np v i).state ≠ .unused →
      (s.proc i).state ≠ .unused := fun i hi hs => by rwa [hproc i hi] at hs
  have hzom : ∀ i, (update s.proc np v i).state = .zombie → i ≠ np := by
    rintro i hi rfl
    rw [hself, hvs] at hi
    cases hi
  refine ⟨fun i hi => ?_, fun i j hi hj hij => ?_, fun e he => ?_, h.exit_nodup, fun i hi => ?_,
    fun i hi hz => ?_, h.reaped_nodup, h.reaped_mem, h.by_parent, fun e he => ?_, fun i q hi => ?_⟩
  · show update s.id np s.nextId i < s.nextId + 1
    by_cases hin : i = np
    · rw [hin, update_self]
      omega
    rw [hid i hin]
    exact Nat.lt_succ_of_lt (h.id_lt i (hstate i hin hi))
  · change update s.id np s.nextId i = update s.id np s.nextId j at hij
    by_cases hin : i = np <;> by_cases hjn : j = np
    · rw [hin, hjn]
    · rw [hin, update_self, hid j hjn] at hij
      have := h.id_lt j (hstate j hjn hj)
      omega
    · rw [hjn, update_self, hid i hin] at hij
      have := h.id_lt i (hstate i hin hi)
      omega
    rw [hid i hin, hid j hjn] at hij
    exact h.id_inj i j (hstate i hin hi) (hstate j hjn hj) hij
  · exact Nat.lt_succ_of_lt (h.exit_lt e he)
  · have hin := hzom i hi
    change (update s.proc np v i).state = .zombie at hi
    show ⟨update s.id np s.nextId i, (update s.proc np v i).pid,
      (update s.proc np v i).xstate⟩ ∈ s.exits ∧
      update s.id np s.nextId i ∉ s.reaped.map Reaped.id
    rw [hproc i hin] at hi ⊢
    rw [hid i hin]
    exact h.zombie i hi
  · show update s.id np s.nextId i ∉ s.exits.map Exit.id
    by_cases hin : i = np
    · rw [hin, update_self]
      intro hm
      obtain ⟨e, he, hid⟩ := mem_map.mp hm
      have := h.exit_lt e he
      omega
    rw [hid i hin]
    change (update s.proc np v i).state ≠ .zombie at hz
    rw [hproc i hin] at hz
    exact h.alive i (hstate i hin hi) hz
  · refine (h.settled e he).imp_right ?_
    rintro ⟨i, hi, hie⟩
    have hin : i ≠ np := hne i (by simp [hi])
    refine ⟨i, ?_, ?_⟩
    · show (update s.proc np v i).state = .zombie
      rw [hproc i hin, hi]
    show update s.id np s.nextId i = e.id
    rw [hid i hin, hie]
  have hi' : (s.proc i).parent = some q := by
    change (update s.proc np v i).parent = some q at hi
    by_cases hin : i = np
    · rw [hin, hself, ← hv] at hi
      exact hin ▸ hi
    rwa [hproc i hin] at hi
  show s.forkedBy i = update s.id np s.nextId q ∨ _
  rw [hid q (hpar i q hi')]
  exact h.forked i q hi'

lemma History.forkParent (h : History s) :
    History { (s.setProc np { s.proc np with parent := some p }).setPc p c with
        forkedBy := update s.forkedBy np (s.id p) } := by
  have hsame : ∀ i, ((s.setProc np { s.proc np with parent := some p }).proc i).state =
      (s.proc i).state ∧ ((s.setProc np { s.proc np with parent := some p }).proc i).pid =
      (s.proc i).pid ∧ ((s.setProc np { s.proc np with parent := some p }).proc i).xstate =
      (s.proc i).xstate := by
    intro i
    by_cases hi : i = np <;> simp [setProc, hi]
  refine ⟨fun i hi => ?_, fun i j hi hj => ?_, h.exit_lt, h.exit_nodup, fun i hi => ?_,
    fun i hi hz => ?_, h.reaped_nodup, h.reaped_mem, h.by_parent, fun e he => ?_, fun i q hi => ?_⟩
  · exact h.id_lt i (by rwa [← (hsame i).1])
  · exact h.id_inj i j (by rwa [← (hsame i).1]) (by rwa [← (hsame j).1])
  · have hz := h.zombie i (by rwa [← (hsame i).1])
    rwa [← (hsame i).2.1, ← (hsame i).2.2] at hz
  · exact h.alive i (by rwa [← (hsame i).1]) (by rwa [← (hsame i).1])
  · refine (h.settled e he).imp_right ?_
    rintro ⟨i, hi, hie⟩
    exact ⟨i, (hsame i).1.trans hi, hie⟩
  show update s.forkedBy np (s.id p) i = s.id q ∨ _
  by_cases hin : i = np
  · have hi' : ((s.setProc np { s.proc np with parent := some p }).proc i).parent = some q := hi
    rw [hin] at hi' ⊢
    rw [update_self]
    have hpq : p = q := by simpa [setProc] using hi'
    exact .inl (by rw [hpq])
  rw [update_of_ne hin]
  have hi' : (s.proc i).parent = some q := by
    have : ((s.setProc np { s.proc np with parent := some p }).proc i).parent = some q := hi
    simpa [setProc, hin] using this
  exact h.forked i q hi'

lemma nodup_map_append {α β : Type} {f : α → β} {l : List α} {a : α} (hl : (l.map f).Nodup)
    (ha : f a ∉ l.map f) : ((l ++ [a]).map f).Nodup := by
  rw [map_append, map_singleton, nodup_append]
  refine ⟨hl, nodup_singleton _, fun x hx y hy hxy => ha ?_⟩
  rwa [← mem_singleton.mp hy, ← hxy]

lemma History.exitZombie (h : History s) (hr : (s.proc p).state = .running) (st : Int) :
    History (s.exitZombie p st) := by
  have hid : s.id p ∉ s.exits.map Exit.id := h.alive p (by simp [hr]) (by simp [hr])
  have hreap : s.id p ∉ s.reaped.map Reaped.id := by
    intro hm
    obtain ⟨w, hw, hwid⟩ := mem_map.mp hm
    exact hid (mem_map.mpr ⟨_, h.reaped_mem w hw, hwid⟩)
  have hne : ∀ i ≠ p, (s.exitZombie p st).proc i = s.proc i := by
    intro i hi
    simp [Kernel.exitZombie, setPc, setProc, hi]
  have hself : (s.exitZombie p st).proc p = { s.proc p with xstate := st, state := .zombie } := by
    simp [Kernel.exitZombie, setPc, setProc]
  have hun : ∀ i, ((s.exitZombie p st).proc i).state ≠ .unused → (s.proc i).state ≠ .unused := by
    intro i hi
    by_cases hip : i = p
    · rw [hip, hr]
      simp
    rwa [hne i hip] at hi
  refine ⟨fun i hi => h.id_lt i (hun i hi), fun i j hi hj => h.id_inj i j (hun i hi) (hun j hj),
    fun e he => ?_, ?_, fun i hi => ?_, fun i hi hz => ?_, h.reaped_nodup, fun w hw => ?_,
    h.by_parent, fun e he => ?_, fun i q hi => ?_⟩
  · rcases mem_append.mp he with he | he
    · exact h.exit_lt e he
    rw [mem_singleton.mp he]
    exact h.id_lt p (by simp [hr])
  · exact nodup_map_append h.exit_nodup hid
  · by_cases hip : i = p
    · rw [hip, hself]
      exact ⟨mem_append_right _ (mem_singleton.mpr rfl), hreap⟩
    · rw [hne i hip] at hi ⊢
      obtain ⟨h1, h2⟩ := h.zombie i hi
      exact ⟨mem_append_left _ h1, h2⟩
  · have hip : i ≠ p := by
      rintro rfl
      rw [hself] at hz
      exact hz rfl
    rw [hne i hip] at hi hz
    show s.id i ∉ (s.exits ++ [_]).map Exit.id
    rw [map_append, mem_append, not_or]
    refine ⟨h.alive i hi hz, fun hm => hip ?_⟩
    exact h.id_inj i p hi (by simp [hr]) (mem_singleton.mp hm)
  · exact mem_append_left _ (h.reaped_mem w hw)
  · rcases mem_append.mp he with he | he
    · refine (h.settled e he).imp_right ?_
      rintro ⟨i, hi, hie⟩
      have hip : i ≠ p := by
        rintro rfl
        rw [hr] at hi
        cases hi
      exact ⟨i, by rw [hne i hip, hi], hie⟩
    rw [mem_singleton.mp he]
    exact .inr ⟨p, by rw [hself], rfl⟩
  by_cases hip : i = p
  · rw [hip, hself] at hi
    exact hip ▸ h.forked p q hi
  rw [hne i hip] at hi
  exact h.forked i q hi

lemma History.reap (h : History s) {pp : Fin nproc} (hpp : (s.proc pp).parent = some p)
    (hz : (s.proc pp).state = .zombie) :
    History
      { (s.setProc pp free).setPc p c with
        wait_lock := none
        reaped := s.reaped ++
          [⟨s.id pp, (s.proc pp).pid, (s.proc pp).xstate, p, (s.proc pp).parent, s.id p,
            s.forkedBy pp⟩] } := by
  obtain ⟨hexit, hnew⟩ := h.zombie pp hz
  have hne : ∀ i ≠ pp, (s.setProc pp free).proc i = s.proc i := by
    intro i hi
    simp [setProc, hi]
  have hself : (s.setProc pp free).proc pp = free := by simp [setProc]
  have hun : ∀ i, ((s.setProc pp free).proc i).state ≠ .unused →
      i ≠ pp ∧ (s.proc i).state ≠ .unused := by
    intro i hi
    have hip : i ≠ pp := by
      rintro rfl
      rw [hself] at hi
      exact hi rfl
    rw [hne i hip] at hi
    exact ⟨hip, hi⟩
  refine ⟨fun i hi => h.id_lt i (hun i hi).2,
    fun i j hi hj => h.id_inj i j (hun i hi).2 (hun j hj).2, h.exit_lt, h.exit_nodup,
    fun i hi => ?_, fun i hi hz => ?_, ?_, fun w hw => ?_, fun w hw => ?_, fun e he => ?_,
    fun i q hi => ?_⟩
  · change ((s.setProc pp free).proc i).state = .zombie at hi
    obtain ⟨hip, hu⟩ := hun i (by simp [hi])
    show ⟨s.id i, ((s.setProc pp free).proc i).pid, ((s.setProc pp free).proc i).xstate⟩ ∈ s.exits ∧
      s.id i ∉ (s.reaped ++ [_]).map Reaped.id
    rw [hne i hip] at hi ⊢
    obtain ⟨h1, h2⟩ := h.zombie i hi
    refine ⟨h1, ?_⟩
    rw [map_append, mem_append, not_or]
    refine ⟨h2, fun hm => hip ?_⟩
    exact h.id_inj i pp hu (by simp [‹(s.proc pp).state = .zombie›]) (mem_singleton.mp hm)
  · change ((s.setProc pp free).proc i).state ≠ .zombie at hz
    obtain ⟨hip, hu⟩ := hun i hi
    rw [hne i hip] at hz
    exact h.alive i hu hz
  · exact nodup_map_append h.reaped_nodup hnew
  · rcases mem_append.mp hw with hw | hw
    · exact h.reaped_mem w hw
    rwa [mem_singleton.mp hw]
  · rcases mem_append.mp hw with hw | hw
    · exact h.by_parent w hw
    rw [mem_singleton.mp hw]
    exact ⟨hpp, (h.forked pp p hpp).imp_left Eq.symm⟩
  · rcases h.settled e he with hm | ⟨i, hi, hie⟩
    · left
      rw [map_append]
      exact mem_append_left _ hm
    · by_cases hip : i = pp
      · left
        rw [map_append, ← hie, hip]
        exact mem_append_right _ (mem_singleton.mpr rfl)
      exact .inr ⟨i, by show ((s.setProc pp free).proc i).state = _; rw [hne i hip, hi], hie⟩
  change ((s.setProc pp free).proc i).parent = some q at hi
  by_cases hip : i = pp
  · rw [hip, hself] at hi
    cases hi
  rw [hne i hip] at hi
  exact h.forked i q hi

lemma uneventful_wakeOne {chan : Option Chan} :
    Uneventful s ((s.wakeOne p chan q).setPc p c) := by
  rw [Kernel.wakeOne]
  split
  · rename_i hw
    exact uneventful_slot (by simp [hw.2.1]) (by simp) (by simp [hw.2.1]) fun _ hx => .inl hx
  exact uneventful_move

lemma History.step (h : History s) (hcl : Control s) (hf : Family s) (hs : Step s s') :
    History s' := by
  cases hs with
  | forkFound p np i hr hp hu => exact h.forkFound hf hu
  | forkFail p np i hr hp hu =>
    exact h.uneventful (uneventful_slot (by simp [hu, free]) (by simp [free]) (by simp [hu])
      (by simp [free]))
  | forkParent p np hr hp hl => exact h.forkParent
  | forkRun p np hr hp =>
    have hu := hcl.child p np (by rw [hp]; rfl)
    exact h.uneventful (uneventful_slot (by simp [hu]) (by simp) (by simp [hu])
      (fun _ hx => .inl hx))
  | reparent p pp st hr hp hpp =>
    exact h.uneventful (uneventful_slot Iff.rfl (fun e => ⟨e, rfl, rfl⟩) (fun e => e)
      (fun x hx => .inr (Option.some.inj hx).symm))
  | wakeInit p q st i hr hp
  | wakeParent p q st hr hp => exact h.uneventful uneventful_wakeOne
  | zombie p st hr hp => exact h.exitZombie hr st
  | reap p pp addr kids hr hp hpp hz => exact h.reap hpp hz
  | waitSleep p addr hr hp
  | resume p addr hr hp
  | run p hr hp
  | yield p hr hl
  | sleep p n hr hp
  | wakeup p hr =>
    exact h.uneventful (uneventful_slot (by simp [hr]) (by simp) (by simp [hr])
      (fun _ hx => .inl hx))
  | kill p =>
    by_cases hsl : (s.proc p).state = .sleeping
    · simp only [wakes, hsl, if_true]
      exact h.uneventful (uneventful_slot (by simp [hsl]) (by simp) (by simp [hsl])
        (fun _ hx => .inl hx))
    simp only [wakes, hsl, if_false]
    exact h.uneventful (uneventful_slot Iff.rfl (fun e => ⟨e, rfl, rfl⟩) (fun e => e)
      (fun _ hx => .inl hx))
  | initExits =>
    exact h.uneventful ⟨rfl, rfl, rfl, rfl, rfl, fun _ => Iff.rfl, fun _ hi => ⟨hi, rfl, rfl⟩,
      fun _ hi => hi, fun _ _ hi => .inl hi⟩
  | _ => exact h.uneventful uneventful_move
end Xv6.Proc.Kernel
