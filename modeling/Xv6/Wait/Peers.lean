import Xv6.Wait.Fifo

namespace Xv6.Wait.Pipe
open Lib Monitor Program
variable {nproc : Nat} {d : Pipe} {s : State (Fin nproc) Pipe Loc Chan Unit}

def Guard : Chan → Pipe → Prop
  | .nread, d => d.Empty ∧ d.writeopen
  | .nwrite, d => d.Full ∧ d.readopen

def Owes : Loc → Chan → Prop
  | .writeTest _ _ stored, .nread => stored
  | .writeKilled _ _ stored, .nread => stored
  | .writeRoom _ _ stored, .nread => stored
  | .writeFull _ _ _, .nread => True
  | .writeEnd _, .nread => True
  | .readCopy _ _, .nwrite => True
  | .readEnd _ _, .nwrite => True
  | .closeWake w, c => c = if w then .nread else .nwrite
  | _, _ => False

lemma owes_of_act {k : Loc} {f : Answer → Pipe → Pipe × Loc} {c : Chan} (e : Answer)
    (hc : code k = .act f) (ha : Ann k d) (h : Owes k c ∨ Guard c d) :
    Owes (f e d).2 c ∨ Guard c (f e d).1 := by
  cases k <;> cases hc
  case writeTest n i t =>
    refine h.imp_left fun ho => ?_
    cases c with
    | nread =>
      have hopen : d.readopen = true := ha ho
      simp only [hopen, if_true]
      split
      · exact ho
      trivial
    | nwrite => exact ho.elim
  case writeRoom n i t =>
    dsimp only
    split
    · refine h.imp_left fun ho => ?_
      cases c with
      | nread => trivial
      | nwrite => exact ho.elim
    rename_i hfull
    split
    · refine h.imp_left fun ho => ?_
      cases c with
      | nread => trivial
      | nwrite => exact ho.elim
    cases c with
    | nread => exact .inl rfl
    | nwrite => exact h.elim (fun ho => ho.elim) fun hg => absurd hg.1 hfull
  case readTest n => exact h.elim (fun ho => by cases c <;> exact ho.elim) .inr
  case readCopy n i =>
    dsimp only
    cases c with
    | nread =>
      have hg := h.resolve_left id
      rw [if_pos hg.1]
      split
      · exact .inr hg
      exact .inr hg
    | nwrite =>
      left
      split
      · split
        · trivial
        · split
          · trivial
          trivial
      trivial
  case closeSet w =>
    cases c with
    | nread =>
      cases w with
      | false => exact h.imp_left fun ho => ho.elim
      | true => exact .inl rfl
    | nwrite =>
      cases w with
      | false => exact .inl rfl
      | true => exact h.imp_left fun ho => ho.elim

lemma waits : (program nproc).Waits Fifo (fun _ => Ann) Guard Owes where
  procs := List.mem_finRange
  act := fun p k f e d c hc _ ha h => owes_of_act e hc ha h
  killed := by
    intro p k yes no c hc h
    cases k <;> cases hc
    · cases c with
      | nread => exact h
      | nwrite => exact h.elim
    cases c <;> exact h.elim
  wakeup := by
    intro p k c k' c' hc h
    cases k <;> cases hc
    · cases c' with
      | nread => exact .inl rfl
      | nwrite => exact h.elim
    · cases c' with
      | nread => exact .inl rfl
      | nwrite => exact h.elim
    · cases c' with
      | nread => exact h.elim
      | nwrite => exact .inl rfl
    cases c' <;> exact .inl h
  sleep := by
    intro p k c k' d hc ha
    cases k <;> cases hc
    · exact ⟨ha, fun c' => by cases c' <;> exact id⟩
    exact ⟨ha, fun c' => by cases c' <;> exact id⟩
  ret := by
    intro p k v c hc
    cases k <;> cases hc <;> cases c <;> exact id
  die := by
    intro p k c hc
    cases k <;> cases hc

def storedAtKilled : Status (Fin nproc) Loc Chan → Bool
  | .on (.writeKilled _ _ true) => true
  | _ => false

def KilledBeforeStore (s : State (Fin nproc) Pipe Loc Chan Unit) :
    Label (Fin nproc) Loc Answer → Prop
  | .step p _ => storedAtKilled (s.status p) → s.killed p = false
  | _ => True

instance (s : State (Fin nproc) Pipe Loc Chan Unit) (a : Label (Fin nproc) Loc Answer) :
    Decidable (KilledBeforeStore s a) := by
  cases a <;> unfold KilledBeforeStore <;> infer_instance

lemma unharmed_of_killedBeforeStore
    {a : Label (Fin nproc) Loc Answer} (h : KilledBeforeStore s a) :
    (program nproc).Unharmed Owes s a := by
  cases a with
  | step p e =>
    intro k yes no c hst hc ho
    cases k <;> cases hc
    · rename_i n i stored
      cases c with
      | nread =>
        cases ho
        exact h (by rw [hst]; rfl)
      | nwrite => exact ho.elim
    cases c <;> exact ho.elim
  | call _ _ | acquire _ | run _ | yield _ | kill _ => trivial

lemma rightly_of_run {data : Nat → UInt8} {as : List (Label (Fin nproc) Loc Answer)}
    (hr : run (program nproc).next (.start (pipealloc data)) as = some s)
    (hkilled : Along (program nproc).next KilledBeforeStore (.start (pipealloc data)) as) :
    (program nproc).Holds Fifo (fun _ => Ann) s ∧ Rightly Guard Owes s := by
  refine run_induction (I := fun s => (program nproc).Holds Fifo (fun _ => Ann) s ∧
    Rightly Guard Owes s) (fun s a s' h hk hn => ?_) ⟨.start .pipealloc, .start⟩ hkilled hr
  have hs := step_of_next hn
  exact ⟨h.1.step program_wellLocked outline hs,
    h.2.step waits h.1 (unharmed_of_killedBeforeStore hk) hs⟩

lemma guard_of_free {p : Fin nproc} {c : Chan}
    (hmutex : (program nproc).Mutex s) (h : Rightly Guard Owes s) (hfree : s.holder () = none)
    (hsleep : s.phase p = .sleeping) (hchan : s.chan p = some c) : Guard c s.data := by
  rcases h p c hsleep hchan with hg | ⟨q, hq⟩
  · exact hg
  have hout : (s.status q).inside = none := by
    cases hin : (s.status q).inside with
    | none => rfl
    | some k =>
      have hheld := (hmutex.holder q ()).mp (by rw [held, hin]; rfl)
      rw [hfree] at hheld
      cases hheld
  cases hst : s.status q <;> rw [hst] at hq hout
  case on k => cases hout
  case waking c rest k => cases hout
  all_goals exact hq.elim

theorem peers_of_run {data : Nat → UInt8} {as : List (Label (Fin nproc) Loc Answer)}
    {s : State (Fin nproc) Pipe Loc Chan Unit}
    (hr : run (program nproc).next (.start (pipealloc data)) as = some s)
    (hkilled : Along (program nproc).next KilledBeforeStore (.start (pipealloc data)) as)
    (hfree : s.holder () = none) :
    (¬∃ p, s.phase p = .sleeping ∧ s.chan p = some .nread ∧
        (s.data.nread ≠ s.data.nwrite ∨ s.data.writeopen = false)) ∧
      ¬∃ p, s.phase p = .sleeping ∧ s.chan p = some .nwrite ∧
        (¬s.data.Full ∨ s.data.readopen = false) := by
  obtain ⟨h, hrightly⟩ := rightly_of_run hr hkilled
  constructor
  · rintro ⟨p, hsleep, hchan, hbad⟩
    have hg := guard_of_free h.mutex hrightly hfree hsleep hchan
    exact hbad.elim (fun e => e hg.1) fun e => nomatch e.symm.trans hg.2
  rintro ⟨p, hsleep, hchan, hbad⟩
  have hg := guard_of_free h.mutex hrightly hfree hsleep hchan
  exact hbad.elim (fun e => e hg.1) fun e => nomatch e.symm.trans hg.2

def readerSleeps : List (Label (Fin 2) Loc Answer) :=
  [.call 1 (.readTest 1), .acquire 1, .step 1 {}, .step 1 {}, .step 1 {}]

def storesOne : List (Label (Fin 2) Loc Answer) :=
  [.call 0 (.writeTest 2 0 false), .acquire 0, .step 0 {}, .step 0 {},
    .step 0 { copyin := some 7 }]

theorem peers_of_run_sleeper :
    ∃ s, run (program 2).next (.start (pipealloc fun _ => 0)) readerSleeps = some s ∧
      s.phase 1 = .sleeping ∧ s.chan 1 = some .nread ∧
      ¬(s.data.nread ≠ s.data.nwrite ∨ s.data.writeopen = false) := by
  obtain ⟨s, hs, hphase, hchan, hfree⟩ : ∃ s,
      run (program 2).next (.start (pipealloc fun _ => 0)) readerSleeps = some s ∧
      s.phase 1 = .sleeping ∧ s.chan 1 = some .nread ∧ s.holder () = none :=
    exists_of_any (by decide +kernel)
  refine ⟨s, hs, hphase, hchan, fun hbad => ?_⟩
  exact (peers_of_run hs (by decide +kernel) hfree).1 ⟨1, hphase, hchan, hbad⟩

theorem peer_not_woken : ∃ s, run (program 2).next (.start (pipealloc fun _ => 0))
        (readerSleeps ++ storesOne ++ [.kill 0, .step 0 {}, .step 0 {}, .step 0 {}]) = some s ∧
      s.holder () = none ∧ s.phase 1 = .sleeping ∧ s.chan 1 = some .nread ∧
      s.data.nread ≠ s.data.nwrite ∧ s.data.writeopen := by
  exact exists_of_any (by decide +kernel)
end Xv6.Wait.Pipe
