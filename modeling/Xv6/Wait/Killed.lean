import Xv6.Wait.Loops

namespace Xv6.Wait
open Lib Monitor Program
variable {nproc : Nat} {initproc : Fin nproc} {d : Data nproc}

def armed : Loc nproc → Data nproc → Bool
  | .pipe pi k, d => Pipe.armed k (d.pipe pi)
  | .cons k, d => Cons.armed k d.cons
  | .clock k, d => Clock.armed k d.ticks
  | .kids _ k, d => Kids.armed k d.kids

lemma armed_stable {k k' : Loc nproc} {f : Answer → Data nproc → Data nproc × Loc nproc}
    {e : Answer} (hc : code initproc k' = .act f) (hlock : lock k' ≠ lock k) :
    armed k (f e d).1 = armed k d := by
  cases k' with
  | pipe pi k' =>
    obtain ⟨x, hx⟩ := Cmd.lift_eq_act hc e d
    rw [hx]
    cases k with
    | pipe pi' k =>
      have hne : pi' ≠ pi := fun heq => hlock (by rw [heq]; rfl)
      show Pipe.armed k (Function.update d.pipe pi x pi') = _
      rw [Function.update_of_ne hne]
      rfl
    | cons _ | clock _ | kids _ _ => rfl
  | cons k' =>
    obtain ⟨x, hx⟩ := Cmd.lift_eq_act hc e d
    rw [hx]
    cases k with
    | cons k => exact absurd rfl hlock
    | pipe _ _ | clock _ | kids _ _ => rfl
  | clock k' =>
    obtain ⟨x, hx⟩ := Cmd.lift_eq_act hc e d
    rw [hx]
    cases k with
    | clock k => exact absurd rfl hlock
    | pipe _ _ | cons _ | kids _ _ => rfl
  | kids p k' =>
    obtain ⟨x, hx⟩ := Cmd.lift_eq_act hc e d
    rw [hx]
    cases k with
    | kids q k => exact absurd rfl hlock
    | pipe _ _ | cons _ | clock _ => rfl

lemma armed_entry {p : Thread nproc} {k : Loc nproc}
    (h : entry initproc p k) : armed k d = false := by
  unfold entry at h
  split at h
  · rename_i k
    cases k <;> first | rfl | cases h
  · rfl
  · rfl
  · rfl
  · rfl
  · rfl
  · rfl
  cases h

lemma program_armed : (program initproc).Armed armed where
  entry := fun p k d h => armed_entry h
  code := by
    intro p k
    cases k with
    | pipe pi k => exact (Pipe.code_arms k).lift (fun _ _ => rfl) fun _ _ => Function.update_self ..
    | cons k => exact (Cons.code_arms k).lift (fun _ _ => rfl) fun _ _ => rfl
    | clock k => exact (Clock.code_arms k).lift (fun _ _ => rfl) fun _ _ => rfl
    | kids p k => exact (Kids.code_arms initproc p k).lift (fun _ _ => rfl) fun _ _ => rfl
  stable := fun k q k' f e d hc hlock harm => (armed_stable hc hlock).symm.trans harm

theorem awake_of_run {d : Data nproc} {as bs : List (Label (Thread nproc) (Loc nproc) Answer)}
    {p : Fin nproc} {s : State (Thread nproc) (Data nproc) (Loc nproc) (Chan nproc) Lock}
    (hr : run (program initproc).next (.start d) (as ++ .kill (.proc p) :: bs) = some s)
    (hclear : Along (program initproc).next (Clear armed) (.start d)
      (as ++ .kill (.proc p) :: bs)) : s.phase (.proc p) ≠ .sleeping := by
  have hroused : Roused armed s := by
    have h := run_induction (I := fun s => (program initproc).Holds (fun _ => True)
      (fun _ _ _ => True) s ∧ Roused armed s) (fun s a s' h hc hn => ?_)
      ⟨.start trivial, .start⟩ hclear hr
    · exact h.2
    exact ⟨h.1.step program_wellLocked outline_true (step_of_next hn),
      h.2.step program_armed h.1 hc (step_of_next hn)⟩
  have hkilled : s.killed (.proc p) := by
    rw [run_append] at hr
    obtain ⟨t, -, ht⟩ := Option.bind_eq_some_iff.mp hr
    obtain ⟨t', hkill, ht'⟩ := run_cons ht
    refine run_invariant (I := fun s => s.killed (.proc p))
      (fun _ _ _ h hn => killed_of_step (step_of_next hn) h) ?_ ht'
    cases hkill
    simp
  exact (hroused (.proc p) hkilled).1

def twoProcs : Data 2 :=
  { pipe := fun pi =>
      if pi = 1 then { Pipe.pipealloc (fun _ => 0) with nwrite := pipeSize }
      else Pipe.pipealloc (fun _ => 0)
    cons := { buf := fun _ => 0, r := 0, w := 0, e := 0 }
    ticks := 0
    kids :=
      { parent := fun p => if p = 1 then some 0 else none
        zombie := fun _ => false
        xstate := fun _ => 0
        pid := fun p => p + 1 } }

def killAfter (k : Loc 2) (n m : Nat) : List (Label (Thread 2) (Loc 2) Answer) :=
  [.call (.proc 0) k, .acquire (.proc 0)] ++ List.replicate n (.step (.proc 0) {}) ++
    .kill (.proc 0) :: List.replicate m (.step (.proc 0) {})

theorem awake_of_run_pause :
    ∃ s, run (program 0).next (.start twoProcs) (killAfter (.clock (.pause 5)) 4 0) = some s ∧
      s.phase (.proc 0) ≠ .sleeping := by
  have hrun : (run (program 0).next (.start twoProcs)
      (killAfter (.clock (.pause 5)) 4 0)).isSome := by
    decide +kernel
  obtain ⟨s, hs⟩ := Option.isSome_iff_exists.mp hrun
  exact ⟨s, hs, awake_of_run hs (by decide +kernel)⟩

def killedRuns : List (List (Label (Thread 2) (Loc 2) Answer)) :=
  [killAfter (.kids 0 (.waitScan false [0, 1] false)) 4 1, killAfter (.pipe 0 (.readTest 1)) 2 1,
    killAfter (.pipe 1 (.writeTest 1 0 false)) 2 6,
    killAfter (.cons (.readLoop 1 1)) 3 1,
    killAfter (.clock (.pause 5)) 3 1]

theorem killed_sleeps : killedRuns.all (fun as =>
    (run (program 0).next (.start twoProcs) as).any fun s =>
      s.killed (.proc 0) && decide (s.phase (.proc 0) = .sleeping)) := by
  decide +kernel
end Xv6.Wait
