import Xv6.Proc.Kill

namespace Xv6.Proc
namespace Table
open Kernel Function Lib
variable {t t' : Table} {p q : Fin nproc} {a : Act} {k : Kernel} {op : Op} {bs : List Op}

structure Inv (t : Table) : Prop where
  control : Control t.kernel
  tidy : Tidy t.kernel
  clean : ∀ q, ¬t.kernel.Stained q
  files : ∀ q, t.kernel.Closed q → ∀ fd, t.ofile q fd = none
  pid : ∀ p pid i, t.call p = .look pid i → pid ≠ 0

lemma files_of_next (h : t.Inv) (hn : t.kernel.next a = some k) (hq : k.Closed q)
    (fd : Fin nofile) : t.files a q fd = none := by
  rcases closed_of_step (step_of_next hn) hq with hold | ⟨st, hst, hne⟩
  · have hnone := h.files q hold fd
    cases a with
    | step p ok =>
      cases hp : t.kernel.pc p with
      | forkScan i =>
        rw [Table.files, hp]
        dsimp only
        cases hi : slot i with
        | none => exact hnone
        | some np =>
          by_cases hu : (t.kernel.proc np).state = .unused ∧ ok = true
          · dsimp only
            rw [if_pos hu]
            by_cases hqn : q = np
            · obtain ⟨hu, rfl⟩ := hu
              subst hqn
              obtain ⟨hr, hstep⟩ := step_of_act hn
              rw [Kernel.step, hp] at hstep
              cases hstep
              exact absurd hq (not_closed_forkScan h.control hi hu hr)
            rwa [update_of_ne hqn]
          dsimp only
          rwa [if_neg hu]
      | exitStart st =>
        rw [Table.files, hp]
        dsimp only
        by_cases hqp : q = p
        · rw [hqp, update_self]
        rwa [update_of_ne hqp]
      | _ =>
        rwa [Table.files, hp]
    | _ => exact hnone
  by_cases ha : ∃ ok, a = .step q ok
  · obtain ⟨ok, rfl⟩ := ha
    rw [Table.files, hst]
    dsimp only
    rw [update_self]
  exact absurd (exitStart_of_next (not_exists.mp ha) hst hn) hne

lemma Inv.kernel (h : t.Inv) (ha : ∀ q, a ≠ .kill q) (hn : t.kernel.next a = some k) :
    Inv { t with kernel := k, ofile := t.files a } := by
  have hs := step_of_next hn
  exact ⟨h.control.step hs, h.tidy.step h.control hs,
    fun q hq => h.clean q (stained_of_next ha hn hq), fun q hq fd => files_of_next h hn hq fd,
      h.pid⟩

lemma Inv.kill (h : t.Inv) (hp : (t.kernel.proc p).state ≠ .unused)
    (hn : t.kernel.next (.kill p) = some k) : Inv { t with kernel := k } := by
  have hs := step_of_next hn
  refine ⟨h.control.step hs, h.tidy.step h.control hs, fun q hq => ?_, fun q hq fd => ?_, h.pid⟩
  · unfold Kernel.next at hn
    split at hn <;> cases hn
    refine h.clean q (stained_of_setProc rfl (fun hv => ?_) hq)
    unfold wakes at hv
    split at hv
    · cases hv.1
    exact absurd hv.1 hp
  exact files_of_next h hn hq fd

lemma Inv.setCall (h : t.Inv) {c : Call} (hc : ∀ pid i, c = .look pid i → pid ≠ 0) :
    (t.setCall p c).Inv := by
  refine ⟨h.control, h.tidy, h.clean, h.files, fun q pid i hq => ?_⟩
  rw [Table.setCall] at hq
  dsimp only at hq
  by_cases hqp : q = p
  · rw [hqp, update_self] at hq
    exact hc pid i hq
  rw [update_of_ne hqp] at hq
  exact h.pid q pid i hq

lemma Inv.setFile (h : t.Inv) (hp : t.idle p) {fd : Fin nofile} {f : Option Nat} :
    (t.setFile p fd f).Inv := by
  refine ⟨h.control, h.tidy, h.clean, fun q hq fd' => ?_, h.pid⟩
  have hne : q ≠ p := by
    rintro rfl
    rcases hq with hq | hq
    · rw [show (t.setFile q fd f).kernel = t.kernel from rfl, hp.1] at hq
      cases hq
    rw [show (t.setFile q fd f).kernel = t.kernel from rfl, hp.2.1] at hq
    cases hq
  rw [Table.setFile]
  dsimp only
  rw [update_of_ne hne]
  exact h.files q hq fd'

lemma look_cases (hl : t.look p = some t') : ∃ pid i, t.call p = .look pid i ∧
    ((slot i = none ∧ t' = t.setCall p (.returned (-1))) ∨
      (∃ q, slot i = some q ∧ asInt (t.kernel.proc q).pid ≠ pid ∧
        t' = t.setCall p (.look pid (i + 1))) ∨
      ∃ q k, slot i = some q ∧ asInt (t.kernel.proc q).pid = pid ∧
        t.kernel.next (.kill q) = some k ∧ t' = { t with kernel := k }.setCall p (.returned 0)) :=
          by
  unfold Table.look at hl
  split at hl
  · cases hl
  · cases hl
  rename_i pid i hcall
  refine ⟨pid, i, hcall, ?_⟩
  split at hl
  · cases hl
    exact .inl ⟨‹_›, rfl⟩
  rename_i q hi
  split at hl
  · obtain ⟨k, hk, rfl⟩ := Option.map_eq_some_iff.mp hl
    exact .inr (.inr ⟨q, k, hi, ‹_›, hk, rfl⟩)
  cases hl
  exact .inr (.inl ⟨q, hi, ‹_›, rfl⟩)

lemma Inv.look (h : t.Inv) (hl : t.look p = some t') : t'.Inv := by
  obtain ⟨pid, i, hcall, ⟨-, rfl⟩ | ⟨q, -, -, rfl⟩ | ⟨q, k, -, hpid, hk, rfl⟩⟩ := look_cases hl
  · exact h.setCall nofun
  · exact h.setCall fun pid' i' e => by
      cases e
      exact h.pid p pid i hcall
  have hne : asInt (t.kernel.proc q).pid ≠ 0 := by
    rw [hpid]
    exact h.pid p pid i hcall
  exact (h.kill (h.tidy.used_of_pid hne) hk).setCall nofun

lemma Inv.next (h : t.Inv) (hop : ∀ p, op ≠ .kkill p 0) (hn : t.next op = some t') : t'.Inv := by
  cases op with
  | kernel a =>
    dsimp only [Table.next] at hn
    split at hn
    · obtain ⟨k, hk, rfl⟩ := Option.map_eq_some_iff.mp hn
      refine h.kernel ?_ hk
      rintro q rfl
      cases ‹t.ready _›
    cases hn
  | kkill p pid =>
    dsimp only [Table.next] at hn
    split at hn <;> cases hn
    refine h.setCall fun pid' i e => ?_
    cases e
    rintro rfl
    exact hop p rfl
  | look p =>
    dsimp only [Table.next] at hn
    split at hn
    · exact h.look hn
    cases hn
  | setkilled p =>
    dsimp only [Table.next] at hn
    split at hn
    · obtain ⟨k, hk, rfl⟩ := Option.map_eq_some_iff.mp hn
      exact h.kill (by rw [‹(t.kernel.proc p).state = _›]; exact nofun) hk
    cases hn
  | fdalloc p fd f =>
    dsimp only [Table.next] at hn
    split at hn <;> cases hn
    exact h.setFile (‹_ ∧ _› : t.idle p ∧ _).1
  | close p fd =>
    dsimp only [Table.next] at hn
    split at hn <;> cases hn
    exact h.setFile ‹_›

lemma inv_boot : boot.Inv := by
  refine ⟨control_boot, tidy_boot, fun q hq => ?_, fun _ _ _ => rfl, by rintro _ _ _ ⟨⟩⟩
  have hk : (Kernel.boot.proc q).killed = false := by
    by_cases h : q = initproc
    · rw [h]
      rfl
    simp [Kernel.boot, h, free]
  cases hk.symm.trans hq.2

lemma inv_of_run {as : List Op} (has : ∀ p, .kkill p 0 ∉ as)
    (hr : run next boot as = some t) : t.Inv := by
  have hP : Lib.Along next (fun _ op => ∀ p, op ≠ .kkill p 0) boot as := by
    apply along_of_forall_mem
    rintro op hop p rfl
    exact has p hop
  exact run_induction (fun u op u' hu hop hn => hu.next hop hn) inv_boot hP hr

def Has (t : Table) (q : Fin nproc) (pid : Int) : Prop :=
  (t.kernel.proc q).state ≠ .unused ∧ asInt (t.kernel.proc q).pid = pid

lemma call_of_next (hn : t.next op = some t') (hl : op ≠ .look p)
    (hk : ∀ pid, op ≠ .kkill p pid) : t'.call p = t.call p := by
  cases op with
  | kkill q pid =>
    dsimp only [Table.next] at hn
    split at hn <;> cases hn
    have hne : p ≠ q := by
      rintro rfl
      exact hk pid rfl
    exact update_of_ne hne _ _
  | look q =>
    have hne : p ≠ q := by
      rintro rfl
      exact hl rfl
    dsimp only [Table.next] at hn
    split at hn
    · obtain ⟨pid, i, -, ⟨-, rfl⟩ | ⟨q, -, -, rfl⟩ | ⟨q, k, -, -, -, rfl⟩⟩ := look_cases hn <;>
        exact update_of_ne hne _ _
    cases hn
  | _ =>
    dsimp only [Table.next] at hn
    split at hn
    · first
        | (cases hn; rfl)
        | (obtain ⟨k, -, rfl⟩ := Option.map_eq_some_iff.mp hn; rfl)
    cases hn

lemma kernel_of_next (hn : t.next op = some t') :
    t'.kernel = t.kernel ∨ ∃ a, t.kernel.next a = some t'.kernel := by
  cases op with
  | look q =>
    dsimp only [Table.next] at hn
    split at hn
    · obtain ⟨pid, i, -, ⟨-, rfl⟩ | ⟨q, -, -, rfl⟩ | ⟨q, k, -, -, hk, rfl⟩⟩ := look_cases hn
      · exact .inl rfl
      · exact .inl rfl
      exact .inr ⟨.kill q, hk⟩
    cases hn
  | _ =>
    dsimp only [Table.next] at hn
    split at hn
    · first
        | (cases hn; exact .inl rfl)
        | (obtain ⟨k, hk, rfl⟩ := Option.map_eq_some_iff.mp hn; exact .inr ⟨_, hk⟩)
    cases hn

lemma tidy_of_next (h : Control t.kernel ∧ Tidy t.kernel) (hn : t.next op = some t') :
    Control t'.kernel ∧ Tidy t'.kernel := by
  rcases kernel_of_next hn with e | ⟨a, ha⟩
  · rwa [e]
  have hs := step_of_next ha
  exact ⟨h.1.step hs, h.2.step h.1 hs⟩

lemma look_of_next (hn : t.next (.look p) = some t') : t.look p = some t' := by
  dsimp only [Table.next] at hn
  split at hn
  · exact hn
  cases hn

lemma returned_of_run {r : Int} (hbs : ∀ pid, .kkill p pid ∉ bs)
    (hcall : t.call p = .returned r) (hr : run next t bs = some t') :
    t'.call p = .returned r := by
  have hP : Lib.Along next (fun _ op => ∀ pid, op ≠ .kkill p pid) t bs := by
    apply along_of_forall_mem
    rintro op hop pid rfl
    exact hbs pid hop
  refine run_induction (I := fun t => t.call p = .returned r) (fun u op u' hu hop hn => ?_)
    hcall hP hr
  by_cases hl : op = .look p
  · subst hl
    obtain ⟨pid, i, hc, -⟩ := look_cases (look_of_next hn)
    exact nomatch hu.symm.trans hc
  rw [call_of_next hn hl hop, hu]

lemma kkill_of_run {pid r : Int} {i : Nat}
    (h : Control t.kernel ∧ Tidy t.kernel) (hpid : pid ≠ 0) (hcall : t.call p = .look pid i)
    (hbs : ∀ pid', .kkill p pid' ∉ bs) (hr : run next t bs = some t')
    (hret : t'.call p = .returned r) :
    r = 0 ∧ (∃ q, Lib.Visits next (fun u => u.Has q pid) t bs) ∨
      r = -1 ∧ ∀ q : Fin nproc, i ≤ q.val → Lib.Visits next (fun u => ¬u.Has q pid) t bs := by
  induction bs generalizing t i with
  | nil =>
    cases hr
    exact nomatch hcall.symm.trans hret
  | cons op bs ih =>
    obtain ⟨u, hu, hr⟩ := run_cons hr
    have hbs' : ∀ pid', .kkill p pid' ∉ bs := fun pid' hm => hbs pid' (.tail _ hm)
    by_cases hl : op = .look p
    · subst hl
      obtain ⟨pid', i', hc, hcases⟩ := look_cases (look_of_next hu)
      cases hcall.symm.trans hc
      rcases hcases with ⟨hi, rfl⟩ | ⟨q, hi, hq, rfl⟩ | ⟨q, k, hi, hq, hk, rfl⟩
      · have hcall' : (t.setCall p (.returned (-1))).call p = .returned (-1) :=
          update_self _ _ _
        cases (returned_of_run hbs' hcall' hr).symm.trans hret
        have hle := slot_none hi
        right
        refine ⟨rfl, fun q hq => ?_⟩
        have hlt := q.isLt
        omega
      · have hcall' : (t.setCall p (.look pid (i + 1))).call p = .look pid (i + 1) :=
          update_self _ _ _
        have hself := slot_some hi
        refine (ih (tidy_of_next h hu) hcall' hbs' hr).imp ?_ ?_
        · exact fun ⟨h0, q, hv⟩ => ⟨h0, q, visits_cons hu hv⟩
        refine fun ⟨h1, hv⟩ => ⟨h1, fun q' hq' => ?_⟩
        by_cases he : q' = q
        · apply visits_self
          rw [he]
          exact fun hhas => hq hhas.2
        have hne : q'.val ≠ q.val := fun e => he (Fin.ext e)
        exact visits_cons hu (hv q' (by omega))
      have hcall' : ({ t with kernel := k }.setCall p (.returned 0)).call p = .returned 0 :=
        update_self _ _ _
      cases (returned_of_run hbs' hcall' hr).symm.trans hret
      refine .inl ⟨rfl, q, visits_self _ ⟨h.2.used_of_pid ?_, hq⟩⟩
      rwa [hq]
    have hk : ∀ pid', op ≠ .kkill p pid' := by
      rintro pid' rfl
      exact hbs pid' (.head _)
    have hcall' : u.call p = .look pid i := by rw [call_of_next hu hl hk, hcall]
    refine (ih (tidy_of_next h hu) hcall' hbs' hr).imp ?_ ?_
    · exact fun ⟨h0, q, hv⟩ => ⟨h0, q, visits_cons hu hv⟩
    exact fun ⟨h1, hv⟩ => ⟨h1, fun q hq => visits_cons hu (hv q hq)⟩

lemma Inv.allocproc (h : t.Inv) {v : Proc} (hv : t.allocproc q = some v) :
    v.killed = false ∧ v.chan = none ∧ v.xstate = 0 ∧ v.parent = none ∧
      ∀ fd, t.ofile q fd = none := by
  unfold Table.allocproc at hv
  split at hv <;> cases hv
  rename_i hu
  have hkilled : (t.kernel.proc q).killed = false :=
    Bool.eq_false_iff.mpr fun hk => h.clean q ⟨hu, hk⟩
  refine ⟨hkilled, ?_, ?_, ?_, h.files q (.inl (by rw [hu]; rfl))⟩ <;>
    · rw [h.tidy q hu]
      rfl

lemma Inv.look_target (h : t.Inv) (hn : t.next (.look p) = some t')
    (hq : t'.kernel.proc q ≠ t.kernel.proc q) :
    ∃ pid i, t.call p = .look pid i ∧ t.Has q pid ∧ t'.call p = .returned 0 := by
  obtain ⟨pid, i, hc, hcases⟩ := look_cases (look_of_next hn)
  rcases hcases with ⟨-, rfl⟩ | ⟨q', -, -, rfl⟩ | ⟨q', k, -, hpid, hk, rfl⟩
  · exact absurd rfl hq
  · exact absurd rfl hq
  have he : q = q' := by
    by_contra hne
    unfold Kernel.next at hk
    split at hk <;> cases hk
    exact hq (update_of_ne hne _ _)
  subst he
  have hne : asInt (t.kernel.proc q).pid ≠ 0 := by
    rw [hpid]
    exact h.pid p pid i hc
  exact ⟨pid, i, hc, ⟨h.tidy.used_of_pid hne, hpid⟩, update_self _ _ _⟩

theorem clean_of_run {as : List Op} (has : ∀ p, .kkill p 0 ∉ as) (hr : run next boot as = some t) :
    (∀ np v, t.allocproc np = some v → v.killed = false ∧ v.chan = none ∧ v.xstate = 0 ∧
        v.parent = none ∧ ∀ fd, t.ofile np fd = none) ∧
      (∀ p q t', t.next (.look p) = some t' → t'.kernel.proc q ≠ t.kernel.proc q →
        ∃ pid i, t.call p = .look pid i ∧ t.Has q pid ∧ t'.call p = .returned 0) ∧
      ∀ p pid bs t' r, t.call p = .look pid 0 → (∀ pid', .kkill p pid' ∉ bs) →
        run next t bs = some t' → t'.call p = .returned r →
        r = 0 ∧ (∃ q, Lib.Visits next (fun u => u.Has q pid) t bs) ∨
          r = -1 ∧ ∀ q, Lib.Visits next (fun u => ¬u.Has q pid) t bs := by
  have h := inv_of_run has hr
  refine ⟨fun np v hv => h.allocproc hv, fun p q t' hn hq => h.look_target hn hq, ?_⟩
  intro p pid bs t' r hcall hbs hrun hret
  refine (kkill_of_run ⟨h.control, h.tidy⟩ (h.pid p pid 0 hcall) hcall hbs hrun hret).imp_right ?_
  exact fun ⟨h1, hv⟩ => ⟨h1, fun q => hv q zero_le⟩

def killThenFork (pid : Int) (n : Nat) : List Op :=
  [.kernel (.run 0), .kkill 0 pid] ++ List.replicate (n + 1) (.look 0) ++
    [.kernel (.syscall 0 .fork), .kernel (.step 0 true)]

theorem clean_of_run_killThenFork :
    ∃ t v, run next boot (killThenFork 1 0) = some t ∧ (t.kernel.proc 0).killed ∧
      t.call 0 = .returned 0 ∧ t.allocproc 1 = some v ∧ v.killed = false ∧
      ∀ fd, t.ofile 1 fd = none := by
  obtain ⟨t, ht, hkilled, hcall, hsome⟩ : ∃ t, run next boot (killThenFork 1 0) = some t ∧
      (t.kernel.proc 0).killed ∧ t.call 0 = .returned 0 ∧ (t.allocproc 1).isSome :=
    exists_of_any (by decide +kernel)
  obtain ⟨v, hv⟩ := Option.isSome_iff_exists.mp hsome
  have hclean := (clean_of_run (by simp [killThenFork]) ht).1 1 v hv
  exact ⟨t, v, ht, hkilled, hcall, hv, hclean.1, hclean.2.2.2.2⟩

theorem kkill_zero : ∃ t v, run next boot (killThenFork 0 1) = some t ∧ (∀ q, ¬t.Has q 0) ∧
      t.call 0 = .returned 0 ∧ t.kernel.pc 0 = .forkScan 1 ∧ t.allocproc 1 = some v ∧
      v.killed := by
  obtain ⟨t, ht, hhas, hcall, hpc, hkilled⟩ : ∃ t, run next boot (killThenFork 0 1) = some t ∧
      (∀ q, ¬((t.kernel.proc q).state ≠ .unused ∧ asInt (t.kernel.proc q).pid = 0)) ∧
      t.call 0 = .returned 0 ∧ t.kernel.pc 0 = .forkScan 1 ∧
      (t.allocproc 1).map Proc.killed = some true :=
    exists_of_any (by decide +kernel)
  obtain ⟨v, hv, hk⟩ := Option.map_eq_some_iff.mp hkilled
  exact ⟨t, v, ht, hhas, hcall, hpc, hv, hk⟩
end Table
end Xv6.Proc
