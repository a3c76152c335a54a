import Xv6.Proc.Kernel
import Xv6.Vm.Transfer

namespace Xv6.Fork
open Lib Function
open Vm (Mem VmM Space Trade Has IsCode Page View pgsize)

structure Task extends Xv6.Proc where
  sz : Nat
  pagetable : Option Nat
  trapframe : Option Nat
  ofile : Fin nofile → Option (Fin nfile)
  cwd : Fin ninode
  name : List UInt8

structure Kern where
  mem : Mem
  proc : Fin nproc → Task
  nextpid : Int
  fileRef : Fin nfile → Nat
  inodeRef : Fin ninode → Nat

inductive Panic where
  | vm (e : Vm.Panic)
  | filedup
  deriving DecidableEq

abbrev KM := StateT Kern (Except Panic)

def vm {α : Type} (c : VmM α) : KM α := fun s =>
  match c s.mem with
  | .ok (a, m) => .ok (a, { s with mem := m })
  | .error e => .error (.vm e)

def setProc (q : Fin nproc) (f : Task → Task) : KM Unit :=
  modify fun s => { s with proc := update s.proc q (f (s.proc q)) }

def allocpid : KM Int := do
  let pid := (← get).nextpid
  modify fun s => { s with nextpid := s.nextpid + 1 }
  return pid

variable (kend tramp : Nat)

def Task.clear (v : Task) : Task :=
  { v with
    trapframe := none, pagetable := none, sz := 0, pid := 0, parent := none, name := []
    chan := none, killed := false, xstate := 0, state := .unused }

def freeproc (q : Fin nproc) : KM Unit := do
  let v := (← get).proc q
  vm (Vm.freeproc kend v.trapframe v.pagetable v.sz)
  setProc q Task.clear

def findUnused (s : Kern) : Option (Fin nproc) :=
  (List.finRange nproc).find? fun q => (s.proc q).state = .unused

def allocproc : KM (Option (Fin nproc)) := do
  match findUnused (← get) with
  | none => return none
  | some q =>
    let pid ← allocpid
    setProc q fun v => { v with pid := pid, state := .used }
    let r ← vm Vm.kalloc
    setProc q fun v => { v with trapframe := r }
    match r with
    | none =>
      freeproc kend q
      return none
    | some tf =>
      let r ← vm (Vm.procPagetable kend tramp tf)
      setProc q fun v => { v with pagetable := r }
      match r with
      | none =>
        freeproc kend q
        return none
      | some _ => return some q

def filedup (f : Fin nfile) : KM Unit := do
  if (← get).fileRef f < 1 then throw .filedup
  else modify fun s => { s with fileRef := update s.fileRef f (s.fileRef f + 1) }

def idup (ip : Fin ninode) : KM Unit :=
  modify fun s => { s with inodeRef := update s.inodeRef ip (s.inodeRef ip + 1) }

def dupFiles (p q : Fin nproc) : List (Fin nofile) → KM Unit
  | [] => return ()
  | fd :: rest => do
    match ((← get).proc p).ofile fd with
    | none => dupFiles p q rest
    | some f =>
      filedup f
      setProc q fun v => { v with ofile := update v.ofile fd (some f) }
      dupFiles p q rest

def kfork (p : Fin nproc) : KM Int := do
  match ← allocproc kend tramp with
  | none => return -1
  | some q =>
    let parent := (← get).proc p
    let child := (← get).proc q
    let e ← vm (Vm.uvmcopy kend (parent.pagetable.getD 0) (child.pagetable.getD 0) parent.sz)
    if e < 0 then
      freeproc kend q
      return -1
    else
      setProc q fun v => { v with sz := parent.sz }
      let regs ← vm (Vm.peek (parent.trapframe.getD 0) Vm.trapframeSize)
      vm (Vm.poke (child.trapframe.getD 0) regs)
      vm (Vm.poke (child.trapframe.getD 0 + 112) (Vm.leBytes 8 0))
      dupFiles p q (List.finRange nofile)
      idup parent.cwd
      setProc q fun v => { v with cwd := parent.cwd, name := parent.name }
      setProc q fun v => { v with parent := some p }
      setProc q fun v => { v with state := .runnable }
      return child.pid

variable {kend tramp} {s s' : Kern} {E : Panic → Prop} {p q : Fin nproc}

@[simp] lemma wp_vm {α : Type} {c : VmM α} {Q : α → Kern → Prop} : wp (vm c) s Q E ↔
      wp c s.mem (fun a m => Q a { s with mem := m }) (fun e => E (.vm e)) := by
  unfold wp vm
  cases c s.mem <;> rfl

@[simp] lemma wp_setProc {f : Task → Task} {Q : Unit → Kern → Prop} : wp (setProc q f) s Q E ↔
      Q () { s with proc := update s.proc q (f (s.proc q)) } := wp_modify

lemma wp_freeproc {Q : Unit → Kern → Prop} : wp (freeproc kend q) s Q E ↔
    wp (Vm.freeproc kend (s.proc q).trapframe (s.proc q).pagetable (s.proc q).sz) s.mem
      (fun _ m => Q () { s with
        mem := m, proc := update s.proc q (s.proc q).clear }) (fun e => E (.vm e)) := by
  simp only [freeproc, wp_bind, wp_get, wp_vm, wp_setProc]

def Clean (s : Kern) : Prop :=
  ∀ q, (s.proc q).state = .unused →
    (s.proc q).trapframe = none ∧ (s.proc q).pagetable = none ∧ (s.proc q).sz = 0

structure NoTrace (s s' : Kern) : Prop where
  trade : Trade (fun _ => False) (fun _ => False) s.mem s'.mem
  unused : ∀ q, (s'.proc q).state = .unused ↔ (s.proc q).state = .unused
  used : ∀ q, (s.proc q).state ≠ .unused → s'.proc q = s.proc q
  fileRef : s'.fileRef = s.fileRef
  inodeRef : s'.inodeRef = s.inodeRef

structure Cleared (s s' : Kern) (q : Fin nproc) : Prop where
  unused : (s.proc q).state = .unused
  proc : ∃ v : Task, s'.proc = update s.proc q v.clear
  fileRef : s'.fileRef = s.fileRef
  inodeRef : s'.inodeRef = s.inodeRef

lemma Clean.clear {v : Task} (h : Clean s) (hs : s'.proc = update s.proc q v.clear) :
    Clean s' := by
  intro r hr
  rw [hs] at hr ⊢
  by_cases he : r = q
  · rw [he, update_self]
    exact ⟨rfl, rfl, rfl⟩
  rw [update_of_ne he] at hr ⊢
  exact h r hr

lemma Cleared.noTrace (h : Cleared s s' q)
    (ht : Trade (fun _ => False) (fun _ => False) s.mem s'.mem) : NoTrace s s' := by
  obtain ⟨v, hproc⟩ := h.proc
  refine ⟨ht, fun r => ?_, fun r hr => ?_, h.fileRef, h.inodeRef⟩
  · rw [hproc]
    by_cases hr : r = q
    · rw [hr, update_self]
      exact iff_of_true rfl h.unused
    rw [update_of_ne hr]
  rw [hproc, update_of_ne]
  rintro rfl
  exact hr h.unused

structure Allocated (s s' : Kern) (q : Fin nproc) (np : Vm.Proc) : Prop where
  unused : (s.proc q).state = .unused
  sz : np.sz = 0
  proc : s'.proc = update s.proc q { s.proc q with
    pid := s.nextpid, state := .used
    trapframe := some np.trapframe, pagetable := some np.pagetable }
  fileRef : s'.fileRef = s.fileRef
  inodeRef : s'.inodeRef = s.inodeRef

lemma wp_allocproc {Q : Option Vm.Proc → Mem → Prop} (hclean : Clean s)
    (hmem : wp (Vm.allocproc kend tramp) s.mem Q (fun e => E (.vm e))) :
    wp (allocproc kend tramp) s (fun r s' => match r with
      | none => s' = s ∨ Q none s'.mem ∧ ∃ q, Cleared s s' q
      | some q => ∃ np, Q (some np) s'.mem ∧ Allocated s s' q np) E := by
  unfold allocproc
  rw [wp_bind, wp_get]
  cases hfind : findUnused s with
  | none => exact wp_pure.mpr (.inl rfl)
  | some q =>
    have hq : (s.proc q).state = .unused := by simpa using List.find?_some hfind
    unfold Vm.allocproc at hmem
    rw [wp_bind] at hmem
    simp only [allocpid, wp_bind, wp_get, wp_modify, wp_pure, wp_setProc, wp_vm]
    refine wp_imp hmem fun r m1 h1 => ?_
    cases r with
    | none =>
      rw [wp_bind] at h1
      rw [wp_bind, wp_freeproc]
      simp only [update_idem, update_self, hclean q hq]
      refine wp_imp h1 fun _ m2 h2 => ?_
      rw [wp_pure] at h2 ⊢
      exact .inr ⟨h2, q, hq, ⟨_, rfl⟩, rfl, rfl⟩
    | some tf =>
      rw [wp_bind] at h1
      simp only [wp_bind, wp_vm, wp_setProc]
      refine wp_imp h1 fun r m2 h2 => ?_
      cases r with
      | none =>
        rw [wp_bind] at h2
        rw [wp_bind, wp_freeproc]
        simp only [update_idem, update_self, hclean q hq]
        refine wp_imp h2 fun _ m3 h3 => ?_
        rw [wp_pure] at h3 ⊢
        exact .inr ⟨h3, q, hq, ⟨_, rfl⟩, rfl, rfl⟩
      | some root =>
        refine wp_pure.mpr ⟨_, wp_pure.mp h2, hq, rfl, ?_, rfl, rfl⟩
        simp only [update_idem, update_self]

lemma wp_dupFiles (hpq : p ≠ q) : ∀ (fds : List (Fin nofile)) (s : Kern),
    (∀ fd f, (s.proc p).ofile fd = some f → 1 ≤ s.fileRef f) →
    wp (dupFiles p q fds) s (fun _ s' => s'.mem = s.mem ∧ ∃ ofile,
      s'.proc = update s.proc q { s.proc q with ofile := ofile }) E := by
  intro fds
  induction fds with
  | nil => exact fun s _ => wp_pure.mpr ⟨rfl, _, (update_eq_self q s.proc).symm⟩
  | cons fd fds ih =>
    intro s hfiles
    rw [dupFiles, wp_bind, wp_get]
    cases hf : (s.proc p).ofile fd with
    | none => exact ih s hfiles
    | some f =>
      have href : ¬s.fileRef f < 1 := not_lt.mpr (hfiles fd f hf)
      simp only [filedup, wp_bind, wp_get, if_neg href, wp_modify, wp_setProc]
      refine wp_imp (ih _ (fun fd' f' hf' => ?_)) fun _ s' hs => ?_
      · dsimp only at hf' ⊢
        rw [update_of_ne hpq] at hf'
        by_cases he : f' = f
        · rw [he, update_self]
          omega
        rw [update_of_ne he]
        exact hfiles fd' f' hf'
      obtain ⟨hmem, ofile, hproc⟩ := hs
      refine ⟨hmem, ofile, ?_⟩
      rw [hproc]
      simp only [update_idem, update_self]

structure Task.Is (v : Task) (p : Vm.Proc) : Prop where
  state : v.state ≠ .unused
  pagetable : v.pagetable = some p.pagetable
  trapframe : v.trapframe = some p.trapframe
  sz : v.sz = p.sz

structure Forked (s s' : Kern) (q : Fin nproc) (np : Vm.Proc) : Prop where
  unused : (s.proc q).state = .unused
  runnable : (s'.proc q).state = .runnable
  child : (s'.proc q).Is np
  other : ∀ r ≠ q, s'.proc r = s.proc r

lemma Forked.clean {np : Vm.Proc} (h : Forked s s' q np) (hs : Clean s) : Clean s' := by
  intro r hr
  by_cases he : r = q
  · rw [he, h.runnable] at hr
    cases hr
  rw [h.other r he] at hr ⊢
  exact hs r hr

lemma wp_kfork {Q : Option Vm.Proc → Mem → Prop} {mp : Vm.Proc} (hclean : Clean s)
    (hp : (s.proc p).Is mp) (hfiles : ∀ fd f, (s.proc p).ofile fd = some f → 1 ≤ s.fileRef f)
    (hmem : wp (Vm.kfork kend tramp mp) s.mem Q (fun e => E (.vm e))) :
    wp (kfork kend tramp p) s (fun r s' =>
      r = -1 ∧ (s' = s ∨ Q none s'.mem ∧ ∃ q, Cleared s s' q) ∨
      r = s.nextpid ∧ ∃ q np, Q (some np) s'.mem ∧ Forked s s' q np) E := by
  unfold Vm.kfork at hmem
  rw [wp_bind] at hmem
  unfold kfork
  refine wp_bind_of (wp_allocproc hclean hmem) fun r s1 h1 => ?_
  cases r with
  | none => refine wp_pure.mpr (.inl ⟨rfl, h1.imp id fun h => ⟨wp_pure.mp h.1, h.2⟩⟩)
  | some q =>
    obtain ⟨np, hmem1, ha⟩ := h1
    have hpq : p ≠ q := by
      rintro rfl
      exact hp.state ha.unused
    have hparent : s1.proc p = s.proc p := by rw [ha.proc, update_of_ne hpq]
    have hsz : (s.proc q).sz = np.sz := by rw [(hclean q ha.unused).2.2, ha.sz]
    dsimp only at hmem1
    rw [wp_bind] at hmem1
    simp only [wp_bind, wp_get, wp_vm, hparent, hp.pagetable, hp.trapframe, hp.sz, ha.proc,
      update_self, Option.getD_some]
    refine wp_imp hmem1 fun e m2 h2 => ?_
    by_cases he : e < 0
    · rw [if_pos he] at h2 ⊢
      rw [wp_bind] at h2
      rw [wp_bind, wp_freeproc]
      simp only [update_self, update_idem, hsz]
      refine wp_imp h2 fun _ m3 h3 => ?_
      rw [wp_pure] at h3 ⊢
      exact .inl ⟨rfl, .inr ⟨h3, q, ha.unused, ⟨_, rfl⟩, ha.fileRef, ha.inodeRef⟩⟩
    rw [if_neg he] at h2 ⊢
    simp only [wp_bind] at h2
    simp only [wp_bind, wp_vm, wp_setProc, update_idem, update_self]
    refine wp_imp h2 fun regs m3 h3 => wp_imp h3 (fun _ m4 h4 => wp_imp h4 (fun _ m5 h5 => ?_))
    rw [wp_pure] at h5
    refine wp_imp (wp_dupFiles hpq _ _ (fun fd f hf => ?_)) fun _ s6 h6 => ?_
    · dsimp only at hf ⊢
      rw [update_of_ne hpq] at hf
      rw [ha.fileRef]
      exact hfiles fd f hf
    obtain ⟨hmem6, ofile, hproc6⟩ := h6
    simp only [idup, wp_modify, wp_pure, hproc6, update_idem, update_self]
    refine .inr ⟨trivial, q, { np with sz := mp.sz }, by rwa [hmem6], ha.unused, ?_, ?_,
      fun r hr => update_of_ne hr ..⟩
    · simp only [update_self]
    simp only [update_self]
    exact ⟨by simp, rfl, rfl, rfl⟩

structure SamePage (m m' : Mem) (p np : Vm.Proc) (x : Nat) : Prop where
  none : m'.map np.pagetable x = none ↔ m.map p.pagetable x = none
  some : ∀ pa flags, m.map p.pagetable x = some (pa, flags) → ∃ pa',
    m'.map np.pagetable x = some (pa', flags) ∧ m'.bytes pa' = m.bytes pa ∧ ¬Has m p pa'

lemma samePage_of_view {m m' : Mem} {mp np : Vm.Proc} {x : Nat} (hp : Space kend tramp m mp)
    (hx : Page x) (hlt : x < Vm.trapframe) (hview : m'.view np.pagetable x = m.view mp.pagetable x)
    (ht : Trade (fun _ => False) (Has m' np) m m') : SamePage m m' mp np x where
  none := by rw [← Vm.view_eq_none, hview, Vm.view_eq_none]
  some pa flags hm := by
    rw [Vm.view_eq_some hm] at hview
    cases hm' : m'.map np.pagetable x with
    | none =>
      rw [Vm.view_eq_none.mpr hm'] at hview
      cases hview
    | some e =>
      obtain ⟨pa', flags'⟩ := e
      rw [Vm.view_eq_some hm'] at hview
      obtain ⟨rfl, hbytes⟩ := Prod.mk.inj (Option.some.inj hview)
      refine ⟨pa', rfl, hbytes, fun hhas => hp.not_free hhas ?_⟩
      exact ((ht.pages pa').mp (.inl (.inl (.inr ⟨x, flags', hx, hlt, hm'⟩)))).resolve_left id

theorem fork_or_no_trace {mp : Vm.Proc} (hcode : IsCode kend tramp) (hclean : Clean s)
    (hpid : 0 < s.nextpid) (hp : (s.proc p).Is mp) (hspace : Space kend tramp s.mem mp)
    (hfiles : ∀ fd f, (s.proc p).ofile fd = some f → 1 ≤ s.fileRef f) :
    ∃ r s', kfork kend tramp p s = .ok (r, s') ∧ Clean s' ∧
      (r ≠ -1 → ∃ q np, Forked s s' q np ∧ np.sz = mp.sz ∧
        ∀ x, Page x → x < mp.sz → SamePage s.mem s'.mem mp np x) ∧
      (r = -1 → NoTrace s s' ∧ (∀ t, t ∈ s'.mem.freelist ↔ t ∈ s.mem.freelist) ∧
        (∀ x, s'.mem.map mp.pagetable x = s.mem.map mp.pagetable x) ∧
        ∀ a, Has s.mem mp (Vm.pgrounddown a) → s'.mem.byte a = s.mem.byte a) := by
  obtain ⟨r, s', hrun, hr⟩ := wp_total (wp_kfork hclean hp hfiles (Vm.wp_kfork hcode hspace))
  refine ⟨r, s', hrun, ?_, fun hne => ?_, fun he => ?_⟩
  · rcases hr with ⟨-, rfl | ⟨-, q, hq⟩⟩ | ⟨-, q, np, -, hf⟩
    · exact hclean
    · obtain ⟨v, hv⟩ := hq.proc
      exact hclean.clear hv
    exact hf.clean hclean
  · rcases hr with ⟨he, -⟩ | ⟨-, q, np, ⟨-, hsz, ht, hview⟩, hf⟩
    · exact absurd he hne
    · refine ⟨q, np, hf, hsz, fun x hx hlt => ?_⟩
      have hltf := lt_of_lt_of_le hlt hspace.size
      exact samePage_of_view hspace hx hltf (hview x hx hltf) ht
  have hno : NoTrace s s' := by
    rcases hr with ⟨-, rfl | ⟨ht, q, hq⟩⟩ | ⟨hr, -⟩
    · exact ⟨⟨fun _ => Iff.rfl, fun _ h => h.elim, hspace.sound.paged.nodup, fun _ _ _ => rfl⟩,
        fun _ => Iff.rfl, fun _ _ => rfl, rfl, rfl⟩
    · exact hq.noTrace ht
    omega
  obtain ⟨hsame, -⟩ := hspace.trade hno.trade (fun _ hf => hf.elim) fun _ _ hf => hf
  refine ⟨hno, fun t => ?_, hsame.map, fun a ha => ?_⟩
  · simpa using hno.trade.pages t
  exact hno.trade.byte a id (hspace.not_free ha)

def freeTask : Task :=
  { Proc.free with
    sz := 0, pagetable := none, trapframe := none, ofile := fun _ => none, cwd := 0, name := [] }

def lazyTask : Task :=
  { freeTask with
    state := .running, pid := 1, sz := Vm.lazyProc.sz, pagetable := some Vm.lazyProc.pagetable
    trapframe := some Vm.lazyProc.trapframe
    ofile := fun fd => if fd.val = 0 then some ⟨0, nfile_pos⟩ else none }

def faultedMem : Mem :=
  match Vm.vmfault 0x80100000 Vm.lazyProc Vm.lazyProc.pagetable 0 Vm.firstMem with
  | .ok (_, m) => m
  | .error _ => Vm.firstMem

lemma space_faultedMem : Space 0x80100000 0x80007000 faultedMem Vm.lazyProc :=
  (wp_ok (m := Vm.vmfault 0x80100000 _ _ 0)
    (Vm.wp_vmfault_faulted (E := fun _ => True) Vm.space_lazyProc) rfl).1.resized.space

def lazyKern : Kern :=
  { mem := faultedMem
    proc := fun q => if q = 0 then lazyTask else freeTask
    nextpid := 2
    fileRef := fun _ => 1
    inodeRef := fun _ => 1 }

lemma clean_lazyKern : Clean lazyKern := by
  intro q hq
  by_cases h0 : q = 0
  · subst h0
    cases hq
  · have hfree : lazyKern.proc q = freeTask := if_neg h0
    rw [hfree]
    exact ⟨rfl, rfl, rfl⟩

lemma kfork_lazyKern : (match kfork 0x80100000 0x80007000 0 lazyKern with
    | .ok (r, _) => decide (r = 2)
    | .error _ => false) = true := by
  decide +kernel

theorem fork_or_no_trace_lazyKern : ∃ s' q np pa,
    kfork 0x80100000 0x80007000 0 lazyKern = .ok (2, s') ∧ Forked lazyKern s' q np ∧
      s'.mem.map np.pagetable 0 = some (pa, Vm.pteData) ∧
      s'.mem.map np.pagetable pgsize = none := by
  have hp : (lazyKern.proc 0).Is Vm.lazyProc := ⟨nofun, rfl, rfl, rfl⟩
  obtain ⟨r, s', hrun, -, hok, -⟩ := fork_or_no_trace Vm.isCode_low clean_lazyKern (by decide) hp
    space_faultedMem fun _ _ _ => le_rfl
  have h2 := kfork_lazyKern
  rw [hrun] at h2
  obtain rfl := of_decide_eq_true h2
  obtain ⟨q, np, hf, -, hpages⟩ := hok (by decide)
  have hmap : (lazyKern.mem.map Vm.lazyProc.pagetable 0).map Prod.snd = some Vm.pteData := by
    decide +kernel
  obtain ⟨⟨pa, flags⟩, hpa, rfl⟩ := Option.map_eq_some_iff.mp hmap
  obtain ⟨pa', hcopy, -⟩ := (hpages 0 ⟨by decide, by decide⟩ (by decide)).some pa _ hpa
  exact ⟨s', q, np, pa', hrun, hf, hcopy,
    (hpages pgsize ⟨by decide, by decide⟩ (by decide)).none.mpr (by decide +kernel)⟩
end Xv6.Fork
