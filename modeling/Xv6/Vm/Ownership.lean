import Xv6.Lib.Holders
import Xv6.Vm.System
import Xv6.Vm.Transfer

namespace Xv6.Vm
open Lib Vm.Sys
variable {kend tramp : Nat} {m m' m0 : Mem} {p q : Proc} {x t va : Nat} {E : Panic → Prop}
  {src : List UInt8} {s s' : Sys} {i : Fin nproc} {slot : Slot} {l : Place}

inductive Holder where
  | boot
  | proc (i : Fin nproc)
  | pipe (pi : Nat)

def Sys.holds (kend : Nat) (m0 : Mem) (s : Sys) : Holder → Nat → Prop
  | .boot, t => Ram kend t ∧ t ∉ m0.freelist
  | .proc i, t => ∃ p, (s.proc i).proc = some p ∧ Has s.mem p t
  | .pipe pi, t => t = pi ∧ (s.pipe pi).isSome

/-- Every page has one holder. -/
structure Inv (kend tramp : Nat) (m0 : Mem) (s : Sys) : Prop where
  split : Split (Ram kend) (· ∈ s.mem.freelist) (s.holds kend m0)
  nodup : s.mem.freelist.Nodup
  space : ∀ i p, (s.proc i).proc = some p → Space kend tramp s.mem p

lemma Inv.ram (h : Inv kend tramp m0 s) (ht : t ∈ s.mem.freelist) : Ram kend t :=
  (h.split.cover t).mpr (.inl ht)

lemma Inv.boot (hram : ∀ t ∈ m.freelist, Ram kend t) (hnodup : m.freelist.Nodup) :
    Inv kend tramp m (Sys.boot m) := by
  refine ⟨⟨fun t => ⟨fun ht => ?_, ?_⟩, ?_, ?_⟩, hnodup, fun i p hp => by cases hp⟩
  · by_cases hf : t ∈ m.freelist
    · exact .inl hf
    exact .inr ⟨.boot, ht, hf⟩
  · rintro (hf | ⟨k, hk⟩)
    · exact hram t hf
    · cases k with
      | boot => exact hk.1
      | proc i =>
        obtain ⟨p, hp, -⟩ := hk
        cases hp
      | pipe pi => cases hk.2
  · intro k t hk hf
    cases k with
    | boot => exact hk.2 hf
    | proc i =>
      obtain ⟨p, hp, -⟩ := hk
      cases hp
    | pipe pi => cases hk.2
  intro j k t hj hk
  cases j with
  | boot =>
    cases k with
    | boot => rfl
    | proc i =>
      obtain ⟨p, hp, -⟩ := hk
      cases hp
    | pipe pi => cases hk.2
  | proc i =>
    obtain ⟨p, hp, -⟩ := hj
    cases hp
  | pipe pi => cases hj.2

lemma Inv.trade (h : Inv kend tramp m0 s) (k : Holder)
    (ht : Trade (s.holds kend m0 k) (s'.holds kend m0 k) s.mem s'.mem)
    (hproc : ∀ i, Holder.proc i ≠ k → s'.proc i = s.proc i)
    (hpipe : ∀ pi, Holder.pipe pi ≠ k → s'.pipe pi = s.pipe pi)
    (hspace : ∀ i p, Holder.proc i = k → (s'.proc i).proc = some p → Space kend tramp s'.mem p) :
    Inv kend tramp m0 s' := by
  have hkeep : ∀ i p, Holder.proc i ≠ k → (s.proc i).proc = some p →
      Same kend s.mem s'.mem p.pagetable ∧ Space kend tramp s'.mem p := by
    intro i p hi hp
    refine (h.space i p hp).trade ht (fun t hkt => (h.split.cover t).mpr (.inr ⟨k, hkt⟩))
      (fun t hpt hkt => hi (h.split.once _ _ t ⟨p, hp, hpt⟩ hkt))
  have hother : ∀ j, j ≠ k → ∀ t, s'.holds kend m0 j t ↔ s.holds kend m0 j t := by
    intro j hj t
    cases j with
    | boot => exact Iff.rfl
    | proc i =>
      show (∃ p, (s'.proc i).proc = some p ∧ Has s'.mem p t) ↔ ∃ p, _ ∧ Has s.mem p t
      rw [hproc i hj]
      exact exists_congr fun p => and_congr_right fun hp => (hkeep i p hj hp).1.has
    | pipe pi =>
      show t = pi ∧ (s'.pipe pi).isSome ↔ _
      rw [hpipe pi hj]
      exact Iff.rfl
  refine ⟨h.split.trade k hother ht.pages ht.apart, ht.nodup, fun i p hp => ?_⟩
  by_cases hi : Holder.proc i = k
  · exact hspace i p hi hp
  rw [hproc i hi] at hp
  exact (hkeep i p hi hp).2

lemma Inv.idle (h : Inv kend tramp m0 s)
    (ht : Trade (fun _ => False) (fun _ => False) s.mem m') : Inv kend tramp m0 { s with
      mem := m' } := by
  refine h.trade .boot ?_ (fun _ _ => rfl) (fun _ _ => rfl) fun _ _ hi => by cases hi
  refine (ht.add (fun t hb => ⟨id, h.split.apart .boot t hb⟩)).congr
    (fun t => ?_) fun t => ?_
  · rw [false_or]
  rw [false_or]
  exact Iff.rfl

lemma Inv.deny (h : Inv kend tramp m0 s) (d : List Bool) : Inv kend tramp m0 (s.deny d) :=
  h.idle ⟨fun _ => Iff.rfl, fun _ hf => hf.elim, h.nodup, fun _ _ _ => rfl⟩

lemma Sys.holds_of_some (hi : (s.proc i).proc = some p) :
    s.holds kend m0 (.proc i) t ↔ Has s.mem p t := by
  constructor
  · rintro ⟨q, hq, ht⟩
    rw [hi] at hq
    cases hq
    exact ht
  exact fun ht => ⟨p, hi, ht⟩

lemma Sys.holds_of_none (hi : (s.proc i).proc = none) : s.holds kend m0 (.proc i) t ↔ False := by
  refine ⟨?_, False.elim⟩
  rintro ⟨q, hq, -⟩
  rw [hi] at hq
  cases hq

lemma Sys.proc_setProc_self (s : Sys) (i : Fin nproc) (slot : Slot) :
    (s.setProc i slot).proc i = slot := if_pos rfl

lemma Sys.proc_setProc_of_ne {i j : Fin nproc} (hij : j ≠ i) (s : Sys) (slot : Slot) :
    (s.setProc i slot).proc j = s.proc j := if_neg hij

lemma Sys.setProc_eq_self (hi : s.proc i = slot) : s.setProc i slot = s := by
  have hproc : (fun j => if j = i then slot else s.proc j) = s.proc := by
    funext j
    by_cases hj : j = i
    · rw [if_pos hj, hj, hi]
    rw [if_neg hj]
  rw [Sys.setProc, hproc]

section
variable (h : Inv kend tramp m0 s)
include h

lemma Inv.setProc
    (ht : Trade (s.holds kend m0 (.proc i)) (({ s with mem := m' }.setProc i slot).holds kend m0
      (.proc i)) s.mem m') (hspace : ∀ p, slot.proc = some p → Space kend tramp m' p) :
    Inv kend tramp m0 ({ s with mem := m' }.setProc i slot) := by
  refine h.trade (.proc i) ht (fun j hj => ?_) (fun _ _ => rfl) fun j p hj hp => ?_
  · exact proc_setProc_of_ne (fun e => hj (by rw [e])) _ _
  cases hj
  rw [proc_setProc_self] at hp
  exact hspace p hp

lemma Inv.replace (hi : (s.proc i).proc = some p) (hslot : slot.proc = some q)
    (hq : Space kend tramp m' q) (ht : Trade (Has s.mem p) (Has m' q) s.mem m') :
    Inv kend tramp m0 ({ s with mem := m' }.setProc i slot) := by
  refine h.setProc (ht.congr (fun t => holds_of_some hi) (fun t => ?_)) fun p hp => ?_
  · exact holds_of_some (by rw [proc_setProc_self, hslot])
  rw [hslot] at hp
  cases hp
  exact hq

lemma Inv.resize (hi : s.proc i = .used p) (hr : Resized kend tramp s.mem m' p q) :
    Inv kend tramp m0 ({ s with mem := m' }.setProc i (.used q)) := by
  have hp : (s.proc i).proc = some p := by rw [hi]; rfl
  exact h.replace hp rfl hr.space (hr.trade (h.space i p hp))

lemma Inv.touch (hi : s.proc i = .used p) (hr : Resized kend tramp s.mem m' p p) :
    Inv kend tramp m0 { s with mem := m' } := by
  have hinv := h.resize hi hr
  rwa [setProc_eq_self (s := { s with mem := m' }) hi] at hinv

lemma Inv.release (hi : (s.proc i).proc = some p)
    (ht : Trade (Has s.mem p) (fun _ => False) s.mem m') :
    Inv kend tramp m0 ({ s with mem := m' }.setProc i .unused) := by
  refine h.setProc (ht.congr (fun t => holds_of_some hi) (fun t => ?_)) fun p hp => by cases hp
  exact holds_of_none (by rw [proc_setProc_self]; rfl)

lemma Inv.enroll {j : Fin nproc} {r : Option Proc} (hj : s.proc j = .unused) (hr : match r with
      | none => Trade (fun _ => False) (fun _ => False) s.mem m'
      | some p => Space kend tramp m' p ∧ Trade (fun _ => False) (Has m' p) s.mem m') :
    Inv kend tramp m0 (Sys.enroll j { s with mem := m' } r) := by
  have hj : (s.proc j).proc = none := by rw [hj]; rfl
  cases r with
  | none => exact h.idle hr
  | some p =>
    refine h.setProc (hr.2.congr (fun t => holds_of_none hj) (fun t => ?_)) fun q hq => ?_
    · exact holds_of_some (by rw [proc_setProc_self]; rfl)
    cases hq
    exact hr.1
end

lemma Sys.findUnused_unused {j : Fin nproc} (hj : s.findUnused = some j) :
    s.proc j = .unused := by
  simpa using List.find?_some hj

lemma Sys.call_of_wp {α : Type} {c : VmM α} {keep : Sys → α → Sys} {P : Sys → Prop}
    (h : wp c s.mem (fun r m' => P (keep { s with mem := m' } r)) (fun _ => False)) :
    ∃ s', s.call c keep = .ok s' ∧ P s' := by
  obtain ⟨r, m', hc, hP⟩ := wp_total h
  refine ⟨_, ?_, hP⟩
  rw [Sys.call, hc]

section
variable (h : Inv kend tramp m0 s) {pi : Nat}
include h

lemma Inv.wp_kwait {i j : Fin nproc} {pp : Proc} {addr xstate : Nat} (hk : 0 < kend)
    (hi : s.proc i = .used p) (hj : s.proc j = .zombie pp) :
    wp (kwait kend p pp addr xstate) s.mem (fun freed m' => Inv kend tramp m0
      (if freed then { s with mem := m' }.setProc j .unused else { s with mem := m' })) E := by
  have hp : (s.proc i).proc = some p := by rw [hi]; rfl
  have hpp : (s.proc j).proc = some pp := by rw [hj]; rfl
  have hcopy : wp (if addr ≠ 0 then copyout kend p p.pagetable addr (leBytes 4 xstate) else pure 0)
      s.mem (fun _ m' => Inv kend tramp m0 { s with mem := m' }) E := by
    refine wp_ite (fun _ => ?_) fun _ => ?_
    · refine wp_imp (wp_copyoutLoop_sent hk _ _ _ _ le_rfl (h.space i p hp)) ?_
      exact fun _ m' ⟨k, hsent, _⟩ => h.touch hi hsent.resized
    rwa [wp_pure]
  unfold kwait
  refine wp_bind_of hcopy fun e m1 h1 => ?_
  refine wp_ite (fun _ => wp_pure.mpr ?_) fun _ => ?_
  · exact h1
  refine wp_bind_of (wp_freeproc (h1.space j pp hpp)) fun _ m2 ht => wp_pure.mpr ?_
  exact h1.release hpp ht

lemma Inv.setPipe {q : Option Pipe}
    (ht : Trade (fun t => t = pi ∧ (s.pipe pi).isSome) (fun t => t = pi ∧ q.isSome) s.mem m') :
    Inv kend tramp m0 ({ s with mem := m' }.setPipe pi q) := by
  refine h.trade (.pipe pi) (ht.congr (fun _ => Iff.rfl) (fun t => ?_)) (fun _ _ => rfl)
    (fun a ha => if_neg (fun e => ha (by rw [e]))) (fun _ _ hi => by cases hi)
  show t = pi ∧ (if pi = pi then q else _).isSome ↔ _
  rw [if_pos rfl]

lemma Inv.wp_pipealloc {f0 f1 : Bool} :
    wp (pipealloc f0 f1) s.mem (fun r m' => Inv kend tramp m0 (match r with
      | none => { s with mem := m' }
      | some pi =>
        { s with mem := m' }.setPipe pi (some { readopen := true, writeopen := true }))) E := by
  unfold pipealloc
  refine wp_ite (fun _ => ?_) fun _ => ?_
  · refine wp_kalloc (fun _ => ?_) fun pi rest hf => ?_
    · exact h.idle ⟨fun _ => Iff.rfl, fun _ hf => hf.elim, h.nodup, fun _ _ _ => rfl⟩
    · have hmem : pi ∈ s.mem.freelist := by
        rw [hf]
        exact .head _
      have hnone : ∀ t, ¬(t = pi ∧ (s.pipe pi).isSome) := fun t ht =>
        h.split.apart (.pipe pi) pi ⟨rfl, ht.2⟩ hmem
      refine h.setPipe ((trade_taken hf h.nodup (h.ram hmem).aligned).congr (fun t => ?_)
        (fun t => ?_))
      · exact iff_false_intro (hnone t)
      simp
  rw [wp_pure]
  exact h

lemma Inv.wp_pipeclose {r : Pipe} {writable : Bool} (hr : s.pipe pi = some r) :
    wp (pipeclose kend pi r writable) s.mem
      (fun q m' => Inv kend tramp m0 ({ s with mem := m' }.setPipe pi q)) E := by
  have hheld : s.holds kend m0 (.pipe pi) pi := ⟨rfl, by rw [hr]; rfl⟩
  have hram := (h.split.cover pi).mpr (.inr ⟨_, hheld⟩)
  have hfree := h.split.apart _ _ hheld
  unfold pipeclose
  generalize (if writable then { r with writeopen := false } else
    { r with readopen := false } : Pipe) = q
  refine wp_ite (fun _ => ?_) fun _ => ?_
  · rw [wp_bind, wp_kfree hram, wp_pure]
    refine h.setPipe ((trade_freed hfree h.nodup hram.aligned).congr (fun t => ?_) (fun t => ?_))
    · rw [hr]
      simp
    simp
  rw [wp_pure]
  refine h.setPipe ⟨fun t => ?_, fun t ht => ?_, h.nodup, fun _ _ _ => rfl⟩
  · rw [hr]
    exact Iff.rfl
  rwa [ht.1]
end

lemma Inv.exec (hcode : IsCode kend tramp) (h : Inv kend tramp m0 s) (op : Op) :
    ∃ s', s.exec kend tramp op = .ok s' ∧ Inv kend tramp m0 s' := by
  cases op with
  | allocproc =>
    rw [Sys.exec]
    cases hj : s.findUnused with
    | none => exact ⟨s, rfl, h⟩
    | some j =>
      refine call_of_wp (wp_imp (wp_allocproc hcode (fun t ht => h.ram ht) h.nodup)
        (fun r m' hr => h.enroll (findUnused_unused hj) ?_))
      cases r with
      | none => exact hr
      | some p => exact ⟨hr.1, hr.2.2⟩
  | sbrk i n t =>
    rw [Sys.exec]
    cases hi : s.proc i with
    | unused
    | zombie p => exact ⟨s, rfl, h⟩
    | used p =>
      have hn : IsInt n.toInt := ⟨BitVec.le_toInt n, BitVec.toInt_lt⟩
      exact call_of_wp (wp_imp (wp_sysSbrk (h.space i p (by rw [hi]; rfl)) hn)
        (fun r m' hr => h.resize hi hr))
  | vmfault i va =>
    rw [Sys.exec]
    cases hi : s.proc i with
    | unused
    | zombie p => exact ⟨s, rfl, h⟩
    | used p =>
      exact call_of_wp (wp_imp (wp_vmfault_space (h.space i p (by rw [hi]; rfl)))
        (fun r m' hr => h.touch hi hr))
  | fork i =>
    rw [Sys.exec]
    cases hi : s.proc i with
    | unused
    | zombie p => exact ⟨s, rfl, h⟩
    | used p =>
      cases hj : s.findUnused with
      | none => exact ⟨s, rfl, h⟩
      | some j =>
        refine call_of_wp (wp_imp (wp_kfork hcode (h.space i p (by rw [hi]; rfl)))
          (fun r m' hr => h.enroll (findUnused_unused hj) ?_))
        cases r with
        | none => exact hr
        | some np => exact ⟨hr.1, hr.2.2.1⟩
  | exec i file argv =>
    rw [Sys.exec]
    cases hi : s.proc i with
    | unused
    | zombie p => exact ⟨s, rfl, h⟩
    | used p =>
      have hp : (s.proc i).proc = some p := by rw [hi]; rfl
      exact call_of_wp (wp_imp (wp_kexec (Nat.zero_lt_of_lt hcode.below) hcode (h.space i p hp))
        (fun r m' hr => h.replace hp rfl hr.1 hr.2.2))
  | exit i =>
    rw [Sys.exec]
    cases hi : s.proc i with
    | unused
    | zombie p => exact ⟨s, rfl, h⟩
    | used p =>
      have hp : (s.proc i).proc = some p := by rw [hi]; rfl
      refine ⟨_, rfl, h.replace hp rfl (h.space i p hp) ?_⟩
      exact ⟨fun _ => Iff.rfl, fun t ht => (h.space i p hp).not_free ht, h.nodup, fun _ _ _ => rfl⟩
  | wait i j addr xstate =>
    rw [Sys.exec]
    cases hi : s.proc i with
    | unused
    | zombie p => exact ⟨s, rfl, h⟩
    | used p =>
      cases hj : s.proc j with
      | unused
      | used pp => exact ⟨s, rfl, h⟩
      | zombie pp => exact call_of_wp (h.wp_kwait (Nat.zero_lt_of_lt hcode.below) hi hj)
  | pipealloc f0 f1 =>
    rw [Sys.exec]
    refine call_of_wp (wp_imp h.wp_pipealloc (fun r m' hr => ?_))
    cases r <;> exact hr
  | pipeclose pi writable =>
    rw [Sys.exec]
    cases hq : s.pipe pi with
    | none => exact ⟨s, rfl, h⟩
    | some q =>
      by_cases hopen : Sys.canClose q writable
      · simp only [hopen, if_true]
        exact call_of_wp (h.wp_pipeclose hq)
      simp only [hopen]
      exact ⟨s, rfl, h⟩

lemma Inv.run (hcode : IsCode kend tramp) (ops : List (List Bool × Op)) : ∀ s,
    Inv kend tramp m0 s →
    ∃ s', ops.foldlM (Sys.step kend tramp) s = .ok s' ∧ Inv kend tramp m0 s' := by
  induction ops with
  | nil => exact fun s h => ⟨s, rfl, h⟩
  | cons l ops ih =>
    intro s h
    obtain ⟨s1, hs1, h1⟩ := (h.deny l.1).exec hcode l.2
    obtain ⟨s2, hs2, h2⟩ := ih s1 h1
    refine ⟨s2, ?_, h2⟩
    rwa [List.foldlM_cons, Sys.step, hs1]

theorem address_spaces_of_run (hcode : IsCode kend tramp) (hram : ∀ t ∈ m.freelist, Ram kend t)
    (hnodup : m.freelist.Nodup) (ops : List (List Bool × Op)) :
    ∃ s, ops.foldlM (Sys.step kend tramp) (Sys.boot m) = .ok s ∧ ∀ i p, (s.proc i).proc = some p →
        p.sz ≤ trapframe ∧
        (∀ x, Page x → x ≠ trampoline → x ≠ trapframe → s.mem.map p.pagetable x ≠ none →
          x < pgroundup p.sz) ∧
        (∀ t j, Reached s.mem.next p.pagetable 1 t → (s.mem.entry t j).testBit 0 →
          isLeaf (s.mem.entry t j) = false) ∧
        s.mem.map p.pagetable trampoline = some (tramp, pteR ||| pteX ||| pteV) ∧
        s.mem.map p.pagetable trapframe = some (p.trapframe, pteR ||| pteW ||| pteV) := by
  obtain ⟨s, hs, hinv⟩ := Inv.run hcode ops _ (Inv.boot hram hnodup)
  refine ⟨s, hs, fun i p hp => ?_⟩
  have h := hinv.space i p hp
  refine ⟨h.size, fun x hx htramp htf hne => ?_, h.sound.paged.inner, h.code, h.frame⟩
  by_cases hlt : x < trapframe
  · exact (hx.lt_pgroundup_iff (lt_of_le_trapframe h.size)).mpr (h.below x hx hlt hne)
  have hmax : maxva ≤ x := by
    have hal := hx.aligned
    rw [pgsize_eq] at hal
    rw [trapframe_eq] at hlt htf
    rw [trampoline_eq] at htramp
    rw [maxva_eq]
    omega
  exact absurd (h.sound.half x hx hmax) hne

def forked : List (List Bool × Op) :=
  [([], .allocproc), ([true], .vmfault ⟨0, by decide⟩ 5), ([], .sbrk ⟨0, by decide⟩ 0x1800 1),
    ([], .fork ⟨0, by decide⟩)]

lemma forked_child : ∃ s, forked.foldlM (Sys.step 0x80100000 0x80007000)
      (Sys.boot sixteenPages) = .ok s ∧
    (s.proc ⟨1, by decide⟩).proc =
      some { pagetable := 0x87009000, sz := 0x1800, trapframe := 0x87008000 } ∧
    s.mem.freelist = [] := by
  have hrun : (match forked.foldlM (Sys.step 0x80100000 0x80007000) (Sys.boot sixteenPages) with
      | .ok s => decide ((s.proc ⟨1, by decide⟩).proc =
          some { pagetable := 0x87009000, sz := 0x1800, trapframe := 0x87008000 } ∧
          s.mem.freelist = [])
      | .error _ => false) = true := by
    decide +kernel
  cases hs : forked.foldlM (Sys.step 0x80100000 0x80007000) (Sys.boot sixteenPages) with
  | error e =>
    rw [hs] at hrun
    cases hrun
  | ok s =>
    rw [hs] at hrun
    exact ⟨s, rfl, of_decide_eq_true hrun⟩

theorem address_spaces_of_run_forked : ∃ s, forked.foldlM (Sys.step 0x80100000 0x80007000)
      (Sys.boot sixteenPages) = .ok s ∧
    (∀ x, Page x → x ≠ trampoline → x ≠ trapframe → s.mem.map 0x87009000 x ≠ none → x < 0x2000) ∧
    s.mem.map 0x87009000 trapframe = some (0x87008000, pteR ||| pteW ||| pteV) := by
  obtain ⟨s, hs, hchild, -⟩ := forked_child
  obtain ⟨s', hs', h⟩ := address_spaces_of_run isCode_low ram_sixteenPages (by decide) forked
  rw [hs] at hs'
  cases hs'
  obtain ⟨-, hbelow, -, -, hframe⟩ := h _ _ hchild
  exact ⟨s, hs, hbelow, hframe⟩

inductive Use where
  | table (path : List (Fin 512))
  | user (va : Nat)
  | trapframe

def Uses (m : Mem) (p : Proc) (t : Nat) : Use → Prop
  | .table path => path.length ≤ 2 ∧ follow m.next p.pagetable path = some t
  | .user va => Page va ∧ va < Vm.trapframe ∧ ∃ flags, m.map p.pagetable va = some (t, flags)
  | .trapframe => t = p.trapframe

lemma has_iff : Has m p t ↔ ∃ u, Uses m p t u := by
  constructor
  · rintro ((⟨path, hlen, hf⟩ | ⟨va, flags, hva, hlt, hm⟩) | ht)
    · exact ⟨.table path, hlen, hf⟩
    · exact ⟨.user va, hva, hlt, flags, hm⟩
    exact ⟨.trapframe, ht⟩
  rintro ⟨u, hu⟩
  cases u with
  | table path => exact .inl (.inl ⟨path, hu⟩)
  | user va =>
    obtain ⟨hva, hlt, flags, hm⟩ := hu
    exact .inl (.inr ⟨va, flags, hva, hlt, hm⟩)
  | trapframe => exact .inr hu

lemma Space.use_unique {u u' : Use} (h : Space kend tramp m p) (hu : Uses m p t u)
    (hu' : Uses m p t u') : u = u' := by
  have htable : ∀ path va, Uses m p t (.table path) → ¬Uses m p t (.user va) := by
    rintro path va ht ⟨hva, hlt, flags, hm⟩
    exact (h.sound.idle va t flags hva hlt hm).notTable ⟨path, ht⟩
  have hframe : t = p.trapframe → ¬Owns m p.pagetable t := by
    rintro rfl
    exact h.hand.notOwned
  cases u with
  | table path =>
    cases u' with
    | table path' => rw [h.sound.paged.tree path path' t hu.1 hu'.1 hu.2 hu'.2]
    | user va => exact absurd hu' (htable path va hu)
    | trapframe => exact absurd (.inl ⟨path, hu⟩) (hframe hu')
  | user va =>
    cases u' with
    | table path => exact absurd hu (htable path va hu')
    | user va' =>
      obtain ⟨hva, hlt, flags, hm⟩ := hu
      obtain ⟨hva', hlt', flags', hm'⟩ := hu'
      rw [h.sound.once va va' t flags flags' hva hva' hlt hlt' hm hm']
    | trapframe =>
      obtain ⟨hva, hlt, flags, hm⟩ := hu
      exact absurd (.inr ⟨va, flags, hva, hlt, hm⟩) (hframe hu')
  | trapframe =>
    cases u' with
    | table path => exact absurd (.inl ⟨path, hu'⟩) (hframe hu)
    | user va =>
      obtain ⟨hva, hlt, flags, hm⟩ := hu'
      exact absurd (.inr ⟨va, flags, hva, hlt, hm⟩) (hframe hu)
    | trapframe => rfl

inductive Place where
  | free
  | boot
  | proc (i : Fin nproc) (u : Use)
  | pipe (pi : Nat)

def Sys.keeps (kend : Nat) (m0 : Mem) (s : Sys) (t : Nat) : Place → Prop
  | .free => t ∈ s.mem.freelist
  | .boot => Ram kend t ∧ t ∉ m0.freelist
  | .proc i u => ∃ p, (s.proc i).proc = some p ∧ Uses s.mem p t u
  | .pipe pi => t = pi ∧ (s.pipe pi).isSome

lemma Inv.keeps_exists (h : Inv kend tramp m0 s) (ht : Ram kend t) :
    ∃ l, s.keeps kend m0 t l := by
  rcases (h.split.cover t).mp ht with hf | ⟨k, hk⟩
  · exact ⟨.free, hf⟩
  cases k with
  | boot => exact ⟨.boot, hk⟩
  | proc i =>
    obtain ⟨p, hp, hhas⟩ := hk
    obtain ⟨u, hu⟩ := has_iff.mp hhas
    exact ⟨.proc i u, p, hp, hu⟩
  | pipe pi => exact ⟨.pipe pi, hk⟩

def Place.holder : Place → Option Holder
  | .free => none
  | .boot => some .boot
  | .proc i _ => some (.proc i)
  | .pipe pi => some (.pipe pi)

lemma Sys.holds_of_keeps {k : Holder} (h : s.keeps kend m0 t l)
    (hk : l.holder = some k) : s.holds kend m0 k t := by
  cases l with
  | free => cases hk
  | boot
  | pipe pi =>
    cases hk
    exact h
  | proc i u =>
    cases hk
    obtain ⟨p, hp, hu⟩ := h
    exact ⟨p, hp, has_iff.mpr ⟨u, hu⟩⟩

lemma Inv.free_of_keeps (h : Inv kend tramp m0 s) (hl : s.keeps kend m0 t l)
    (hf : t ∈ s.mem.freelist) : l = .free := by
  cases l with
  | free => rfl
  | boot => exact absurd hf (h.split.apart .boot t hl)
  | proc i u => exact absurd hf (h.split.apart (.proc i) t (holds_of_keeps hl rfl))
  | pipe pi => exact absurd hf (h.split.apart (.pipe pi) t hl)

lemma Inv.keeps_unique {l' : Place} (h : Inv kend tramp m0 s) (hl : s.keeps kend m0 t l)
    (hl' : s.keeps kend m0 t l') : l = l' := by
  by_cases hf : t ∈ s.mem.freelist
  · rw [h.free_of_keeps hl hf, h.free_of_keeps hl' hf]
  have hsame : ∀ k k', l.holder = some k → l'.holder = some k' → k = k' := fun k k' hk hk' =>
    h.split.once k k' t (holds_of_keeps hl hk) (holds_of_keeps hl' hk')
  cases l with
  | free => exact absurd hl hf
  | boot =>
    cases l' with
    | free => exact absurd hl' hf
    | boot => rfl
    | proc i u
    | pipe pi => cases hsame _ _ rfl rfl
  | proc i u =>
    cases l' with
    | free => exact absurd hl' hf
    | boot
    | pipe pi => cases hsame _ _ rfl rfl
    | proc j u' =>
      cases hsame _ _ rfl rfl
      obtain ⟨p, hp, hu⟩ := hl
      obtain ⟨q, hq, hu'⟩ := hl'
      rw [hp] at hq
      cases hq
      rw [(h.space i p hp).use_unique hu hu']
  | pipe pi =>
    cases l' with
    | free => exact absurd hl' hf
    | boot
    | proc i u => cases hsame _ _ rfl rfl
    | pipe pi' =>
      cases hsame _ _ rfl rfl
      rfl

theorem page_places_of_run (hcode : IsCode kend tramp) (hram : ∀ t ∈ m.freelist, Ram kend t)
    (hnodup : m.freelist.Nodup) (ops : List (List Bool × Op)) :
    ∃ s, ops.foldlM (Sys.step kend tramp) (Sys.boot m) = .ok s ∧ s.mem.freelist.Nodup ∧
      ∀ t, Ram kend t → ∃! l, s.keeps kend m t l := by
  obtain ⟨s, hs, hinv⟩ := Inv.run hcode ops _ (Inv.boot hram hnodup)
  refine ⟨s, hs, hinv.nodup, fun t ht => ?_⟩
  obtain ⟨l, hl⟩ := hinv.keeps_exists ht
  exact ⟨l, hl, fun l' hl' => hinv.keeps_unique hl' hl⟩

theorem page_places_of_run_forked : ∃ s, forked.foldlM (Sys.step 0x80100000 0x80007000)
      (Sys.boot sixteenPages) = .ok s ∧ s.mem.freelist = [] ∧
    ∀ t, Ram 0x80100000 t → ∃! l, s.keeps 0x80100000 sixteenPages t l := by
  obtain ⟨s, hs, -, hfree⟩ := forked_child
  obtain ⟨s', hs', -, h⟩ := page_places_of_run isCode_low ram_sixteenPages (by decide) forked
  rw [hs] at hs'
  cases hs'
  exact ⟨s, hs, hfree, h⟩

theorem copyout_isolated_of_run (hcode : IsCode kend tramp) (hram : ∀ t ∈ m.freelist, Ram kend t)
    (hnodup : m.freelist.Nodup) {ops : List (List Bool × Op)}
    (hs : ops.foldlM (Sys.step kend tramp) (Sys.boot m) = .ok s) (hp : (s.proc i).proc = some p)
    (va : Nat) (src : List UInt8) :
    ∃ r m', copyout kend p p.pagetable va src s.mem = .ok (r, m') ∧
      (∀ a, a < kend → m'.byte a = s.mem.byte a) ∧
      (∀ k a, k ≠ .proc i → s.holds kend m k (pgrounddown a) → m'.byte a = s.mem.byte a) ∧
      ∀ j q, j ≠ i → (s.proc j).proc = some q →
        Space kend tramp m' q ∧ m'.seen q = s.mem.seen q := by
  obtain ⟨s', hs', h⟩ := Inv.run hcode ops _ (Inv.boot hram hnodup)
  rw [hs] at hs'
  cases hs'
  have hspace := h.space i p hp
  obtain ⟨r, m', hrun, k, hsent, -⟩ := wp_total
    (wp_copyoutLoop_sent (E := fun _ => False) (Nat.zero_lt_of_lt hcode.below)
      src.length s.mem va src (le_refl _) hspace)
  have helse := hsent.resized.elsewhere hspace
  have hlow : ∀ a, a < kend → ¬Ram kend (pgrounddown a) := fun a ha hr =>
    absurd hr.above (not_le.mpr (lt_of_le_of_lt (pgrounddown_le a) ha))
  refine ⟨r, m', hrun, fun a ha => helse.byte a (fun ho => hlow a ha (hspace.sound.owns_ram ho))
    fun hf => hlow a ha (h.ram hf), fun k a hk ha => helse.byte a (fun ho => hk ?_)
    (h.split.apart k _ ha), fun j q hj hq => helse.other q (h.space j q hq) fun t hqt hpt => hj ?_⟩
  · exact h.split.once k (.proc i) _ ha ⟨p, hp, .inl ho⟩
  cases h.split.once (.proc j) (.proc i) t ⟨q, hq, hqt⟩ ⟨p, hp, hpt⟩
  rfl

theorem copyout_isolated_of_run_forked : ∃ s p r m',
    forked.foldlM (Sys.step 0x80100000 0x80007000) (Sys.boot sixteenPages) = .ok s ∧
    (s.proc ⟨1, by decide⟩).proc = some p ∧
    copyout 0x80100000 p p.pagetable 0 [7] s.mem = .ok (r, m') ∧
    m'.byte 0x80007000 = s.mem.byte 0x80007000 ∧ m'.byte 0x80200000 = s.mem.byte 0x80200000 := by
  obtain ⟨s, hs, hp, -⟩ := forked_child
  obtain ⟨r, m', hrun, hlow, hbyte, -⟩ :=
    copyout_isolated_of_run isCode_low ram_sixteenPages (by decide) hs hp 0 [7]
  exact ⟨s, _, r, m', hs, hp, hrun, hlow _ (by decide),
    hbyte .boot _ (by rintro ⟨⟩) ⟨⟨by decide, by decide, by decide⟩, by decide⟩⟩
end Xv6.Vm
