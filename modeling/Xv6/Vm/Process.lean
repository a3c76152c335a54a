import Xv6.Vm.Grow

namespace Xv6.Vm
open Lib

/-- The address space of a process. -/
structure Space (kend tramp : Nat) (m : Mem) (p : Proc) : Prop where
  sound : Sound kend m p.pagetable
  size : p.sz ≤ trapframe
  below : ∀ x, Page x → x < trapframe → m.map p.pagetable x ≠ none → x < p.sz
  code : m.map p.pagetable trampoline = some (tramp, pteR ||| pteX ||| pteV)
  frame : m.map p.pagetable Vm.trapframe = some (p.trapframe, pteR ||| pteW ||| pteV)
  hand : Hand kend m p.pagetable p.trapframe

variable {kend tramp : Nat} {m m' : Mem} {p : Proc} {root va a x sz : Nat} {n t : Int}
  {E : Panic → Prop} {v : View}

lemma page_trampoline : Page trampoline := ⟨by decide, by decide⟩
lemma page_trapframe : Page trapframe := ⟨by decide, by decide⟩

lemma Evolves.hand (he : Evolves kend root m m' v) (h : Hand kend m root a) :
    Hand kend m' root a := by
  have hn : ¬(Owns m' root a ∨ a ∈ m'.freelist) := by
    rw [he.owns]
    rintro (ho | hf)
    · exact h.notOwned ho
    exact h.notFree hf
  exact ⟨h.ram, fun ho => hn (.inl ho), fun hf => hn (.inr hf)⟩

lemma Space.resize (h : Space kend tramp m p) (he : Evolves kend p.pagetable m m' v)
    (hsz : sz ≤ trapframe) (hv : ∀ x, Page x → x < trapframe → v x ≠ none → x < sz) :
    Space kend tramp m' { p with sz := sz } where
  sound := he.sound
  size := hsz
  below x hx hlt hm := by
    refine hv x hx hlt fun hn => hm ?_
    rw [← view_eq_none, he.view x hx hlt, hn]
  code := by rw [he.top _ page_trampoline (by decide), h.code]
  frame := by rw [he.top _ page_trapframe le_rfl, h.frame]
  hand := he.hand h.hand

lemma Space.view_ne_none (h : Space kend tramp m p) (hx : Page x) (hlt : x < trapframe)
    (hv : m.view p.pagetable x ≠ none) : x < p.sz :=
  h.below x hx hlt fun hn => hv (view_eq_none.mpr hn)

lemma Space.keep (h : Space kend tramp m p)
    (he : Evolves kend p.pagetable m m' (m.view p.pagetable)) : Space kend tramp m' p :=
  h.resize he h.size fun _ hx hlt hv => h.view_ne_none hx hlt hv

def IsInt (n : Int) : Prop := -2 ^ 31 ≤ n ∧ n < 2 ^ 31

lemma addInt_of_nonneg (hsz : sz ≤ trapframe) (hn : IsInt n) (h0 : 0 ≤ (sz : Int) + n) :
    (addInt sz n : Int) = sz + n := by
  have htf : trapframe = 274877898752 := trapframe_eq
  obtain ⟨h1, h2⟩ := hn
  unfold addInt
  omega

lemma addInt_of_neg (hsz : sz ≤ trapframe) (hn : IsInt n) (h0 : (sz : Int) + n < 0) :
    trapframe < addInt sz n := by
  have htf : trapframe = 274877898752 := trapframe_eq
  obtain ⟨h1, h2⟩ := hn
  unfold addInt
  omega

lemma wp_growproc_pos (h : Space kend tramp m p) (hn : IsInt n) (hpos : 0 < n) :
    wp (growproc kend p n) m (fun r m' =>
      trapframe < addInt p.sz n ∧ r = (-1, p) ∧ m' = m ∨
      addInt p.sz n ≤ trapframe ∧ r = (0, { p with sz := addInt p.sz n }) ∧
        Keeps kend p.pagetable m m' ((m.view p.pagetable).zeroed p.sz (addInt p.sz n)
          (pteR ||| pteU ||| pteW ||| pteV)) p.sz (addInt p.sz n) ∨
      addInt p.sz n ≤ trapframe ∧ r = (-1, p) ∧
        Keeps kend p.pagetable m m' (m.view p.pagetable) 0 0) E := by
  have hadd := addInt_of_nonneg h.size hn (by omega)
  unfold growproc
  rw [if_pos hpos]
  refine wp_ite (fun htop => wp_pure.mpr ?_) fun htop => ?_
  · exact .inl ⟨htop, rfl, rfl⟩
  refine wp_bind_of (wp_uvmalloc h.sound h.size (by decide) (fun x hx hle hlt => ?_)
    (fun _ _ _ _ _ _ _ => by omega)) (fun r m' hr => ?_)
  · by_contra hne
    have := h.below x hx hlt hne
    omega
  rcases hr with ⟨hlt, -, -⟩ | ⟨-, rfl, -, hm⟩ | ⟨-, rfl, hm⟩
  · omega
  · rw [if_neg (by omega), wp_pure]
    exact .inr (.inl ⟨by omega, rfl, hm⟩)
  rw [if_pos rfl, wp_pure]
  exact .inr (.inr ⟨by omega, rfl, hm⟩)

structure Resized (kend tramp : Nat) (m m' : Mem) (p p' : Proc) : Prop where
  space : Space kend tramp m' p'
  evolves : ∃ v, Evolves kend p.pagetable m m' v
  pagetable : p'.pagetable = p.pagetable
  trapframe : p'.trapframe = p.trapframe

section
variable (h : Space kend tramp m p)
include h

lemma Space.resized : Resized kend tramp m m p p :=
  ⟨h, ⟨_, h.sound.evolves⟩, rfl, rfl⟩

lemma wp_growproc (hn : IsInt n) : wp (growproc kend p n) m (fun r m' =>
      Resized kend tramp m m' p r.2 ∧ (r.1 < 0 → r.2 = p)) E := by
  by_cases hpos : 0 < n
  · refine wp_imp (wp_growproc_pos h hn hpos) fun r m' hr => ?_
    have hadd := addInt_of_nonneg h.size hn (by omega)
    rcases hr with ⟨-, rfl, rfl⟩ | ⟨htop, rfl, hm⟩ | ⟨-, rfl, hm⟩
    · exact ⟨h.resized, fun _ => rfl⟩
    · refine ⟨⟨h.resize hm.toEvolves htop (fun x hx hlt hv => ?_), ⟨_, hm.toEvolves⟩, rfl, rfl⟩,
        by simp⟩
      rw [View.zeroed] at hv
      by_cases hin : p.sz ≤ x ∧ x < addInt p.sz n
      · exact hin.2
      rw [if_neg hin] at hv
      have := h.view_ne_none hx hlt hv
      omega
    exact ⟨⟨h.keep hm.toEvolves, ⟨_, hm.toEvolves⟩, rfl, rfl⟩, fun _ => rfl⟩
  unfold growproc
  rw [if_neg hpos]
  refine wp_ite (fun hneg => ?_) fun _ => ?_
  · refine wp_bind_of (wp_uvmdealloc h.sound h.size) fun r m' hr => wp_pure.mpr ?_
    rcases hr with ⟨-, rfl, rfl⟩ | ⟨hlt, rfl, hm, -⟩
    · exact ⟨h.resized, by simp⟩
    have hsz := h.size
    refine ⟨⟨h.resize hm.toEvolves (by omega) (fun x hx hlt' hv => ?_), ⟨_, hm.toEvolves⟩,
      rfl, rfl⟩, by simp⟩
    rw [View.without] at hv
    have h63 := lt_of_le_trapframe h.size
    have hnew := hx.lt_pgroundup_iff (by omega : addInt p.sz n < 2 ^ 63)
    have hold := hx.lt_pgroundup_iff h63
    by_cases hin : pgroundup (addInt p.sz n) ≤ x ∧ x < pgroundup p.sz
    · rw [if_pos hin] at hv
      exact absurd rfl hv
    rw [if_neg hin] at hv
    have := h.view_ne_none hx hlt' hv
    omega
  rw [wp_pure]
  exact ⟨h.resized, by simp⟩

lemma wp_sysSbrk (hn : IsInt n) :
    wp (sysSbrk kend p n t) m (fun r m' => Resized kend tramp m m' p r.2) E := by
  unfold sysSbrk
  refine wp_ite (fun _ => ?_) fun heager => ?_
  · refine wp_bind_of (wp_growproc h hn) fun r m' hr => ?_
    obtain ⟨hm, hfail⟩ := hr
    refine wp_ite (fun hr0 => wp_pure.mpr ?_) fun _ => ?_
    · rwa [hfail hr0] at hm
    rwa [wp_pure]
  have h0 : 0 ≤ n := by
    by_contra hlt
    exact heager (.inr (by omega))
  have hadd := addInt_of_nonneg h.size hn (by omega)
  refine wp_ite (fun _ => wp_pure.mpr ?_) fun hwrap => ?_
  · exact h.resized
  refine wp_ite (fun _ => wp_pure.mpr ?_) fun htop => ?_
  · exact h.resized
  rw [wp_pure]
  exact ⟨h.resize h.sound.evolves (by omega)
    (fun x hx hlt hv => by have := h.view_ne_none hx hlt hv; omega),
    ⟨_, h.sound.evolves⟩, rfl, rfl⟩

lemma wp_vmfault_space :
    wp (vmfault kend p p.pagetable va) m (fun _ m' => Resized kend tramp m m' p p) E := by
  refine wp_imp (wp_vmfault h.sound h.size) fun r m' hr => ?_
  rcases hr with ⟨-, hm⟩ | ⟨hva, -, -, hm, -⟩
  · exact ⟨h.keep hm, ⟨_, hm⟩, rfl, rfl⟩
  refine ⟨h.resize hm h.size (fun x hx hlt hv => ?_), ⟨_, hm⟩, rfl, rfl⟩
  rw [View.faulted] at hv
  by_cases he : x = pgrounddown va
  · have := pgrounddown_le va
    omega
  rw [if_neg he] at hv
  exact h.view_ne_none hx hlt hv
end
end Xv6.Vm
