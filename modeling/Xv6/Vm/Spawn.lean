import Xv6.Vm.Copy
import Xv6.Vm.Free
import Xv6.Vm.Image

namespace Xv6.Vm
open Lib List
variable {kend tramp : Nat} {m m' m'' : Mem} {p np : Proc} {root va pa a x t tf sz i off : Nat}
  {src : List UInt8} {E : Panic → Prop} {H H' K : Nat → Prop} {rest : List Nat} {v : View}

def Has (m : Mem) (p : Proc) (t : Nat) : Prop := Owns m p.pagetable t ∨ t = p.trapframe

lemma Space.has_ram (h : Space kend tramp m p) (ht : Has m p t) : Ram kend t := by
  rcases ht with ho | rfl
  · exact h.sound.owns_ram ho
  exact h.hand.ram

lemma Space.not_free (h : Space kend tramp m p) (ht : Has m p t) : t ∉ m.freelist := by
  rcases ht with ho | rfl
  · exact fun hf => h.sound.not_owns hf ho
  exact h.hand.notFree

lemma Same.space (hs : Same kend m m' p.pagetable) (h : Space kend tramp m p)
    (hf : p.trapframe ∉ m'.freelist) : Space kend tramp m' p where
  sound := hs.sound
  size := h.size
  below x hx hlt hm := h.below x hx hlt (by rwa [hs.map] at hm)
  code := by rw [hs.map, h.code]
  frame := by rw [hs.map, h.frame]
  hand := ⟨h.hand.ram, fun ho => h.hand.notOwned (hs.owns.mp ho), hf⟩

lemma Same.has (hs : Same kend m m' p.pagetable) : Has m' p t ↔ Has m p t := by
  unfold Has
  rw [hs.owns]

lemma Space.trade (h : Space kend tramp m p) (ht : Trade H H' m m')
    (hram : ∀ t, H t → Ram kend t) (hout : ∀ t, Has m p t → ¬H t) :
    Same kend m m' p.pagetable ∧ Space kend tramp m' p := by
  have hs := h.sound.trade ht hram fun t ho => hout t (.inl ho)
  refine ⟨hs, hs.space h (fun hf => ?_)⟩
  rcases (ht.pages _).mp (.inr hf) with hh | hf
  · exact hout _ (.inr rfl) hh
  exact h.hand.notFree hf

lemma Space.trade_of_evolves {q : Proc} (h : Space kend tramp m p)
    (he : Evolves kend p.pagetable m m' v) (hp : q.pagetable = p.pagetable)
    (ht : q.trapframe = p.trapframe) : Trade (Has m p) (Has m' q) m m' := by
  refine (he.trade.add (K := (· = p.trapframe)) (fun t e => ?_)).congr (fun _ => Iff.rfl)
    (fun t => by rw [Has, hp, ht])
  rw [e]
  exact ⟨h.hand.notOwned, h.hand.notFree⟩

lemma wp_uvmcreate_sound (hram : ∀ t ∈ m.freelist, Ram kend t) (hnodup : m.freelist.Nodup) :
    wp uvmcreate m (fun r m' => match r with
      | none => Trade (fun _ => False) (fun _ => False) m m'
      | some root => Sound kend m' root ∧ (∀ x, m'.map root x = none) ∧
        Trade (fun _ => False) (Owns m' root) m m') E := by
  refine wp_imp (wp_uvmcreate hram hnodup) fun r m' hr => ?_
  cases r with
  | none =>
    rw [show m' = m.asked from hr]
    exact ⟨fun _ => Iff.rfl, fun _ hf => hf.elim, hnodup, fun _ _ _ => rfl⟩
  | some root =>
    obtain ⟨hp, hnone, hreach, hlist, hbyte⟩ := hr
    have hno : ∀ x t flags, m'.map root x ≠ some (t, flags) := fun x t flags hm => by
      rw [hnone] at hm
      cases hm
    have hs : Sound kend m' root := ⟨hp, fun x t fl _ _ hm => absurd hm (hno x t fl),
      fun x t fl _ _ hm => absurd hm (hno x t fl),
      fun x y t fl fl' _ _ _ _ hm => absurd hm (hno x t fl),
      fun x t fl _ hm => absurd hm (hno x t fl), fun x _ _ => hnone x⟩
    refine ⟨hs, hnone, fun t => ?_, fun t ho hf => hs.not_owns hf ho, hp.nodup, fun a _ hf => ?_⟩
    · rw [owns_of_map_none fun x _ _ => hnone x, hreach, hlist, mem_cons, false_or]
    exact hbyte a fun e => hf (by rw [e, hlist]; exact .head _)

section
variable (h : Sound kend m root) (hva : Page va) (hge : trapframe ≤ va) (hlt : va < maxva)
include h hva hge hlt

lemma wp_uvmunmap_top : wp (uvmunmap kend root va 1 false) m (fun _ m' => Sound kend m' root ∧
      Trade (Owns m root) (Owns m' root) m m' ∧
      ∀ x, Page x → m'.map root x = if x = va then none else m.map root x) E := by
  have hpg : pgsize = 4096 := pgsize_eq
  have hmx : maxva = 274877906944 := maxva_eq
  have hal := hva.aligned
  refine wp_imp (Vm.wp_uvmunmap h.paged hal (by omega) (fun hgt => ?_) (by simp) (by simp))
    fun _ m' hb => ?_
  · rw [hpg] at hal hgt
    omega
  have hb : Becomes kend root (fun _ => False) m m' (fun x => if x =
    va then none else m.map root x) :=
    hb.congr (fun x hx => by rw [one_mul, unmapped_one hal hx]) fun t => by simp [Returned]
  obtain ⟨hs, ht⟩ := h.retop hb (fun x _ hx' => if_neg (by omega)) fun x t fl hx _ hm => by
      by_cases he : x = va
      · rw [if_pos he] at hm
        cases hm
      rw [if_neg he] at hm
      exact h.readable x t fl hx hm
    fun x hx hx' => by
      by_cases he : x = va
      · rw [if_pos he]
      rw [if_neg he, h.half x hx hx']
  exact ⟨hs, ht, hb.map⟩

lemma wp_mappages_top {perm : Nat} (hnone : m.map root va = none) (hpa : pa % pgsize = 0)
    (hfit : pa + pgsize ≤ 2 ^ 56) (hperm : perm < 2 ^ 10) (hread : perm.testBit 1) :
    wp (mappages root va pgsize pa perm) m (fun r m' => Sound kend m' root ∧
      Trade (Owns m root) (Owns m' root) m m' ∧
      (r = 0 ∧ (∀ x, Page x → m'.map root x =
        if x = va then some (pa, perm ||| pteV) else m.map root x) ∨
      r = -1 ∧ ∀ x, Page x → m'.map root x = m.map root x)) E := by
  refine wp_imp (wp_mappages_one h.paged hva hlt hnone hpa hfit hperm) fun r m' hr => ?_
  rcases hr with ⟨rfl, hb⟩ | ⟨rfl, hb⟩
  · obtain ⟨hs, ht⟩ := h.retop hb (fun x _ hx' => if_neg (by omega)) (fun x t fl hx _ hm => by
        by_cases he : x = va
        · rw [if_pos he] at hm
          cases hm
          rw [Nat.testBit_or, hread, Bool.true_or]
        rw [if_neg he] at hm
        exact h.readable x t fl hx hm)
      (fun x hx hx' => by rw [if_neg (by omega), h.half x hx hx'])
    exact ⟨hs, ht, .inl ⟨rfl, hb.map⟩⟩
  obtain ⟨hs, ht⟩ := h.retop hb (fun _ _ _ => rfl)
    (fun x t fl hx _ hm => h.readable x t fl hx hm) h.half
  exact ⟨hs, ht, .inr ⟨rfl, hb.map⟩⟩
end

structure IsCode (kend tramp : Nat) : Prop where
  aligned : tramp % pgsize = 0
  below : tramp < kend
  kernel : kend ≤ phystop

lemma IsCode.fits (h : IsCode kend tramp) : tramp + pgsize ≤ 2 ^ 56 := by
  have h1 := h.below
  have h2 := h.kernel
  rw [phystop_eq] at h2
  rw [pgsize_eq]
  omega

lemma wp_procPagetable (hcode : IsCode kend tramp) (hram : ∀ t ∈ m.freelist, Ram kend t)
    (hnodup : m.freelist.Nodup) (htf : Ram kend tf) :
    wp (procPagetable kend tramp tf) m (fun r m' => match r with
      | none => Trade (fun _ => False) (fun _ => False) m m'
      | some root => Sound kend m' root ∧ Trade (fun _ => False) (Owns m' root) m m' ∧
        ∀ x, Page x → m'.map root x = if x = trapframe then some (tf, pteR ||| pteW ||| pteV)
          else if x = trampoline then some (tramp, pteR ||| pteX ||| pteV) else none) E := by
  have hfit : tf + pgsize ≤ 2 ^ 56 := by
    have := htf.below
    rw [phystop_eq] at this
    rw [pgsize_eq]
    omega
  unfold procPagetable
  refine wp_bind_of (wp_uvmcreate_sound hram hnodup) fun r m1 hr => ?_
  cases r with
  | none => exact wp_pure.mpr hr
  | some root =>
    obtain ⟨hs1, hnone1, ht1⟩ := hr
    refine wp_bind_of (wp_mappages_top hs1 page_trampoline (by decide) (by decide)
      (hnone1 trampoline) hcode.aligned hcode.fits (by decide) (by decide)) fun e m2 hm2 => ?_
    obtain ⟨hs2, ht2, hm2⟩ := hm2
    rcases hm2 with ⟨rfl, hmap2⟩ | ⟨rfl, hmap2⟩
    · rw [if_neg (by decide)]
      refine wp_bind_of (wp_mappages_top hs2 page_trapframe (by decide) (by decide) ?_ htf.aligned
        hfit (by decide) (by decide)) fun e m3 hm3 => ?_
      · rw [hmap2 _ page_trapframe, if_neg (by decide), hnone1]
      obtain ⟨hs3, ht3, hm3⟩ := hm3
      rcases hm3 with ⟨rfl, hmap3⟩ | ⟨rfl, hmap3⟩
      · rw [if_neg (by decide), wp_pure]
        refine ⟨hs3, (ht1.trans ht2).trans ht3, fun x hx => ?_⟩
        rw [hmap3 x hx, hmap2 x hx, hnone1 x]
      rw [if_pos (by decide)]
      refine wp_bind_of (wp_uvmunmap_top hs3 page_trampoline (by decide) (by decide))
        fun _ m4 hm4 => ?_
      obtain ⟨hs4, ht4, hmap4⟩ := hm4
      refine wp_bind_of (wp_uvmfree hs4 zero_le (fun x hx hne => absurd ?_ hne))
        fun _ m5 ht5 => wp_pure.mpr ((((ht1.trans ht2).trans ht3).trans ht4).trans ht5)
      rw [hmap4 x hx, hmap3 x hx, hmap2 x hx, hnone1 x]
      by_cases he : x = trampoline
      · rw [if_pos he]
      rw [if_neg he, if_neg he]
    rw [if_pos (by decide)]
    refine wp_bind_of (wp_uvmfree hs2 zero_le (fun x hx hne => absurd ?_ hne))
      fun _ m3 ht3 => wp_pure.mpr ((ht1.trans ht2).trans ht3)
    rw [hmap2 x hx, hnone1 x]

lemma wp_procFreepagetable (h : Sound kend m root) (hsz : sz ≤ trapframe)
    (hbelow : ∀ x, Page x → x < trapframe → m.map root x ≠ none → x < sz) :
    wp (procFreepagetable kend root sz) m (fun _ m' =>
      Trade (Owns m root) (fun _ => False) m m') E := by
  unfold procFreepagetable
  refine wp_bind_of (wp_uvmunmap_top h page_trampoline (by decide) (by decide)) fun _ m1 hm1 => ?_
  obtain ⟨hs1, ht1, hmap1⟩ := hm1
  refine wp_bind_of (wp_uvmunmap_top hs1 page_trapframe (by decide) (by decide)) fun _ m2 hm2 => ?_
  obtain ⟨hs2, ht2, hmap2⟩ := hm2
  refine wp_imp (wp_uvmfree hs2 hsz (fun x hx hne => ?_)) fun _ m3 ht3 => (ht1.trans ht2).trans ht3
  rw [hmap2 x hx, hmap1 x hx] at hne
  by_cases h1 : x = trapframe
  · rw [if_pos h1] at hne
    exact absurd rfl hne
  by_cases h2 : x = trampoline
  · rw [if_neg h1, if_pos h2] at hne
    exact absurd rfl hne
  rw [if_neg h1, if_neg h2] at hne
  refine hbelow x hx ?_ hne
  by_contra hge
  refine hne (h.half x hx ?_)
  have hxa := hx.aligned
  rw [pgsize_eq] at hxa
  rw [trapframe_eq] at h1 hge
  rw [trampoline_eq] at h2
  rw [maxva_eq]
  omega

lemma wp_freeproc (h : Space kend tramp m p) :
    wp (freeproc kend (some p.trapframe) (some p.pagetable) p.sz) m (fun _ m' =>
      Trade (Has m p) (fun _ => False) m m') E := by
  unfold freeproc
  obtain ⟨hs, -, howns⟩ := h.sound.freed h.hand
  have hb := h.sound.paged.freed h.hand.ram h.hand.idle
  have ht : Trade (Has m p) (Owns (m.freed p.trapframe) p.pagetable) m (m.freed p.trapframe) := by
    refine ⟨fun t => ?_, fun t ho hf => hs.not_owns hf ho, hs.paged.nodup, fun a h1 _ => ?_⟩
    · rw [howns, Has, or_right_comm, ← or_assoc]
    exact Mem.byte_fill (outside_of_pgrounddown_ne h.hand.ram.aligned (fun e => h1 (.inr e)))
  rw [wp_bind, wp_kfree h.hand.ram]
  refine wp_imp (wp_procFreepagetable hs h.size (fun x hx hlt hne => h.below x hx hlt ?_))
    fun _ m' hm => ht.trans hm
  rwa [hb.map x hx] at hne

lemma trade_taken (hf : m.freelist = t :: rest) (hnodup : m.freelist.Nodup)
    (hal : t % pgsize = 0) : Trade (fun _ => False) (· = t) m (m.taken t rest) := by
  rw [hf, nodup_cons] at hnodup
  refine ⟨fun u => ?_, fun u e => by rw [e]; exact hnodup.1, hnodup.2, fun a _ ha => ?_⟩
  · rw [hf, mem_cons, false_or]
    exact Iff.rfl
  refine Mem.byte_fill (outside_of_pgrounddown_ne hal (fun e => ha ?_))
  rw [e, hf]
  exact .head _

lemma trade_freed (hfree : t ∉ m.freelist) (hnodup : m.freelist.Nodup) (hal : t % pgsize = 0) :
    Trade (· = t) (fun _ => False) m (m.freed t) := by
  refine ⟨fun u => ?_, fun _ hf => hf.elim, nodup_cons.mpr ⟨hfree, hnodup⟩, fun a h1 _ => ?_⟩
  · show False ∨ u ∈ t :: m.freelist ↔ _
    rw [mem_cons, false_or]
  exact Mem.byte_fill (outside_of_pgrounddown_ne hal h1)

lemma Sound.space (hs : Sound kend m root) (hmap : ∀ x, Page x → m.map root x =
      if x = trapframe then some (tf, pteR ||| pteW ||| pteV)
      else if x = trampoline then some (tramp, pteR ||| pteX ||| pteV) else none)
    (hand : Hand kend m root tf) :
    Space kend tramp m { pagetable := root, sz := 0, trapframe := tf } where
  sound := hs
  size := Nat.zero_le _
  below x hx hlt hne := by
    refine absurd ?_ hne
    rw [hmap x hx, if_neg (Nat.ne_of_lt hlt), if_neg (fun e => ?_)]
    rw [e] at hlt
    exact absurd hlt (by decide)
  code := by rw [hmap _ page_trampoline, if_neg (by decide), if_pos rfl]
  frame := by rw [hmap _ page_trapframe, if_pos rfl]
  hand := hand

lemma wp_allocproc (hcode : IsCode kend tramp) (hram : ∀ t ∈ m.freelist, Ram kend t)
    (hnodup : m.freelist.Nodup) :
    wp (allocproc kend tramp) m (fun r m' => match r with
      | none => Trade (fun _ => False) (fun _ => False) m m'
      | some p => Space kend tramp m' p ∧ p.sz = 0 ∧ Trade (fun _ => False) (Has m' p) m m') E := by
  unfold allocproc
  rw [wp_bind]
  refine wp_kalloc (fun _ => ?_) fun tf rest hf => ?_
  · rw [freeproc, wp_bind, wp_bind, wp_pure, wp_pure, wp_pure]
    exact ⟨fun _ => Iff.rfl, fun _ h => h.elim, hnodup, fun _ _ _ => rfl⟩
  have hmem : tf ∈ m.freelist := by
    rw [hf]
    exact .head _
  have htf := hram tf hmem
  have hnd := hnodup
  rw [hf, nodup_cons] at hnd
  have ht := trade_taken hf hnodup htf.aligned
  have hkeep : ∀ {K' : Nat → Prop} {m'}, Trade (fun _ => False) K' (m.taken tf rest) m' →
      Trade (fun _ => False) (fun t => K' t ∨ t = tf) m m' := fun h =>
    ht.trans ((h.add (fun t e => ⟨fun hf => hf, by rw [e]; exact hnd.1⟩)).congr
      (fun t => by rw [false_or]) (fun _ => Iff.rfl))
  refine wp_bind_of (wp_procPagetable hcode (fun t hm => hram t (by
    rw [hf]
    exact .tail _ hm)) hnd.2 htf) fun r m1 hr => ?_
  cases r with
  | none =>
    have hm1 := hkeep hr
    rw [freeproc, wp_bind, wp_bind, wp_kfree htf, wp_pure, wp_pure]
    exact (hm1.congr (fun _ => Iff.rfl) (fun t => by rw [false_or])).trans
      (trade_freed (hm1.apart tf (.inr rfl)) hm1.nodup htf.aligned)
  | some root =>
    obtain ⟨hs, ht1, hmap⟩ := hr
    have hm1 := hkeep ht1
    refine wp_pure.mpr ⟨hs.space hmap ⟨htf, fun ho => ?_, hm1.apart tf (.inr rfl)⟩, rfl, hm1⟩
    exact ((ht1.pages tf).mp (.inl ho)).elim id hnd.1

def sixteenPages : Mem :=
  { byte := fun _ => 0, freelist := (range 16).map fun k => 0x87000000 + k * pgsize }

lemma isCode_low : IsCode 0x80100000 0x80007000 := ⟨by decide, by decide, by decide⟩

lemma ram_sixteenPages : ∀ t ∈ sixteenPages.freelist, Ram 0x80100000 t := by
  have hall : ∀ t ∈ sixteenPages.freelist, t % pgsize = 0 ∧ 0x80100000 ≤ t ∧ t < phystop := by
    decide
  intro t ht
  obtain ⟨h1, h2, h3⟩ := hall t ht
  exact ⟨h1, h2, h3⟩

def firstMem : Mem :=
  match allocproc 0x80100000 0x80007000 sixteenPages with
  | .ok (_, m) => m
  | .error _ => sixteenPages

def firstProc : Proc := { pagetable := 0x87001000, sz := 0, trapframe := 0x87000000 }

lemma allocproc_sixteenPages :
    allocproc 0x80100000 0x80007000 sixteenPages = .ok (some firstProc, firstMem) := rfl

lemma space_firstProc : Space 0x80100000 0x80007000 firstMem firstProc :=
  (wp_ok (wp_allocproc (E := fun _ => True) isCode_low ram_sixteenPages (by decide))
    allocproc_sixteenPages).1

def copied (v : View) (i : Nat) : View := fun x => if x < i then v x else none

lemma or_pteV {flags : Nat} (h : flags.testBit 0) : flags ||| pteV = flags := by
  refine Nat.eq_of_testBit_eq fun k => ?_
  rw [Nat.testBit_or, pteV]
  cases k with
  | zero => rw [h, Bool.true_or]
  | succ k => simp [Nat.testBit_succ]

lemma copied_next (hx : Page x) (hi : i % pgsize = 0) :
    copied v (i + pgsize) x = if x = i then v i else copied v i x := by
  unfold copied
  have hxa := hx.aligned
  have hpg : pgsize = 4096 := pgsize_eq
  rw [pgsize_eq] at hxa hi
  by_cases he : x = i
  · rw [if_pos he, if_pos (by omega), he]
  rw [if_neg he]
  by_cases hlt : x < i
  · rw [if_pos hlt, if_pos (by omega)]
  rw [if_neg hlt, if_neg (by omega)]

lemma taken_copy {mem : Nat} (hf : m.freelist = mem :: rest)
    (hmem : mem % pgsize = 0) (hpa : pa % pgsize = 0) (hne : pa ≠ mem) :
    Taken m ((m.taken mem rest).copy mem pa) mem ∧
      ((m.taken mem rest).copy mem pa).bytes mem = m.bytes pa := by
  refine ⟨⟨hf, fun a ha => ?_⟩, ?_⟩
  · have hout := outside_of_pgrounddown_ne hmem ha
    show (if mem ≤ a ∧ a < mem + pgsize then _ else (m.taken mem rest).byte a) = _
    rw [if_neg (by omega)]
    exact Mem.byte_fill hout
  funext o
  have ho := o.isLt
  have hd := disjoint_of_ne hmem hpa hne
  show (if mem ≤ mem + o.val ∧ mem + o.val < mem + pgsize then
    (m.taken mem rest).byte (pa + (mem + o.val - mem)) else _) = m.byte (pa + o.val)
  rw [if_pos (by omega), Nat.add_sub_cancel_left]
  exact Mem.byte_fill (by omega)

section Copy
variable {old new : Nat} {m0 : Mem}

lemma wp_uvmcopy_undo (hnone : ∀ x, Page x → x < trapframe → m0.map new x = none)
    (hi : i % pgsize = 0) (hlt : i ≤ trapframe)
    (he : Evolves kend new m0 m (copied (m0.view old) i)) :
    wp (uvmunmap kend new 0 (i / pgsize) true) m (fun _ m' =>
      Evolves kend new m0 m' (m0.view new)) E := by
  have hn : i / pgsize * pgsize = i := Nat.div_mul_cancel (Nat.dvd_of_mod_eq_zero hi)
  refine wp_imp (wp_uvmunmap_user he.sound (by decide) (by rw [hn]; omega)) fun _ m' ⟨hm, _⟩ => ?_
  refine (he.trans hm).congr fun x hx hxlt => ?_
  rw [view_eq_none.mpr (hnone x hx hxlt), zero_add, hn]
  by_cases hin : 0 ≤ x ∧ x < i
  · rw [if_pos hin]
  rw [if_neg hin, he.view x hx hxlt, copied, if_neg (by omega)]

section
variable (hold : Sound kend m0 old) (hnew : Sound kend m0 new)
  (hout : ∀ t, Owns m0 old t → ¬Owns m0 new t)
  (hnone : ∀ x, Page x → x < trapframe → m0.map new x = none) (hsz : sz ≤ trapframe)
include hold hnew hout hnone hsz

lemma wp_uvmcopyLoop : ∀ n m i, Evolves kend new m0 m (copied (m0.view old) i) → i % pgsize = 0 →
      sz ≤ i + n * pgsize → i < sz + pgsize →
      wp (uvmcopyLoop kend old new sz n i) m (fun r m' =>
        r = 0 ∧ Evolves kend new m0 m' (copied (m0.view old) sz) ∨
        r = -1 ∧ Evolves kend new m0 m' (m0.view new)) E := by
  have hpg : pgsize = 4096 := pgsize_eq
  have htf : trapframe = 274877898752 := trapframe_eq
  have hmx : maxva = 274877906944 := maxva_eq
  have hend : ∀ m i, Evolves kend new m0 m (copied (m0.view old) i) → i % pgsize = 0 → sz ≤ i →
      i < sz + pgsize → Evolves kend new m0 m (copied (m0.view old) sz) := by
    intro m i he hi hge hlast
    refine he.congr fun x hx _ => ?_
    have hiff : x < sz ↔ x < i := by
      have hxa := hx.aligned
      rw [hpg] at *
      omega
    unfold copied
    simp only [hiff]
  intro n
  induction n with
  | zero =>
    intro m i he hi hn hlast
    exact wp_pure.mpr (.inl ⟨rfl, hend m i he hi (by omega) hlast⟩)
  | succ n ih =>
    intro m i he hi hn hlast
    have e1 : (n + 1) * pgsize = n * pgsize + pgsize := Nat.succ_mul n pgsize
    have hi' : (i + pgsize) % pgsize = 0 := by rw [Nat.add_mod_right, hi]
    rw [uvmcopyLoop]
    by_cases hmore : i < sz
    swap
    · rw [if_neg hmore, wp_pure]
      exact .inl ⟨rfl, hend m i he hi (by omega) hlast⟩
    have hpage : Page i := page_of_lt hi (by omega)
    have hsame := hold.trade he.trade (fun t => hnew.owns_ram) hout
    have hskip : m.map old i = none → wp (uvmcopyLoop kend old new sz n (i + pgsize)) m (fun r m' =>
        r = 0 ∧ Evolves kend new m0 m' (copied (m0.view old) sz) ∨
        r = -1 ∧ Evolves kend new m0 m' (m0.view new)) E := by
      intro hm
      refine ih m (i + pgsize) (he.congr (fun x hx _ => ?_)) hi' (by omega) (by omega)
      rw [copied_next hx hi]
      by_cases hxi : x = i
      · rw [if_pos hxi, hxi, copied, if_neg (by omega), ← hsame.view i hpage (by omega),
          view_eq_none.mpr hm]
      rw [if_neg hxi]
    rw [if_pos hmore, wp_bind, wp_of_ok (walk_eq (by omega))]
    cases hf : follow m.next old (indices i 2) with
    | none => exact hskip (Mem.map_of_none hf)
    | some t =>
      have hmap := Mem.map_of_follow hf
      show wp (readPte t (px 0 i) >>= _) m _ _
      rw [wp_bind, wp_readPte]
      cases hv : (m.entry t (px 0 i)).testBit 0 with
      | false =>
        rw [if_pos rfl]
        exact hskip (by rw [hmap, ofPte_eq_none, hv])
      | true =>
        rw [ofPte, if_pos hv] at hmap
        have hread := hsame.sound.readable i _ _ hpage hmap
        have hpa := hsame.sound.ram i _ _ hpage (by omega) hmap
        have hfree : m.map new i = none := by
          rw [← view_eq_none, he.view i hpage (by omega), copied, if_neg (by omega)]
        have hflags : pteFlags (m.entry t (px 0 i)) ||| pteV = pteFlags (m.entry t (px 0 i)) :=
          or_pteV (by rw [testBit_pteFlags (by decide), hv])
        rw [if_neg (by simp), wp_bind]
        refine wp_kalloc (fun _ => ?_) fun mem rest hlist => ?_
        · have hev := (he.trans he.sound.asked).congr fun x hx hxlt => (he.view x hx hxlt).symm
          exact wp_bind_of (wp_uvmcopy_undo hnone hi (by omega) hev)
            fun _ m' hm => wp_pure.mpr (.inr ⟨rfl, hm⟩)
        have hmem : mem ∈ m.freelist := by
          rw [hlist]
          exact .head _
        have hram := he.sound.paged.freeRam mem hmem
        have hne : pte2pa (m.entry t (px 0 i)) ≠ mem := fun e =>
          hsame.sound.not_owns hmem (.inr ⟨i, _, hpage, by omega, by rwa [← e]⟩)
        obtain ⟨htaken, hbytes⟩ := taken_copy hlist hram.aligned hpa.aligned hne
        show wp (copyPage mem (pte2pa (m.entry t (px 0 i))) >>= _) _ _ _
        rw [wp_bind, copyPage, wp_modify, wp_bind]
        refine wp_mappages_new he.sound htaken hpage (by omega) hfree
          (Nat.mod_lt _ (by decide)) hread (fun m'' hm _ _ => ?_) fun m'' hm _ _ => ?_
        · rw [if_neg (by decide)]
          refine ih m'' (i + pgsize) ((he.trans hm).congr (fun x hx hxlt => ?_)) hi' (by omega)
            (by omega)
          rw [copied_next hx hi, hflags, hbytes]
          by_cases hxi : x = i
          · rw [if_pos hxi, if_pos hxi, ← hsame.view i hpage (by omega), Mem.view, hmap]
            rfl
          rw [if_neg hxi, if_neg hxi, he.view x hx hxlt]
        rw [if_pos (by decide), wp_bind, wp_kfree hram]
        have hev := (he.trans hm).congr fun x hx hxlt => (he.view x hx hxlt).symm
        exact wp_bind_of (wp_uvmcopy_undo hnone hi (by omega) hev)
          fun _ m' hm' => wp_pure.mpr (.inr ⟨rfl, hm'⟩)

lemma wp_uvmcopy : wp (uvmcopy kend old new sz) m0 (fun r m' =>
      r = 0 ∧ Evolves kend new m0 m' (copied (m0.view old) sz) ∨
      r = -1 ∧ Evolves kend new m0 m' (m0.view new)) E := by
  unfold uvmcopy
  refine wp_uvmcopyLoop hold hnew hout hnone hsz _ m0 0 (hnew.evolves.congr (fun x hx hlt => ?_))
    (by decide) ?_ (by rw [pgsize_eq]; omega)
  · rw [copied, if_neg (by omega), view_eq_none.mpr (hnone x hx hlt)]
  rw [pgsize_eq]
  omega
end
end Copy

structure Scratched (t : Nat) (m m' : Mem) : Prop where
  byte : ∀ a, pgrounddown a ≠ t → m'.byte a = m.byte a
  list : m'.freelist = m.freelist

lemma wp_poke_scratched (ht : t % pgsize = 0) (hfit : off + src.length ≤ pgsize) :
    wp (poke (t + off) src) m (fun _ m' => Scratched t m m') E := by
  unfold poke
  rw [wp_modify]
  refine ⟨fun a ha => ?_, rfl⟩
  have hout := outside_of_pgrounddown_ne ht ha
  show (if t + off ≤ a ∧ a < t + off + src.length then _ else m.byte a) = m.byte a
  rw [if_neg (by omega)]

lemma Scratched.trans (h : Scratched t m m') (h' : Scratched t m' m'') : Scratched t m m'' :=
  ⟨fun a ha => by rw [h'.byte a ha, h.byte a ha], by rw [h'.list, h.list]⟩

lemma Space.scratched (h : Space kend tramp m p) (hs : Scratched t m m')
    (ht : ¬Owns m p.pagetable t) : Same kend m m' p.pagetable ∧ Space kend tramp m' p := by
  have hsame : Same kend m m' p.pagetable :=
    h.sound.frame (fun a ho => hs.byte a (fun e => ht (e ▸ ho))) fun t hf => by
        rw [hs.list] at hf
        exact ⟨h.sound.paged.freeRam t hf, h.sound.not_owns hf⟩
      (by rw [hs.list]; exact h.sound.paged.nodup)
  exact ⟨hsame, hsame.space h (by rw [hs.list]; exact h.hand.notFree)⟩

lemma Scratched.trade (hs : Scratched t m m') (ht : H t) (hfree : ∀ u, H u → u ∉ m.freelist)
    (hnodup : m.freelist.Nodup) (hH : ∀ u, H' u ↔ H u) : Trade H H' m m' where
  pages u := by rw [hH, hs.list]
  apart u hu := by rw [hs.list]; exact hfree u ((hH u).mp hu)
  nodup := by rw [hs.list]; exact hnodup
  byte a h1 _ := hs.byte a (fun e => h1 (by rw [e]; exact ht))

lemma length_leBytes (n v : Nat) : (leBytes n v).length = n := by
  rw [leBytes, length_map, length_range]

lemma wp_kfork (hcode : IsCode kend tramp) (h : Space kend tramp m p) :
    wp (kfork kend tramp p) m (fun r m' => match r with
      | none => Trade (fun _ => False) (fun _ => False) m m'
      | some np => Space kend tramp m' np ∧ np.sz = p.sz ∧
        Trade (fun _ => False) (Has m' np) m m' ∧
        ∀ x, Page x → x < trapframe → m'.view np.pagetable x = m.view p.pagetable x) E := by
  unfold kfork
  refine wp_bind_of (wp_allocproc hcode h.sound.paged.freeRam h.sound.paged.nodup)
    fun r m1 hr => ?_
  cases r with
  | none => exact wp_pure.mpr hr
  | some np =>
    obtain ⟨hnp, hsz0, ht1⟩ := hr
    obtain ⟨hsame, hp⟩ := h.trade ht1 (fun _ hf => hf.elim) fun _ _ hf => hf
    have hout : ∀ t, Owns m1 p.pagetable t → ¬Owns m1 np.pagetable t := by
      intro t ho hn
      have hfree := ((ht1.pages t).mp (.inl (.inl hn))).resolve_left id
      exact h.sound.not_owns hfree (hsame.owns.mp ho)
    have hnone : ∀ x, Page x → x < trapframe → m1.map np.pagetable x = none := by
      intro x hx hlt
      by_contra hne
      have := hnp.below x hx hlt hne
      omega
    refine wp_bind_of (wp_uvmcopy hp.sound hnp.sound hout hnone h.size) fun e m2 hm2 => ?_
    rcases hm2 with ⟨rfl, hm2⟩ | ⟨rfl, hm2⟩
    · have hview : ∀ x, Page x → x < trapframe →
          copied (m1.view p.pagetable) p.sz x = m.view p.pagetable x := by
        intro x hx hlt
        rw [copied, hsame.view x hx hlt]
        by_cases hxlt : x < p.sz
        · rw [if_pos hxlt]
        rw [if_neg hxlt]
        by_contra hne
        exact hxlt (h.view_ne_none hx hlt (fun hn => hne hn.symm))
      have hnp2 : Space kend tramp m2 { np with sz := p.sz } :=
        hnp.resize hm2 h.size fun x hx hlt hv =>
          h.view_ne_none hx hlt (by rwa [hview x hx hlt] at hv)
      have ht2 := ht1.trans (hnp.trade_of_evolves (q := { np with sz := p.sz }) hm2 rfl rfl)
      have hal := hnp.hand.ram.aligned
      rw [if_neg (by decide), wp_bind, peek, wp_bind, wp_get, wp_pure]
      refine wp_bind_of (Q := fun _ m' => Scratched np.trapframe m2 m') ?_ fun _ m3 hs3 => ?_
      · have hfit : 0 + ((range trapframeSize).map fun i =>
            m2.byte (p.trapframe + i)).length ≤ pgsize := by
          rw [length_map, length_range]
          decide
        exact wp_poke_scratched hal hfit
      refine wp_bind_of (wp_poke_scratched hal ?_) fun _ m4 hs4 => wp_pure.mpr ?_
      · rw [length_leBytes]
        decide
      have hs := hs3.trans hs4
      obtain ⟨hsame4, hnp4⟩ := hnp2.scratched hs hnp2.hand.notOwned
      refine ⟨hnp4, rfl, ht2.trans (hs.trade (.inr rfl) (fun u hu => hnp2.not_free hu) ht2.nodup
        (fun u => hsame4.has)), fun x hx hlt => ?_⟩
      rw [hsame4.view x hx hlt, hm2.view x hx hlt, hview x hx hlt]
    rw [if_pos (by decide)]
    refine wp_bind_of (wp_freeproc (hnp.keep hm2)) fun _ m3 ht3 => wp_pure.mpr ?_
    exact (ht1.trans (hnp.trade_of_evolves hm2 rfl rfl)).trans ht3
end Xv6.Vm
