import Xv6.Vm.Refine
import Xv6.Vm.User

namespace Xv6.Vm
open Lib

def Owns (m : Mem) (root t : Nat) : Prop :=
  Reached m.next root 2 t ∨ ∃ x flags, Page x ∧ x < trapframe ∧ m.map root x = some (t, flags)

/-- User pages have physical pages of their own. -/
structure Sound (kend : Nat) (m : Mem) (root : Nat) : Prop where
  paged : Paged kend m root
  ram : ∀ x t flags, Page x → x < trapframe → m.map root x = some (t, flags) → Ram kend t
  idle : ∀ x t flags, Page x → x < trapframe → m.map root x = some (t, flags) → Idle m root t
  once : ∀ x y t flags flags', Page x → Page y → x < trapframe → y < trapframe →
    m.map root x = some (t, flags) → m.map root y = some (t, flags') → x = y
  readable : ∀ x t flags, Page x → m.map root x = some (t, flags) → flags.testBit 1
  half : ∀ x, Page x → maxva ≤ x → m.map root x = none

abbrev View := Nat → Option (Nat × (Fin pgsize → UInt8))

def Mem.view (m : Mem) (root : Nat) : View := fun x =>
  (m.map root x).map fun e => (e.2, fun o => m.byte (e.1 + o.val))

structure Evolves (kend root : Nat) (m m' : Mem) (v : View) : Prop where
  sound : Sound kend m' root
  view : ∀ x, Page x → x < trapframe → m'.view root x = v x
  top : ∀ x, Page x → trapframe ≤ x → m'.map root x = m.map root x
  owns : ∀ t, Owns m' root t ∨ t ∈ m'.freelist ↔ Owns m root t ∨ t ∈ m.freelist
  byte : ∀ a, ¬Owns m root (pgrounddown a) → pgrounddown a ∉ m.freelist → m'.byte a = m.byte a

variable {kend : Nat} {m m' m'' : Mem} {root t va pa a x : Nat} {E : Panic → Prop}
  {v w : View}

lemma Sound.evolves (h : Sound kend m root) : Evolves kend root m m (m.view root) :=
  ⟨h, fun _ _ _ => rfl, fun _ _ _ => rfl, fun _ => Iff.rfl, fun _ _ _ => rfl⟩

lemma Evolves.trans (h : Evolves kend root m m' v) (h' : Evolves kend root m' m'' w) :
    Evolves kend root m m'' w where
  sound := h'.sound
  view := h'.view
  top x hx ht := by rw [h'.top x hx ht, h.top x hx ht]
  owns t := by rw [h'.owns, h.owns]
  byte a h1 h2 := by
    have hn : ¬(Owns m' root (pgrounddown a) ∨ pgrounddown a ∈ m'.freelist) := by
      rw [h.owns]
      tauto
    rw [h'.byte a (fun ho => hn (.inl ho)) (fun hf => hn (.inr hf)), h.byte a h1 h2]

lemma Evolves.congr (h : Evolves kend root m m' v)
    (hvw : ∀ x, Page x → x < trapframe → w x = v x) : Evolves kend root m m' w :=
  ⟨h.sound, fun x hx hlt => by rw [h.view x hx hlt, hvw x hx hlt], h.top, h.owns, h.byte⟩

lemma view_eq_none : m.view root x = none ↔ m.map root x = none := by
  rw [Mem.view, Option.map_eq_none_iff]

lemma view_congr (hmap : m'.map root x = m.map root x)
    (hbyte : ∀ t flags, m.map root x = some (t, flags) → t % pgsize = 0 →
      ∀ a, pgrounddown a = t → m'.byte a = m.byte a)
    (halign : ∀ t flags, m.map root x = some (t, flags) → t % pgsize = 0) :
    m'.view root x = m.view root x := by
  rw [Mem.view, Mem.view, hmap]
  cases hm : m.map root x with
  | none => rfl
  | some e =>
    obtain ⟨t, flags⟩ := e
    have hta := halign t flags hm
    show some (flags, _) = some (flags, _)
    congr 2
    funext o
    have ho := o.isLt
    exact hbyte t flags hm hta _ (pgrounddown_of_mem hta (by omega) (by omega))

lemma Sound.not_owns (h : Sound kend m root) (hf : t ∈ m.freelist) : ¬Owns m root t := by
  rintro (hr | ⟨x, flags, hx, hlt, hmap⟩)
  · exact h.paged.used t hr hf
  exact (h.idle x t flags hx hlt hmap).notFree hf

lemma Sound.freeable (h : Sound kend m root) {a last : Nat} (hlast : last ≤ trapframe) :
    Freeable kend m root a last where
  idle x pa flags hx _ h2 hmap _ := h.idle x pa flags hx (by omega) hmap
  once x y pa flags flags' hx hy _ h2 _ h4 hm hm' :=
    h.once x y pa flags flags' hx hy (by omega) (by omega) hm hm'

lemma Sound.subset (h : Sound kend m root) (hp : Paged kend m' root)
    (hin : ∀ x t flags, Page x → m'.map root x = some (t, flags) → m.map root x = some (t, flags))
    (hidle : ∀ x t flags, Page x → x < trapframe → m'.map root x = some (t, flags) →
      Idle m' root t) : Sound kend m' root where
  paged := hp
  ram x t flags hx hlt hm := h.ram x t flags hx hlt (hin x t flags hx hm)
  idle := hidle
  once x y t flags flags' hx hy hlt hlt' hm hm' :=
    h.once x y t flags flags' hx hy hlt hlt' (hin x t flags hx hm) (hin y t flags' hy hm')
  readable x t flags hx hm := h.readable x t flags hx (hin x t flags hx hm)
  half x hx hge := by
    cases hm : m'.map root x with
    | none => rfl
    | some e =>
      have hold := hin x e.1 e.2 hx hm
      rw [h.half x hx hge] at hold
      cases hold

lemma owns_iff {D H : Nat → Prop} (hpages : Reached m'.next root 2 t ∨ t ∈ m'.freelist ↔
      Reached m.next root 2 t ∨ t ∈ m.freelist ∨ D t)
    (hnew : ∀ x flags, Page x → x < trapframe → m'.map root x = some (t, flags) →
      m.map root x = some (t, flags) ∨ H t)
    (hold : ∀ x flags, Page x → x < trapframe → m.map root x = some (t, flags) →
      m'.map root x = some (t, flags) ∨ D t)
    (hD : D t → Owns m root t ∨ H t) (hH : H t → Owns m' root t ∨ t ∈ m'.freelist) :
    Owns m' root t ∨ t ∈ m'.freelist ↔ Owns m root t ∨ t ∈ m.freelist ∨ H t := by
  have hfrom : Reached m.next root 2 t ∨ t ∈ m.freelist ∨ D t →
      Owns m root t ∨ t ∈ m.freelist ∨ H t := by
    rintro (hr | hf | hd)
    · exact .inl (.inl hr)
    · exact .inr (.inl hf)
    exact (hD hd).imp_right .inr
  have hto : Reached m'.next root 2 t ∨ t ∈ m'.freelist → Owns m' root t ∨ t ∈ m'.freelist :=
    fun h => h.imp_left .inl
  constructor
  · rintro ((hr | ⟨x, flags, hx, hlt, hm⟩) | hf)
    · exact hfrom (hpages.mp (.inl hr))
    · exact (hnew x flags hx hlt hm).imp (fun h => .inr ⟨x, flags, hx, hlt, h⟩) .inr
    exact hfrom (hpages.mp (.inr hf))
  rintro ((hr | ⟨x, flags, hx, hlt, hm⟩) | hf | hh)
  · exact hto (hpages.mpr (.inl hr))
  · rcases hold x flags hx hlt hm with hm' | hd
    · exact .inl (.inr ⟨x, flags, hx, hlt, hm'⟩)
    exact hto (hpages.mpr (.inr (.inr hd)))
  · exact hto (hpages.mpr (.inr (.inl hf)))
  exact hH hh

lemma Becomes.idle {D : Nat → Prop} {f : Nat → Option (Nat × Nat)}
    (hb : Becomes kend root D m m' f) (h : Idle m root t) (hD : ¬D t) : Idle m' root t := by
  have hn : ¬(Reached m'.next root 2 t ∨ t ∈ m'.freelist) := by
    rw [hb.pages]
    rintro (hr | hf | hd)
    · exact h.notTable hr
    · exact h.notFree hf
    exact hD hd
  exact ⟨fun hf => hn (.inr hf), fun hr => hn (.inl hr)⟩

lemma wp_uvmunmap_user {npages : Nat} (h : Sound kend m root) (hva : va % pgsize = 0)
    (hlast : va + npages * pgsize ≤ trapframe) :
    wp (uvmunmap kend root va npages true) m (fun _ m' => Evolves kend root m m' (fun x =>
      if va ≤ x ∧ x < va + npages * pgsize then none else m.view root x) ∧
      Unmaps kend root true m m' va (va + npages * pgsize)) E := by
  have htf : trapframe = 274877898752 := trapframe_eq
  have hmx : maxva = 274877906944 := maxva_eq
  refine wp_imp (Vm.wp_uvmunmap h.paged hva (by omega) (fun _ => by omega)
    (fun _ => h.freeable hlast) (fun _ hbad => ?_)) (fun _ m' hb => ?_)
  · obtain ⟨x, pa, flags, hx, _, h2, hmap, hram⟩ := hbad
    exact absurd (h.ram x pa flags hx (by omega) hmap) hram
  have hin : ∀ x t flags, Page x → m'.map root x = some (t, flags) →
      m.map root x = some (t, flags) ∧ ¬(va ≤ x ∧ x < va + npages * pgsize) := by
    intro x t flags hx hmap
    rw [hb.map x hx, unmapped] at hmap
    by_cases hr : va ≤ x ∧ x < va + npages * pgsize
    · rw [if_pos hr] at hmap
      cases hmap
    rw [if_neg hr] at hmap
    exact ⟨hmap, hr⟩
  have hkept : ∀ x t flags, Page x → x < trapframe → m'.map root x = some (t, flags) →
      Idle m root t ∧ ¬Returned m root va (va + npages * pgsize) true t := by
    intro x t flags hx hlt hmap
    obtain ⟨hmap, hr⟩ := hin x t flags hx hmap
    refine ⟨h.idle x t flags hx hlt hmap, ?_⟩
    rintro ⟨_, y, flags', hy, h1, h2, hmap'⟩
    rw [h.once x y t flags flags' hx hy hlt (by omega) hmap hmap'] at hr
    exact hr ⟨h1, h2⟩
  have howns : ∀ t, Returned m root va (va + npages * pgsize) true t → Owns m root t := by
    rintro t ⟨_, y, flags, hy, _, h2, hmap⟩
    exact .inr ⟨y, flags, hy, by omega, hmap⟩
  refine ⟨⟨h.subset hb.paged (fun x t flags hx hm => (hin x t flags hx hm).1)
    (fun x t flags hx hlt hm => ?_), fun x hx hlt => ?_, fun x hx hge => ?_, fun t => ?_,
    fun a h1 h2 => ?_⟩, hb⟩
  · obtain ⟨hidle, hd⟩ := hkept x t flags hx hlt hm
    exact hb.idle hidle hd
  · by_cases hr : va ≤ x ∧ x < va + npages * pgsize
    · rw [if_pos hr, view_eq_none, hb.map x hx, unmapped, if_pos hr]
    · rw [if_neg hr]
      have hmap : m'.map root x = m.map root x := by rw [hb.map x hx, unmapped, if_neg hr]
      refine view_congr hmap (fun t flags hm _ a ha => ?_)
        (fun t flags hm => (h.ram x t flags hx hlt hm).aligned)
      obtain ⟨hidle, hd⟩ := hkept x t flags hx hlt (by rw [hmap, hm])
      rw [← ha] at hidle hd
      exact hb.byte a hidle.notTable hidle.notFree hd
  · rw [hb.map x hx, unmapped, if_neg (by omega)]
  · have hiff := owns_iff (H := fun _ => False) (hb.pages t)
      (fun x flags hx _ hm => .inl (hin x t flags hx hm).1) (fun x flags hx hlt hm => ?_)
      (fun hd => .inl (howns t hd)) False.elim
    · rw [hiff, or_false]
    · by_cases hr : va ≤ x ∧ x < va + npages * pgsize
      · exact .inr ⟨rfl, x, flags, hx, hr.1, hr.2, hm⟩
      exact .inl (by rw [hb.map x hx, unmapped, if_neg hr, hm])
  exact hb.byte a (fun hr => h1 (.inl hr)) h2 (fun hd => h1 (howns _ hd))

structure Taken (m m' : Mem) (mem : Nat) : Prop where
  list : m.freelist = mem :: m'.freelist
  byte : ∀ a, pgrounddown a ≠ mem → m'.byte a = m.byte a

def Mem.bytes (m : Mem) (mem : Nat) : Fin pgsize → UInt8 := fun o => m.byte (mem + o.val)

section New
variable {mem : Nat} {flags : Nat} {D : Nat → Prop} {f : Nat → Option (Nat × Nat)} {perm : Nat}

lemma Taken.mem_freelist (ht : Taken m m' mem) : mem ∈ m.freelist := by
  rw [ht.list]
  exact .head _

lemma Taken.mem_of_mem (ht : Taken m m' mem) (h : t ∈ m'.freelist) : t ∈ m.freelist := by
  rw [ht.list]
  exact .tail _ h

lemma Taken.ram (ht : Taken m m' mem) (h : Paged kend m root) : Ram kend mem :=
  h.freeRam mem ht.mem_freelist

structure Same (kend : Nat) (m m' : Mem) (root : Nat) : Prop where
  sound : Sound kend m' root
  map : ∀ x, m'.map root x = m.map root x
  reached : ∀ t, Reached m'.next root 2 t ↔ Reached m.next root 2 t
  view : ∀ x, Page x → x < trapframe → m'.view root x = m.view root x

lemma Same.owns (h : Same kend m m' root) : Owns m' root t ↔ Owns m root t := by
  unfold Owns
  rw [h.reached]
  simp only [h.map]

lemma Sound.frame (h : Sound kend m root)
    (hbyte : ∀ a, Owns m root (pgrounddown a) → m'.byte a = m.byte a)
    (hfree : ∀ t ∈ m'.freelist, Ram kend t ∧ ¬Owns m root t) (hnodup : m'.freelist.Nodup) :
    Same kend m m' root := by
  have hent : ∀ t i, Reached m.next root 2 t → m'.entry t i = m.entry t i := by
    intro t i hr
    refine Mem.entry_congr (fun a h1 h2 => hbyte a (.inl ?_))
    rwa [pgrounddown_of_mem (h.paged.page t hr).aligned h1 h2]
  obtain ⟨-, hreach, hmap, htree⟩ := h.paged.frame hent
  have hpaged : Paged kend m' root := ⟨htree, h.paged.inner_congr hent,
    fun t hr => h.paged.page t ((hreach t).mp hr),
    fun t hr hf => (hfree t hf).2 (.inl ((hreach t).mp hr)), fun t hf => (hfree t hf).1, hnodup⟩
  refine ⟨h.subset hpaged (fun x t flags _ hm => by rwa [hmap] at hm)
    (fun x t flags hx hlt hm => ?_), hmap, hreach, fun x hx hlt => ?_⟩
  · rw [hmap] at hm
    exact ⟨fun hf => (hfree t hf).2 (.inr ⟨x, flags, hx, hlt, hm⟩),
      fun hr => (h.idle x t flags hx hlt hm).notTable ((hreach t).mp hr)⟩
  refine view_congr (hmap x) (fun t flags hm hta a ha => ?_)
    (fun t flags hm => (h.ram x t flags hx hlt hm).aligned)
  exact hbyte a (.inr ⟨x, flags, hx, hlt, by rw [ha]; exact hm⟩)

lemma Taken.same (ht : Taken m m' mem) (h : Sound kend m root) : Same kend m m' root := by
  have hnodup := h.paged.nodup
  rw [ht.list, List.nodup_cons] at hnodup
  refine h.frame (fun a ho => ht.byte a (fun e => ?_)) (fun t hf => ?_) hnodup.2
  · rw [e] at ho
    exact h.not_owns ht.mem_freelist ho
  exact ⟨h.paged.freeRam t (ht.mem_of_mem hf), h.not_owns (ht.mem_of_mem hf)⟩

structure Hand (kend : Nat) (m : Mem) (root mem : Nat) : Prop where
  ram : Ram kend mem
  notOwned : ¬Owns m root mem
  notFree : mem ∉ m.freelist

lemma Hand.idle (h : Hand kend m root mem) : Idle m root mem :=
  ⟨h.notFree, fun hr => h.notOwned (.inl hr)⟩

lemma Hand.ne (h : Hand kend m root mem) (hx : Page x) (hlt : x < trapframe)
    (hm : m.map root x = some (t, flags)) : t ≠ mem :=
  fun e => h.notOwned (.inr ⟨x, flags, hx, hlt, by rwa [← e]⟩)

lemma Taken.hand (ht : Taken m m' mem) (h : Sound kend m root) : Hand kend m' root mem := by
  have hnodup := h.paged.nodup
  rw [ht.list, List.nodup_cons] at hnodup
  exact ⟨ht.ram h.paged, fun ho => h.not_owns ht.mem_freelist ((ht.same h).owns.mp ho), hnodup.1⟩

lemma Sound.insert (h : Sound kend m root) (hh : Hand kend m root mem)
    (hva : Page va) (hlt : va < trapframe) (hnone : m.map root va = none) (hread : flags.testBit 1)
    (hb : Becomes kend root (fun _ => False) m m'
      (fun x => if x = va then some (mem, flags) else m.map root x)) : Sound kend m' root := by
  have hold : ∀ x t fl, Page x → m'.map root x = some (t, fl) →
      x = va ∧ t = mem ∧ fl = flags ∨ m.map root x = some (t, fl) := by
    intro x t fl hx hm
    rw [hb.map x hx] at hm
    by_cases he : x = va
    · rw [if_pos he] at hm
      cases hm
      exact .inl ⟨he, rfl, rfl⟩
    rw [if_neg he] at hm
    exact .inr hm
  refine ⟨hb.paged, fun x t fl hx hx' hm => ?_, fun x t fl hx hx' hm => ?_,
    fun x y t fl fl' hx hy hx' hy' hm hm' => ?_, fun x t fl hx hm => ?_, fun x hx hge => ?_⟩
  · rcases hold x t fl hx hm with ⟨-, rfl, -⟩ | hm
    · exact hh.ram
    exact h.ram x t fl hx hx' hm
  · rcases hold x t fl hx hm with ⟨-, rfl, -⟩ | hm
    · exact hb.idle hh.idle fun hf => hf
    exact hb.idle (h.idle x t fl hx hx' hm) fun hf => hf
  · rcases hold x t fl hx hm with ⟨rfl, rfl, -⟩ | hm
    · rcases hold y t fl' hy hm' with ⟨rfl, -, -⟩ | hm'
      · rfl
      exact absurd rfl (hh.ne hy hy' hm')
    · rcases hold y t fl' hy hm' with ⟨rfl, rfl, -⟩ | hm'
      · exact absurd rfl (hh.ne hx hx' hm)
      exact h.once x y t fl fl' hx hy hx' hy' hm hm'
  · rcases hold x t fl hx hm with ⟨-, -, rfl⟩ | hm
    · exact hread
    exact h.readable x t fl hx hm
  rw [hb.map x hx, if_neg (fun he => ?_), h.half x hx hge]
  rw [he, maxva_eq] at hge
  rw [trapframe_eq] at hlt
  omega

lemma Becomes.view
    (hb : Becomes kend root D m m' f) (h : Sound kend m root) (hx : Page x) (hlt : x < trapframe)
    (hf : f x = m.map root x) (hD : ∀ t flags, m.map root x = some (t, flags) → ¬D t) :
    m'.view root x = m.view root x := by
  refine view_congr (by rw [hb.map x hx, hf]) (fun t flags hm _ a ha => ?_)
    (fun t flags hm => (h.ram x t flags hx hlt hm).aligned)
  have hidle := h.idle x t flags hx hlt hm
  rw [← ha] at hidle
  exact hb.byte a hidle.notTable hidle.notFree (by rw [ha]; exact hD t flags hm)

lemma Sound.evolves_insert (h : Sound kend m root) (hh : Hand kend m root mem)
    (hva : Page va) (hlt : va < trapframe) (hnone : m.map root va = none)
    (hb : Becomes kend root (fun _ => False) m m'
      (fun x => if x = va then some (mem, flags) else m.map root x)) :
    (∀ x, Page x → x < trapframe → m'.view root x =
      if x = va then some (flags, m.bytes mem) else m.view root x) ∧
    (∀ t, Owns m' root t ∨ t ∈ m'.freelist ↔ Owns m root t ∨ t ∈ m.freelist ∨ t = mem) := by
  refine ⟨fun x hx hx' => ?_, fun t => owns_iff (D := fun _ => False) (H := (· = mem))
    (hb.pages t) (fun x fl hx _ hm => ?_) (fun x fl hx _ hm => .inl ?_) False.elim
    (fun e => .inl (.inr ⟨va, flags, hva, hlt, ?_⟩))⟩
  · by_cases he : x = va
    · rw [if_pos he, Mem.view, hb.map x hx, if_pos he]
      show some (flags, _) = some (flags, _)
      congr 2
      funext o
      have ho := o.isLt
      have hround := pgrounddown_of_mem hh.ram.aligned (a := mem + o.val) (by omega) (by omega)
      exact hb.byte _ (by rw [hround]; exact hh.idle.notTable) (by rw [hround]; exact hh.notFree)
        fun hf => hf
    rw [if_neg he]
    exact hb.view h hx hx' (if_neg he) fun _ _ _ hf => hf
  · rw [hb.map x hx] at hm
    by_cases he : x = va
    · rw [if_pos he] at hm
      cases hm
      exact .inr rfl
    rw [if_neg he] at hm
    exact .inl hm
  · rw [hb.map x hx, if_neg (fun he => ?_), hm]
    rw [he, hnone] at hm
    cases hm
  rw [hb.map va hva, if_pos rfl, e]

lemma Sound.freed (h : Sound kend m root) (hh : Hand kend m root mem) :
    Sound kend (m.freed mem) root ∧
      (∀ x, Page x → x < trapframe → (m.freed mem).view root x = m.view root x) ∧
      (∀ t, Owns (m.freed mem) root t ∨ t ∈ (m.freed mem).freelist ↔
        Owns m root t ∨ t ∈ m.freelist ∨ t = mem) := by
  have hb := h.paged.freed hh.ram hh.idle
  refine ⟨h.subset hb.paged (fun x t fl hx hm => by rwa [hb.map x hx] at hm)
    (fun x t fl hx hx' hm => ?_), fun x hx hx' => ?_, fun t => ?_⟩
  · rw [hb.map x hx] at hm
    exact hb.idle (h.idle x t fl hx hx' hm) (hh.ne hx hx' hm)
  · exact hb.view h hx hx' rfl fun t fl hm => hh.ne hx hx' hm
  refine owns_iff (D := (· = mem)) (H := (· = mem)) (hb.pages t)
    (fun x fl hx _ hm => .inl (by rwa [hb.map x hx] at hm))
    (fun x fl hx _ hm => .inl (by rw [hb.map x hx, hm])) .inr (fun e => .inr ?_)
  rw [e]
  exact .head _

lemma Grown.sound (hb : Grown kend root m m') (h : Sound kend m root) : Sound kend m' root := by
  refine h.subset hb.paged fun x t fl hx hm => by rwa [hb.map x hx] at hm
    fun x t fl hx hx' hm => ?_
  rw [hb.map x hx] at hm
  exact hb.idle (h.idle x t fl hx hx' hm) fun hf => hf

lemma Grown.owns (hb : Grown kend root m m') :
    Owns m' root t ∨ t ∈ m'.freelist ↔ Owns m root t ∨ t ∈ m.freelist := by
  have hiff := owns_iff (D := fun _ => False) (H := fun _ => False) (hb.pages t)
    (fun x fl hx _ hm => .inl (by rwa [hb.map x hx] at hm))
    (fun x fl hx _ hm => .inl (by rw [hb.map x hx, hm])) False.elim False.elim
  rw [hiff, or_false]

lemma Grown.hand (hb : Grown kend root m m') (hh : Hand kend m root mem) :
    Hand kend m' root mem := by
  have hn : ¬(Owns m' root mem ∨ mem ∈ m'.freelist) := by
    rw [hb.owns]
    rintro (ho | hf)
    · exact hh.notOwned ho
    exact hh.notFree hf
  exact ⟨hh.ram, fun ho => hn (.inl ho), fun hf => hn (.inr hf)⟩

lemma wp_mappages_one (h : Paged kend m root) (hva : Page va) (hlt : va < maxva)
    (hnone : m.map root va = none) (hpa : pa % pgsize = 0) (hfit : pa + pgsize ≤ 2 ^ 56)
    (hperm : perm < 2 ^ 10) :
    wp (mappages root va pgsize pa perm) m (fun r m' =>
      r = 0 ∧ Becomes kend root (fun _ => False) m m'
        (fun x => if x = va then some (pa, perm ||| pteV) else m.map root x) ∨
      r = -1 ∧ Grown kend root m m') E := by
  have hpg : pgsize = 4096 := pgsize_eq
  have hmx : maxva = 274877906944 := maxva_eq
  have hal := hva.aligned
  refine wp_imp (Vm.wp_mappages h hal (Nat.mod_self _) (by decide) (by omega) (by decide) hpa hfit
    hperm (fun hgt => ?_) (fun x hx h1 h2 hne => ?_)) fun r m' ⟨k, hk, hb, hr⟩ => ?_
  · rw [hpg] at hal hgt
    omega
  · rw [hx.eq_of_le_of_lt hal h1 h2, hnone] at hne
    exact absurd rfl hne
  rw [hpg] at hk hr
  rcases hr with ⟨rfl, hk1⟩ | ⟨rfl, hk0⟩
  · refine .inl ⟨rfl, hb.congr (fun x hx => ?_) (fun _ => Iff.rfl)⟩
    rw [show k = 1 by omega, ← mapped_succ hal hx, mapped_zero]
  refine .inr ⟨rfl, hb.congr (fun x _ => ?_) (fun _ => Iff.rfl)⟩
  rw [show k = 0 by omega, mapped_zero]

structure Extends (root : Nat) (m m' : Mem) : Prop where
  map : ∀ x, Page x → m.map root x ≠ none → m'.map root x = m.map root x
  table : ∀ t, Reached m.next root 2 t → Reached m'.next root 2 t

lemma Extends.refl (root : Nat) (m : Mem) : Extends root m m := ⟨fun _ _ _ => rfl, fun _ => id⟩

lemma Extends.trans (h : Extends root m m') (h' : Extends root m' m'') : Extends root m m'' where
  map x hx hm := by rw [h'.map x hx (by rwa [h.map x hx hm]), h.map x hx hm]
  table t ht := h'.table t (h.table t ht)

lemma Extends.owns (h : Extends root m m') (ho : Owns m root t) : Owns m' root t := by
  rcases ho with hr | ⟨x, flags, hx, hlt, hm⟩
  · exact .inl (h.table t hr)
  exact .inr ⟨x, flags, hx, hlt, by rw [h.map x hx (by rw [hm]; simp), hm]⟩

lemma Becomes.table
    (hb : Becomes kend root D m m' f) (ht : Reached m.next root 2 t) : Reached m'.next root 2 t :=
      by
  obtain ⟨q, hq, hf⟩ := ht
  exact ⟨q, hq, hb.mono q t hq hf⟩

lemma wp_mappages_new {Q : Int → Mem → Prop} (h : Sound kend m root)
    (ht : Taken m m' mem) (hva : Page va) (hlt : va < trapframe) (hnone : m.map root va = none)
    (hperm : perm < 2 ^ 10) (hread : perm.testBit 1) (hok : ∀ m'', Evolves kend root m m'' (fun x =>
      if x = va then some (perm ||| pteV, m'.bytes mem) else m.view root x) →
      (∀ x, Page x → m''.map root x =
        if x = va then some (mem, perm ||| pteV) else m.map root x) → Extends root m m'' → Q 0 m'')
    (hfail : ∀ m'', Evolves kend root m (m''.freed mem) (m.view root) →
      (∀ x, Page x → (m''.freed mem).map root x = m.map root x) →
      Extends root m (m''.freed mem) → Q (-1) m'') :
    wp (mappages root va pgsize mem perm) m' Q E := by
  have hs := ht.same h
  have hh := ht.hand h
  have htf : trapframe = 274877898752 := trapframe_eq
  have hmx : maxva = 274877906944 := maxva_eq
  have hpg : pgsize = 4096 := pgsize_eq
  have hbelow := hh.ram.below
  have hnone' : m'.map root va = none := by rw [hs.map, hnone]
  rw [phystop_eq] at hbelow
  have houter : ∀ a, ¬Owns m root (pgrounddown a) → pgrounddown a ∉ m.freelist →
      pgrounddown a ≠ mem ∧ ¬Reached m'.next root 2 (pgrounddown a) ∧
        pgrounddown a ∉ m'.freelist ∧ m'.byte a = m.byte a := by
    intro a h1 h2
    have h3 : pgrounddown a ≠ mem := fun e => h2 (by rw [e]; exact ht.mem_freelist)
    exact ⟨h3, fun hr => h1 (.inl ((hs.reached _).mp hr)), fun hf => h2 (ht.mem_of_mem hf),
      ht.byte a h3⟩
  have howns : ∀ t, (Owns m' root t ∨ t ∈ m'.freelist ∨ t = mem ↔
      Owns m root t ∨ t ∈ m.freelist) := by
    intro t
    rw [hs.owns, ht.list, List.mem_cons, or_comm (a := t = mem)]
  refine wp_imp (wp_mappages_one hs.sound.paged hva (by omega) hnone' hh.ram.aligned (by omega)
    hperm) fun r m'' hr => ?_
  rcases hr with ⟨rfl, hb⟩ | ⟨rfl, hb⟩
  · have hread' : (perm ||| pteV).testBit 1 := by rw [Nat.testBit_or, hread, Bool.true_or]
    obtain ⟨hview, hown⟩ := hs.sound.evolves_insert hh hva hlt hnone' hb
    refine hok m'' ⟨hs.sound.insert hh hva hlt hnone' hread' hb, fun x hx hx' => ?_,
      fun x hx hge => ?_, fun t => by rw [hown, howns], fun a h1 h2 => ?_⟩
      fun x hx => by rw [hb.map x hx, hs.map]
      ⟨fun x hx hne => ?_, fun t ht => hb.table ((hs.reached t).mpr ht)⟩
    · rw [hview x hx hx']
      by_cases he : x = va
      · rw [if_pos he, if_pos he]
      rw [if_neg he, if_neg he, hs.view x hx hx']
    · rw [hb.map x hx, if_neg (by omega), hs.map]
    · obtain ⟨-, h4, h5, h6⟩ := houter a h1 h2
      rw [hb.byte a h4 h5 (fun hf => hf), h6]
    rw [hb.map x hx, if_neg (fun he => hne (by rw [he, hnone])), hs.map]
  have hsound := hb.sound hs.sound
  have hhand := hb.hand hh
  obtain ⟨hsf, hviewf, hownf⟩ := hsound.freed hhand
  have hbf := hsound.paged.freed hhand.ram hhand.idle
  have hmap : ∀ x, Page x → (m''.freed mem).map root x = m.map root x :=
    fun x hx => by rw [hbf.map x hx, hb.map x hx, hs.map]
  refine hfail m'' ⟨hsf, fun x hx hx' => ?_, fun x hx _ => hmap x hx, fun t => ?_,
    fun a h1 h2 => ?_⟩ hmap ⟨fun x hx _ => hmap x hx,
    fun t ht => hbf.table (hb.table ((hs.reached t).mpr ht))⟩
  · rw [hviewf x hx hx', hb.view hs.sound hx hx' rfl (fun _ _ _ hf => hf), hs.view x hx hx']
  · rw [hownf, ← or_assoc, hb.owns, or_assoc, howns]
  obtain ⟨h3, h4, h5, h6⟩ := houter a h1 h2
  rw [← h6, ← hb.byte a h4 h5 (fun hf => hf)]
  exact Mem.byte_fill (outside_of_pgrounddown_ne hh.ram.aligned h3)
end New
end Xv6.Vm
