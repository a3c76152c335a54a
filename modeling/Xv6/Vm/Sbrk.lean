import Xv6.Vm.Lazy
import Xv6.Vm.Transfer

namespace Xv6.Vm
open Lib
variable {kend tramp : Nat} {m m' : Mem} {p : Proc} {x a newsz lo hi : Nat} {n : Int}
  {E : Panic → Prop} {v : View}

lemma Space.top_cases {t flags : Nat} (h : Space kend tramp m p) (hx : Page x)
    (hge : trapframe ≤ x) (hm : m.map p.pagetable x = some (t, flags)) :
    t = p.trapframe ∨ t = tramp := by
  have hxa := hx.aligned
  have hlt : x < maxva := by
    by_contra hle
    rw [h.sound.half x hx (not_lt.mp hle)] at hm
    cases hm
  have hcases : x = Vm.trapframe ∨ x = trampoline := by
    have e1 : Vm.trapframe = 274877898752 := by decide
    have e2 : trampoline = 274877902848 := by decide
    rw [maxva_eq] at hlt
    rw [pgsize_eq] at hxa
    omega
  rcases hcases with rfl | rfl
  · rw [h.frame] at hm
    cases hm
    exact .inl rfl
  rw [h.code] at hm
  cases hm
  exact .inr rfl

lemma Evolves.view_top (he : Evolves kend p.pagetable m m' v) (h : Space kend tramp m p)
    (hcode : IsCode kend tramp) (hx : Page x) (hge : trapframe ≤ x) :
    m'.view p.pagetable x = m.view p.pagetable x := by
  have hlow : ∀ {t}, Ram kend t → t ≠ tramp := fun hr e =>
    absurd hr.above (not_le.mpr (e ▸ hcode.below))
  refine view_congr (he.top x hx hge) (fun t flags hm _ a ha => ?_) fun t flags hm => ?_
  · rcases h.top_cases hx hge hm with rfl | rfl
    · exact he.byte a (ha ▸ h.hand.notOwned) (ha ▸ h.hand.notFree)
    exact he.byte a (fun ho => hlow (h.sound.owns_ram ho) ha)
      (fun hf => hlow (h.sound.paged.freeRam _ hf) ha)
  rcases h.top_cases hx hge hm with rfl | rfl
  · exact h.hand.ram.aligned
  exact hcode.aligned

def Stays (m m' : Mem) (root x : Nat) : Prop :=
  m'.map root x = m.map root x ∧ m'.view root x = m.view root x

lemma Keeps.stays (hm : Keeps kend p.pagetable m m' v lo hi) (h : Space kend tramp m p)
    (hcode : IsCode kend tramp) (hx : Page x) (hout : ¬(lo ≤ x ∧ x < hi))
    (hv : v x = m.view p.pagetable x) : Stays m m' p.pagetable x := by
  refine ⟨hm.kept x hx hout, ?_⟩
  by_cases hlt : x < trapframe
  · rw [hm.view x hx hlt, hv]
  exact hm.toEvolves.view_top h hcode hx (not_lt.mp hlt)

structure Sized (m m' : Mem) (p : Proc) (newsz : Nat) : Prop where
  stays : ∀ x, Page x → ¬(pgroundup (min p.sz newsz) ≤ x ∧ x < pgroundup (max p.sz newsz)) →
    Stays m m' p.pagetable x
  seen : ∀ a < min p.sz newsz, m'.seen { p with sz := newsz } a = m.seen p a
  zero : ∀ x, Page x → pgroundup p.sz ≤ x → x < pgroundup newsz →
    m'.view p.pagetable x = some (pteR ||| pteU ||| pteW ||| pteV, fun _ => 0)
  gone : ∀ x, Page x → pgroundup newsz ≤ x → x < pgroundup p.sz → m'.map p.pagetable x = none ∧
      ∀ t flags, m.map p.pagetable x = some (t, flags) → t ∈ m'.freelist

lemma View.seen_eq {w : View} {sz : Nat} (hv : v (pgrounddown a) = w (pgrounddown a))
    (hsz : pgrounddown a < sz ↔ pgrounddown a < newsz) : v.seen newsz a = w.seen sz a := by
  unfold View.seen
  rw [hv]
  simp only [hsz]

lemma Sized.same (m : Mem) (p : Proc) : Sized m m p p.sz where
  stays _ _ _ := ⟨rfl, rfl⟩
  seen _ _ := rfl
  zero _ _ h1 h2 := absurd h2 (not_lt.mpr h1)
  gone _ _ h1 h2 := absurd h2 (not_lt.mpr h1)

lemma seen_of_stays (hsz : p.sz ≤ trapframe) (ha : a < min p.sz newsz)
    (hs : ∀ x, Page x → x < min p.sz newsz → Stays m m' p.pagetable x) :
    m'.seen { p with sz := newsz } a = m.seen p a := by
  have hle := pgrounddown_le a
  have hpage : Page (pgrounddown a) := page_of_lt (pgrounddown_aligned a) (by omega)
  have hiff : pgrounddown a < p.sz ↔ pgrounddown a < newsz := by omega
  exact View.seen_eq (hs _ hpage (by omega)).2 hiff

lemma Space.sized_grown (h : Space kend tramp m p) (hcode : IsCode kend tramp)
    (hle : p.sz ≤ newsz) (htop : newsz ≤ trapframe)
    (hm : Keeps kend p.pagetable m m' ((m.view p.pagetable).zeroed p.sz newsz
      (pteR ||| pteU ||| pteW ||| pteV)) p.sz newsz) : Sized m m' p newsz := by
  have hold : ∀ x, Page x → (x < pgroundup p.sz ↔ x < p.sz) :=
    fun x hx => hx.lt_pgroundup_iff (lt_of_le_trapframe h.size)
  have hnew : ∀ x, Page x → (x < pgroundup newsz ↔ x < newsz) :=
    fun x hx => hx.lt_pgroundup_iff (lt_of_le_trapframe htop)
  have hstays : ∀ x, Page x → ¬(p.sz ≤ x ∧ x < newsz) → Stays m m' p.pagetable x :=
    fun x hx hout => hm.stays h hcode hx hout (if_neg hout)
  refine ⟨fun x hx hout => hstays x hx ?_, fun a ha => ?_, fun x hx h1 h2 => ?_,
    fun x hx h1 h2 => ?_⟩
  · rw [min_eq_left hle, max_eq_right hle] at hout
    have := hold x hx
    have := hnew x hx
    omega
  · exact seen_of_stays h.size ha fun x hx hlt => hstays x hx (by omega)
  · have hin : p.sz ≤ x ∧ x < newsz := by
      have := hold x hx
      have := hnew x hx
      omega
    rw [hm.view x hx (by omega), View.zeroed, if_pos hin]
  have := hold x hx
  have := hnew x hx
  omega

lemma Space.sized_shrunk (h : Space kend tramp m p) (hcode : IsCode kend tramp)
    (hle : newsz < p.sz)
    (hm : Keeps kend p.pagetable m m' ((m.view p.pagetable).without (pgroundup newsz)
      (pgroundup p.sz)) (pgroundup newsz) (pgroundup p.sz))
    (hfree : ∀ t, t ∈ m'.freelist ↔ t ∈ m.freelist ∨
      Returned m p.pagetable (pgroundup newsz) (pgroundup p.sz) true t) :
    Sized m m' p newsz := by
  have hsz := h.size
  have hold : ∀ x, Page x → (x < pgroundup p.sz ↔ x < p.sz) :=
    fun x hx => hx.lt_pgroundup_iff (lt_of_le_trapframe h.size)
  have hnew : ∀ x, Page x → (x < pgroundup newsz ↔ x < newsz) :=
    fun x hx => hx.lt_pgroundup_iff (lt_of_le_trapframe (by omega))
  have hstays : ∀ x, Page x → ¬(pgroundup newsz ≤ x ∧ x < pgroundup p.sz) →
      Stays m m' p.pagetable x :=
    fun x hx hout => hm.stays h hcode hx hout (if_neg hout)
  refine ⟨fun x hx hout => hstays x hx ?_, fun a ha => ?_, fun x hx h1 h2 => ?_,
    fun x hx h1 h2 => ⟨?_, fun t flags hmap => ?_⟩⟩
  · rwa [min_eq_right hle.le, max_eq_left hle.le] at hout
  · refine seen_of_stays h.size ha fun x hx hlt => hstays x hx ?_
    have := hnew x hx
    omega
  · have := hold x hx
    have := hnew x hx
    omega
  · have hlt := (hold x hx).mp h2
    rw [← view_eq_none, hm.view x hx (by omega), View.without, if_pos ⟨h1, h2⟩]
  exact (hfree t).mpr (.inr ⟨rfl, x, flags, hx, h1, h2, hmap⟩)

def newPages (p : Proc) (n : Int) : Nat :=
  (addInt p.sz n - pgroundup p.sz + (pgsize - 1)) / pgsize

lemma wp_growproc_sized (h : Space kend tramp m p) (hcode : IsCode kend tramp) (hn : IsInt n)
    (h0 : 0 ≤ (p.sz : Int) + n) :
    wp (growproc kend p n) m (fun r m' =>
      r = (0, { p with sz := addInt p.sz n }) ∧ Sized m m' p (addInt p.sz n) ∧
        addInt p.sz n ≤ trapframe ∨
      r = (-1, p) ∧ (∀ x, Page x → Stays m m' p.pagetable x) ∧ 0 < n ∧
        (trapframe < addInt p.sz n ∨ ¬Spare (3 * newPages p n) m)) E := by
  have hadd := addInt_of_nonneg h.size hn h0
  have hsz := h.size
  by_cases hpos : 0 < n
  · by_cases hspare : Spare (0 + 3 * newPages p n) m ∧ addInt p.sz n ≤ trapframe
    · refine wp_mono (wp_and (wp_growproc_pos (E := fun _ => False) h hn hpos)
        (wp_growproc_spare hpos (by omega) hspare.1 hspare.2)) (fun r m' hr => ?_)
        (fun _ he => he.1.elim)
      obtain ⟨hr, hr0, -⟩ := hr
      rcases hr with ⟨htop, -, -⟩ | ⟨htop, rfl, hm⟩ | ⟨-, rfl, -⟩
      · omega
      · exact .inl ⟨rfl, h.sized_grown hcode (by omega) htop hm, htop⟩
      cases hr0
    · rw [Nat.zero_add] at hspare
      refine wp_imp (wp_growproc_pos h hn hpos) fun r m' hr => ?_
      rcases hr with ⟨htop, rfl, rfl⟩ | ⟨htop, rfl, hm⟩ | ⟨htop, rfl, hm⟩
      · exact .inr ⟨rfl, fun _ _ => ⟨rfl, rfl⟩, hpos, .inl htop⟩
      · exact .inl ⟨rfl, h.sized_grown hcode (by omega) htop hm, htop⟩
      exact .inr ⟨rfl, fun x hx => hm.stays h hcode hx (by omega) rfl, hpos,
        .inr (fun hs => hspare ⟨hs, htop⟩)⟩
  unfold growproc
  rw [if_neg hpos]
  refine wp_ite (fun hneg => ?_) fun hneg => ?_
  · refine wp_bind_of (wp_uvmdealloc h.sound h.size) (fun r m' hr => wp_pure.mpr (.inl ?_))
    rcases hr with ⟨hle, -, -⟩ | ⟨hlt, rfl, hm, hfree⟩
    · omega
    exact ⟨rfl, h.sized_shrunk hcode hlt hm hfree, by omega⟩
  rw [wp_pure]
  have hsame : addInt p.sz n = p.sz := by omega
  rw [hsame]
  exact .inl ⟨rfl, Sized.same m p, h.size⟩

lemma wp_growproc_under (h : Space kend tramp m p) (hn : IsInt n) (h0 : (p.sz : Int) + n < 0) :
    wp (growproc kend p n) m (fun r m' => r = (0, p) ∧ m' = m) E := by
  have hadd := addInt_of_neg h.size hn h0
  have hsz := h.size
  unfold growproc
  rw [if_neg (by omega), if_pos (by omega)]
  refine wp_bind_of (wp_uvmdealloc h.sound h.size) fun r m' hr => wp_pure.mpr ?_
  rcases hr with ⟨-, rfl, rfl⟩ | ⟨hlt, -⟩
  · exact ⟨rfl, rfl⟩
  omega

lemma wp_sysSbrk_sized (h : Space kend tramp m p) (hcode : IsCode kend tramp) (hn : IsInt n) :
    wp (sysSbrk kend p n sbrkEager) m (fun r m' =>
      ((p.sz : Int) + n < 0 → r.1 = p.sz ∧ r.2 = p ∧ m' = m) ∧
      (0 ≤ (p.sz : Int) + n → r.1 = p.sz ∧ (r.2.sz : Int) = p.sz + n ∧ Sized m m' p r.2.sz ∨
        r.1 = -1 ∧ r.2.sz = p.sz ∧ (∀ x, Page x → Stays m m' p.pagetable x) ∧ 0 < n ∧
          ((Vm.trapframe : Int) < p.sz + n ∨ ¬Spare (3 * newPages p n) m))) E := by
  unfold sysSbrk
  rw [if_pos (.inl rfl)]
  by_cases h0 : (p.sz : Int) + n < 0
  · refine wp_bind_of (wp_growproc_under h hn h0) fun r m' hr => ?_
    obtain ⟨rfl, rfl⟩ := hr
    rw [if_neg (by simp), wp_pure]
    exact ⟨fun _ => ⟨rfl, rfl, rfl⟩, fun hge => by omega⟩
  have hadd := addInt_of_nonneg h.size hn (by omega)
  refine wp_bind_of (wp_growproc_sized h hcode hn (by omega)) fun r m' hr => ?_
  rcases hr with ⟨rfl, hs, -⟩ | ⟨rfl, hs, hpos, hwhy⟩
  · rw [if_neg (by simp), wp_pure]
    exact ⟨fun hlt => absurd hlt h0, fun _ => .inl ⟨rfl, hadd, hs⟩⟩
  rw [if_pos (by simp), wp_pure]
  exact ⟨fun hlt => absurd hlt h0, fun _ => .inr ⟨rfl, rfl, hs, hpos, hwhy.imp_left (by omega)⟩⟩

theorem sbrk_exact (h : Space kend tramp m p) (hcode : IsCode kend tramp) (hn : IsInt n) :
    ∃ r q m', sysSbrk kend p n sbrkEager m = .ok ((r, q), m') ∧ Space kend tramp m' q ∧
      q.pagetable = p.pagetable ∧ q.trapframe = p.trapframe ∧
      ((p.sz : Int) + n < 0 → r = p.sz ∧ q = p ∧ m' = m) ∧
      (0 ≤ (p.sz : Int) + n → r = p.sz ∧ (q.sz : Int) = p.sz + n ∧ Sized m m' p q.sz ∨
        r = -1 ∧ q.sz = p.sz ∧ (∀ x, Page x → Stays m m' p.pagetable x) ∧ 0 < n ∧
          ((Vm.trapframe : Int) < p.sz + n ∨ ¬Spare (3 * newPages p n) m)) ∧
      ((Vm.trapframe : Int) < p.sz + n → r = -1) := by
  obtain ⟨⟨r, q⟩, m', hrun, hres, hunder, hover⟩ := wp_total
    (wp_both (wp_sysSbrk h hn) (wp_sysSbrk_sized h hcode hn))
  refine ⟨r, q, m', hrun, hres.space, hres.pagetable, hres.trapframe, hunder, hover, fun htop => ?_⟩
  have hsz := h.size
  have hq := hres.space.size
  rcases hover (by omega) with ⟨-, hnew, -⟩ | ⟨hr, -⟩
  · omega
  exact hr

lemma sysSbrk_firstProc : (match sysSbrk 0x80100000 firstProc 5000 sbrkEager firstMem with
      | .ok ((r, _), _) => decide (r = 0)
      | .error _ => false) = true := by
  decide +kernel

theorem sbrk_exact_firstProc : ∃ q m',
    sysSbrk 0x80100000 firstProc 5000 sbrkEager firstMem = .ok ((0, q), m') ∧ q.sz = 5000 ∧
      Sized firstMem m' firstProc 5000 := by
  obtain ⟨r, q, m', hrun, -, -, -, -, hover, -⟩ :=
    sbrk_exact (n := 5000) space_firstProc isCode_low ⟨by decide, by decide⟩
  have h0 := sysSbrk_firstProc
  rw [hrun] at h0
  have hr : r = 0 := of_decide_eq_true h0
  rcases hover (by decide) with ⟨-, hsz, hs⟩ | ⟨hr', -⟩
  · have hq : q.sz = 5000 := by
      have : ((firstProc.sz : Nat) : Int) = 0 := rfl
      omega
    exact ⟨q, m', hr ▸ hrun, hq, hq ▸ hs⟩
  omega
end Xv6.Vm
