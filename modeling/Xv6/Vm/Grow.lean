import Xv6.Vm.Space

namespace Xv6.Vm
open Lib
variable {kend : Nat} {m m' m'' : Mem} {root va a x n sz oldsz newsz lo hi lo' hi' mem : Nat}
  {E : Panic → Prop} {v w : View} {flags xperm : Nat}

lemma pgroundup_of_lt (h : sz < 2 ^ 63) : pgroundup sz = (sz + 4095) / 4096 * 4096 := by
  unfold pgroundup
  rw [pgsize_eq, Nat.mod_eq_of_lt (by omega)]

lemma pgroundup_aligned (sz : Nat) : pgroundup sz % pgsize = 0 := Nat.mul_mod_left _ _

lemma le_pgroundup (h : sz < 2 ^ 63) : sz ≤ pgroundup sz := by
  rw [pgroundup_of_lt h]
  omega

lemma pgroundup_le (hn : n % pgsize = 0) (h : sz ≤ n) (hlt : sz < 2 ^ 63) : pgroundup sz ≤ n := by
  rw [pgroundup_of_lt hlt]
  rw [pgsize_eq] at hn
  omega

lemma pgroundup_of_aligned (ha : a % pgsize = 0) (hlt : a < 2 ^ 63) : pgroundup a = a :=
  Nat.le_antisymm (pgroundup_le ha le_rfl hlt) (le_pgroundup hlt)

lemma Page.lt_pgroundup_iff (hx : Page x) (h : sz < 2 ^ 63) : x < pgroundup sz ↔ x < sz := by
  have hxa := hx.aligned
  rw [pgsize_eq] at hxa
  rw [pgroundup_of_lt h]
  omega

lemma trapframe_aligned : trapframe % pgsize = 0 := by decide

lemma lt_of_le_trapframe (h : sz ≤ trapframe) : sz < 2 ^ 63 := by
  rw [trapframe_eq] at h
  omega

lemma pgroundup_le_trapframe (h : sz ≤ trapframe) : pgroundup sz ≤ trapframe :=
  pgroundup_le trapframe_aligned h (lt_of_le_trapframe h)

lemma page_of_lt (ha : a % pgsize = 0) (hlt : a < trapframe) : Page a :=
  ⟨ha, by rw [trapframe_eq] at hlt; omega⟩

def View.without (v : View) (lo hi : Nat) : View := fun x =>
  if lo ≤ x ∧ x < hi then none else v x

structure Keeps (kend root : Nat) (m m' : Mem) (v : View) (lo hi : Nat) : Prop extends
    Evolves kend root m m' v where
  kept : ∀ x, Page x → ¬(lo ≤ x ∧ x < hi) → m'.map root x = m.map root x

lemma Sound.keeps (h : Sound kend m root) : Keeps kend root m m (m.view root) lo hi :=
  ⟨h.evolves, fun _ _ _ => rfl⟩

lemma Keeps.congr (h : Keeps kend root m m' v lo hi)
    (hvw : ∀ x, Page x → x < trapframe → w x = v x)
    (hr : ∀ x, Page x → lo ≤ x → x < hi → lo' ≤ x ∧ x < hi') :
    Keeps kend root m m' w lo' hi' :=
  ⟨h.toEvolves.congr hvw, fun x hx hout => h.kept x hx (fun hin => hout (hr x hx hin.1 hin.2))⟩

def View.zeroed (v : View) (lo hi flags : Nat) : View := fun x =>
  if lo ≤ x ∧ x < hi then some (flags, fun _ => 0) else v x

lemma ofInt32_of_lt (h : n < 2 ^ 31) : ofInt32 n = n := by
  unfold ofInt32
  rw [Nat.mod_eq_of_lt (by omega), if_pos h]

lemma wp_uvmdealloc (h : Sound kend m root) (hold : oldsz ≤ trapframe) :
    wp (uvmdealloc kend root oldsz newsz) m (fun r m' =>
      oldsz ≤ newsz ∧ r = oldsz ∧ m' = m ∨
      newsz < oldsz ∧ r = newsz ∧
        Keeps kend root m m' ((m.view root).without (pgroundup newsz) (pgroundup oldsz))
          (pgroundup newsz) (pgroundup oldsz) ∧
        ∀ t, t ∈ m'.freelist ↔
          t ∈ m.freelist ∨ Returned m root (pgroundup newsz) (pgroundup oldsz) true t) E := by
  unfold uvmdealloc
  refine wp_ite (fun hle => wp_pure.mpr ?_) fun hle => ?_
  · exact .inl ⟨hle, rfl, rfl⟩
  by_cases hlt : pgroundup newsz < pgroundup oldsz
  · have htop := pgroundup_le_trapframe hold
    have htf : trapframe = 274877898752 := trapframe_eq
    have h1 := pgroundup_aligned newsz
    have h2 := pgroundup_aligned oldsz
    rw [pgsize_eq] at h1 h2
    have hn : ofInt32 ((pgroundup oldsz - pgroundup newsz) / pgsize) * pgsize =
        pgroundup oldsz - pgroundup newsz := by
      rw [pgsize_eq, ofInt32_of_lt (by omega)]
      omega
    rw [if_pos hlt]
    refine wp_bind_of (wp_uvmunmap_user h (pgroundup_aligned newsz) (by omega))
      fun _ m' ⟨hm, hu⟩ => wp_pure.mpr ?_
    rw [hn, Nat.add_sub_cancel' hlt.le] at hm hu
    refine .inr ⟨by omega, rfl, ⟨hm, fun x hx hout => ?_⟩, hu.given⟩
    rw [hu.map x hx, unmapped, if_neg hout]
  rw [if_neg hlt, wp_pure]
  refine .inr ⟨by omega, rfl, h.keeps.congr (fun x _ _ => ?_) (fun x _ => And.intro),
    fun t => (or_iff_left ?_).symm⟩
  · rw [View.without, if_neg (by omega)]
  rintro ⟨-, x, flags, hx, h1, h2, -⟩
  omega

lemma Sound.asked (h : Sound kend m root) : Evolves kend root m m.asked (m.view root) where
  sound := ⟨h.paged.asked.paged, h.ram, fun x t flags hx hlt hm =>
      ⟨(h.idle x t flags hx hlt hm).notFree, (h.idle x t flags hx hlt hm).notTable⟩,
    h.once, h.readable, h.half⟩
  view _ _ _ := rfl
  top _ _ _ := rfl
  owns _ := Iff.rfl
  byte _ _ _ := rfl

lemma taken_zero {rest : List Nat} (hf : m.freelist = mem :: rest) (hmem : mem % pgsize = 0) :
    Taken m ((m.taken mem rest).fill mem 0) mem where
  list := hf
  byte a ha := by
    have hout := outside_of_pgrounddown_ne hmem ha
    rw [Mem.byte_fill hout]
    exact Mem.byte_fill hout

lemma bytes_fill (c : UInt8) : (m.fill mem c).bytes mem = fun _ => c := by
  funext o
  have ho := o.isLt
  show (if mem ≤ mem + o.val ∧ mem + o.val < mem + pgsize then c else m.byte (mem + o.val)) = c
  rw [if_pos (by omega)]

lemma View.zeroed_succ (ha : a % pgsize = 0) (hlo : lo ≤ a) (hx : Page x) :
    v.zeroed lo (a + pgsize) flags x =
      if x = a then some (flags, fun _ => 0) else v.zeroed lo a flags x := by
  unfold View.zeroed
  by_cases he : x = a
  · rw [if_pos he, if_pos (by rw [pgsize_eq]; omega)]
  have hiff : lo ≤ x ∧ x < a + pgsize ↔ lo ≤ x ∧ x < a := by
    have hxa := hx.aligned
    rw [pgsize_eq] at *
    omega
  rw [if_neg he]
  simp only [hiff]

lemma wp_uvmdealloc_zeroed (hnone : ∀ x, Page x → lo ≤ x → x < trapframe →
      m.map root x = none) (hlo : lo % pgsize = 0) (ha : a % pgsize = 0) (hle : lo ≤ a)
    (hlt : a ≤ trapframe) (he : Keeps kend root m m' ((m.view root).zeroed lo a flags) lo a) :
    wp (uvmdealloc kend root a lo) m' (fun _ m'' =>
      Keeps kend root m m'' (m.view root) 0 0) E := by
  have h63 := lt_of_le_trapframe hlt
  refine wp_imp (wp_uvmdealloc he.sound hlt) fun r m'' hr => ?_
  rcases hr with ⟨hle', -, rfl⟩ | ⟨-, -, hm, -⟩
  · refine he.congr (fun x _ _ => ?_) fun x _ h1 h2 => ?_
    · rw [View.zeroed, if_neg (by omega)]
    omega
  rw [pgroundup_of_aligned hlo (by omega), pgroundup_of_aligned ha h63] at hm
  refine ⟨(he.toEvolves.trans hm.toEvolves).congr (fun x hx hxlt => ?_), fun x hx _ => ?_⟩
  · rw [View.without]
    by_cases hin : lo ≤ x ∧ x < a
    · rw [if_pos hin, view_eq_none]
      exact hnone x hx hin.1 hxlt
    rw [if_neg hin, he.view x hx hxlt, View.zeroed, if_neg hin]
  by_cases hin : lo ≤ x ∧ x < a
  · have hxlt : x < trapframe := by omega
    rw [hnone x hx hin.1 hxlt, ← view_eq_none, hm.view x hx hxlt, View.without, if_pos hin]
  rw [hm.kept x hx hin, he.kept x hx hin]

lemma wp_uvmallocLoop (hperm : pteR ||| pteU ||| xperm < 2 ^ 10)
    (hnone : ∀ x, Page x → lo ≤ x → x < trapframe → m.map root x = none) (hlo : lo % pgsize = 0)
    (hroom : ∀ m' a, Evolves kend root m m' ((m.view root).zeroed lo a
      (pteR ||| pteU ||| xperm ||| pteV)) → a % pgsize = 0 → lo ≤ a → a ≤ trapframe → a < newsz →
      a < trapframe) :
    ∀ n m' a, Keeps kend root m m' ((m.view root).zeroed lo a
        (pteR ||| pteU ||| xperm ||| pteV)) lo a → a % pgsize = 0 → lo ≤ a → a ≤ trapframe →
      newsz ≤ a + n * pgsize → a = lo ∨ a < newsz + pgsize →
      wp (uvmallocLoop kend root lo newsz xperm n a) m' (fun r m'' =>
        r = newsz ∧ newsz ≤ trapframe ∧ Keeps kend root m m'' ((m.view root).zeroed lo newsz
          (pteR ||| pteU ||| xperm ||| pteV)) lo newsz ∨
        r = 0 ∧ Keeps kend root m m'' (m.view root) 0 0) E := by
  have hpg : pgsize = 4096 := pgsize_eq
  have htf : trapframe = 274877898752 := trapframe_eq
  have hend : ∀ m' a, Keeps kend root m m' ((m.view root).zeroed lo a
        (pteR ||| pteU ||| xperm ||| pteV)) lo a → a % pgsize = 0 → newsz ≤ a →
      a = lo ∨ a < newsz + pgsize → Keeps kend root m m' ((m.view root).zeroed lo newsz
        (pteR ||| pteU ||| xperm ||| pteV)) lo newsz := by
    intro m' a he ha hge hlast
    have hiff : ∀ x, Page x → (lo ≤ x ∧ x < newsz ↔ lo ≤ x ∧ x < a) := by
      intro x hx
      have hxa := hx.aligned
      rw [hpg] at *
      omega
    refine he.congr (fun x hx _ => ?_) (fun x hx h1 h2 => (hiff x hx).mpr ⟨h1, h2⟩)
    unfold View.zeroed
    simp only [hiff x hx]
  intro n
  induction n with
  | zero =>
    intro m' a he ha hle hlt hn hlast
    rw [uvmallocLoop, wp_pure]
    have hge : newsz ≤ a := by omega
    exact .inl ⟨rfl, by omega, hend m' a he ha hge hlast⟩
  | succ n ih =>
    intro m' a he ha hle hlt hn hlast
    have e1 : (n + 1) * pgsize = n * pgsize + pgsize := Nat.succ_mul n pgsize
    rw [uvmallocLoop]
    by_cases hmore : a < newsz
    · have hroom' := hroom m' a he.toEvolves ha hle hlt hmore
      have hpage := page_of_lt ha hroom'
      have hfree : m'.map root a = none := by
        rw [← view_eq_none, he.view a hpage hroom', View.zeroed, if_neg (by omega), view_eq_none]
        exact hnone a hpage hle hroom'
      rw [if_pos hmore, wp_bind]
      refine wp_kalloc (fun _ => ?_) fun mem rest hf => ?_
      · have hev := (he.toEvolves.trans he.sound.asked).congr
          (fun x hx hxlt => (he.view x hx hxlt).symm)
        exact wp_bind_of (wp_uvmdealloc_zeroed hnone hlo ha hle hlt ⟨hev, he.kept⟩)
          (fun _ m'' hm => wp_pure.mpr (.inr ⟨rfl, hm⟩))
      have hram := he.sound.paged.freeRam mem (by rw [hf]; exact .head _)
      rw [wp_bind, wp_memset, wp_bind]
      refine wp_mappages_new he.sound (taken_zero hf hram.aligned) hpage hroom' hfree hperm
        (by rw [Nat.testBit_or, Nat.testBit_or]; rfl) (fun m'' hm hmap _ => ?_)
        (fun m'' hm hmap _ => ?_)
      · rw [if_neg (by decide), Nat.mod_eq_of_lt (by omega)]
        refine ih m'' (a + pgsize) ⟨(he.toEvolves.trans hm).congr (fun x hx hxlt => ?_),
          fun x hx hout => ?_⟩ (by rw [Nat.add_mod_right, ha]) (by omega) ?_ (by omega)
          (.inr (by omega))
        · rw [View.zeroed_succ ha hle hx, bytes_fill, he.view x hx hxlt]
        · rw [hmap x hx, if_neg (by omega), he.kept x hx (by omega)]
        rw [hpg] at *
        omega
      rw [if_pos (by decide), wp_bind, wp_kfree hram]
      have hev := (he.toEvolves.trans hm).congr (fun x hx hxlt => (he.view x hx hxlt).symm)
      exact wp_bind_of (wp_uvmdealloc_zeroed hnone hlo ha hle hlt
        ⟨hev, fun x hx hout => by rw [hmap x hx, he.kept x hx hout]⟩)
        (fun _ m3 hm' => wp_pure.mpr (.inr ⟨rfl, hm'⟩))
    rw [if_neg hmore, wp_pure]
    exact .inl ⟨rfl, by omega, hend m' a he ha (by omega) hlast⟩

lemma wp_uvmalloc (h : Sound kend m root) (hold : oldsz ≤ trapframe)
    (hperm : pteR ||| pteU ||| xperm < 2 ^ 10)
    (hnone : ∀ x, Page x → oldsz ≤ x → x < trapframe → m.map root x = none)
    (hroom : ∀ m' a, Evolves kend root m m' ((m.view root).zeroed (pgroundup oldsz) a
      (pteR ||| pteU ||| xperm ||| pteV)) → a % pgsize = 0 → pgroundup oldsz ≤ a → a ≤ trapframe →
      a < newsz → a < trapframe) :
    wp (uvmalloc kend root oldsz newsz xperm) m (fun r m' =>
      newsz < oldsz ∧ r = oldsz ∧ m' = m ∨
      oldsz ≤ newsz ∧ r = newsz ∧ newsz ≤ trapframe ∧
        Keeps kend root m m' ((m.view root).zeroed oldsz newsz
          (pteR ||| pteU ||| xperm ||| pteV)) oldsz newsz ∨
      oldsz ≤ newsz ∧ r = 0 ∧ Keeps kend root m m' (m.view root) 0 0) E := by
  have h63 := lt_of_le_trapframe hold
  have hge := le_pgroundup h63
  unfold uvmalloc
  refine wp_ite (fun hlt => wp_pure.mpr ?_) fun hlt => ?_
  · exact .inl ⟨hlt, rfl, rfl⟩
  have hn : newsz ≤ pgroundup oldsz +
      (newsz - pgroundup oldsz + (pgsize - 1)) / pgsize * pgsize := by
    rw [pgsize_eq]
    omega
  refine wp_imp (wp_uvmallocLoop hperm (fun x hx hle => hnone x hx (by omega))
    (pgroundup_aligned oldsz) hroom _ m (pgroundup oldsz)
    (h.keeps.congr (fun x _ _ => ?_) (fun x _ => And.intro))
    (pgroundup_aligned oldsz) (le_refl _) (pgroundup_le_trapframe hold) hn (.inl rfl))
    (fun r m' hr => .inr ?_)
  · rw [View.zeroed, if_neg (by omega)]
  rcases hr with ⟨rfl, htop, hm⟩ | ⟨rfl, hm⟩
  · refine .inl ⟨by omega, rfl, htop, hm.congr (fun x hx _ => ?_) (fun x _ h1 h2 => by omega)⟩
    have hiff := hx.lt_pgroundup_iff h63
    have hiff' : oldsz ≤ x ∧ x < r ↔ pgroundup oldsz ≤ x ∧ x < r := by omega
    unfold View.zeroed
    simp only [hiff']
  exact .inr ⟨by omega, rfl, hm⟩

lemma wp_ismapped (hva : va < maxva) :
    wp (ismapped root va) m (fun r m' => m' = m ∧ r = (m.map root va).isSome) E := by
  unfold ismapped
  refine wp_bind_of (wp_walk_false hva) fun r m' hr => ?_
  obtain ⟨rfl, rfl⟩ := hr
  cases hf : follow m'.next root (indices va 2) with
  | none => exact wp_pure.mpr ⟨rfl, by rw [Mem.map_of_none hf]; rfl⟩
  | some t =>
    show wp (readPte t (px 0 va) >>= _) m' _ _
    rw [wp_bind, wp_readPte, wp_pure, Mem.map_of_follow hf, ofPte]
    cases (m'.entry t (px 0 va)).testBit 0 <;> exact ⟨rfl, rfl⟩

lemma pgrounddown_aligned (a : Nat) : pgrounddown a % pgsize = 0 := Nat.mul_mod_left _ _
lemma pgrounddown_le (a : Nat) : pgrounddown a ≤ a := Nat.div_mul_le_self _ _

def View.faulted (v : View) (va : Nat) : View := fun x =>
  if x = va then some (pteW ||| pteU ||| pteR ||| pteV, fun _ => 0) else v x

lemma wp_vmfault {p : Proc} (h : Sound kend m p.pagetable) (hsz : p.sz ≤ trapframe) :
    wp (vmfault kend p p.pagetable va) m (fun r m' =>
      r = 0 ∧ Evolves kend p.pagetable m m' (m.view p.pagetable) ∨
      va < p.sz ∧ m.map p.pagetable (pgrounddown va) = none ∧ Ram kend r ∧
        Evolves kend p.pagetable m m' ((m.view p.pagetable).faulted (pgrounddown va)) ∧
        m'.map p.pagetable (pgrounddown va) = some (r, pteW ||| pteU ||| pteR ||| pteV)) E := by
  unfold vmfault
  by_cases hge : p.sz ≤ va
  · rw [if_pos hge, wp_pure]
    exact .inl ⟨rfl, h.evolves⟩
  have hle := pgrounddown_le va
  have hlt : pgrounddown va < trapframe := by omega
  have hmax : pgrounddown va < maxva := by
    rw [trapframe_eq] at hlt
    rw [maxva_eq]
    omega
  have hpage := page_of_lt (pgrounddown_aligned va) hlt
  rw [if_neg hge]
  refine wp_bind_of (wp_ismapped hmax) fun b m1 hb => ?_
  obtain ⟨rfl, rfl⟩ := hb
  cases hmap : m1.map p.pagetable (pgrounddown va) with
  | some e =>
    rw [if_pos Option.isSome_some, wp_pure]
    exact .inl ⟨rfl, h.evolves⟩
  | none =>
    rw [if_neg (by simp), wp_bind]
    refine wp_kalloc (fun _ => wp_pure.mpr (.inl ⟨rfl, h.asked⟩)) fun mem rest hf => ?_
    have hram := h.paged.freeRam mem (by rw [hf]; exact .head _)
    rw [wp_bind, wp_memset, wp_bind]
    refine wp_mappages_new h (taken_zero hf hram.aligned) hpage hlt hmap (by decide) (by decide)
      (fun m'' hm hnew _ => ?_) fun m'' hm _ _ => ?_
    · rw [if_neg (by decide), wp_pure]
      refine .inr ⟨by omega, rfl, hram, hm.congr (fun x _ _ => ?_),
        by rw [hnew _ hpage, if_pos rfl]⟩
      rw [View.faulted, bytes_fill]
    rw [if_pos (by decide), wp_bind, wp_kfree hram, wp_pure]
    exact .inl ⟨rfl, hm⟩
end Xv6.Vm
