import Xv6.Lib.Machine
import Xv6.Vm.Map

namespace Xv6.Vm
open Lib Mem
variable {kend : Nat} {m m' : Mem} {root t va pa a : Nat} {E : Panic → Prop}
  {doFree : Bool} {npages x : Nat}

section
variable (h : Paged kend m root)
  (hent : ∀ t i, Reached m.next root 2 t → m'.entry t i = m.entry t i)
include h hent

lemma Paged.frame :
    (∀ q : List (Fin 512), q.length ≤ 2 → follow m'.next root q = follow m.next root q) ∧
      (∀ t, Reached m'.next root 2 t ↔ Reached m.next root 2 t) ∧
      (∀ x, m'.map root x = m.map root x) ∧ Tree m'.next root 2 := by
  have hnext : ∀ (q : List (Fin 512)) (n : Nat), q.length < 2 → follow m.next root q = some n →
      m'.next n = m.next n :=
    fun q n hq hn => next_congr fun i => hent n i ⟨q, by omega, hn⟩
  have hfollow : ∀ q : List (Fin 512), q.length ≤ 2 →
      follow m'.next root q = follow m.next root q := fun q hq => follow_congr hnext hq
  refine ⟨hfollow, fun t => ?_, fun x => ?_, h.tree.congr hnext⟩
  · refine exists_congr fun q => and_congr_right fun hq => ?_
    rw [hfollow q hq]
  cases hf : follow m.next root (indices x 2) with
  | none =>
    rw [map_of_none hf, map_of_none]
    rw [hfollow _ (length_indices x 2).le, hf]
  | some t =>
    rw [map_of_follow hf, map_of_follow, hent t _ ⟨_, (length_indices x 2).le, hf⟩]
    rw [hfollow _ (length_indices x 2).le, hf]

lemma Paged.inner_congr : ∀ t i, Reached m'.next root 1 t → (m'.entry t i).testBit 0 →
      isLeaf (m'.entry t i) = false := by
  rintro t i ⟨q, hq, hn⟩ hv
  rw [(h.frame hent).1 q (by omega)] at hn
  rw [hent t i ⟨q, by omega, hn⟩] at hv ⊢
  exact h.inner t i ⟨q, hq, hn⟩ hv
end

structure Idle (m : Mem) (root pa : Nat) : Prop where
  notFree : pa ∉ m.freelist
  notTable : ¬Reached m.next root 2 pa

lemma Paged.freed (h : Paged kend m root) (hpa : Ram kend pa) (hidle : Idle m root pa) :
    Becomes kend root (fun t => t = pa) m (m.freed pa) (m.map root) := by
  have hent : ∀ t i, Reached m.next root 2 t → (m.freed pa).entry t i = m.entry t i := by
    intro t i ht
    have hne : t ≠ pa := fun e => hidle.notTable (e ▸ ht)
    exact entry_fill_of_ne hpa.aligned (h.page t ht).aligned hne
  obtain ⟨hfollow, hreach, hmap, htree⟩ := h.frame hent
  have hlist : (m.freed pa).freelist = pa :: m.freelist := rfl
  refine ⟨⟨htree, h.inner_congr hent, fun t ht => h.page t ((hreach t).mp ht), fun t ht => ?_,
    fun t ht => ?_, ?_⟩, fun x _ => hmap x, fun q t hq ht => by rwa [hfollow q hq], fun t => ?_,
    fun a _ _ ha => ?_⟩
  · have ht := (hreach t).mp ht
    rw [hlist, List.mem_cons, not_or]
    exact ⟨fun e => hidle.notTable (e ▸ ht), h.used t ht⟩
  · rw [hlist, List.mem_cons] at ht
    rcases ht with rfl | ht
    · exact hpa
    exact h.freeRam t ht
  · rw [hlist]
    exact List.nodup_cons.mpr ⟨hidle.notFree, h.nodup⟩
  · rw [hreach, hlist, List.mem_cons]
    tauto
  exact byte_fill (outside_of_pgrounddown_ne hpa.aligned ha)

def Returned (m : Mem) (root a last : Nat) (doFree : Bool) (t : Nat) : Prop :=
  doFree ∧ ∃ x flags, Page x ∧ a ≤ x ∧ x < last ∧ m.map root x = some (t, flags)

def unmapped (f : Nat → Option (Nat × Nat)) (a last : Nat) : Nat → Option (Nat × Nat) :=
  fun x => if a ≤ x ∧ x < last then none else f x

structure Unmaps (kend root : Nat) (doFree : Bool) (m m' : Mem) (a last : Nat) : Prop extends
    Becomes kend root (Returned m root a last doFree) m m' (unmapped (m.map root) a last) where
  given : ∀ t, t ∈ m'.freelist ↔ t ∈ m.freelist ∨ Returned m root a last doFree t

lemma Page.eq_of_le_of_lt (hx : Page x) (ha : a % pgsize = 0) (h1 : a ≤ x)
    (h2 : x < a + pgsize) : x = a := by
  have := hx.aligned
  rw [pgsize_eq] at *
  omega

lemma unmapped_one {f : Nat → Option (Nat × Nat)} (ha : a % pgsize = 0) (hx : Page x) :
    unmapped f a (a + pgsize) x = if x = a then none else f x := by
  unfold unmapped
  by_cases he : x = a
  · rw [if_pos he, if_pos (by rw [pgsize_eq]; omega)]
  rw [if_neg he, if_neg (fun h => he (hx.eq_of_le_of_lt ha h.1 h.2))]

lemma returned_one (ha : a % pgsize = 0) (hlt : a < maxva) :
    Returned m root a (a + pgsize) doFree t ↔
      doFree ∧ ∃ flags, m.map root a = some (t, flags) := by
  constructor
  · rintro ⟨hf, x, flags, hx, h1, h2, hmap⟩
    rw [hx.eq_of_le_of_lt ha h1 h2] at hmap
    exact ⟨hf, flags, hmap⟩
  rintro ⟨hf, flags, hmap⟩
  refine ⟨hf, a, flags, ⟨ha, ?_⟩, le_refl a, ?_, hmap⟩
  · rw [maxva_eq] at hlt
    omega
  rw [pgsize_eq]
  omega

lemma wp_unmapOne (h : Paged kend m root) (ha : a % pgsize = 0) (hwalk : maxva ≤ a → E .walk)
    (hfree : doFree = true → ∀ pa flags, m.map root a = some (pa, flags) →
      (Ram kend pa → Idle m root pa) ∧ (¬Ram kend pa → E .kfree)) :
    wp (unmapOne kend root a doFree) m (fun _ m' => a < maxva ∧
      Unmaps kend root doFree m m' a (a + pgsize)) E := by
  unfold unmapOne
  rw [wp_bind]
  by_cases hva : maxva ≤ a
  · rw [walk, if_pos hva, wp_throw]
    exact hwalk hva
  have hlt : a < maxva := not_le.mp hva
  have hpage : Page a := ⟨ha, by rw [maxva_eq] at hlt; omega⟩
  have hnothing : m.map root a = none → a < maxva ∧
      Unmaps kend root doFree m m a (a + pgsize) := by
    intro hmap
    have hnone : ∀ t, ¬Returned m root a (a + pgsize) doFree t := by
      intro t
      rw [returned_one ha hlt, hmap]
      simp
    refine ⟨hlt, h.grown.congr (fun x hx => ?_) (fun t => iff_false_intro (hnone t)),
      fun t => by rw [or_iff_left (hnone t)]⟩
    rw [unmapped_one ha hx]
    by_cases he : x = a
    · rw [if_pos he, he, hmap]
    rw [if_neg he]
  refine wp_imp (wp_walk_false hlt) fun r m1 hr => ?_
  obtain ⟨rfl, rfl⟩ := hr
  cases hf : follow m1.next root (indices a 2) with
  | none => exact wp_pure.mpr (hnothing (map_of_none hf))
  | some t =>
    have hmap := map_of_follow hf
    show wp (readPte t (px 0 a) >>= _) m1 _ _
    rw [wp_bind, wp_readPte]
    cases hv : (m1.entry t (px 0 a)).testBit 0 with
    | false =>
      rw [if_pos rfl, wp_pure]
      exact hnothing (by rw [hmap, ofPte_eq_none, hv])
    | true =>
      have hsome : m1.map root a =
          some (pte2pa (m1.entry t (px 0 a)), pteFlags (m1.entry t (px 0 a))) := by
        rw [hmap, ofPte, if_pos hv]
      have hclear : ∀ m', Becomes kend root (fun t' => doFree = true ∧
            t' = pte2pa (m1.entry t (px 0 a))) m1 m' (m1.map root) →
          (∀ t', t' ∈ m'.freelist ↔ t' ∈ m1.freelist ∨
            doFree = true ∧ t' = pte2pa (m1.entry t (px 0 a))) →
          a < maxva ∧ Unmaps kend root doFree m1 (m'.setEntry t (px 0 a) 0) a (a + pgsize) := by
        intro m' hm hlist
        have hret : ∀ t', Returned m1 root a (a + pgsize) doFree t' ↔
            doFree = true ∧ t' = pte2pa (m1.entry t (px 0 a)) := by
          intro t'
          rw [returned_one ha hlt, hsome]
          simp [eq_comm]
        have hstore := hm.paged.store hpage (hm.mono _ t (length_indices a 2).le hf)
          (Nat.two_pow_pos 64)
        refine ⟨hlt, (hm.trans hstore).congr (fun x hx => ?_)
          (fun t' => by rw [hret, or_false]), fun t' => ?_⟩
        · rw [unmapped_one ha hx, hm.map x hx]
          rfl
        rw [hret, ← hlist]
        rfl
      rw [if_neg (by simp), wp_bind]
      cases doFree with
      | false =>
        rw [if_neg (by simp), wp_pure, wp_writePte]
        exact hclear m1 (h.grown.congr (fun _ _ => rfl) (fun _ => by simp)) fun _ => by simp
      | true =>
        rw [if_pos rfl]
        obtain ⟨hidle, hpanic⟩ := hfree rfl _ _ hsome
        by_cases hram : Ram kend (pte2pa (m1.entry t (px 0 a)))
        · rw [wp_kfree hram, wp_writePte]
          refine hclear _ ((h.freed hram (hidle hram)).congr (fun _ _ => rfl) (fun _ => by simp))
            (fun t' => ?_)
          rw [Mem.freed, List.mem_cons, or_comm]
          simp
        have hbad : pte2pa (m1.entry t (px 0 a)) % pgsize ≠ 0 ∨
            pte2pa (m1.entry t (px 0 a)) < kend ∨ phystop ≤ pte2pa (m1.entry t (px 0 a)) := by
          by_contra hn
          push Not at hn
          exact hram ⟨hn.1, hn.2.1, hn.2.2⟩
        rw [kfree, if_pos hbad, wp_throw]
        exact hpanic hram

structure Freeable (kend : Nat) (m : Mem) (root a last : Nat) : Prop where
  idle : ∀ x pa flags, Page x → a ≤ x → x < last → m.map root x = some (pa, flags) →
    Ram kend pa → Idle m root pa
  once : ∀ x y pa flags flags', Page x → Page y → a ≤ x → x < last → a ≤ y → y < last →
    m.map root x = some (pa, flags) → m.map root y = some (pa, flags') → x = y

lemma wp_unmapLoop {last : Nat} :
    ∀ n m a, Paged kend m root → a % pgsize = 0 → last = a + n * pgsize →
      (maxva < last → E .walk) → (doFree = true → Freeable kend m root a last) →
      (doFree = true → (∃ x pa flags, Page x ∧ a ≤ x ∧ x < last ∧
        m.map root x = some (pa, flags) ∧ ¬Ram kend pa) → E .kfree) →
      wp (unmapLoop kend root last doFree n a) m (fun _ m' =>
        Unmaps kend root doFree m m' a last) E := by
  have hpg : pgsize = 4096 := pgsize_eq
  intro n
  induction n with
  | zero =>
    intro m a h _ hlast _ _ _
    rw [unmapLoop, wp_pure]
    have hnone : ∀ t, ¬Returned m root a last doFree t := by
      rintro t ⟨_, x, _, _, h1, h2, _⟩
      omega
    refine ⟨h.grown.congr (fun x _ => ?_) (fun t => iff_false_intro (hnone t)),
      fun t => by rw [or_iff_left (hnone t)]⟩
    rw [unmapped, if_neg (by omega)]
  | succ n ih =>
    intro m a h ha hlast hwalk hfree hpanic
    have e1 : (n + 1) * pgsize = n * 4096 + 4096 := by rw [hpg, Nat.succ_mul]
    have e0 : n * pgsize = n * 4096 := by rw [hpg]
    have hpage : a < maxva → Page a := fun hlt => ⟨ha, by rw [maxva_eq] at hlt; omega⟩
    rw [unmapLoop, if_pos (by omega)]
    by_cases hva : maxva ≤ a
    · rw [wp_bind, unmapOne, wp_bind, walk, if_pos hva, wp_throw]
      exact hwalk (by omega)
    have hpa := hpage (not_le.mp hva)
    refine wp_bind_of (wp_unmapOne h ha (fun h' => absurd h' hva) (fun hf pa flags hmap =>
      ⟨(hfree hf).idle a pa flags hpa (le_refl a) (by omega) hmap, fun hram =>
        hpanic hf ⟨a, pa, flags, hpa, le_refl a, by omega, hmap, hram⟩⟩)) (fun _ m1 hm => ?_)
    obtain ⟨hlt, hm⟩ := hm
    have hrest : ∀ x, Page x → a + pgsize ≤ x → m1.map root x = m.map root x := by
      intro x hx h1
      rw [hm.map x hx, unmapped, if_neg (by omega)]
    refine wp_imp (ih m1 (a + pgsize) hm.paged (by rw [Nat.add_mod_right, ha]) (by omega) hwalk
      (fun hf => ⟨fun x pa flags hx h1 h2 hmap hram => ?_,
        fun x y pa flags flags' hx hy h1 h2 h3 h4 hmap hmap' => ?_⟩)
      (fun hf hbad => ?_)) (fun _ m2 hm' => ?_)
    · -- a page that is mapped further up was not freed before
      rw [hrest x hx h1] at hmap
      have hidle := (hfree hf).idle x pa flags hx (by omega) h2 hmap hram
      have hn : ¬(Reached m1.next root 2 pa ∨ pa ∈ m1.freelist) := by
        rw [hm.pages, returned_one ha hlt]
        rintro (hr | hl | ⟨-, flags', ha'⟩)
        · exact hidle.notTable hr
        · exact hidle.notFree hl
        have := (hfree hf).once x a pa flags flags' hx hpa (by omega) h2 (le_refl a) (by omega)
          hmap ha'
        omega
      exact ⟨fun hl => hn (.inr hl), fun hr => hn (.inl hr)⟩
    · rw [hrest x hx h1] at hmap
      rw [hrest y hy h3] at hmap'
      exact (hfree hf).once x y pa flags flags' hx hy (by omega) h2 (by omega) h4 hmap hmap'
    · obtain ⟨x, pa, flags, hx, h1, h2, hmap, hram⟩ := hbad
      rw [hrest x hx h1] at hmap
      exact hpanic hf ⟨x, pa, flags, hx, by omega, h2, hmap, hram⟩
    have hret : ∀ t, Returned m root a last doFree t ↔ Returned m root a (a + pgsize) doFree t ∨
          Returned m1 root (a + pgsize) last doFree t := by
      intro t
      rw [returned_one ha hlt]
      constructor
      · rintro ⟨hf, x, flags, hx, h1, h2, hmap⟩
        by_cases hxa : x < a + pgsize
        · rw [hx.eq_of_le_of_lt ha h1 hxa] at hmap
          exact .inl ⟨hf, flags, hmap⟩
        exact .inr ⟨hf, x, flags, hx, by omega, h2, by rw [hrest x hx (by omega), hmap]⟩
      rintro (⟨hf, flags, hmap⟩ | ⟨hf, x, flags, hx, h1, h2, hmap⟩)
      · exact ⟨hf, a, flags, hpa, le_refl a, by omega, hmap⟩
      exact ⟨hf, x, flags, hx, by omega, h2, by rw [← hrest x hx h1, hmap]⟩
    refine ⟨(hm.toBecomes.trans hm'.toBecomes).congr (fun x hx => ?_) hret, fun t => ?_⟩
    · unfold unmapped
      rw [hm.map x hx, unmapped_one ha hx]
      by_cases hin : a + pgsize ≤ x ∧ x < last
      · rw [if_pos hin, if_pos (by omega)]
      rw [if_neg hin]
      by_cases he : x = a
      · rw [if_pos he, if_pos (by omega)]
      have hout : ¬(a ≤ x ∧ x < last) := fun hc => he (hx.eq_of_le_of_lt ha hc.1 (by omega))
      rw [if_neg he, if_neg hout]
    rw [hm'.given, hm.given, hret, or_assoc]

lemma wp_mappages {size perm : Nat} (h : Paged kend m root) (hva : va % pgsize = 0)
    (hsize : size % pgsize = 0) (hpos : 0 < size) (hva64 : va < 2 ^ 64) (hsize64 : size < 2 ^ 64)
    (hpa : pa % pgsize = 0) (hfit : pa + size ≤ 2 ^ 56) (hperm : perm < 2 ^ 10)
    (hwalk : maxva < va + size → E .walk)
    (hremap : ∀ x, Page x → va ≤ x → x < va + size → m.map root x ≠ none → E .remap) :
    wp (mappages root va size pa perm) m (fun r m' => ∃ k, k * pgsize ≤ size ∧
      Becomes kend root (fun _ => False) m m' (mapped (m.map root) va k pa (perm ||| pteV)) ∧
      (r = 0 ∧ k * pgsize = size ∨ r = -1 ∧ k * pgsize < size)) E := by
  have hpg : pgsize = 4096 := pgsize_eq
  have hdiv : size / pgsize * pgsize = size := Nat.div_mul_cancel (Nat.dvd_of_mod_eq_zero hsize)
  obtain ⟨n, hn⟩ : ∃ n, size / pgsize = n + 1 := by
    refine Nat.exists_eq_succ_of_ne_zero fun h0 => ?_
    rw [h0] at hdiv
    omega
  have e1 : (n + 1) * pgsize = n * 4096 + 4096 := by rw [hpg, Nat.succ_mul]
  have e0 : n * pgsize = n * 4096 := by rw [hpg]
  rw [hn] at hdiv
  unfold mappages
  rw [if_neg (not_not.mpr hva), if_neg (not_not.mpr hsize), if_neg (by omega), hn]
  refine wp_imp (wp_mapLoop hperm n m va pa h hva hpa (by omega) (by omega) hva64 (by omega)
    (fun h' => hwalk (by omega)) (fun x hx h1 h2 => hremap x hx h1 (by omega)))
    fun r m' ⟨k, hk, hb, hr⟩ => ⟨k, ?_, hb, ?_⟩
  · rw [← hdiv]
    exact Nat.mul_le_mul_right _ hk
  refine hr.imp (fun h => ⟨h.1, by rw [h.2, hdiv]⟩) fun h => ⟨h.1, ?_⟩
  have := Nat.mul_le_mul_right pgsize h.2
  omega

lemma wp_uvmunmap (h : Paged kend m root) (hva : va % pgsize = 0)
    (hfit : va + npages * pgsize < 2 ^ 64) (hwalk : maxva < va + npages * pgsize → E .walk)
    (hfree : doFree → Freeable kend m root va (va + npages * pgsize))
    (hpanic : doFree → (∃ x pa flags, Page x ∧ va ≤ x ∧ x < va + npages * pgsize ∧
      m.map root x = some (pa, flags) ∧ ¬Ram kend pa) → E .kfree) :
    wp (uvmunmap kend root va npages doFree) m (fun _ m' =>
      Unmaps kend root doFree m m' va (va + npages * pgsize)) E := by
  have hlast : (va + npages * pgsize) % 2 ^ 64 = va + npages * pgsize := Nat.mod_eq_of_lt hfit
  have hn : (va + npages * pgsize - va) / pgsize = npages := by
    rw [Nat.add_sub_cancel_left, Nat.mul_div_cancel _ (by decide)]
  unfold uvmunmap
  rw [if_neg (not_not.mpr hva)]
  dsimp only
  rw [hlast, hn]
  exact wp_unmapLoop npages m va h hva rfl hwalk hfree hpanic

lemma wp_uvmcreate (hram : ∀ t ∈ m.freelist, Ram kend t) (hnodup : m.freelist.Nodup) :
    wp uvmcreate m (fun r m' => match r with
      | none => m' = m.asked
      | some root => Paged kend m' root ∧ (∀ x, m'.map root x = none) ∧
        (∀ t, Reached m'.next root 2 t ↔ t = root) ∧ m.freelist = root :: m'.freelist ∧
        ∀ a, pgrounddown a ≠ root → m'.byte a = m.byte a) E := by
  unfold uvmcreate
  rw [wp_bind]
  refine wp_kalloc (fun _ => wp_pure.mpr rfl) fun r rest hfree => ?_
  simp only [wp_bind, wp_memset, wp_pure]
  have hr : Ram kend r := hram r (by rw [hfree]; exact .head _)
  rw [hfree, List.nodup_cons] at hnodup
  have hnext : ∀ i, ((m.taken r rest).fill r 0).next r i = none :=
    fun i => next_of_zero entry_fill_zero
  have hfollow : ∀ (q : List (Fin 512)) t,
      follow ((m.taken r rest).fill r 0).next r q = some t → q = [] ∧ t = r := by
    intro q t ht
    cases q with
    | nil => exact ⟨rfl, (Option.some.inj ht).symm⟩
    | cons i q =>
      rw [follow, hnext] at ht
      cases ht
  have hreach : ∀ t, Reached ((m.taken r rest).fill r 0).next r 2 t ↔ t = r := by
    refine fun t => ⟨fun ⟨q, _, ht⟩ => (hfollow q t ht).2, fun e => ⟨[], by simp, by rw [e]; rfl⟩⟩
  refine ⟨⟨fun p q t _ _ hp hq => by rw [(hfollow p t hp).1, (hfollow q t hq).1],
    fun t i ⟨q, _, ht⟩ hv => ?_, fun t ht => ?_, fun t ht => ?_, fun t ht => ?_, hnodup.2⟩,
    fun x => ?_, hreach, hfree,
    fun a ha => ?_⟩
  · rw [(hfollow q t ht).2, entry_fill_zero] at hv
    cases hv
  · rwa [(hreach t).mp ht]
  · rw [(hreach t).mp ht]
    exact hnodup.1
  · exact hram t (by rw [hfree]; exact .tail _ ht)
  · refine map_of_none ?_
    rw [indices, follow, hnext]
    rfl
  have hout := outside_of_pgrounddown_ne hr.aligned ha
  rw [byte_fill hout]
  exact byte_fill hout

inductive MapOp where
  | mappages (va size pa perm : Nat)
  | uvmunmap (va npages : Nat) (doFree : Bool)

def MapOp.exec (kend root : Nat) : MapOp → VmM Int
  | .mappages va size pa perm => Vm.mappages root va size pa perm
  | .uvmunmap va npages doFree => do
    Vm.uvmunmap kend root va npages doFree
    return 0

def mapNext (kend root : Nat) (m : Mem) (op : MapOp) : Option Mem :=
  match op.exec kend root m with
  | .ok (_, m') => some m'
  | .error _ => none

def Fits (kend root : Nat) (m : Mem) : MapOp → Prop
  | .mappages va size pa perm =>
    va < 2 ^ 64 ∧ size < 2 ^ 64 ∧ pa % pgsize = 0 ∧ pa + size ≤ 2 ^ 56 ∧ perm < 2 ^ 10
  | .uvmunmap va npages doFree =>
    va + npages * pgsize < 2 ^ 64 ∧ (doFree → Freeable kend m root va (va + npages * pgsize))

lemma Paged.wp_mappages (h : Paged kend m root) {size perm : Nat}
    (hfits : Fits kend root m (.mappages va size pa perm)) :
    wp (mappages root va size pa perm) m (fun r m' => Paged kend m' root ∧ (r = 0 →
      ∀ x, Page x → m'.map root x =
        if va ≤ x ∧ x < va + size then some (pa + (x - va), perm ||| pteV) else m.map root x))
      fun _ => True := by
  obtain ⟨hva64, hsize64, hpa, hfit, hperm⟩ := hfits
  by_cases hva : va % pgsize = 0
  · by_cases hsize : size % pgsize = 0
    · by_cases hpos : size = 0
      · rw [mappages, if_neg (not_not.mpr hva), if_neg (not_not.mpr hsize), if_pos hpos, wp_throw]
        trivial
      · refine wp_imp (Vm.wp_mappages h hva hsize (by omega) hva64 hsize64 hpa hfit hperm
          (fun _ => trivial) (fun _ _ _ _ _ => trivial)) fun r m' ⟨k, _, hb, hr⟩ => ?_
        refine ⟨hb.paged, fun h0 x hx => ?_⟩
        have hk : k * pgsize = size := by
          rcases hr with hr | hr
          · exact hr.2
          omega
        rw [hb.map x hx, mapped, hk]
    rw [mappages, if_neg (not_not.mpr hva), if_pos hsize, wp_throw]
    trivial
  rw [mappages, if_pos hva, wp_throw]
  trivial

lemma Paged.wp_uvmunmap (h : Paged kend m root)
    (hfits : Fits kend root m (.uvmunmap va npages doFree)) :
    wp (uvmunmap kend root va npages doFree) m (fun _ m' => Paged kend m' root ∧
      ∀ x, Page x → m'.map root x =
        if va ≤ x ∧ x < va + npages * pgsize then none else m.map root x) fun _ => True := by
  by_cases hva : va % pgsize = 0
  · exact wp_imp (Vm.wp_uvmunmap h hva hfits.1 (fun _ => trivial) hfits.2 (fun _ _ => trivial))
      fun _ m' hb => ⟨hb.paged, fun x hx => hb.map x hx⟩
  rw [uvmunmap, if_pos hva, wp_throw]
  trivial

lemma Paged.next (h : Paged kend m root) {op : MapOp} (hfits : Fits kend root m op)
    (hn : mapNext kend root m op = some m') : Paged kend m' root := by
  unfold mapNext at hn
  cases hx : op.exec kend root m with
  | error e =>
    rw [hx] at hn
    cases hn
  | ok r =>
    rw [hx] at hn
    cases hn
    cases op with
    | mappages va size pa perm => exact (wp_ok (h.wp_mappages hfits) hx).1
    | uvmunmap va npages doFree =>
      have hw : wp (MapOp.exec kend root (.uvmunmap va npages doFree)) m
          (fun _ m' => Paged kend m' root) fun _ => True :=
        wp_bind_of (h.wp_uvmunmap hfits) fun _ m' hm => wp_pure.mpr hm.1
      have := wp_ok hw hx
      exact this

lemma map_pgrounddown : m.map root (pgrounddown va) = m.map root va := by
  have hpx : ∀ level, px level (pgrounddown va) = px level va := by
    intro level
    apply Fin.ext
    have hpow : 2 ^ (12 + 9 * level) = pgsize * 2 ^ (9 * level) := by rw [Nat.pow_add]; rfl
    show pgrounddown va / 2 ^ (12 + 9 * level) % 512 = va / 2 ^ (12 + 9 * level) % 512
    rw [hpow, ← Nat.div_div_eq_div_mul, ← Nat.div_div_eq_div_mul, pgrounddown,
      Nat.mul_div_cancel _ (by decide)]
  have hindices : ∀ level, indices (pgrounddown va) level = indices va level := by
    intro level
    induction level with
    | zero => rfl
    | succ level ih => rw [indices, indices, hpx, ih]
  rw [Mem.map, Mem.map, hpx, hindices]

def userPage : Option (Nat × Nat) → Nat
  | none => 0
  | some (pa, flags) => if flags.testBit 4 then pa else 0

lemma walk_eq (hva : va < maxva) : walk root va false m =
    .ok ((follow m.next root (indices va 2)).map fun t => (t, px 0 va), m) := by
  obtain ⟨r, m', hw, hm, hr⟩ := wp_total (@wp_walk_false m root va _ hva)
  rw [hw, hm, hr]

lemma walkaddr_eq :
    walkaddr root va m = .ok (if va < maxva then userPage (m.map root va) else 0, m) := by
  have hw : wp (walkaddr root va) m (fun r m' => m' = m ∧
      r = if va < maxva then userPage (m.map root va) else 0) (fun _ => False) := by
    unfold walkaddr
    by_cases hva : maxva ≤ va
    · rw [if_pos hva, wp_pure, if_neg (not_lt.mpr hva)]
      exact ⟨rfl, rfl⟩
    have hlt := not_le.mp hva
    rw [if_neg hva, wp_bind, if_pos hlt]
    refine wp_imp (wp_walk_false hlt) fun r m1 hr => ?_
    obtain ⟨rfl, rfl⟩ := hr
    cases hf : follow m1.next root (indices va 2) with
    | none =>
      rw [map_of_none hf]
      exact wp_pure.mpr ⟨rfl, rfl⟩
    | some t =>
      rw [map_of_follow hf]
      show wp (readPte t (px 0 va) >>= _) m1 _ _
      rw [wp_bind, wp_readPte]
      unfold ofPte
      cases hv : (m1.entry t (px 0 va)).testBit 0 with
      | false =>
        rw [if_pos rfl, if_neg (by simp), wp_pure]
        exact ⟨rfl, rfl⟩
      | true =>
        rw [if_neg (by simp), if_pos rfl, userPage, testBit_pteFlags (by decide)]
        cases hu : (m1.entry t (px 0 va)).testBit 4 with
        | false =>
          rw [if_pos rfl, wp_pure]
          exact ⟨rfl, rfl⟩
        | true =>
          rw [if_neg (by simp), wp_pure]
          exact ⟨rfl, rfl⟩
  obtain ⟨r, m', hr, rfl, rfl⟩ := wp_total hw
  exact hr

theorem pagemap_of_run {m0 m₁ : Mem} {ops : List MapOp} (hram : ∀ t ∈ m0.freelist, Ram kend t)
    (hnodup : m0.freelist.Nodup) (hcreate : uvmcreate m0 = .ok (some root, m₁))
    (hrun : run (mapNext kend root) m₁ ops = some m)
    (hfits : Along (mapNext kend root) (Fits kend root) m₁ ops) :
    (∀ x, m₁.map root x = none) ∧
    (∀ va size pa perm m', Fits kend root m (.mappages va size pa perm) →
      mappages root va size pa perm m = .ok (0, m') →
      ∀ x, x % pgsize = 0 → x < maxva → m'.map root x =
        if va ≤ x ∧ x < va + size then some (pa + (x - va), perm ||| pteV) else m.map root x) ∧
    (∀ va npages doFree m', Fits kend root m (.uvmunmap va npages doFree) →
      uvmunmap kend root va npages doFree m = .ok ((), m') →
      ∀ x, x % pgsize = 0 → x < maxva → m'.map root x =
        if va ≤ x ∧ x < va + npages * pgsize then none else m.map root x) ∧
    (∀ va < maxva, ∃ r, walk root va false m = .ok (r, m) ∧
      m.map root (pgrounddown va) = r.bind fun e => ofPte (m.entry e.1 e.2)) ∧
    (∀ va, walkaddr root va m =
      .ok (if va < maxva then userPage (m.map root (pgrounddown va)) else 0, m)) ∧
    (∀ pa flags, pa % pgsize = 0 → pa < 2 ^ 56 → flags < 2 ^ 10 →
      pte2pa (pa2pte pa ||| flags) = pa) := by
  have hpage : ∀ x, x % pgsize = 0 → x < maxva → Page x :=
    fun x hx hlt => ⟨hx, by rw [maxva_eq] at hlt; omega⟩
  obtain ⟨hpaged, hnone, -⟩ := wp_ok
    (Q := fun r m' => match r with
      | none => m' = m0.asked
      | some root => Paged kend m' root ∧ (∀ x, m'.map root x = none) ∧
        (∀ t, Reached m'.next root 2 t ↔ t = root) ∧ m0.freelist = root :: m'.freelist ∧
        ∀ a, pgrounddown a ≠ root → m'.byte a = m0.byte a) (E := fun _ => True)
    (wp_uvmcreate hram hnodup) hcreate
  have h : Paged kend m root := run_induction (I := fun m => Paged kend m root)
    (fun _ _ _ h hf hn => h.next hf hn) hpaged hfits hrun
  refine ⟨hnone, fun va size pa perm m' hf hm x hx hlt => ?_,
    fun va npages doFree m' hf hm x hx hlt => ?_, fun va hva => ⟨_, walk_eq hva, ?_⟩, fun va => ?_,
    fun pa flags hpa hlt hf => pte2pa_or hpa hlt hf⟩
  · exact (wp_ok (h.wp_mappages hf) hm).2 rfl x (hpage x hx hlt)
  · exact (wp_ok (h.wp_uvmunmap hf) hm).2 x (hpage x hx hlt)
  · rw [map_pgrounddown]
    cases hf : follow m.next root (indices va 2) with
    | none => exact map_of_none hf
    | some t => exact map_of_follow hf
  rw [walkaddr_eq, map_pgrounddown]

def fourPages : Mem where
  byte := fun _ => 0
  freelist := [0x87000000, 0x87001000, 0x87002000, 0x87003000]

def newTable : Mem :=
  (fourPages.taken 0x87000000 [0x87001000, 0x87002000, 0x87003000]).fill 0x87000000 0

lemma uvmcreate_fourPages : uvmcreate fourPages = .ok (some 0x87000000, newTable) := rfl

lemma ram_fourPages : ∀ t ∈ fourPages.freelist, Ram 0x80000000 t := by
  have hall : ∀ t ∈ fourPages.freelist, t % pgsize = 0 ∧ 0x80000000 ≤ t ∧ t < phystop := by decide
  exact fun t ht => ⟨(hall t ht).1, (hall t ht).2.1, (hall t ht).2.2⟩

theorem pagemap_of_run_fourPages : ∃ m, run (mapNext 0x80000000 0x87000000) newTable
        [.mappages 0x1000 0x2000 0x87004000 pteR, .uvmunmap 0x1000 1 false] = some m ∧
      m.map 0x87000000 0x2000 = some (0x87005000, 3) ∧ (∀ x, newTable.map 0x87000000 x = none) ∧
      ∀ va, walkaddr 0x87000000 va m =
        .ok (if va < maxva then userPage (m.map 0x87000000 (pgrounddown va)) else 0, m) := by
  have hrun : ((run (mapNext 0x80000000 0x87000000) newTable
      [.mappages 0x1000 0x2000 0x87004000 pteR, .uvmunmap 0x1000 1 false]).map
      fun m => decide (m.map 0x87000000 0x2000 = some (0x87005000, 3))) = some true := by
    decide +kernel
  obtain ⟨m, hm, hmap⟩ := Option.map_eq_some_iff.mp hrun
  have hfits : Along (mapNext 0x80000000 0x87000000) (Fits 0x80000000 0x87000000) newTable
      [.mappages 0x1000 0x2000 0x87004000 pteR, .uvmunmap 0x1000 1 false] := by
    refine Along.mono (P := fun _ op => ∀ m, Fits 0x80000000 0x87000000 m op) (fun m _ h => h m)
      (along_of_forall_mem _ fun op hop m => ?_)
    rcases List.mem_cons.mp hop with rfl | hop
    · exact ⟨by decide, by decide, by decide, by decide, by decide⟩
    rw [List.mem_singleton] at hop
    subst hop
    exact ⟨by decide, fun h => by cases h⟩
  obtain ⟨hnone, -, -, -, hwalk, -⟩ :=
    pagemap_of_run ram_fourPages (by decide) uvmcreate_fourPages hm hfits
  exact ⟨m, hm, of_decide_eq_true hmap, hnone, hwalk⟩

theorem pagemap_misfits : (∃ m, mappages 0x87000000 0 0x1000 1 pteR newTable = .ok (0, m) ∧
      m.map 0x87000000 0 = some (0, 3)) ∧
    (∃ m, run (mapNext 0x80000000 0x87000000) newTable
        [.mappages 0 0x1000 0x87004000 pteR, .uvmunmap 0 (2 ^ 52) false] = some m ∧
      m.map 0x87000000 0 = some (0x87004000, 3)) ∧
    ∃ m, run (mapNext 0x80000000 0x87000000) newTable [.mappages 0 0x1000 0x87000000 pteR,
        .mappages 0x1000 0x1000 0x87004000 pteR, .uvmunmap 0 1 true] = some m ∧
      m.map 0x87000000 0x1000 = none := by
  have h1 : (match mappages 0x87000000 0 0x1000 1 pteR newTable with
      | .ok (r, m) => decide (r = 0 ∧ m.map 0x87000000 0 = some (0, 3))
      | .error _ => false) = true := by
    decide +kernel
  have h2 : ((run (mapNext 0x80000000 0x87000000) newTable
        [.mappages 0 0x1000 0x87004000 pteR, .uvmunmap 0 (2 ^ 52) false]).map
      fun m => decide (m.map 0x87000000 0 = some (0x87004000, 3))) = some true := by
    decide +kernel
  have h3 : ((run (mapNext 0x80000000 0x87000000) newTable [.mappages 0 0x1000 0x87000000 pteR,
        .mappages 0x1000 0x1000 0x87004000 pteR, .uvmunmap 0 1 true]).map
      fun m => decide (m.map 0x87000000 0x1000 = none)) = some true := by
    decide +kernel
  obtain ⟨m2, hm2, hmap2⟩ := Option.map_eq_some_iff.mp h2
  obtain ⟨m3, hm3, hmap3⟩ := Option.map_eq_some_iff.mp h3
  refine ⟨?_, ⟨m2, hm2, of_decide_eq_true hmap2⟩, ⟨m3, hm3, of_decide_eq_true hmap3⟩⟩
  cases hx : mappages 0x87000000 0 0x1000 1 pteR newTable with
  | error e =>
    rw [hx] at h1
    cases h1
  | ok r =>
    rw [hx] at h1
    obtain ⟨h0, hmap⟩ := of_decide_eq_true h1
    exact ⟨r.2, by rw [← h0], hmap⟩
end Xv6.Vm
