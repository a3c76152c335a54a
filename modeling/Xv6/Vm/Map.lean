import Xv6.Vm.PageTable

namespace Xv6.Vm
open Lib Mem
variable {kend : Nat} {m m' : Mem} {root t u va pa a : Nat} {i j k : Fin 512}
  {p q : List (Fin 512)} {pte : Nat} {E : Panic → Prop} {rest : List Nat} {r : Nat}
  {f : Nat → Option (Nat × Nat)} {flags perm : Nat} {m'' : Mem}

lemma pgrounddown_of_mem (ht : t % pgsize = 0) (h1 : t ≤ a) (h2 : a < t + pgsize) :
    pgrounddown a = t := by
  unfold pgrounddown
  rw [pgsize_eq] at *
  omega

lemma outside_of_pgrounddown_ne (ht : t % pgsize = 0) (h : pgrounddown a ≠ t) :
    a < t ∨ t + pgsize ≤ a := by
  by_contra hin
  exact h (pgrounddown_of_mem ht (by omega) (by omega))

lemma Mem.next_congr (h : ∀ i, m'.entry t i = m.entry t i) : m'.next t = m.next t := by
  funext i
  rw [next, next, h]

lemma Mem.next_of_zero (h : m.entry t i = 0) : m.next t i = none := by
  rw [next, h]
  rfl

lemma Mem.leaf_of_zero (h : m.entry t i = 0) : m.leaf t i = none := by
  rw [leaf, h]
  rfl

def Mem.grow (m : Mem) (t : Nat) (i : Fin 512) (r : Nat) (rest : List Nat) : Mem :=
  ((m.taken r rest).fill r 0).setEntry t i (pa2pte r ||| pteV)

lemma Mem.entry_grow (ht : t % pgsize = 0) (hr : Ram kend r) (hu : u % pgsize = 0) :
    (m.grow t i r rest).entry u j =
      if u = t ∧ j = i then pa2pte r ||| pteV else if u = r then 0 else m.entry u j := by
  have hpte : pa2pte r ||| pteV < 2 ^ 64 := pa2pte_or_lt hr.lt_two_pow (by decide)
  rw [grow, entry_setEntry ht hu hpte]
  by_cases hut : u = t ∧ j = i
  · rw [if_pos hut, if_pos hut]
  rw [if_neg hut, if_neg hut]
  by_cases hur : u = r
  · rw [if_pos hur, hur, entry_fill_zero]
  rw [if_neg hur, entry_fill_of_ne hr.aligned hu hur]
  exact entry_fill_of_ne hr.aligned hu hur

lemma Mem.byte_grow (ht : t % pgsize = 0) (hr : r % pgsize = 0)
    (hat : pgrounddown a ≠ t) (har : pgrounddown a ≠ r) :
    (m.grow t i r rest).byte a = m.byte a := by
  have h1 := outside_of_pgrounddown_ne ht hat
  have h2 := outside_of_pgrounddown_ne hr har
  rw [grow, byte_setEntry h1, byte_fill h2]
  exact byte_fill h2

section
variable (h : Paged kend m root) (hfree : m.freelist = r :: rest) (hp : p.length < 2)
  (hpath : follow m.next root p = some t) (hentry : (m.entry t i).testBit 0 = false)
include h hfree hp hpath hentry

lemma Paged.extends : Extends m.next (m.grow t i r rest).next root 2 p t i r := by
  have hr : Ram kend r := h.freeRam r (by rw [hfree]; exact .head _)
  have hfresh : ¬Reached m.next root 2 r :=
    fun hreach => h.used r hreach (by rw [hfree]; exact .head _)
  have ht : Reached m.next root 2 t := ⟨p, by omega, hpath⟩
  have hne : t ≠ r := fun e => hfresh (e ▸ ht)
  have hta := (h.page t ht).aligned
  refine ⟨hp, hpath, ?_, hfresh, ?_, fun j => ?_, fun n j hn hnj => ?_⟩
  · rw [Mem.next, hentry]
    rfl
  · have hself : (m.grow t i r rest).entry t i = pa2pte r ||| pteV := by
      rw [entry_grow hta hr hta, if_pos ⟨rfl, rfl⟩]
    rw [Mem.next, hself, testBit_or (by decide) (by decide), pte2pa_or hr.aligned hr.lt_two_pow
      (by decide)]
    rfl
  · apply next_of_zero
    rw [entry_grow hta hr hr.aligned, if_neg (fun h => hne h.1.symm), if_pos rfl]
  have hnr : n ≠ r := fun e => hfresh (e ▸ hn)
  have hsame : (m.grow t i r rest).entry n j = m.entry n j := by
    rw [entry_grow hta hr (h.page n hn).aligned, if_neg hnj, if_neg hnr]
  rw [Mem.next, Mem.next, hsame]

lemma Paged.grow : Grown kend root m (m.grow t i r rest) ∧
      follow (m.grow t i r rest).next root (p ++ [i]) = some r := by
  have hext := h.extends hfree hp hpath hentry
  have hr : Ram kend r := h.freeRam r (by rw [hfree]; exact .head _)
  have ht : Reached m.next root 2 t := ⟨p, by omega, hpath⟩
  have hta := (h.page t ht).aligned
  have hne : t ≠ r := fun e => hext.fresh (e ▸ ht)
  have hnodup : r ∉ rest ∧ rest.Nodup := by
    have := h.nodup
    rw [hfree] at this
    exact List.nodup_cons.mp this
  have hlist : (m.grow t i r rest).freelist = rest := rfl
  have hlen : (p ++ [i]).length ≤ 2 := by rwa [List.length_append]
  refine ⟨⟨⟨hext.tree h.tree, fun n j hn hv => ?_, fun n hn => ?_, fun n hn => ?_, fun n hn => ?_,
    hnodup.2⟩,
    fun x hx => ?_, fun q n hq hn => ?_, fun n => ?_, fun a ha hfr _ => ?_⟩, ?_⟩
  · obtain ⟨q, hq, hn⟩ := hn
    rw [hext.follow_eq h.tree q (by omega)] at hn
    by_cases hqp : q = p ++ [i]
    · rw [if_pos hqp] at hn
      cases hn
      rw [entry_grow hta hr hr.aligned, if_neg (fun h => hne h.1.symm), if_pos rfl] at hv
      cases hv
    rw [if_neg hqp] at hn
    have hreach : Reached m.next root 2 n := ⟨q, by omega, hn⟩
    have hnr : n ≠ r := fun e => hext.fresh (e ▸ hreach)
    rw [entry_grow hta hr (h.page n hreach).aligned, if_neg hnr] at hv ⊢
    by_cases hnt : n = t ∧ j = i
    · rw [if_pos hnt]
      rw [isLeaf, testBit_or (by decide) (by decide), testBit_or (by decide) (by decide),
        testBit_or (by decide) (by decide)]
      rfl
    rw [if_neg hnt] at hv ⊢
    exact h.inner n j ⟨q, hq, hn⟩ hv
  · rcases (hext.reached h.tree).mp hn with hn | rfl
    · exact h.page n hn
    exact hr
  · rw [hlist]
    rcases (hext.reached h.tree).mp hn with hn | rfl
    · exact fun hmem => h.used n hn (by rw [hfree]; exact .tail _ hmem)
    exact hnodup.1
  · exact h.freeRam n (by rw [hfree]; exact .tail _ hn)
  · -- the last level is read at tables that are not `t` and not new
    refine hext.lookup_eq h.tree (fun q n j hq hn => ?_) (fun j => ?_) (length_indices x 2) _
    · have hnr : n ≠ r := fun e => hext.fresh ⟨q, hq.le, by rw [hn, e]⟩
      have hnt : n ≠ t := fun e => by
        have hqp := h.tree q p n hq.le (by omega) hn (by rw [hpath, e])
        rw [hqp] at hq
        omega
      have hna := (h.page n ⟨q, hq.le, hn⟩).aligned
      have hsame : (m.grow t i r rest).entry n j = m.entry n j := by
        rw [entry_grow hta hr hna, if_neg (fun hc => hnt hc.1), if_neg hnr]
      rw [Mem.leaf, Mem.leaf, hsame]
    apply leaf_of_zero
    rw [entry_grow hta hr hr.aligned, if_neg (fun h => hne h.1.symm), if_pos rfl]
  · rw [hext.follow_eq h.tree q hq, if_neg (fun e => ?_), hn]
    rw [e, follow_concat, hpath] at hn
    have hn : m.next t i = some n := hn
    rw [hext.empty] at hn
    cases hn
  · rw [hext.reached h.tree, hlist, hfree, List.mem_cons]
    tauto
  · refine byte_grow hta hr.aligned (fun e => ha (e ▸ ht)) fun e => hfr ?_
    rw [e, hfree]
    exact .head _
  rw [hext.follow_eq h.tree _ hlen, if_pos rfl]
end

lemma Becomes.next {g : Nat → Option (Nat × Nat)} (h : Becomes kend root (fun _ => False) m m' f)
    (h' : Becomes kend root (fun _ => False) m' m'' g) :
    Becomes kend root (fun _ => False) m m'' g :=
  (h.trans h').congr (fun _ _ => rfl) fun _ => (or_self_iff).symm

lemma Grown.trans (h : Grown kend root m m') (h' : Grown kend root m' m'') :
    Grown kend root m m'' :=
  (Becomes.next h h').congr (fun x hx => (h.map x hx).symm) fun _ => Iff.rfl

lemma wp_walkLevel (h : Paged kend m root) (hp : p.length < 2)
    (hpath : follow m.next root p = some t) :
    wp (walkLevel t i true) m (fun r m' => Grown kend root m m' ∧ match r with
      | none => True
      | some u => follow m'.next root (p ++ [i]) = some u) E := by
  unfold walkLevel
  rw [wp_bind, wp_readPte]
  cases hv : (m.entry t i).testBit 0 with
  | true =>
    rw [if_pos rfl, wp_pure]
    refine ⟨h.grown, ?_⟩
    show follow m.next root (p ++ [i]) = some (pte2pa (m.entry t i))
    rw [follow_concat, hpath]
    show m.next t i = _
    rw [Mem.next, if_pos hv]
  | false =>
    rw [if_neg (by simp), if_neg (by simp), wp_bind]
    refine wp_kalloc (fun _ => wp_pure.mpr ⟨h.asked, trivial⟩) fun r rest hfree => ?_
    simp only [wp_bind, wp_memset, wp_writePte, wp_pure]
    exact h.grow hfree hp hpath hv

lemma wp_walkLoop :
    ∀ level m p t, p.length + level = 2 → Paged kend m root → follow m.next root p = some t →
      wp (walkLoop va true level t) m (fun r m' => Grown kend root m m' ∧ match r with
        | none => True
        | some u => follow m'.next root (p ++ indices va level) = some u) E := by
  intro level
  induction level with
  | zero =>
    intro m p t _ h hpath
    rw [walkLoop, wp_pure]
    refine ⟨h.grown, ?_⟩
    show follow m.next root (p ++ []) = some t
    rw [List.append_nil, hpath]
  | succ level ih =>
    intro m p t hlen h hpath
    rw [walkLoop]
    refine wp_bind_of (wp_walkLevel h (by omega) hpath) fun r m' hr => ?_
    cases r with
    | none => exact wp_pure.mpr hr
    | some u =>
      have hlen' : (p ++ [px (level + 1) va]).length + level = 2 := by
        rw [List.length_append, List.length_singleton]
        omega
      refine wp_imp (ih m' _ u hlen' hr.1.paged hr.2) fun r' m'' hr' => ⟨hr.1.trans hr'.1, ?_⟩
      cases r' with
      | none => exact hr'.2
      | some v =>
        have hfollow := hr'.2
        rwa [List.append_assoc] at hfollow

lemma wp_walk (h : Paged kend m root) (hva : va < maxva) :
    wp (walk root va true) m (fun r m' => Grown kend root m m' ∧ match r with
      | none => True
      | some e => follow m'.next root (indices va 2) = some e.1 ∧ e.2 = px 0 va) E := by
  unfold walk
  rw [if_neg (not_le.mpr hva), wp_bind]
  refine wp_imp (wp_walkLoop 2 m [] root rfl h rfl) fun r m' hr => wp_pure.mpr ⟨hr.1, ?_⟩
  cases r with
  | none => exact hr.2
  | some t => exact ⟨hr.2, rfl⟩

lemma walkLoop_false (level : Nat) (t : Nat) : wp (walkLoop va false level t) m
      (fun r m' => m' = m ∧ r = follow m.next t (indices va level)) E := by
  induction level generalizing t with
  | zero => exact wp_pure.mpr ⟨rfl, rfl⟩
  | succ level ih =>
    rw [walkLoop, wp_bind, walkLevel, wp_bind, wp_readPte, indices, follow, Mem.next]
    cases hv : (m.entry t (px (level + 1) va)).testBit 0 with
    | true =>
      rw [if_pos rfl, wp_pure]
      exact ih _
    | false =>
      rw [if_neg (by simp), if_pos rfl, wp_pure]
      exact wp_pure.mpr ⟨rfl, rfl⟩

lemma wp_walk_false (hva : va < maxva) : wp (walk root va false) m (fun r m' => m' = m ∧
      r = (follow m.next root (indices va 2)).map fun t => (t, px 0 va)) E := by
  unfold walk
  rw [if_neg (not_le.mpr hva), wp_bind]
  refine wp_imp (walkLoop_false 2 root) fun r m' hr => wp_pure.mpr ⟨hr.1, ?_⟩
  rw [hr.2]

def ofPte (pte : Nat) : Option (Nat × Nat) :=
  if pte.testBit 0 then some (pte2pa pte, pteFlags pte) else none

lemma Paged.store (h : Paged kend m root) (hva : Page va)
    (hpath : follow m.next root (indices va 2) = some t) (hpte : pte < 2 ^ 64) :
    Becomes kend root (fun _ => False) m (m.setEntry t (px 0 va) pte)
      (fun x => if x = va then ofPte pte else m.map root x) := by
  have hp : (indices va 2).length = 2 := length_indices va 2
  have ht : Reached m.next root 2 t := ⟨_, hp.le, hpath⟩
  have hta := (h.page t ht).aligned
  have hentry : ∀ n j, Reached m.next root 2 n →
      (m.setEntry t (px 0 va) pte).entry n j = if n = t ∧ j = px 0 va then pte else m.entry n j :=
    fun n j hn => entry_setEntry hta (h.page n hn).aligned hpte
  have hnext : ∀ (q : List (Fin 512)) (n : Nat), q.length < 2 → follow m.next root q = some n →
      (m.setEntry t (px 0 va) pte).next n = m.next n := by
    intro q n hq hn
    have hnt : n ≠ t := fun e => by
      have hqp := h.tree q _ n (by omega) hp.le hn (by rw [hpath, e])
      rw [hqp] at hq
      omega
    refine next_congr fun j => ?_
    rw [hentry n j ⟨q, by omega, hn⟩, if_neg (fun hc => hnt hc.1)]
  have hfollow : ∀ q : List (Fin 512), q.length ≤ 2 →
      follow (m.setEntry t (px 0 va) pte).next root q = follow m.next root q :=
    fun q hq => follow_congr hnext hq
  have hreach : ∀ n, Reached (m.setEntry t (px 0 va) pte).next root 2 n ↔ Reached m.next root 2 n :=
    by
    refine fun n => exists_congr fun q => and_congr_right fun hq => ?_
    rw [hfollow q hq]
  refine ⟨⟨h.tree.congr hnext, fun n j hn hv => ?_, fun n hn => h.page n ((hreach n).mp hn),
    fun n hn => h.used n ((hreach n).mp hn), h.freeRam, h.nodup⟩, fun x hx => ?_,
    fun q n hq hn => by rwa [hfollow q hq], fun n => ?_, fun a ha _ _ => ?_⟩
  · obtain ⟨q, hq, hn⟩ := hn
    rw [hfollow q (by omega)] at hn
    have hnt : n ≠ t := fun e => by
      have hqp := h.tree q _ n (by omega) hp.le hn (by rw [hpath, e])
      rw [hqp] at hq
      omega
    rw [hentry n j ⟨q, by omega, hn⟩, if_neg (fun hc => hnt hc.1)] at hv ⊢
    exact h.inner n j ⟨q, hq, hn⟩ hv
  · have hkey : (indices x 2 = indices va 2 ∧ px 0 x = px 0 va) ↔ x = va :=
      ⟨fun hk => hx.eq_of_indices hva hk.1 hk.2, fun e => by rw [e]; exact ⟨rfl, rfl⟩⟩
    have hself : (m.setEntry t (px 0 va) pte).leaf t (px 0 va) = ofPte pte := by
      rw [Mem.leaf, hentry t _ ht, if_pos (⟨rfl, rfl⟩ : t = t ∧ px 0 va = px 0 va)]
      rfl
    have hval : ∀ q n j, q.length = 2 → follow m.next root q = some n → ¬(n = t ∧ j = px 0 va) →
        (m.setEntry t (px 0 va) pte).leaf n j = m.leaf n j := by
      intro q n j hq hn hnj
      rw [Mem.leaf, Mem.leaf, hentry n j ⟨q, hq.le, hn⟩]
      simp only [if_neg hnj]
    rw [Mem.map, Mem.lookup, lookup_store h.tree hnext hp hpath hself hval (length_indices x 2)]
    simp only [hkey]
    rfl
  · rw [hreach]
    simp only [or_false]
    exact Iff.rfl
  exact byte_setEntry (outside_of_pgrounddown_ne hta (fun e => ha (e ▸ ht)))

lemma Mem.map_of_follow (h : follow m.next root (indices va 2) = some t) :
    m.map root va = ofPte (m.entry t (px 0 va)) := by
  rw [map, lookup, Lib.lookup, h]
  rfl

lemma Mem.map_of_none (h : follow m.next root (indices va 2) = none) : m.map root va = none := by
  rw [map, lookup, Lib.lookup, h]
  rfl

lemma ofPte_eq_none : ofPte pte = none ↔ pte.testBit 0 = false := by
  unfold ofPte
  cases h : pte.testBit 0 <;> simp

lemma ofPte_or (hpa : pa % pgsize = 0) (hlt : pa < 2 ^ 56) (hf : flags < 2 ^ 10)
    (hv : flags.testBit 0) : ofPte (pa2pte pa ||| flags) = some (pa, flags) := by
  rw [ofPte, testBit_or hf (by decide), if_pos hv, pte2pa_or hpa hlt hf, pteFlags_or hf]

def mapped (f : Nat → Option (Nat × Nat)) (a n pa flags : Nat) : Nat → Option (Nat × Nat) :=
  fun x => if a ≤ x ∧ x < a + n * pgsize then some (pa + (x - a), flags) else f x

lemma mapped_zero : mapped f a 0 pa flags = f := by
  funext x
  rw [mapped, if_neg (by omega)]

lemma mapped_succ {n x : Nat} (ha : a % pgsize = 0) (hx : Page x) :
    mapped (fun y => if y = a then some (pa, flags) else f y) (a + pgsize) n (pa + pgsize) flags x =
      mapped f a (n + 1) pa flags x := by
  have hxa := hx.aligned
  unfold mapped
  rw [Nat.succ_mul]
  rw [pgsize_eq] at *
  by_cases hlt : a + 4096 ≤ x ∧ x < a + 4096 + n * 4096
  · have hoff : pa + 4096 + (x - (a + 4096)) = pa + (x - a) := by omega
    rw [if_pos hlt, if_pos (by omega), hoff]
  rw [if_neg hlt]
  show (if x = a then some (pa, flags) else f x) = _
  by_cases he : x = a
  · rw [if_pos he, if_pos (by omega), he, Nat.sub_self, Nat.add_zero]
  rw [if_neg he, if_neg (by omega)]

lemma perm_lt (h : perm < 2 ^ 10) : perm ||| pteV < 2 ^ 10 :=
  Nat.or_lt_two_pow h (by decide)

lemma testBit_perm : (perm ||| pteV).testBit 0 := by
  rw [Nat.testBit_or]
  simp [pteV]

lemma wp_mapLoop_round {last n : Nat} {Q : Int → Mem → Prop} (hperm : perm < 2 ^ 10)
    (h : Paged kend m root) (ha : a % pgsize = 0) (hpa : pa % pgsize = 0) (hfit : pa < 2 ^ 56)
    (hwalk : maxva ≤ a → E .walk) (hremap : a < maxva → m.map root a ≠ none → E .remap)
    (hnone : ∀ m', Grown kend root m m' → Q (-1) m')
    (hstep : ∀ m', a < maxva → Becomes kend root (fun _ => False) m m'
        (fun x => if x = a then some (pa, perm ||| pteV) else m.map root x) →
      (a = last → Q 0 m') ∧ (a ≠ last → wp (mapLoop root last perm n ((a + pgsize) % 2 ^ 64)
        ((pa + pgsize) % 2 ^ 64)) m' Q E)) :
    wp (mapLoop root last perm (n + 1) a pa) m Q E := by
  rw [mapLoop, wp_bind]
  by_cases hva : maxva ≤ a
  · rw [walk, if_pos hva, wp_throw]
    exact hwalk hva
  have hlt : a < maxva := not_le.mp hva
  have hpage : Page a := ⟨ha, by rw [maxva_eq] at hlt; omega⟩
  refine wp_imp (wp_walk h hlt) fun r m' hr => ?_
  cases r with
  | none => exact wp_pure.mpr (hnone m' hr.1)
  | some e =>
    obtain ⟨t, i⟩ := e
    obtain ⟨hgrown, hfollow, hi⟩ := hr
    subst hi
    have hmap : m.map root a = ofPte (m'.entry t (px 0 a)) := by
      rw [← map_of_follow hfollow, hgrown.map a hpage]
    rw [wp_bind, wp_readPte]
    cases hv : (m'.entry t (px 0 a)).testBit 0 with
    | true =>
      rw [if_pos rfl, wp_throw]
      refine hremap hlt fun hn => ?_
      rw [hmap, ofPte_eq_none, hv] at hn
      cases hn
    | false =>
      rw [if_neg (by simp), wp_bind, wp_writePte, Nat.or_assoc]
      have hstore := hgrown.paged.store hpage hfollow (pa2pte_or_lt hfit (perm_lt hperm))
      rw [ofPte_or hpa hfit (perm_lt hperm) testBit_perm] at hstore
      have hall := (Becomes.next hgrown hstore).congr
       
        (fun x hx => by rw [hgrown.map x hx]) fun _ => Iff.rfl
      obtain ⟨hend, hmore⟩ := hstep _ hlt hall
      refine wp_ite (fun hl => ?_) fun hl => ?_
      · exact wp_pure.mpr (hend hl)
      exact hmore hl

lemma wp_mapLoop {last : Nat} (hperm : perm < 2 ^ 10) :
    ∀ n m a pa, Paged kend m root → a % pgsize = 0 → pa % pgsize = 0 →
      pa + (n + 1) * pgsize ≤ 2 ^ 56 → n < 2 ^ 52 → a < 2 ^ 64 →
      last = (a + n * pgsize) % 2 ^ 64 →
      (maxva < a + (n + 1) * pgsize → E .walk) →
      (∀ x, Page x → a ≤ x → x < a + (n + 1) * pgsize → m.map root x ≠ none → E .remap) →
      wp (mapLoop root last perm (n + 1) a pa) m (fun r m' => ∃ k, k ≤ n + 1 ∧
        Becomes kend root (fun _ => False) m m' (mapped (m.map root) a k pa (perm ||| pteV)) ∧
        (r = 0 ∧ k = n + 1 ∨ r = -1 ∧ k ≤ n)) E := by
  have hpg : pgsize = 4096 := pgsize_eq
  have hone : ∀ f a pa x, a % pgsize = 0 → Page x → mapped f a 1 pa (perm ||| pteV) x =
      if x = a then some (pa, perm ||| pteV) else f x := by
    intro f a pa x ha hx
    rw [← mapped_succ ha hx, mapped_zero]
  intro n
  induction n with
  | zero =>
    intro m a pa h ha hpa hfit _ ha64 hlast hwalk hremap
    have hend : a = last := by rw [hlast, Nat.zero_mul, Nat.add_zero, Nat.mod_eq_of_lt ha64]
    refine wp_mapLoop_round hperm h ha hpa (by omega) (fun hva => hwalk (by omega))
      (fun hlt => hremap a ⟨ha, by rw [maxva_eq] at hlt; omega⟩ (by omega) (by omega))
      (fun m' hg => ⟨0, by omega, ?_, .inr ⟨rfl, by omega⟩⟩)
      (fun m' _ hm => ⟨fun _ => ⟨1, by omega, ?_, .inl ⟨rfl, rfl⟩⟩, fun hne => absurd hend hne⟩)
    · rw [mapped_zero]
      exact hg
    exact hm.congr (fun x hx => hone _ _ _ _ ha hx) fun _ => Iff.rfl
  | succ n ih =>
    intro m a pa h ha hpa hfit hn ha64 hlast hwalk hremap
    have e1 : (n + 1) * pgsize = n * 4096 + 4096 := by rw [hpg, Nat.succ_mul]
    have e2 : (n + 1 + 1) * pgsize = n * 4096 + 8192 := by rw [Nat.succ_mul, e1, hpg]
    have e0 : n * pgsize = n * 4096 := by rw [hpg]
    have hmore : a ≠ last := by omega
    refine wp_mapLoop_round hperm h ha hpa (by omega) (fun hva => hwalk (by omega))
      (fun hlt => hremap a ⟨ha, by rw [maxva_eq] at hlt; omega⟩ (by omega) (by omega))
      (fun m' hg => ⟨0, by omega, ?_, .inr ⟨rfl, by omega⟩⟩)
      (fun m' hlt hm => ⟨fun he => absurd he hmore, fun _ => ?_⟩)
    · rw [mapped_zero]
      exact hg
    rw [maxva_eq] at hlt
    rw [Nat.mod_eq_of_lt (by omega : a + pgsize < 2 ^ 64),
      Nat.mod_eq_of_lt (by omega : pa + pgsize < 2 ^ 64)]
    refine wp_imp (ih m' (a + pgsize) (pa + pgsize) hm.paged (by rw [Nat.add_mod_right, ha])
      (by rw [Nat.add_mod_right, hpa]) (by omega) (by omega) (by omega) (by omega) (fun hva => hwalk
        (by omega)) (fun x hx h1 h2 hne => ?_))
      (fun r m'' ⟨k, hk, hb, hr⟩ => ⟨k + 1, by omega, ?_, ?_⟩)
    · rw [hm.map x hx, if_neg (by omega)] at hne
      exact hremap x hx (by omega) (by omega) hne
    · refine (Becomes.next hm hb).congr (fun x hx => ?_) fun _ => Iff.rfl
      rw [← mapped_succ ha hx]
      unfold mapped
      rw [hm.map x hx]
    exact hr.imp (fun h => ⟨h.1, by omega⟩) (fun h => ⟨h.1, by omega⟩)
end Xv6.Vm
