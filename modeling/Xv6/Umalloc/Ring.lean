import Xv6.Umalloc.Blocks

namespace Xv6.Umalloc
open Xv6.Umalloc.Block Function List

def nextAddr (stop : Nat) : List Block → Nat
  | [] => stop
  | c :: _ => c.addr

def Linked (mem : Nat → Header) (stop : Nat) : List Block → Prop
  | [] => True
  | b :: bs => mem b.addr = ⟨nextAddr stop bs, b.size⟩ ∧ Linked mem stop bs

variable {mem mem' : Nat → Header} {base stop bp fuel x n : Nat} {b c f p q : Block}
  {l r m : List Block} {s : State}

lemma nextAddr_append (l r : List Block) :
    nextAddr stop (l ++ r) = nextAddr (nextAddr stop r) l := by
  cases l <;> rfl

lemma linked_append :
    Linked mem stop (l ++ r) ↔ Linked mem (nextAddr stop r) l ∧ Linked mem stop r := by
  induction l with
  | nil => simp [Linked]
  | cons b l ih => rw [cons_append, Linked, Linked, ih, nextAddr_append, and_assoc]

lemma Linked.congr (h : Linked mem stop l) (hmem : ∀ b ∈ l, mem' b.addr = mem b.addr) :
    Linked mem' stop l := by
  induction l with
  | nil => trivial
  | cons b l ih =>
    refine ⟨?_, ih h.2 (fun c hc => hmem c (mem_cons_of_mem b hc))⟩
    rw [hmem b mem_cons_self]
    exact h.1

lemma Linked.size_eq (h : Linked mem stop l) (hb : b ∈ l) : (mem b.addr).size = b.size := by
  induction l with
  | nil => exact absurd hb not_mem_nil
  | cons c l ih =>
    rcases mem_cons.mp hb with rfl | hb
    · rw [h.1]
    exact ih h.2 hb

lemma addr_lt_of_before (h : b.Before c) : b.addr < c.addr :=
  lt_of_le_of_lt (Nat.le_add_right _ _) h

section FindPrev
lemma findPrev_before (hp : p.addr < bp) (hr : ∀ c ∈ r, bp < c.addr) (hbase : base ≤ p.addr) :
    ∀ m fuel, Linked mem base (m ++ p :: r) → Sorted (m ++ p :: r) → m.length < fuel →
      findPrev mem bp fuel (nextAddr base (m ++ p :: r)) = some p.addr := by
  intro m
  induction m with
  | nil =>
    intro fuel hl hs hfuel
    obtain ⟨fuel, rfl⟩ := Nat.exists_eq_add_of_lt hfuel
    have hptr : (mem p.addr).ptr = nextAddr base r := congrArg Header.ptr hl.1
    rw [nil_append, nextAddr, findPrev, hptr]
    cases r with
    | nil =>
      have hno : ¬(p.addr < bp ∧ bp < nextAddr base []) := by
        rw [nextAddr]
        omega
      rw [if_neg hno, if_pos ⟨hbase, .inl hp⟩]
    | cons c r => rw [if_pos ⟨hp, hr c mem_cons_self⟩]
  | cons b m ih =>
    intro fuel hl hs hfuel
    obtain ⟨fuel, rfl⟩ := Nat.exists_eq_add_of_lt hfuel
    obtain ⟨hb, hs'⟩ := pairwise_cons.mp hs
    have hptr : (mem b.addr).ptr = nextAddr base (m ++ p :: r) := congrArg Header.ptr hl.1
    have hnext : ∃ c ∈ m ++ p :: r, nextAddr base (m ++ p :: r) = c.addr ∧ c.addr ≤ p.addr := by
      cases m with
      | nil => exact ⟨p, (.head _), rfl, le_rfl⟩
      | cons c m =>
        have hc := (pairwise_cons.mp hs').1 p (by simp)
        exact ⟨c, (.head _), rfl, le_of_lt (addr_lt_of_before hc)⟩
    obtain ⟨c, hc, hcaddr, hcp⟩ := hnext
    have hbc := addr_lt_of_before (hb c hc)
    rw [length_cons]
    rw [cons_append, nextAddr, findPrev, hptr, hcaddr, if_neg (by omega), if_neg (by omega),
      ← hcaddr]
    exact ih _ hl.2 hs' (by omega)

lemma findPrev_behind (fuel : Nat) (hbase : base < bp) :
    ∀ r, Linked mem base r → Sorted r → (∀ c ∈ r, bp < c.addr) →
      findPrev mem bp (fuel + r.length) (nextAddr base r) = findPrev mem bp fuel base := by
  intro r
  induction r with
  | nil =>
    intro _ _ _
    rfl
  | cons b r ih =>
    intro hl hs hr
    obtain ⟨hb, hs'⟩ := pairwise_cons.mp hs
    have hptr : (mem b.addr).ptr = nextAddr base r := congrArg Header.ptr hl.1
    have hbp := hr b mem_cons_self
    have hno : ¬(nextAddr base r ≤ b.addr ∧ (b.addr < bp ∨ bp < nextAddr base r)) := by
      cases r with
      | nil =>
        rw [nextAddr]
        omega
      | cons c r =>
        have := addr_lt_of_before (hb c mem_cons_self)
        rw [nextAddr]
        omega
    rw [length_cons, ← add_assoc, nextAddr, findPrev, hptr, if_neg (by omega), if_neg hno]
    exact ih hl.2 hs' fun c hc => hr c (mem_cons_of_mem b hc)

lemma findPrev_eq (hl : Linked mem base (l ++ p :: r)) (hs : Sorted (l ++ p :: r))
    (hhead : nextAddr base (l ++ p :: r) = base) (hbase : base ≤ p.addr) (hp : p.addr < bp)
    (hr : ∀ c ∈ r, bp < c.addr) (hf : f ∈ l ++ p :: r)
    (hfuel : 2 * (l ++ p :: r).length < fuel) : findPrev mem bp fuel f.addr = some p.addr := by
  rw [length_append, length_cons] at hfuel
  have hcase : f ∈ l ++ [p] ∨ f ∈ r := by
    simp only [mem_append, mem_cons] at hf ⊢
    tauto
  rcases hcase with hf | hf
  · obtain ⟨l1, l2, hsplit⟩ := append_of_mem hf
    have hlast : f :: l2 = (f :: l2).dropLast ++ [p] := by
      have hp' : (f :: l2).getLast (cons_ne_nil _ _) = p := by
        have := congrArg getLast? hsplit
        rw [getLast?_append_of_ne_nil _ (cons_ne_nil _ _),
          getLast?_append_of_ne_nil _ (cons_ne_nil _ _), getLast?_singleton,
          getLast?_eq_some_getLast (cons_ne_nil _ _)] at this
        exact (Option.some.inj this).symm
      rw [← hp', dropLast_append_getLast]
    generalize hm : (f :: l2).dropLast = m at hlast
    have hns : l ++ p :: r = l1 ++ (m ++ p :: r) := by
      have : l ++ p :: r = (l ++ [p]) ++ r := by simp
      rw [this, hsplit, hlast]
      simp
    have hlen : m.length ≤ l.length := by
      have h1 := congrArg length hsplit
      have h2 := congrArg length hlast
      simp only [length_append, length_cons, length_nil] at h1 h2
      omega
    rw [hns] at hl hs
    have hstart : nextAddr base (m ++ p :: r) = f.addr := by
      have : m ++ p :: r = f :: (l2 ++ r) := by
        have : m ++ p :: r = (m ++ [p]) ++ r := by simp
        rw [this, ← hlast]
        rfl
      rw [this]
      rfl
    rw [← hstart]
    exact findPrev_before hp hr hbase m fuel (linked_append.mp hl).2
      (pairwise_append.mp hs).2.1 (by omega)
  obtain ⟨r1, r2, hsplit⟩ := append_of_mem hf
  have hns : l ++ p :: r = (l ++ p :: r1) ++ (f :: r2) := by
    rw [hsplit]
    simp
  have hlen : (f :: r2).length ≤ r.length := by
    rw [hsplit, length_append]
    omega
  obtain ⟨fuel', rfl⟩ := Nat.exists_eq_add_of_le' (show (f :: r2).length ≤ fuel by omega)
  have hl2 := hl
  have hs2 := hs
  rw [hns] at hl2 hs2
  have hbehind := findPrev_behind fuel' (lt_of_le_of_lt hbase hp) (f :: r2)
    (linked_append.mp hl2).2 (pairwise_append.mp hs2).2.1
    fun c hc => hr c (by rw [hsplit]; exact mem_append_right r1 hc)
  have hbefore := findPrev_before hp hr hbase l fuel' hl hs (by omega)
  rw [hhead] at hbefore
  exact hbehind.trans hbefore
end FindPrev
section Link
lemma link_of_ne {x nx y : Nat} (h : y ≠ x) : link mem x nx y = mem y := by
  unfold link
  split <;> rw [update_of_ne h]

lemma linked_link (h : Linked mem stop r) (hb : (mem b.addr).size = b.size)
    (hnot : ∀ c ∈ r, c.addr ≠ b.addr) (hend : r = [] → b.stop ≠ stop)
    (hsmall : ∀ c ∈ r, b.stop = c.addr → b.size + c.size < 2 ^ 32) :
    Linked (link mem b.addr (nextAddr stop r)) stop (join b r) := by
  cases r with
  | nil =>
    have hne : ¬b.addr + 16 * (mem b.addr).size = nextAddr stop [] := by
      rw [hb]
      exact hend rfl
    refine ⟨?_, trivial⟩
    rw [link, if_neg hne, update_self, hb]
  | cons c r =>
    rw [join, link, hb]
    have hkeep : ∀ v, Linked (update mem b.addr v) stop (c :: r) := fun v =>
      h.congr fun d hd => update_of_ne (hnot d hd) _ _
    by_cases hmeet : b.stop = c.addr
    · have hcode : b.addr + 16 * b.size = nextAddr stop (c :: r) := hmeet
      have hsum := hsmall c mem_cons_self hmeet
      rw [if_pos hmeet, if_pos hcode]
      refine ⟨?_, (hkeep _).2⟩
      rw [update_self, nextAddr, h.1, uint, Nat.mod_eq_of_lt hsum]
    have hcode : ¬b.addr + 16 * b.size = nextAddr stop (c :: r) := hmeet
    rw [if_neg hmeet, if_neg hcode]
    refine ⟨?_, hkeep _⟩
    rw [update_self]

lemma nextAddr_join (b : Block) (r : List Block) : nextAddr stop (join b r) = b.addr := by
  obtain ⟨d, r', hd, haddr, -⟩ := join_eq_cons b r
  rw [hd, nextAddr, haddr]

lemma linked_free (hl : Linked mem base (l ++ p :: r)) (hs : Sorted (l ++ p :: r))
    (hb : (mem b.addr).size = b.size) (hpb : p.addr < b.addr) (hbr : ∀ c ∈ r, b.addr < c.addr)
    (hend : b.stop ≠ base) (hsmall : p.size + (b.size + units r) < 2 ^ 32) :
    Linked (link (link mem b.addr (mem p.addr).ptr) p.addr b.addr) base
      (l ++ join p (join b r)) := by
  obtain ⟨hl1, hl2⟩ := linked_append.mp hl
  obtain ⟨-, hs2, hs3⟩ := pairwise_append.mp hs
  obtain ⟨hpr, -⟩ := pairwise_cons.mp hs2
  have hptr : (mem p.addr).ptr = nextAddr base r := congrArg Header.ptr hl2.1
  have hright : Linked (link mem b.addr (mem p.addr).ptr) base (join b r) := by
    rw [hptr]
    refine linked_link hl2.2 hb (fun c hc => (hbr c hc).ne') (fun _ => hend) fun c hc _ => ?_
    have := size_le_units hc
    omega
  have hjoin : Linked (link (link mem b.addr (mem p.addr).ptr) p.addr b.addr) base
      (join p (join b r)) := by
    have hnot : ∀ c ∈ join b r, c.addr ≠ p.addr := fun c hc =>
      addr_join (P := (· ≠ p.addr)) hpb.ne' (fun d hd => (addr_lt_of_before (hpr d hd)).ne') hc
    have hsize : (link mem b.addr (mem p.addr).ptr p.addr).size = p.size := by
      rw [link_of_ne hpb.ne]
      exact congrArg Header.size hl2.1
    have hnil : join b r ≠ [] := by
      obtain ⟨d, r', hd, -⟩ := join_eq_cons b r
      rw [hd]
      exact cons_ne_nil d r'
    have hlink := linked_link hright hsize hnot (fun h => absurd h hnil) fun c hc _ => ?_
    · rwa [nextAddr_join] at hlink
    have := size_le_units hc
    rw [units_join] at this
    omega
  have hfront : Linked (link (link mem b.addr (mem p.addr).ptr) p.addr b.addr) p.addr l := by
    refine Linked.congr hl1 fun c hc => ?_
    have hcp := addr_lt_of_before (hs3 c hc p mem_cons_self)
    rw [link_of_ne hcp.ne, link_of_ne (hcp.trans hpb).ne]
  refine linked_append.mpr ⟨?_, hjoin⟩
  rwa [nextAddr_join]
end Link
section Search
def Walk (mem : Nat → Header) : Nat → List Nat → Prop
  | _, [] => True
  | a, x :: w => (mem a).ptr = x ∧ Walk mem x w

lemma walk_append {a y : Nat} {w v : List Nat} (hw : Walk mem a (w ++ [y])) (hv : Walk mem y v) :
    Walk mem a (w ++ y :: v) := by
  induction w generalizing a with
  | nil => exact ⟨hw.1, hv⟩
  | cons x w ih => exact ⟨hw.1, ih hw.2⟩

lemma Linked.walk (h : Linked mem stop (b :: r)) :
    Walk mem b.addr (r.map Block.addr ++ [stop]) := by
  induction r generalizing b with
  | nil => exact ⟨congrArg Header.ptr h.1, trivial⟩
  | cons c r ih => exact ⟨congrArg Header.ptr h.1, ih h.2⟩

lemma walk_ring (h : Linked mem base (l ++ f :: r)) (hhead : nextAddr base (l ++ f :: r) = base) :
    Walk mem f.addr ((r ++ l).map Block.addr ++ [f.addr]) := by
  obtain ⟨hl, hr⟩ := linked_append.mp h
  cases l with
  | nil =>
    have hbase : f.addr = base := hhead
    have hwalk := hr.walk
    rw [append_nil]
    rwa [← hbase] at hwalk
  | cons d l =>
    have hbase : d.addr = base := hhead
    have hback := walk_append hr.walk (hbase ▸ Linked.walk hl)
    rw [map_append, map_cons, hbase]
    simpa [nextAddr] using hback

variable {a y : Nat} {w : List Nat}

lemma search_found : ∀ w a, Walk s.mem a (w ++ [s.freep]) → (∀ y ∈ w, y ≠ s.freep) →
    (∃ y ∈ w ++ [s.freep], n ≤ (s.mem y).size) →
    ∃ q x, (q = a ∨ q ∈ w) ∧ (s.mem q).ptr = x ∧ n ≤ (s.mem x).size ∧
      ∀ fuel, w.length < fuel → search n fuel s a (s.mem a).ptr = some (take s n q x) := by
  intro w
  induction w with
  | nil =>
    intro a hw _ hy
    obtain ⟨y, hy, hn⟩ := hy
    cases mem_singleton.mp hy
    refine ⟨a, s.freep, .inl rfl, hw.1, hn, fun fuel hfuel => ?_⟩
    obtain ⟨fuel, rfl⟩ := Nat.exists_eq_add_of_lt hfuel
    rw [hw.1, search, if_pos hn]
  | cons b w ih =>
    intro a hw hne hy
    by_cases hb : n ≤ (s.mem b).size
    · refine ⟨a, b, .inl rfl, hw.1, hb, fun fuel hfuel => ?_⟩
      obtain ⟨fuel, rfl⟩ := Nat.exists_eq_add_of_lt hfuel
      rw [hw.1, search, if_pos hb]
    have hrest : ∃ y ∈ w ++ [s.freep], n ≤ (s.mem y).size := by
      obtain ⟨y, hy, hn⟩ := hy
      rcases mem_cons.mp hy with rfl | hy
      · exact absurd hn hb
      exact ⟨y, hy, hn⟩
    obtain ⟨q, x, hq, hptr, hn, hsearch⟩ := ih b hw.2
      (fun y hy => hne y (mem_cons_of_mem b hy)) hrest
    refine ⟨q, x, ?_, hptr, hn, fun fuel hfuel => ?_⟩
    · rcases hq with rfl | hq
      · exact .inr mem_cons_self
      exact .inr (mem_cons_of_mem b hq)
    obtain ⟨fuel, rfl⟩ := Nat.exists_eq_add_of_lt hfuel
    rw [hw.1, search, if_neg hb, if_neg (hne b mem_cons_self)]
    rw [length_cons]
    exact hsearch _ (by omega)

lemma search_none : ∀ w a, Walk s.mem a (w ++ [s.freep]) → (∀ y ∈ w, y ≠ s.freep) →
    (∀ y ∈ w, (s.mem y).size < n) →
    ∃ q, search n (fuel + w.length) s a (s.mem a).ptr = search n fuel s q s.freep := by
  intro w
  induction w with
  | nil =>
    intro a hw _ _
    exact ⟨a, by rw [hw.1]; rfl⟩
  | cons b w ih =>
    intro a hw hne hall
    obtain ⟨q, hq⟩ := ih b hw.2 (fun y hy => hne y (mem_cons_of_mem b hy))
      (fun y hy => hall y (mem_cons_of_mem b hy))
    have hb := hall b mem_cons_self
    refine ⟨q, ?_⟩
    rw [length_cons, ← add_assoc, hw.1, search, if_neg (Nat.not_le_of_lt hb),
      if_neg (hne b mem_cons_self)]
    exact hq

lemma search_more {q k : Nat} {s' : State} (hsize : (s.mem s.freep).size < n)
    (hmore : morecore fuel s n = some (s', k)) : search n (fuel + 1) s q s.freep =
      if k = 0 then some (s', 0) else search n fuel s' k (s'.mem k).ptr := by
  rw [search, if_neg (Nat.not_le_of_lt hsize), if_pos rfl, hmore]
  cases k <;> rfl
end Search
end Xv6.Umalloc
