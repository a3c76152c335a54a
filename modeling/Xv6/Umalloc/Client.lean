import Xv6.Umalloc.Heap

namespace Xv6.Umalloc
open Xv6.Umalloc.Block List
variable {base top n : Nat} {mem : Nat → Header} {answers : List (Option Nat)} {s : State}
  {c c' : Client} {op : Op} {e : Nat × Nat} {live : List (Nat × Nat)}

def blockOf (e : Nat × Nat) : Block := ⟨e.1 - 16, nunits e.2⟩

structure WellFormed (base : Nat) (c : Client) : Prop where
  heap : c.heap.freep = 0 ∧ c.heap.regions = [] ∧ c.live = [] ∧ base < c.heap.top ∨
    ∃ ns, Ring base c.heap ns (c.live.map blockOf)
  usable : ∀ e ∈ c.live, 16 ≤ e.1 ∧ e.1 + e.2 ≤ (blockOf e).stop
  aligned : (∀ t ∈ c.heap.regions, t.addr % 16 = 0) → ∀ e ∈ c.live, e.1 % 16 = 0
  small : units c.heap.regions < 2 ^ 32

def Room (c : Client) : Op → Prop
  | .malloc nbytes => units c.heap.regions + max 4096 (nunits nbytes) < 2 ^ 32
  | .free _ => True

def Returns (base : Nat) (c : Client) (op : Op) (c' : Client) : Prop :=
  ∃ N, ∀ fuel, N ≤ fuel → step base fuel c op = some c'

lemma Returns.unique {c1 c2 : Client} (h1 : Returns base c op c1) (h2 : Returns base c op c2) :
    c1 = c2 := by
  obtain ⟨N1, h1⟩ := h1
  obtain ⟨N2, h2⟩ := h2
  have := h1 _ (Nat.le_max_left N1 N2)
  rw [h2 _ (Nat.le_max_right N1 N2)] at this
  exact (Option.some.inj this).symm

lemma nunits_usable (hn : n < 2 ^ 32) : n + 16 ≤ 16 * nunits n := by
  have hwrap : (n + 16 - 1) / 16 + 1 < 2 ^ 32 := by omega
  rw [nunits, uint, Nat.mod_eq_of_lt hwrap]
  omega

lemma wellFormed_of_ring {ns : List Block} (h : Ring base s ns (live.map blockOf))
    (hlive : ∀ e ∈ live, 16 ≤ e.1 ∧ e.1 + e.2 ≤ (blockOf e).stop)
    (hsmall : units s.regions < 2 ^ 32) : WellFormed base ⟨s, live⟩ where
  heap := .inr ⟨ns, h⟩
  usable := hlive
  aligned := by
    intro ht e he
    have hmem : blockOf e ∈ live.map blockOf := mem_map_of_mem he
    have hmod := h.aligned ht (blockOf e) (mem_append_right ns hmem) (h.above _ hmem)
    have := (hlive e he).1
    unfold blockOf at hmod
    dsimp only at hmod
    omega
  small := hsmall

lemma ring_first (htop : base < s.top) (hregions : s.regions = []) :
    Ring base { s with mem := Function.update s.mem base ⟨base, 0⟩, freep := base }
      [⟨base, 0⟩] [] where
  head := rfl
  linked := ⟨Function.update_self _ _ _, trivial⟩
  sorted := pairwise_singleton _ _
  freep := ⟨⟨base, 0⟩, mem_singleton_self _, rfl⟩
  size := fun u hu => absurd hu not_mem_nil
  pos := by
    intro b hb hlt
    cases mem_singleton.mp hb
    exact absurd hlt (lt_irrefl _)
  above := fun u hu => absurd hu not_mem_nil
  below := by
    intro b hb
    cases mem_singleton.mp hb
    exact le_of_lt htop
  apart := .nil
  free_apart := fun b _ u hu => absurd hu not_mem_nil
  cover := by
    intro x
    have hno : ¬(⟨base, 0⟩ : Block).Has x := fun h => lt_irrefl _ (lt_of_le_of_lt h.1 h.2)
    simp [hregions, hno]
  total := by
    rw [hregions]
    rfl
  top := htop
  aligned := by
    intro _ b hb hlt
    cases mem_singleton.mp hb
    exact absurd hlt (lt_irrefl _)

def prepared (base : Nat) (s : State) : State :=
  if s.freep = 0 then
    { s with mem := Function.update s.mem base ⟨base, 0⟩, freep := base } else s

section
variable (h : WellFormed base c)
include h

lemma WellFormed.prepared (hbase : 0 < base) :
    ∃ ns, Ring base (prepared base c.heap) ns (c.live.map blockOf) ∧
      (Umalloc.prepared base c.heap).regions = c.heap.regions := by
  unfold Umalloc.prepared
  rcases h.heap with ⟨hfreep, hregions, hlive, htop⟩ | ⟨ns, hring⟩
  · rw [if_pos hfreep, hlive]
    exact ⟨[⟨base, 0⟩], ring_first htop hregions, rfl⟩
  rw [if_neg (hring.freep_ne hbase)]
  exact ⟨ns, hring, rfl⟩

lemma WellFormed.malloc (hbase : 0 < base) {nbytes : Nat} (hallowed : Allowed c (.malloc nbytes))
    (hroom : Room c (.malloc nbytes)) :
    ∃ c', Returns base c (.malloc nbytes) c' ∧ WellFormed base c' := by
  obtain ⟨ns, hring, hregions⟩ := h.prepared hbase
  have husable := nunits_usable hallowed.1
  obtain ⟨s', p, ns', N, hsearch, hresult, hsmall⟩ := hring.search (n := nunits nbytes) hbase
    (by omega) (by rwa [hregions])
  refine ⟨⟨s', if p = 0 then c.live else (p, nbytes) :: c.live⟩, ⟨N, fun fuel hfuel => ?_⟩, ?_⟩
  · have hmalloc : Umalloc.malloc base fuel c.heap nbytes = some (s', p) := hsearch fuel hfuel
    rw [step, hmalloc]
    rfl
  rcases hresult with ⟨rfl, hring'⟩ | ⟨u, rfl, hu, hring'⟩
  · rw [if_pos rfl]
    exact wellFormed_of_ring hring' h.usable hsmall
  rw [if_neg (Nat.succ_ne_zero _)]
  have hblock : blockOf (u.addr + 16, nbytes) = u := by
    unfold blockOf
    rw [Nat.add_sub_cancel, ← hu]
  have hlive : Ring base s' ns' (((u.addr + 16, nbytes) :: c.live).map blockOf) := by
    rwa [map_cons, hblock]
  refine wellFormed_of_ring hlive (fun e he => ?_) hsmall
  · rcases mem_cons.mp he with rfl | he
    · rw [hblock]
      unfold Block.stop
      dsimp only
      omega
    exact h.usable e he

lemma WellFormed.free {ap : Nat} (hallowed : Allowed c (.free ap)) :
    ∃ c', Returns base c (.free ap) c' ∧ WellFormed base c' := by
  obtain ⟨e, he, rfl⟩ := hallowed
  rcases h.heap with ⟨-, -, hlive, -⟩ | ⟨ns, hring⟩
  · rw [hlive] at he
    exact absurd he not_mem_nil
  obtain ⟨l, r, hsplit⟩ := append_of_mem he
  have hperm : (c.live.map blockOf).Perm (blockOf e :: (l ++ r).map blockOf) := by
    rw [hsplit, ← map_cons]
    exact perm_middle.map blockOf
  have hring' := hring.perm hperm
  have hap : e.1 = (blockOf e).addr + 16 := (Nat.sub_add_cancel (h.usable e he).1).symm
  have hother : ∀ d ∈ l ++ r, d.1 ≠ e.1 := by
    intro d hd heq
    have hmem : blockOf d ∈ (l ++ r).map blockOf := mem_map_of_mem hd
    have hapart := (pairwise_cons.mp hring'.apart).1 _ hmem
    have haddr := Disjoint.addr_ne hapart (hring'.used_pos mem_cons_self)
      (hring'.used_pos (.tail _ hmem))
    exact haddr (by rw [blockOf, blockOf, heq])
  have hfilter : (c.live.filter fun d => d.1 ≠ e.1) = l ++ r := by
    rw [hsplit, filter_append, filter_cons_of_neg (by simp), ← filter_append]
    exact filter_eq_self.mpr fun d hd => by simpa using hother d hd
  obtain ⟨s', ns', hfree, hring'', -, hregions⟩ := hring'.free h.small
  refine ⟨⟨s', l ++ r⟩, ⟨2 * ns.length + 1, fun fuel hfuel => ?_⟩, ?_⟩
  · rw [step, hfilter, hap, hfree fuel hfuel]
    rfl
  refine wellFormed_of_ring hring'' (fun d hd => h.usable d ?_) (by rw [hregions]; exact h.small)
  rw [hsplit]
  simp only [mem_append, mem_cons] at hd ⊢
  tauto

lemma WellFormed.step (hbase : 0 < base) (hallowed : Allowed c op) (hroom : Room c op) :
    ∃ c', Returns base c op c' ∧ WellFormed base c' := by
  cases op with
  | malloc nbytes => exact h.malloc hbase hallowed hroom
  | free ap => exact h.free hallowed
end

inductive Reachable (base : Nat) (c0 : Client) : Client → Prop where
  | start : Reachable base c0 c0
  | step {c c' : Client} {op : Op} : Reachable base c0 c → Allowed c op → Room c op →
      Returns base c op c' →
    Reachable base c0 c'

theorem heap_wellFormed (hbase : 0 < base) (htop : base < top)
    (h : Reachable base (start mem top answers) c) :
    WellFormed base c ∧ ∀ op, Allowed c op → Room c op → ∃ c', Returns base c op c' := by
  have hc : WellFormed base c := by
    induction h with
    | start => exact ⟨.inl ⟨rfl, rfl, rfl, htop⟩, by simp [start], by simp [start],
      Nat.two_pow_pos 32⟩
    | step _ hallowed hroom hreturns ih =>
      obtain ⟨c1, hc1, hwf⟩ := ih.step hbase hallowed hroom
      rwa [hreturns.unique hc1]
  refine ⟨hc, fun op hallowed hroom => ?_⟩
  obtain ⟨c', hc', -⟩ := hc.step hbase hallowed hroom
  exact ⟨c', hc'⟩

theorem heap_wellFormed_malloc : ∃ c,
    Returns 16 (start (fun _ => ⟨0, 0⟩) 48 [some 48]) (.malloc 20) c ∧ WellFormed 16 c := by
  have hallowed : Allowed (start (fun _ => ⟨0, 0⟩) 48 [some 48]) (.malloc 20) := by
    refine ⟨?_, ?_⟩ <;> decide
  have hroom : Room (start (fun _ => ⟨0, 0⟩) 48 [some 48]) (.malloc 20) := by
    show units [] + max 4096 (nunits 20) < 2 ^ 32
    decide
  have hbase : 0 < 16 := by decide
  have htop : 16 < 48 := by decide
  obtain ⟨c, hc⟩ := (heap_wellFormed hbase htop .start).2 _ hallowed hroom
  exact ⟨c, hc, (heap_wellFormed hbase htop (.step .start hallowed hroom hc)).1⟩

theorem heap_not_wellFormed :
    ((Lib.run (step 16 9) (start (fun _ => ⟨0, 0⟩) 33 [some 33]) [.malloc 1]).map fun c =>
      c.live.map fun e => e.1 % 16) = some [1] ∧
    (Lib.run (step 16 9)
      (start (fun _ => ⟨0, 0⟩) 48 ((range 33).map fun i => some (48 + i * (2 ^ 31 - 16))))
      (replicate 33 (.malloc (2 ^ 31 - 32)) ++
        (range 33).map fun i => .free (64 + i * (2 ^ 31 - 16)))).map
      (fun c => (c.live, c.heap.mem 16, c.heap.mem 48, units c.heap.regions)) =
      some ([], ⟨48, 0⟩, ⟨16, 134217695⟩, 4429184991) := by
  decide +kernel
end Xv6.Umalloc
