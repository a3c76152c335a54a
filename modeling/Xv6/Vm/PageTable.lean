import Xv6.Lib.Radix
import Xv6.Vm.Memory

namespace Xv6.Vm
open Lib

def walkLevel (pagetable : Nat) (i : Fin 512) (alloc : Bool) : VmM (Option Nat) := do
  let pte ← readPte pagetable i
  if pte.testBit 0 then return some (pte2pa pte)
  else if alloc = false then return none
  else
    let r ← kalloc
    match r with
    | none => return none
    | some pg =>
      memset pg 0
      writePte pagetable i (pa2pte pg ||| pteV)
      return some pg

def walkLoop (va : Nat) (alloc : Bool) : Nat → Nat → VmM (Option Nat)
  | 0, pagetable => return some pagetable
  | level + 1, pagetable => do
    let r ← walkLevel pagetable (px (level + 1) va) alloc
    match r with
    | none => return none
    | some pagetable => walkLoop va alloc level pagetable

def walk (pagetable va : Nat) (alloc : Bool) : VmM (Option (Nat × Fin 512)) := do
  if maxva ≤ va then throw .walk
  else
    let r ← walkLoop va alloc 2 pagetable
    return r.map fun t => (t, px 0 va)

def walkaddr (pagetable va : Nat) : VmM Nat := do
  if maxva ≤ va then return 0
  else
    let r ← walk pagetable va false
    match r with
    | none => return 0
    | some (t, i) =>
      let pte ← readPte t i
      if pte.testBit 0 = false then return 0
      else if pte.testBit 4 = false then return 0
      else return pte2pa pte

def mapLoop (pagetable last perm : Nat) : Nat → Nat → Nat → VmM Int
  | 0, _, _ => return 0
  | n + 1, a, pa => do
    let r ← walk pagetable a true
    match r with
    | none => return -1
    | some (t, i) =>
      let pte ← readPte t i
      if pte.testBit 0 then throw .remap
      else
        writePte t i (pa2pte pa ||| perm ||| pteV)
        if a = last then return 0
        else mapLoop pagetable last perm n ((a + pgsize) % 2 ^ 64) ((pa + pgsize) % 2 ^ 64)

def mappages (pagetable va size pa perm : Nat) : VmM Int := do
  if va % pgsize ≠ 0 then throw .mappagesVa
  else if size % pgsize ≠ 0 then throw .mappagesSize
  else if size = 0 then throw .mappagesZero
  else mapLoop pagetable ((va + size - pgsize) % 2 ^ 64) perm (size / pgsize) va pa

def uvmcreate : VmM (Option Nat) := do
  let r ← kalloc
  match r with
  | none => return none
  | some pagetable =>
    memset pagetable 0
    return some pagetable

variable (kend : Nat)

def unmapOne (pagetable a : Nat) (doFree : Bool) : VmM Unit := do
  let r ← walk pagetable a false
  match r with
  | none => return ()
  | some (t, i) =>
    let pte ← readPte t i
    if pte.testBit 0 = false then return ()
    else
      (if doFree then kfree kend (pte2pa pte) else pure ())
      writePte t i 0

def unmapLoop (pagetable last : Nat) (doFree : Bool) : Nat → Nat → VmM Unit
  | 0, _ => return ()
  | n + 1, a => do
    if a < last then
      unmapOne kend pagetable a doFree
      unmapLoop pagetable last doFree n (a + pgsize)
    else return ()

def uvmunmap (pagetable va npages : Nat) (doFree : Bool) : VmM Unit := do
  if va % pgsize ≠ 0 then throw .uvmunmap
  else
    let last := (va + npages * pgsize) % 2 ^ 64
    unmapLoop kend pagetable last doFree ((last - va) / pgsize) va

namespace Mem
def next (m : Mem) (t : Nat) (i : Fin 512) : Option Nat :=
  if (m.entry t i).testBit 0 then some (pte2pa (m.entry t i)) else none

def leaf (m : Mem) (t : Nat) (i : Fin 512) : Option (Nat × Nat) :=
  if (m.entry t i).testBit 0 then some (pte2pa (m.entry t i), pteFlags (m.entry t i)) else none

def lookup (m : Mem) (root : Nat) (q : List (Fin 512)) (j : Fin 512) : Option (Nat × Nat) :=
  Lib.lookup m.next m.leaf root q j
end Mem

def indices (va : Nat) : Nat → List (Fin 512)
  | 0 => []
  | level + 1 => px (level + 1) va :: indices va level

def Mem.map (m : Mem) (root va : Nat) : Option (Nat × Nat) :=
  m.lookup root (indices va 2) (px 0 va)

lemma length_indices (va level : Nat) : (indices va level).length = level := by
  induction level with
  | zero => rfl
  | succ level ih => rw [indices, List.length_cons, ih]

structure Page (va : Nat) : Prop where
  aligned : va % pgsize = 0
  below : va < 2 ^ 39

lemma Page.eq_of_indices {va va' : Nat} (h : Page va) (h' : Page va')
    (hp : indices va 2 = indices va' 2) (h0 : px 0 va = px 0 va') : va = va' := by
  simp only [indices, List.cons.injEq, px, Fin.mk.injEq] at hp h0
  have h1 := h.aligned
  have h2 := h'.aligned
  have h3 := h.below
  have h4 := h'.below
  rw [pgsize_eq] at h1 h2
  omega

lemma exists_page {q : List (Fin 512)} (hq : q.length = 2) (j : Fin 512) :
    ∃ va, Page va ∧ indices va 2 = q ∧ px 0 va = j := by
  obtain ⟨i2, i1, rfl⟩ := List.length_eq_two.mp hq
  have h2 := i2.isLt
  have h1 := i1.isLt
  have h0 := j.isLt
  refine ⟨i2.val * 2 ^ 30 + i1.val * 2 ^ 21 + j.val * 2 ^ 12, ⟨?_, ?_⟩, ?_, ?_⟩
  · rw [pgsize_eq]
    omega
  · omega
  · simp only [indices, px, List.cons.injEq, and_true]
    constructor <;> apply Fin.ext <;> simp only <;> omega
  apply Fin.ext
  simp only [px]
  omega

/-- The tables form a tree of pages in use. -/
structure Paged (kend : Nat) (m : Mem) (root : Nat) : Prop where
  tree : Tree m.next root 2
  inner : ∀ t i, Reached m.next root 1 t → (m.entry t i).testBit 0 →
    isLeaf (m.entry t i) = false
  page : ∀ t, Reached m.next root 2 t → Ram kend t
  used : ∀ t, Reached m.next root 2 t → t ∉ m.freelist
  freeRam : ∀ t ∈ m.freelist, Ram kend t
  nodup : m.freelist.Nodup

structure Becomes (kend root : Nat) (D : Nat → Prop) (m m' : Mem)
    (f : Nat → Option (Nat × Nat)) : Prop where
  paged : Paged kend m' root
  map : ∀ va, Page va → m'.map root va = f va
  mono : ∀ q t, q.length ≤ 2 → follow m.next root q = some t → follow m'.next root q = some t
  pages : ∀ t, Reached m'.next root 2 t ∨ t ∈ m'.freelist ↔
    Reached m.next root 2 t ∨ t ∈ m.freelist ∨ D t
  byte : ∀ a, ¬Reached m.next root 2 (pgrounddown a) → pgrounddown a ∉ m.freelist →
    ¬D (pgrounddown a) → m'.byte a = m.byte a

abbrev Grown (kend root : Nat) (m m' : Mem) : Prop :=
  Becomes kend root (fun _ => False) m m' (m.map root)

variable {kend} {m m' m'' : Mem} {root : Nat} {D D' : Nat → Prop} {f g : Nat → Option (Nat × Nat)}

lemma Paged.grown (h : Paged kend m root) : Grown kend root m m :=
  ⟨h, fun _ _ => rfl, fun _ _ _ ht => ht, fun _ => by simp, fun _ _ _ _ => rfl⟩

lemma Paged.asked (h : Paged kend m root) : Grown kend root m m.asked :=
  ⟨⟨h.tree, h.inner, h.page, h.used, h.freeRam, h.nodup⟩, fun _ _ => rfl, fun _ _ _ ht => ht,
    fun _ => by rw [or_false]; exact Iff.rfl, fun _ _ _ _ => rfl⟩

lemma Becomes.congr (h : Becomes kend root D m m' f) (hfg : ∀ va, Page va → g va = f va)
    (hD : ∀ t, D' t ↔ D t) : Becomes kend root D' m m' g where
  paged := h.paged
  map va hva := by rw [h.map va hva, hfg va hva]
  mono := h.mono
  pages t := by rw [h.pages, hD]
  byte a h1 h2 h3 := h.byte a h1 h2 (fun hd => h3 ((hD _).mpr hd))

lemma Becomes.trans (h : Becomes kend root D m m' f) (h' : Becomes kend root D' m' m'' g) :
    Becomes kend root (fun t => D t ∨ D' t) m m'' g where
  paged := h'.paged
  map := h'.map
  mono q t hq ht := h'.mono q t hq (h.mono q t hq ht)
  pages t := by
    rw [h'.pages, ← or_assoc, h.pages]
    tauto
  byte a h1 h2 h3 := by
    have hn : ¬(Reached m'.next root 2 (pgrounddown a) ∨ pgrounddown a ∈ m'.freelist) := by
      rw [h.pages]
      tauto
    rw [h'.byte a (fun hr => hn (.inl hr)) (fun hf => hn (.inr hf)) (fun hd => h3 (.inr hd)),
      h.byte a h1 h2 (fun hd => h3 (.inl hd))]
end Xv6.Vm
