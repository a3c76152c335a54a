import Mathlib
import Xv6.Lib.Bytes
import Xv6.Lib.Wp

namespace Xv6.Vm
open Lib

def pgsize : Nat := 4096
def maxva : Nat := 2 ^ 38
def trampoline : Nat := maxva - pgsize
def trapframe : Nat := trampoline - pgsize
def phystop : Nat := 0x88000000
lemma pgsize_eq : pgsize = 4096 := rfl
lemma mod_pgsize_lt (a : Nat) : a % pgsize < pgsize := Nat.mod_lt a (by decide)
lemma maxva_eq : maxva = 274877906944 := rfl
lemma trampoline_eq : trampoline = 274877902848 := rfl
lemma trapframe_eq : trapframe = 274877898752 := rfl
lemma phystop_eq : phystop = 2281701376 := rfl
def pgroundup (sz : Nat) : Nat := (sz + (pgsize - 1)) % 2 ^ 64 / pgsize * pgsize
def pgrounddown (a : Nat) : Nat := a / pgsize * pgsize
def px (level va : Nat) : Fin 512 := ⟨va / 2 ^ (12 + 9 * level) % 512, Nat.mod_lt _ (by decide)⟩
def pa2pte (pa : Nat) : Nat := (pa >>> 12) <<< 10
def pte2pa (pte : Nat) : Nat := (pte >>> 10) <<< 12 % 2 ^ 64
def pteFlags (pte : Nat) : Nat := pte % 2 ^ 10
def pteV : Nat := 1
def pteR : Nat := 2
def pteW : Nat := 4
def pteX : Nat := 8
def pteU : Nat := 16
def isLeaf (pte : Nat) : Bool := pte.testBit 1 || pte.testBit 2 || pte.testBit 3

variable {pa flags : Nat}

lemma pa2pte_or (hf : flags < 2 ^ 10) : pa2pte pa ||| flags = pa / 2 ^ 12 * 2 ^ 10 + flags := by
  rw [pa2pte, ← Nat.shiftLeft_add_eq_or_of_lt hf, Nat.shiftRight_eq_div_pow, Nat.shiftLeft_eq]

lemma pteFlags_or (hf : flags < 2 ^ 10) : pteFlags (pa2pte pa ||| flags) = flags := by
  rw [pa2pte_or hf, pteFlags]
  omega

lemma pte2pa_or (hpa : pa % pgsize = 0) (hlt : pa < 2 ^ 56)
    (hf : flags < 2 ^ 10) : pte2pa (pa2pte pa ||| flags) = pa := by
  rw [pa2pte_or hf, pte2pa, Nat.shiftRight_eq_div_pow, Nat.shiftLeft_eq]
  rw [pgsize_eq] at hpa
  omega

lemma pa2pte_or_lt (hlt : pa < 2 ^ 56) (hf : flags < 2 ^ 10) : pa2pte pa ||| flags < 2 ^ 64 := by
  rw [pa2pte_or hf]
  omega

lemma testBit_pteFlags {pte i : Nat} (hi : i < 10) : (pteFlags pte).testBit i = pte.testBit i :=
    by
  rw [pteFlags, Nat.testBit_mod_two_pow]
  simp [hi]

lemma testBit_or {pa flags i : Nat} (hf : flags < 2 ^ 10) (hi : i < 10) :
    (pa2pte pa ||| flags).testBit i = flags.testBit i := by
  rw [← testBit_pteFlags hi, pteFlags_or hf]

inductive Panic where
  | walk
  | mappagesVa
  | mappagesSize
  | mappagesZero
  | remap
  | uvmunmap
  | kfree
  | freewalkLeaf
  | uvmclear
  | kerneltrap
  | stack
  | loadseg
  deriving DecidableEq

/-- Physical memory and the free list. -/
structure Mem where
  byte : Nat → UInt8
  freelist : List Nat
  /-- Which of the next calls of `kalloc` fail. -/
  deny : List Bool := []

abbrev VmM := StateT Mem (Except Panic)

namespace Mem
def fill (m : Mem) (pa : Nat) (c : UInt8) : Mem :=
  { m with byte := fun a => if pa ≤ a ∧ a < pa + pgsize then c else m.byte a }

def entry (m : Mem) (t : Nat) (i : Fin 512) : Nat := getLE m.byte (t + 8 * i.val) 8

def setEntry (m : Mem) (t : Nat) (i : Fin 512) (pte : Nat) : Mem :=
  { m with byte := setLE m.byte (t + 8 * i.val) 8 pte }
end Mem

def memset (pa : Nat) (c : UInt8) : VmM Unit := modify fun m => m.fill pa c
def readPte (t : Nat) (i : Fin 512) : VmM Nat := do return (← get).entry t i
def writePte (t : Nat) (i : Fin 512) (pte : Nat) : VmM Unit := modify fun m => m.setEntry t i pte

def kalloc : VmM (Option Nat) := do
  let m ← get
  modify fun m => { m with deny := m.deny.tail }
  if m.deny.headD false then return none
  else
    match m.freelist with
    | [] => return none
    | r :: rest =>
      modify fun m => { m with freelist := rest }
      memset r 5
      return some r

variable (kend : Nat)

def kfree (pa : Nat) : VmM Unit := do
  if pa % pgsize ≠ 0 ∨ pa < kend ∨ phystop ≤ pa then throw .kfree
  else
    memset pa 1
    modify fun m => { m with freelist := pa :: m.freelist }

structure Ram (t : Nat) : Prop where
  aligned : t % pgsize = 0
  above : kend ≤ t
  below : t < phystop

variable {kend} {m m' : Mem} {t u pa : Nat} {i j : Fin 512} {pte : Nat} {c : UInt8}
  {E : Panic → Prop} {Q : Unit → Mem → Prop}

lemma Ram.lt_two_pow (h : Ram kend t) : t < 2 ^ 56 := by
  have := h.below
  rw [phystop_eq] at this
  omega

lemma disjoint_of_ne (ht : t % pgsize = 0) (hu : u % pgsize = 0) (hne : u ≠ t) :
    u + pgsize ≤ t ∨ t + pgsize ≤ u := by
  rw [pgsize_eq] at *
  omega

namespace Mem
lemma entry_lt : m.entry t i < 2 ^ 64 := getLE_lt _ _ 8

lemma entry_congr (h : ∀ a, t ≤ a → a < t + pgsize → m'.byte a = m.byte a) :
    m'.entry t i = m.entry t i := by
  have hi := i.isLt
  refine getLE_congr fun a h1 h2 => h a (by omega) ?_
  rw [pgsize_eq]
  omega

lemma entry_setEntry (ht : t % pgsize = 0) (hu : u % pgsize = 0) (hpte : pte < 2 ^ 64) :
    (m.setEntry t i pte).entry u j = if u = t ∧ j = i then pte else m.entry u j := by
  have hi := i.isLt
  have hj := j.isLt
  by_cases hut : u = t
  · by_cases hij : j = i
    · rw [if_pos ⟨hut, hij⟩, hut, hij]
      exact getLE_setLE hpte
    · rw [if_neg (fun h => hij h.2), hut]
      have hne : j.val ≠ i.val := fun h => hij (Fin.ext h)
      exact getLE_setLE_of_disjoint (by omega)
  rw [if_neg (fun h => hut h.1)]
  have hd := disjoint_of_ne ht hu hut
  rw [pgsize_eq] at hd
  exact getLE_setLE_of_disjoint (by omega)

lemma byte_setEntry (h : a < t ∨ t + pgsize ≤ a) : (m.setEntry t i pte).byte a = m.byte a := by
  have hi := i.isLt
  rw [pgsize_eq] at h
  exact setLE_outside (by omega)

lemma byte_fill (h : a < t ∨ t + pgsize ≤ a) : (m.fill t c).byte a = m.byte a := by
  have hn : ¬(t ≤ a ∧ a < t + pgsize) := by omega
  show (if t ≤ a ∧ a < t + pgsize then c else m.byte a) = _
  rw [if_neg hn]

lemma entry_fill_of_ne (ht : t % pgsize = 0) (hu : u % pgsize = 0) (hne : u ≠ t) :
    (m.fill t c).entry u j = m.entry u j := by
  have hd := disjoint_of_ne ht hu hne
  exact entry_congr fun a h1 h2 => byte_fill (by omega)

lemma entry_fill_zero : (m.fill t 0).entry t j = 0 := by
  have hj := j.isLt
  have hz : (m.fill t 0).entry t j = getLE (fun _ => 0) (t + 8 * j.val) 8 := by
    refine getLE_congr fun a h1 h2 => ?_
    show (if t ≤ a ∧ a < t + pgsize then 0 else m.byte a) = 0
    rw [if_pos (by rw [pgsize_eq]; omega)]
  rw [hz]
  rfl
end Mem

@[simp] lemma wp_memset : wp (memset pa c) m Q E ↔ Q () (m.fill pa c) := wp_modify

@[simp] lemma wp_readPte {Q : Nat → Mem → Prop} : wp (readPte t i) m Q E ↔ Q (m.entry t i) m := by
  simp [readPte]

@[simp] lemma wp_writePte : wp (writePte t i pte) m Q E ↔ Q () (m.setEntry t i pte) := wp_modify

def Mem.asked (m : Mem) : Mem := { m with deny := m.deny.tail }

def Mem.taken (m : Mem) (r : Nat) (rest : List Nat) : Mem :=
  { m.asked with freelist := rest }.fill r 5

lemma wp_kalloc {Q : Option Nat → Mem → Prop}
    (hnone : m.deny.headD false ∨ m.freelist = [] → Q none m.asked)
    (hsome : ∀ r rest, m.freelist = r :: rest → Q (some r) (m.taken r rest)) :
    wp kalloc m Q E := by
  unfold kalloc
  rw [wp_bind, wp_get, wp_bind, wp_modify]
  cases hd : m.deny.headD false with
  | true =>
    rw [if_pos rfl, wp_pure]
    exact hnone (.inl hd)
  | false =>
    rw [if_neg (by simp)]
    cases hf : m.freelist with
    | nil =>
      have hn := hnone (.inr hf)
      rw [Mem.asked, hf] at hn
      exact wp_pure.mpr hn
    | cons r rest =>
      simp only [wp_bind, wp_modify, wp_memset, wp_pure]
      exact hsome r rest hf

def Mem.freed (m : Mem) (pa : Nat) : Mem :=
  { m.fill pa 1 with freelist := pa :: m.freelist }

lemma wp_kfree (h : Ram kend pa) : wp (kfree kend pa) m Q E ↔ Q () (m.freed pa) := by
  have hn : ¬(pa % pgsize ≠ 0 ∨ pa < kend ∨ phystop ≤ pa) := by
    have h1 := h.aligned
    have h2 := h.above
    have h3 := h.below
    omega
  unfold kfree
  rw [if_neg hn]
  simp only [wp_bind, wp_modify, wp_memset]
  exact Iff.rfl
end Xv6.Vm
