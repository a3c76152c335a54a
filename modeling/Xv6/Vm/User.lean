import Xv6.Vm.PageTable

namespace Xv6.Vm
structure Proc where
  pagetable : Nat
  sz : Nat
  trapframe : Nat
  deriving DecidableEq

variable (kend : Nat)

def ofInt32 (n : Nat) : Nat := if n % 2 ^ 32 < 2 ^ 31 then n % 2 ^ 32 else n % 2 ^ 32 +
    (2 ^ 64 - 2 ^ 32)

def uvmdealloc (pagetable oldsz newsz : Nat) : VmM Nat := do
  if oldsz ≤ newsz then return oldsz
  else if pgroundup newsz < pgroundup oldsz then
    let npages := ofInt32 ((pgroundup oldsz - pgroundup newsz) / pgsize)
    uvmunmap kend pagetable (pgroundup newsz) npages true
    return newsz
  else return newsz

def uvmallocLoop (pagetable oldsz newsz xperm : Nat) : Nat → Nat → VmM Nat
  | 0, _ => return newsz
  | n + 1, a => do
    if a < newsz then
      let r ← kalloc
      match r with
      | none =>
        let _ ← uvmdealloc kend pagetable a oldsz
        return 0
      | some mem =>
        memset mem 0
        let e ← mappages pagetable a pgsize mem (pteR ||| pteU ||| xperm)
        if e ≠ 0 then
          kfree kend mem
          let _ ← uvmdealloc kend pagetable a oldsz
          return 0
        else uvmallocLoop pagetable oldsz newsz xperm n ((a + pgsize) % 2 ^ 64)
    else return newsz

def uvmalloc (pagetable oldsz newsz xperm : Nat) : VmM Nat := do
  if newsz < oldsz then return oldsz
  else
    uvmallocLoop kend pagetable (pgroundup oldsz) newsz xperm
      ((newsz - pgroundup oldsz + (pgsize - 1)) / pgsize) (pgroundup oldsz)

def freeEntries (pagetable : Nat) (walkChild : Nat → VmM Unit) : List (Fin 512) → VmM Unit
  | [] => return ()
  | i :: is => do
    let pte ← readPte pagetable i
    if pte.testBit 0 && !isLeaf pte then
      walkChild (pte2pa pte)
      writePte pagetable i 0
      freeEntries pagetable walkChild is
    else if pte.testBit 0 then throw .freewalkLeaf
    else freeEntries pagetable walkChild is

def freewalk : Nat → Nat → VmM Unit
  | 0, _ => throw .stack
  | depth + 1, pagetable => do
    freeEntries pagetable (freewalk depth) (List.finRange 512)
    kfree kend pagetable

def uvmfree (pagetable sz : Nat) : VmM Unit := do
  (if 0 < sz then uvmunmap kend pagetable 0 (pgroundup sz / pgsize) true else pure ())
  freewalk kend 4 pagetable

def Mem.copy (m : Mem) (dst src : Nat) : Mem :=
  { m with byte := fun a =>
      if dst ≤ a ∧ a < dst + pgsize then m.byte (src + (a - dst)) else m.byte a }

def copyPage (dst src : Nat) : VmM Unit := modify fun m => m.copy dst src

def uvmcopyLoop (old new sz : Nat) : Nat → Nat → VmM Int
  | 0, _ => return 0
  | n + 1, i => do
    if i < sz then
      let r ← walk old i false
      match r with
      | none => uvmcopyLoop old new sz n (i + pgsize)
      | some (t, j) =>
        let pte ← readPte t j
        if pte.testBit 0 = false then uvmcopyLoop old new sz n (i + pgsize)
        else
          let r ← kalloc
          match r with
          | none =>
            uvmunmap kend new 0 (i / pgsize) true
            return -1
          | some mem =>
            copyPage mem (pte2pa pte)
            let e ← mappages new i pgsize mem (pteFlags pte)
            if e ≠ 0 then
              kfree kend mem
              uvmunmap kend new 0 (i / pgsize) true
              return -1
            else uvmcopyLoop old new sz n (i + pgsize)
    else return 0

def uvmcopy (old new sz : Nat) : VmM Int :=
  uvmcopyLoop kend old new sz ((sz + (pgsize - 1)) / pgsize) 0

def uvmclear (pagetable va : Nat) : VmM Unit := do
  let r ← walk pagetable va false
  match r with
  | none => throw .uvmclear
  | some (t, i) =>
    let pte ← readPte t i
    writePte t i (pte - (pte &&& pteU))

def ismapped (pagetable va : Nat) : VmM Bool := do
  let r ← walk pagetable va false
  match r with
  | none => return false
  | some (t, i) =>
    let pte ← readPte t i
    return pte.testBit 0

def vmfault (p : Proc) (pagetable va : Nat) : VmM Nat := do
  if p.sz ≤ va then return 0
  else
    let b ← ismapped pagetable (pgrounddown va)
    if b then return 0
    else
      let r ← kalloc
      match r with
      | none => return 0
      | some mem =>
        memset mem 0
        let e ← mappages p.pagetable (pgrounddown va) pgsize mem (pteW ||| pteU ||| pteR)
        if e ≠ 0 then
          kfree kend mem
          return 0
        else return mem

def userAddr (p : Proc) (pagetable va0 : Nat) : VmM Nat := do
  let pa0 ← walkaddr pagetable va0
  if pa0 = 0 then vmfault kend p pagetable va0 else return pa0

def poke (pa : Nat) (src : List UInt8) : VmM Unit := modify fun m =>
  { m with byte := fun a => if pa ≤ a ∧ a < pa + src.length then src.getD (a - pa) 0 else m.byte a }

def peek (pa n : Nat) : VmM (List UInt8) := do
  let m ← get
  return (List.range n).map fun i => m.byte (pa + i)

def copyoutLoop (p : Proc) (pagetable : Nat) : Nat → Nat → List UInt8 → VmM Int
  | 0, _, _ => return 0
  | fuel + 1, dstva, src => do
    if src = [] then return 0
    else
      let va0 := pgrounddown dstva
      if maxva ≤ va0 then return -1
      else
        let pa0 ← userAddr kend p pagetable va0
        if pa0 = 0 then return -1
        else
          let r ← walk pagetable va0 false
          match r with
          | none => throw .kerneltrap
          | some (t, i) =>
            let pte ← readPte t i
            if pte.testBit 2 = false then return -1
            else
              let n := min (pgsize - (dstva - va0)) src.length
              poke (pa0 + (dstva - va0)) (src.take n)
              copyoutLoop p pagetable fuel (va0 + pgsize) (src.drop n)

def copyout (p : Proc) (pagetable dstva : Nat) (src : List UInt8) : VmM Int :=
  copyoutLoop kend p pagetable src.length dstva src

def copyinLoop (p : Proc) (pagetable : Nat) : Nat → Nat → Nat → List UInt8 → VmM (Int × List UInt8)
  | 0, _, _, dst => return (0, dst)
  | fuel + 1, srcva, len, dst => do
    if len = 0 then return (0, dst)
    else
      let va0 := pgrounddown srcva
      let pa0 ← userAddr kend p pagetable va0
      if pa0 = 0 then return (-1, dst)
      else
        let n := min (pgsize - (srcva - va0)) len
        let bytes ← peek (pa0 + (srcva - va0)) n
        copyinLoop p pagetable fuel (va0 + pgsize) (len - n) (dst ++ bytes)

def copyin (p : Proc) (pagetable srcva len : Nat) : VmM (Int × List UInt8) :=
  copyinLoop kend p pagetable len srcva len []

def copyinstrLoop (pagetable : Nat) : Nat → Nat → Nat → List UInt8 → VmM (Int × List UInt8)
  | 0, _, _, dst => return (-1, dst)
  | fuel + 1, srcva, max, dst => do
    if max = 0 then return (-1, dst)
    else
      let va0 := pgrounddown srcva
      let pa0 ← walkaddr pagetable va0
      if pa0 = 0 then return (-1, dst)
      else
        let n := min (pgsize - (srcva - va0)) max
        let bytes ← peek (pa0 + (srcva - va0)) n
        if (0 : UInt8) ∈ bytes then return (0, dst ++ bytes.takeWhile (· ≠ 0))
        else copyinstrLoop pagetable fuel (va0 + pgsize) (max - n) (dst ++ bytes)

def copyinstr (pagetable srcva max : Nat) : VmM (Int × List UInt8) :=
  copyinstrLoop pagetable max srcva max []

def addInt (sz : Nat) (n : Int) : Nat := ((sz + n) % 2 ^ 64).toNat

def growproc (p : Proc) (n : Int) : VmM (Int × Proc) := do
  if 0 < n then
    if trapframe < addInt p.sz n then return (-1, p)
    else
      let sz ← uvmalloc kend p.pagetable p.sz (addInt p.sz n) pteW
      if sz = 0 then return (-1, p) else return (0, { p with sz := sz })
  else if n < 0 then
    let sz ← uvmdealloc kend p.pagetable p.sz (addInt p.sz n)
    return (0, { p with sz := sz })
  else return (0, p)

def sbrkEager : Int := 1
def sbrkLazy : Int := 2

def sysSbrk (p : Proc) (n t : Int) : VmM (Int × Proc) := do
  if t = sbrkEager ∨ n < 0 then
    let r ← growproc kend p n
    if r.1 < 0 then return (-1, p) else return (p.sz, r.2)
  else if addInt p.sz n < p.sz then return (-1, p)
  else if trapframe < addInt p.sz n then return (-1, p)
  else return (p.sz, { p with sz := addInt p.sz n })

def userAccess (p : Proc) (va : Nat) (write : Bool) : VmM (Option Nat) := do
  let pte ← (if maxva ≤ va then pure 0 else do
      let r ← walk p.pagetable va false
      match r with
      | none => return 0
      | some (t, i) => readPte t i)
  if pte.testBit 0 && pte.testBit 4 && pte.testBit (if write then 2 else 1) then
    return some (pte2pa pte + va % pgsize)
  else
    let mem ← vmfault kend p p.pagetable va
    if mem = 0 then return none else return some (mem + va % pgsize)

def userLoad (p : Proc) (va : Nat) : VmM (Int × List UInt8) := do
  let r ← userAccess kend p va false
  match r with
  | none => return (-1, [])
  | some pa =>
    let bytes ← peek pa 1
    return (0, bytes)

def userStore (p : Proc) (va : Nat) (b : UInt8) : VmM (Int × List UInt8) := do
  let r ← userAccess kend p va true
  match r with
  | none => return (-1, [])
  | some pa =>
    poke pa [b]
    return (0, [])
end Xv6.Vm
