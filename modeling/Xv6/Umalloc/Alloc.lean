import Xv6.Lib.Machine

namespace Xv6.Umalloc
open Function

structure Header where
  ptr : Nat
  size : Nat
  deriving DecidableEq

structure Block where
  addr : Nat
  size : Nat
  deriving DecidableEq

structure State where
  mem : Nat → Header
  freep : Nat
  answers : List (Option Nat)
  top : Nat
  regions : List Block

def uint (n : Nat) : Nat := n % 2 ^ 32

def findPrev (mem : Nat → Header) (bp : Nat) : Nat → Nat → Option Nat
  | 0, _ => none
  | fuel + 1, p =>
    if p < bp ∧ bp < (mem p).ptr then some p
    else if (mem p).ptr ≤ p ∧ (p < bp ∨ bp < (mem p).ptr) then some p
    else findPrev mem bp fuel (mem p).ptr

def link (mem : Nat → Header) (x nx : Nat) : Nat → Header :=
  if x + 16 * (mem x).size = nx then
    update mem x ⟨(mem nx).ptr, uint ((mem x).size + (mem nx).size)⟩
  else update mem x ⟨nx, (mem x).size⟩

def free (fuel : Nat) (s : State) (ap : Nat) : Option State :=
  let bp := ap - 16
  (findPrev s.mem bp fuel s.freep).map fun p =>
    { s with mem := link (link s.mem bp (s.mem p).ptr) p bp, freep := p }

def sbrk (s : State) (bytes : Nat) : Option Nat × State :=
  match s.answers with
  | some a :: rest =>
    if s.top ≤ a then (some a, { s with answers := rest, top := a + bytes })
    else (none, { s with answers := rest })
  | none :: rest => (none, { s with answers := rest })
  | [] => (none, s)

def morecore (fuel : Nat) (s : State) (nu : Nat) : Option (State × Nat) :=
  let nu := if nu < 4096 then 4096 else nu
  match sbrk s (nu * 16) with
  | (none, s) => some (s, 0)
  | (some hp, s) =>
    let s := { s with
      mem := update s.mem hp { s.mem hp with size := nu }
      regions := ⟨hp, nu⟩ :: s.regions }
    (free fuel s (hp + 16)).map fun s => (s, s.freep)

def take (s : State) (nunits prevp p : Nat) : State × Nat :=
  if (s.mem p).size = nunits then
    ({ s with
        mem := update s.mem prevp { s.mem prevp with ptr := (s.mem p).ptr }
        freep := prevp }, p + 16)
  else
    let mem := update s.mem p { s.mem p with size := uint ((s.mem p).size - nunits) }
    let q := p + 16 * (mem p).size
    ({ s with mem := update mem q { mem q with size := nunits }, freep := prevp }, q + 16)

def search (nunits : Nat) : Nat → State → Nat → Nat → Option (State × Nat)
  | 0, _, _, _ => none
  | fuel + 1, s, prevp, p =>
    if nunits ≤ (s.mem p).size then some (take s nunits prevp p)
    else if p = s.freep then
      match morecore fuel s nunits with
      | none => none
      | some (s, 0) => some (s, 0)
      | some (s, p) => search nunits fuel s p (s.mem p).ptr
    else search nunits fuel s p (s.mem p).ptr

def nunits (nbytes : Nat) : Nat := uint ((nbytes + 16 - 1) / 16 + 1)

variable (base : Nat)

def malloc (fuel : Nat) (s : State) (nbytes : Nat) : Option (State × Nat) :=
  let s := if s.freep = 0 then
    { s with mem := update s.mem base ⟨base, 0⟩, freep := base } else s
  search (nunits nbytes) fuel s s.freep (s.mem s.freep).ptr

structure Client where
  heap : State
  live : List (Nat × Nat)

inductive Op where
  | malloc (nbytes : Nat)
  | free (ap : Nat)
  deriving DecidableEq

def step (fuel : Nat) (c : Client) : Op → Option Client
  | .malloc nbytes => (malloc base fuel c.heap nbytes).map fun r =>
    { heap := r.1, live := if r.2 = 0 then c.live else (r.2, nbytes) :: c.live }
  | .free ap => (free fuel c.heap ap).map fun s =>
    { heap := s, live := c.live.filter fun l => l.1 ≠ ap }

def Allowed (c : Client) : Op → Prop
  | .malloc nbytes => nbytes < 2 ^ 32 ∧ 16 * nunits nbytes < 2 ^ 31
  | .free ap => ∃ l ∈ c.live, l.1 = ap

def start (mem : Nat → Header) (top : Nat) (answers : List (Option Nat)) : Client :=
  ⟨⟨mem, 0, answers, top, []⟩, []⟩
end Xv6.Umalloc
