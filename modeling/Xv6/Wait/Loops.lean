import Xv6.Wait.Pipe

namespace Xv6.Wait
open Lib Monitor Function

def inputBufSize : Nat := 128
def ctrlD : UInt8 := 4
def newline : UInt8 := 10

structure Cons where
  buf : Nat → UInt8
  r : Nat
  w : Nat
  e : Nat

namespace Cons
inductive Chan where
  | r
  deriving DecidableEq

inductive Loc where
  | readLoop (n target : Int)
  | readWait (n target : Int)
  | readKilled (n target : Int)
  | readSleep (n target : Int)
  | readRet (v : Int)
  | intr (c : UInt8)
  | intrKill
  | intrWake
  | intrRet
  deriving DecidableEq

def consume (n target : Int) (copyout : Bool) (d : Cons) : Cons × Loc :=
  let c := d.buf (d.r % inputBufSize)
  let d' := { d with r := (d.r + 1) % 2 ^ 32 }
  if c = ctrlD then (if n < target then d else d', .readRet (target - n))
  else if copyout = false then (d', .readRet (target - n))
  else if c = newline then (d', .readRet (target - (n - 1)))
  else (d', .readLoop (n - 1) target)

def input (c : UInt8) (d : Cons) : Cons × Loc :=
  if c ≠ 0 ∧ (d.e + 2 ^ 32 - d.r) % 2 ^ 32 < inputBufSize then
    let c := if c = 13 then newline else c
    let d' :=
      { d with
        buf := update d.buf (d.e % inputBufSize) c
        e := (d.e + 1) % 2 ^ 32 }
    if c = newline ∨ c = ctrlD ∨ (d'.e + 2 ^ 32 - d'.r) % 2 ^ 32 = inputBufSize then
      ({ d' with w := d'.e }, .intrWake)
    else (d', .intrRet)
  else (d, .intrRet)

def back (d : Cons) : Cons := { d with e := (d.e + 2 ^ 32 - 1) % 2 ^ 32 }

def code : Loc → Cmd Cons Loc Chan Answer
  | .readLoop n target => .act fun _ d =>
    (d, if 0 < n then .readWait n target else .readRet (target - n))
  | .readWait n target => .act fun e d =>
    if d.r = d.w then (d, .readKilled n target) else d.consume n target e.copyout
  | .readKilled n target => .killed (.readRet (-1)) (.readSleep n target)
  | .readSleep n target => .sleep .r (.readWait n target)
  | .readRet v => .ret v
  | .intr c => .act fun _ d =>
    if c = 16 then (d, .intrRet)
    else if c = 21 then (d, .intrKill)
    else if c = 8 ∨ c = 127 then (if d.e ≠ d.w then d.back else d, .intrRet)
    else d.input c
  | .intrKill => .act fun _ d =>
    if d.e ≠ d.w ∧ d.buf (d.back.e % inputBufSize) ≠ newline then (d.back, .intrKill)
    else (d, .intrRet)
  | .intrWake => .wakeup .r .intrRet
  | .intrRet => .ret 0

def armed : Loc → Cons → Bool
  | .readSleep _ _, _ => true
  | _, _ => false

variable {d : Cons}

lemma armed_consume {n target : Int} {copyout : Bool} :
    armed (d.consume n target copyout).2 (d.consume n target copyout).1 = false := by
  simp only [consume]
  split_ifs <;> rfl

lemma armed_input {c : UInt8} : armed (d.input c).2 (d.input c).1 = false := by
  simp only [input]
  split_ifs <;> rfl

lemma code_arms (k : Loc) : (code k).Arms armed k := by
  cases k with
  | readLoop n target
  | intrKill =>
    intro e d harm
    dsimp only at harm
    split_ifs at harm <;> cases harm
  | readWait n target =>
    intro e d harm
    dsimp only at harm
    split_ifs at harm
    · cases harm
    exact nomatch harm.symm.trans armed_consume
  | intr c =>
    intro e d harm
    dsimp only at harm
    split_ifs at harm
    · cases harm
    · cases harm
    · cases harm
    · cases harm
    exact nomatch harm.symm.trans armed_input
  | readKilled n target => exact fun d => rfl
  | readSleep n target => exact fun d => ⟨rfl, rfl⟩
  | intrWake => exact fun d harm => harm
  | readRet _ | intrRet => trivial
end Cons
namespace Clock
inductive Chan where
  | ticks
  deriving DecidableEq

inductive Loc where
  | pause (n : Nat)
  | pauseTest (n ticks0 : Nat)
  | pauseKilled (n ticks0 : Nat)
  | pauseSleep (n ticks0 : Nat)
  | pauseRet (v : Int)
  | tick
  | tickWake
  | tickRet
  deriving DecidableEq

def code : Loc → Cmd Nat Loc Chan Answer
  | .pause n => .act fun _ ticks => (ticks, .pauseTest n ticks)
  | .pauseTest n ticks0 => .act fun _ ticks =>
    (ticks, if (ticks + 2 ^ 32 - ticks0) % 2 ^ 32 < n then .pauseKilled n ticks0 else .pauseRet 0)
  | .pauseKilled n ticks0 => .killed (.pauseRet (-1)) (.pauseSleep n ticks0)
  | .pauseSleep n ticks0 => .sleep .ticks (.pauseTest n ticks0)
  | .pauseRet v => .ret v
  | .tick => .act fun _ ticks => ((ticks + 1) % 2 ^ 32, .tickWake)
  | .tickWake => .wakeup .ticks .tickRet
  | .tickRet => .ret 0

def armed : Loc → Nat → Bool
  | .pauseSleep _ _, _ => true
  | _, _ => false

lemma code_arms (k : Loc) : (code k).Arms armed k := by
  cases k with
  | pause n
  | tick => exact fun e d harm => harm
  | pauseTest n ticks0 =>
    intro e d harm
    dsimp only at harm
    split_ifs at harm <;> cases harm
  | pauseKilled n ticks0 => exact fun d => rfl
  | pauseSleep n ticks0 => exact fun d => ⟨rfl, rfl⟩
  | tickWake => exact fun d harm => harm
  | pauseRet _ | tickRet => trivial
end Clock

variable {nproc : Nat}

structure Kids (nproc : Nat) where
  parent : Fin nproc → Option (Fin nproc)
  zombie : Fin nproc → Bool
  xstate : Fin nproc → Int
  pid : Fin nproc → Nat

namespace Kids
def setParent (d : Kids nproc) (pp : Fin nproc) (v : Option (Fin nproc)) : Kids nproc :=
  { d with parent := update d.parent pp v }

def freeproc (d : Kids nproc) (pp : Fin nproc) : Kids nproc :=
  { d with
    parent := update d.parent pp none
    zombie := update d.zombie pp false
    xstate := update d.xstate pp 0
    pid := update d.pid pp 0 }

def exit (d : Kids nproc) (p : Fin nproc) (status : Int) : Kids nproc :=
  { d with
    xstate := update d.xstate p status
    zombie := update d.zombie p true }

inductive Loc (nproc : Nat) where
  | waitScan (addr : Bool) (rest : List (Fin nproc)) (havekids : Bool)
  | waitKilled (addr : Bool)
  | waitSleep (addr : Bool)
  | waitRet (v : Int)
  | exitScan (status : Int) (rest : List (Fin nproc))
  | exitInit (status : Int) (rest : List (Fin nproc))
  | exitWake (status : Int) (parent : Fin nproc)
  | exitZombie (status : Int)
  | exitDie
  deriving DecidableEq

def look (p : Fin nproc) (addr copyout : Bool) (havekids : Bool) (d : Kids nproc) :
    List (Fin nproc) → Kids nproc × Loc nproc
  | [] => (d, if havekids then .waitKilled addr else .waitRet (-1))
  | pp :: rest =>
    if d.parent pp = some p then
      if d.zombie pp then
        if addr ∧ copyout = false then (d, .waitRet (-1))
        else (d.freeproc pp, .waitRet (d.pid pp))
      else (d, .waitScan addr rest true)
    else (d, .waitScan addr rest havekids)

def reparent (initproc p : Fin nproc) (status : Int) (d : Kids nproc) :
    List (Fin nproc) → Kids nproc × Loc nproc
  | [] =>
    match d.parent p with
    | some parent => (d, .exitWake status parent)
    | none => (d, .exitZombie status)
  | pp :: rest =>
    if d.parent pp = some p then
      (d.setParent pp (some initproc), .exitInit status rest)
    else (d, .exitScan status rest)

def code (initproc p : Fin nproc) : Loc nproc → Cmd (Kids nproc) (Loc nproc) (Fin nproc) Answer
  | .waitScan addr rest havekids => .act fun e d => d.look p addr e.copyout havekids rest
  | .waitKilled addr => .killed (.waitRet (-1)) (.waitSleep addr)
  | .waitSleep addr => .sleep p (.waitScan addr (List.finRange nproc) false)
  | .waitRet v => .ret v
  | .exitScan status rest => .act fun _ d => d.reparent initproc p status rest
  | .exitInit status rest => .wakeup initproc (.exitScan status rest)
  | .exitWake status parent => .wakeup parent (.exitZombie status)
  | .exitZombie status => .act fun _ d => (d.exit p status, .exitDie)
  | .exitDie => .die

def armed : Loc nproc → Kids nproc → Bool
  | .waitSleep _, _ => true
  | _, _ => false

variable {d : Kids nproc} {rest : List (Fin nproc)}

lemma armed_look {p : Fin nproc} {addr copyout havekids : Bool} :
    armed (d.look p addr copyout havekids rest).2 (d.look p addr copyout havekids rest).1 =
      false := by
  cases rest with
  | nil
  | cons pp rest =>
    simp only [look]
    split_ifs <;> rfl

lemma armed_reparent {initproc p : Fin nproc} {status : Int} :
    armed (d.reparent initproc p status rest).2 (d.reparent initproc p status rest).1 = false := by
  cases rest with
  | nil =>
    simp only [reparent]
    split <;> rfl
  | cons pp rest =>
    simp only [reparent]
    split_ifs <;> rfl

lemma code_arms (initproc p : Fin nproc) (k : Loc nproc) : (code initproc p k).Arms armed k := by
  cases k with
  | waitScan addr rest havekids => exact fun e d harm => nomatch harm.symm.trans armed_look
  | exitScan status rest => exact fun e d harm => nomatch harm.symm.trans armed_reparent
  | waitKilled addr => exact fun d => rfl
  | waitSleep addr => exact fun d => ⟨rfl, rfl⟩
  | exitInit _ _ | exitWake _ _ => exact fun d harm => harm
  | exitZombie status => exact fun e d harm => harm
  | waitRet _ | exitDie => trivial
end Kids
namespace Pipe
def armed : Loc → Pipe → Bool
  | .writeRoom _ _ _, d => decide d.Full
  | .writeFull _ _ _, _ | .writeSleep _ _, _ | .readSleep _, _ => true
  | _, _ => false

lemma code_arms (k : Loc) : (code k).Arms armed k := by
  cases k with
  | writeTest n i t
  | readTest n
  | readCopy n i =>
    intro e d harm
    dsimp only at harm
    split_ifs at harm <;> cases harm
  | writeRoom n i t =>
    intro e d harm
    dsimp only at harm
    split_ifs at harm with hfull
    · exact decide_eq_true hfull
    split at harm <;> cases harm
  | closeSet w => exact fun e d harm => harm
  | writeKilled n i t | readKilled n => exact fun d => rfl
  | writeFull n i t => exact fun d _ => rfl
  | writeSleep n i | readSleep n => exact fun d => ⟨rfl, rfl⟩
  | writeEnd _ | readEnd _ _ | closeWake _ => exact fun d harm => harm
  | writeRet _ | readRet _ _ | closeRet | fail => trivial
end Pipe

inductive Thread (nproc : Nat) where
  | proc (p : Fin nproc)
  | intr (cpu : Nat)
  deriving DecidableEq

inductive Lock where
  | pipe (pi : Nat)
  | cons
  | ticks
  | wait
  deriving DecidableEq

inductive Chan (nproc : Nat) where
  | pipe (pi : Nat) (c : Pipe.Chan)
  | cons (c : Cons.Chan)
  | ticks (c : Clock.Chan)
  | proc (p : Fin nproc)
  deriving DecidableEq

inductive Loc (nproc : Nat) where
  | pipe (pi : Nat) (k : Pipe.Loc)
  | cons (k : Cons.Loc)
  | clock (k : Clock.Loc)
  | kids (p : Fin nproc) (k : Kids.Loc nproc)
  deriving DecidableEq

structure Data (nproc : Nat) where
  pipe : Nat → Pipe
  cons : Cons
  ticks : Nat
  kids : Kids nproc

namespace Data
def setPipe (pi : Nat) (x : Pipe) (d : Data nproc) : Data nproc :=
  { d with pipe := update d.pipe pi x }

def setCons (x : Cons) (d : Data nproc) : Data nproc := { d with cons := x }
def setTicks (x : Nat) (d : Data nproc) : Data nproc := { d with ticks := x }
def setKids (x : Kids nproc) (d : Data nproc) : Data nproc := { d with kids := x }
end Data

def code (initproc : Fin nproc) : Loc nproc → Cmd (Data nproc) (Loc nproc) (Chan nproc) Answer
  | .pipe pi k => (Pipe.code k).lift (fun d => d.pipe pi) (Data.setPipe pi) (.pipe pi) (.pipe pi)
  | .cons k => (Cons.code k).lift (fun d => d.cons) Data.setCons .cons .cons
  | .clock k => (Clock.code k).lift (fun d => d.ticks) Data.setTicks .clock .ticks
  | .kids p k => (Kids.code initproc p k).lift (fun d => d.kids) Data.setKids (.kids p) .proc

def lock : Loc nproc → Lock
  | .pipe pi _ => .pipe pi
  | .cons _ => .cons
  | .clock _ => .ticks
  | .kids _ _ => .wait

def entry (initproc : Fin nproc) : Thread nproc → Loc nproc → Bool
  | .proc _, .pipe _ k => Pipe.entry k
  | .proc _, .cons (.readLoop n target) => decide (n = target)
  | .proc _, .clock (.pause _) => true
  | .proc q, .kids p (.waitScan _ rest havekids) =>
    decide (q = p ∧ rest = List.finRange nproc) && !havekids
  | .proc q, .kids p (.exitScan _ rest) =>
    decide (q = p ∧ rest = List.finRange nproc ∧ p ≠ initproc)
  | .intr _, .cons (.intr _) => true
  | .intr _, .clock .tick => true
  | _, _ => false

def program (initproc : Fin nproc) :
    Program (Thread nproc) (Data nproc) (Loc nproc) (Chan nproc) Answer Lock :=
  { code := fun _ => code initproc
    lock := lock
    entry := entry initproc
    procs := (List.finRange nproc).map .proc }

variable {initproc : Fin nproc}

lemma program_wellLocked : (program initproc).WellLocked := by
  intro p k
  cases k with
  | pipe pi k => exact (Cmd.Keeps.of_forall (fun _ => rfl) (Pipe.code k)).lift
  | cons k => exact (Cmd.Keeps.of_forall (fun _ => rfl) (Cons.code k)).lift
  | clock k => exact (Cmd.Keeps.of_forall (fun _ => rfl) (Clock.code k)).lift
  | kids p k => exact (Cmd.Keeps.of_forall (fun _ => rfl) (Kids.code initproc p k)).lift
end Xv6.Wait
