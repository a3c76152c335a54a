import Xv6.Lib.Wp

namespace Xv6.Sh
abbrev Ptr := List UInt8
def maxargs : Nat := 10
def whitespace : List UInt8 := [32, 9, 13, 10, 11]
def symbols : List UInt8 := [60, 124, 62, 38, 59, 40, 41]

inductive Sym where
  | lt
  | bar
  | gt
  | gtgt
  | amp
  | semi
  | lparen
  | rparen
  deriving DecidableEq

inductive Ret where
  | eof
  | sym (y : Sym)
  | word
  deriving DecidableEq

inductive Panic where
  | badSyntax
  | missingFile
  | parseblock
  | missingParen
  | tooManyArgs
  deriving DecidableEq

inductive Stop where
  | panic (p : Panic)
  | fuel
  deriving DecidableEq

structure Arg where
  q : Ptr
  eq : Ptr
  deriving DecidableEq

structure Redir (α : Type) where
  file : α
  mode : Nat
  fd : Nat
  deriving DecidableEq

inductive Cmd (α : Type) where
  | exec (argv : List α)
  | redir (cmd : Cmd α) (r : Redir α)
  | pipe (left right : Cmd α)
  | list (left right : Cmd α)
  | back (cmd : Cmd α)
  deriving DecidableEq

abbrev ShM := StateT Ptr (Except Stop)
def oRdonly : Nat := 0
def oWronly : Nat := 1
def oCreate : Nat := 0x200
def oTrunc : Nat := 0x400
def isSpace (c : UInt8) : Bool := decide (c ∈ whitespace)
def isWord (c : UInt8) : Bool := !decide (c ∈ whitespace) && !decide (c ∈ symbols)
def skip (s : Ptr) : Ptr := s.dropWhile isSpace

def symOf (c : UInt8) : Option Sym :=
  if c = 60 then some .lt
  else if c = 124 then some .bar
  else if c = 62 then some .gt
  else if c = 38 then some .amp
  else if c = 59 then some .semi
  else if c = 40 then some .lparen
  else if c = 41 then some .rparen
  else none

def scan (q : Ptr) : Ret × Ptr :=
  match q with
  | [] => (.eof, [])
  | c :: s =>
    match symOf c with
    | some .gt => if s.head? = some 62 then (.sym .gtgt, s.tail) else (.sym .gt, s)
    | some y => (.sym y, s)
    | none => (.word, q.dropWhile isWord)

def gettoken : ShM (Ret × Arg) := do
  modify skip
  let q ← get
  set (skip (scan q).2)
  return ((scan q).1, ⟨q, (scan q).2⟩)

def peek (toks : List UInt8) : ShM Bool := do
  modify skip
  let s ← get
  return s.head?.any fun c => decide (c ∈ toks)

def redirFor (tok : Ret) (file : Arg) : List (Redir Arg) :=
  match tok with
  | .sym .lt => [⟨file, oRdonly, 0⟩]
  | .sym .gt => [⟨file, oWronly ||| oCreate ||| oTrunc, 1⟩]
  | .sym .gtgt => [⟨file, oWronly ||| oCreate, 1⟩]
  | _ => []

def redirLoop : Nat → ShM (List (Redir Arg))
  | 0 => throw .fuel
  | fuel + 1 => do
    let b ← peek [60, 62]
    if b then
      let tok ← gettoken
      let file ← gettoken
      if file.1 ≠ .word then throw (.panic .missingFile)
      else
        let rs ← redirLoop fuel
        return redirFor tok.1 file.2 ++ rs
    else return []

def parseredirs : ShM (List (Redir Arg)) := do
  let s ← get
  redirLoop (s.length + 1)

def wrap {α : Type} (cmd : Cmd α) (rs : List (Redir α)) : Cmd α := rs.foldl .redir cmd

def argLoop : Nat → Nat → ShM (List Arg × List (Redir Arg))
  | 0, _ => throw .fuel
  | fuel + 1, argc => do
    let b ← peek [124, 41, 38, 59]
    if b then return ([], [])
    else
      let tok ← gettoken
      if tok.1 = .eof then return ([], [])
      else if tok.1 ≠ .word then throw (.panic .badSyntax)
      else if argc + 1 ≥ maxargs then throw (.panic .tooManyArgs)
      else
        let rs ← parseredirs
        let r ← argLoop fuel (argc + 1)
        return (tok.2 :: r.1, rs ++ r.2)

def backLoop : Nat → Cmd Arg → ShM (Cmd Arg)
  | 0, _ => throw .fuel
  | fuel + 1, cmd => do
    let b ← peek [38]
    if b then
      let _ ← gettoken
      backLoop fuel (.back cmd)
    else return cmd

mutual

def parseline : Nat → ShM (Cmd Arg)
  | 0 => throw .fuel
  | fuel + 1 => do
    let cmd ← parsepipe fuel
    let s ← get
    let cmd ← backLoop (s.length + 1) cmd
    let b ← peek [59]
    if b then
      let _ ← gettoken
      let right ← parseline fuel
      return .list cmd right
    else return cmd

def parsepipe : Nat → ShM (Cmd Arg)
  | 0 => throw .fuel
  | fuel + 1 => do
    let cmd ← parseexec fuel
    let b ← peek [124]
    if b then
      let _ ← gettoken
      let right ← parsepipe fuel
      return .pipe cmd right
    else return cmd

def parseblock : Nat → ShM (Cmd Arg)
  | 0 => throw .fuel
  | fuel + 1 => do
    let b ← peek [40]
    if b = false then throw (.panic .parseblock)
    else
      let _ ← gettoken
      let cmd ← parseline fuel
      let b ← peek [41]
      if b = false then throw (.panic .missingParen)
      else
        let _ ← gettoken
        let rs ← parseredirs
        return wrap cmd rs

def parseexec : Nat → ShM (Cmd Arg)
  | 0 => throw .fuel
  | fuel + 1 => do
    let b ← peek [40]
    if b then parseblock fuel
    else
      let rs ← parseredirs
      let s ← get
      let r ← argLoop (s.length + 1) 0
      return wrap (.exec r.1) (rs ++ r.2)
end

def cut (buf : List UInt8) (a : Arg) : List UInt8 := buf.set (buf.length - a.eq.length) 0

def nulterminate (buf : List UInt8) : Cmd Arg → List UInt8
  | .exec argv => argv.foldl cut buf
  | .redir cmd r => cut (nulterminate buf cmd) r.file
  | .pipe left right => nulterminate (nulterminate buf left) right
  | .list left right => nulterminate (nulterminate buf left) right
  | .back cmd => nulterminate buf cmd

def cstring (s : List UInt8) : List UInt8 := s.takeWhile (· ≠ 0)

def parseTop (fuel : Nat) : ShM (Cmd Arg) := do
  let cmd ← parseline fuel
  let _ ← peek []
  let s ← get
  if s ≠ [] then throw (.panic .badSyntax) else return cmd

def parsecmd (s : List UInt8) : Except Stop (Cmd Arg × List UInt8) :=
  match parseTop (4 * (cstring s).length + 4) (cstring s) with
  | .ok (cmd, _) => .ok (cmd, nulterminate (cstring s) cmd)
  | .error e => .error e

def strAt (buf : List UInt8) (a : Arg) : List UInt8 := cstring (buf.drop (buf.length - a.q.length))

def Cmd.map {α β : Type} (f : α → β) : Cmd α → Cmd β
  | .exec argv => .exec (argv.map f)
  | .redir cmd r => .redir (cmd.map f) ⟨f r.file, r.mode, r.fd⟩
  | .pipe left right => .pipe (left.map f) (right.map f)
  | .list left right => .list (left.map f) (right.map f)
  | .back cmd => .back (cmd.map f)
end Xv6.Sh
