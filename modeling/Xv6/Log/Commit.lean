import Xv6.Lib.Writes
import Xv6.Log.Header

namespace Xv6.Log
structure Store where
  disk : Disk
  lh : List Nat
  cache : Nat → Option Block

namespace Store
section
variable (s : Store) (b : Nat)

def bread : Block := (s.cache b).getD (s.disk b)

def bwrite (v : Block) : Store :=
  { s with
    disk := Function.update s.disk b v
    cache := if (s.cache b).isSome then Function.update s.cache b (some v) else s.cache }

def bunpin : Store :=
  { s with cache := Function.update s.cache b none }

def logWrite (v : Block) : Store :=
  { s with
    cache := Function.update s.cache b (some v)
    lh := if b ∈ s.lh then s.lh else s.lh ++ [b] }
end

def entry (s : Store) (tail : Nat) : Nat := s.lh.getD tail 0

def writeLog (start : Nat) (s : Store) (tail : Nat) : Store :=
  s.bwrite (start + tail + 1) (s.bread (s.entry tail))

def writeHead (start : Nat) (s : Store) : Store :=
  s.bwrite start (putHeader (s.bread start) s.lh)

def readHead (start : Nat) (s : Store) : Store :=
  { s with lh := getHeader (s.bread start) }

def installTrans (start : Nat) (recovering : Bool) (s : Store) (tail : Nat) : Store :=
  let s' := s.bwrite (s.entry tail) (s.bread (start + tail + 1))
  if recovering then s' else s'.bunpin (s.entry tail)

def eraseHead (start : Nat) (s : Store) : Store :=
  writeHead start { s with lh := [] }

def crash (s : Store) : Store := { disk := s.disk, lh := [], cache := fun _ => none }
end Store

/-- Program points of `commit`. -/
inductive CommitPc where
  | writeLog (tail : Nat)
  | writeHead
  | installTrans (tail : Nat)
  | eraseHead
  deriving DecidableEq

def commitEntry (s : Store) : Option CommitPc :=
  if 0 < s.lh.length then some (.writeLog 0) else none

def commitStep (start : Nat) (s : Store) : CommitPc → Store × Option CommitPc
  | .writeLog tail =>
    (s.writeLog start tail,
      some (if tail + 1 < s.lh.length then .writeLog (tail + 1) else .writeHead))
  | .writeHead => (s.writeHead start, some (.installTrans 0))
  | .installTrans tail =>
    (s.installTrans start false tail,
      some (if tail + 1 < s.lh.length then .installTrans (tail + 1) else .eraseHead))
  | .eraseHead => (s.eraseHead start, none)

/-- Program points of `recover_from_log`. -/
inductive RecoverPc where
  | installTrans (tail : Nat)
  | eraseHead
  deriving DecidableEq

def recoverEntry (start : Nat) (s : Store) : Store × RecoverPc :=
  let s' := s.readHead start
  (s', if 0 < s'.lh.length then .installTrans 0 else .eraseHead)

def recoverStep (start : Nat) (s : Store) : RecoverPc → Store × Option RecoverPc
  | .installTrans tail =>
    (s.installTrans start true tail,
      some (if tail + 1 < s.lh.length then .installTrans (tail + 1) else .eraseHead))
  | .eraseHead => (s.eraseHead start, none)
end Xv6.Log
