import Xv6.Bio.Counted
import Xv6.Lib.Machine
import Xv6.Log.Represents

namespace Xv6.Bio
open Function

/-- Program points of `commit`, with its local variables. -/
inductive CommitAt where
  | logTo (tail : Nat)
  | logFrom (tail : Nat) (dst : Fin nbuf)
  | logCopy (tail : Nat) (dst src : Fin nbuf)
  | logWrite (tail : Nat) (dst src : Fin nbuf)
  | logRelFrom (tail : Nat) (dst src : Fin nbuf)
  | logRelTo (tail : Nat) (dst : Fin nbuf)
  | head (erase : Bool)
  | headFill (erase : Bool) (buf : Fin nbuf)
  | headWrite (erase : Bool) (buf : Fin nbuf)
  | headRel (erase : Bool) (buf : Fin nbuf)
  | instLog (tail : Nat)
  | instHome (tail : Nat) (lbuf : Fin nbuf)
  | instCopy (tail : Nat) (lbuf dbuf : Fin nbuf)
  | instWrite (tail : Nat) (lbuf dbuf : Fin nbuf)
  | instUnpin (tail : Nat) (lbuf dbuf : Fin nbuf)
  | instRelLog (tail : Nat) (lbuf dbuf : Fin nbuf)
  | instRelHome (tail : Nat) (dbuf : Fin nbuf)
  | clear
  | ret
  deriving DecidableEq

namespace CommitAt
def reads (start : Nat) (lh : List Nat) : CommitAt → Option Nat
  | logTo tail => some (start + tail + 1)
  | logFrom tail _ => some (lh.getD tail 0)
  | head _ => some start
  | instLog tail => some (start + tail + 1)
  | instHome tail _ => some (lh.getD tail 0)
  | _ => none

def got (i : Fin nbuf) : CommitAt → CommitAt
  | logTo tail => logFrom tail i
  | logFrom tail dst => logCopy tail dst i
  | head erase => headFill erase i
  | instLog tail => instHome tail i
  | instHome tail lbuf => instCopy tail lbuf i
  | pc => pc

def releases (n : Nat) : CommitAt → Option (Fin nbuf × CommitAt)
  | logRelFrom tail dst src => some (src, logRelTo tail dst)
  | logRelTo tail dst => some (dst, if tail + 1 < n then logTo (tail + 1) else head false)
  | headRel false buf => some (buf, instLog 0)
  | headRel true buf => some (buf, ret)
  | instRelLog tail lbuf dbuf => some (lbuf, instRelHome tail dbuf)
  | instRelHome tail dbuf => some (dbuf, if tail + 1 < n then instLog (tail + 1) else clear)
  | _ => none
end CommitAt

/-- A call of `bread` or `brelse` that `commit` is in. -/
inductive Call where
  | none
  | wait (i : Fin nbuf)
  | fill (i : Fin nbuf)
  | drop (i : Fin nbuf)
  deriving DecidableEq

structure Thread (P : Type) where
  proc : P
  pc : CommitAt
  call : Call

inductive Panic where
  | noBuffers
  | bwrite
  | brelse
  | tooBig
  | outsideTrans
  | logCommitting
  deriving DecidableEq

/-- The cache, the log and their users. -/
structure Kernel (P : Type) where
  disk : Disk
  cache : Cache P
  lh : List Nat
  outstanding : Int
  committing : Bool
  inOp : P → Bool
  /-- The references of processes other than `commit`. -/
  refs : List (Ref P)
  thread : Option (Thread P)
  panicked : Option Panic
  /-- Ghost: what was last stored in each block. -/
  last : Disk

inductive Act (P : Type) where
  | beginOp (p : P)
  | endOp (p : P)
  | bread (p : P) (dev blockno : Nat)
  | acquiresleep (r : Ref P)
  | fill (r : Ref P)
  | store (r : Ref P) (v : Block)
  | logWrite (r : Ref P)
  | bwrite (r : Ref P)
  | brelse (r : Ref P)
  | unref (r : Ref P)
  | commit
  | commitEnd

namespace Kernel
variable {P : Type} [DecidableEq P]

def boot (P : Type) (d : Disk) : Kernel P :=
  { disk := d
    cache := Cache.binit P
    lh := []
    outstanding := 0
    committing := false
    inOp := fun _ => false
    refs := []
    thread := none
    panicked := none
    last := d }

section
variable (s : Kernel P)

def ready (p : P) : Bool :=
  s.refs.all (fun r => r.proc ≠ p || r.stage.holds) && s.thread.all (fun t => t.proc ≠ p)

def replace (r : Ref P) (st : Stage) : Kernel P :=
  { s with refs := { r with stage := st } :: s.refs.erase r }

def bread (p : P) (dev blockno : Nat) : Kernel P :=
  match s.cache.bget dev blockno with
  | some (c, i) => { s with cache := c, refs := ⟨p, i, dev, blockno, .wait⟩ :: s.refs }
  | none => { s with panicked := some .noBuffers }

def logWrite (r : Ref P) : Kernel P :=
  if s.lh.length ≥ logBlocks then { s with panicked := some .tooBig }
  else if s.outstanding < 1 then { s with panicked := some .outsideTrans }
  else if (s.cache.buf r.buf).blockno ∈ s.lh then s.replace r (.hold false)
  else
    { s.replace r (.hold false) with
      cache := s.cache.bpin r.buf
      lh := s.lh ++ [(s.cache.buf r.buf).blockno] }

def bwrite (r : Ref P) : Kernel P :=
  if (s.cache.buf r.buf).lock = some r.proc then
    { s.replace r (.hold false) with
      disk := update s.disk (s.cache.buf r.buf).blockno (s.cache.buf r.buf).data }
  else { s with panicked := some .bwrite }

def brelse (r : Ref P) : Kernel P :=
  if (s.cache.buf r.buf).lock = some r.proc then
    { s.replace r .drop with cache := s.cache.releasesleep r.buf }
  else { s with panicked := some .brelse }

def endOp (p : P) : Kernel P :=
  let s := { s with outstanding := s.outstanding - 1, inOp := update s.inOp p false }
  if s.committing then { s with panicked := some .logCommitting }
  else if s.outstanding = 0 then
    { s with
      committing := true
      thread := some ⟨p, if 0 < s.lh.length then .logTo 0 else .ret, .none⟩ }
  else s

section
variable (t : Thread P)

def commitBwrite (i : Fin nbuf) (pc : CommitAt) : Kernel P :=
  if (s.cache.buf i).lock = some t.proc then
    { s with
      disk := update s.disk (s.cache.buf i).blockno (s.cache.buf i).data
      thread := some { t with pc := pc } }
  else { s with panicked := some .bwrite }

def commitStore (i : Fin nbuf) (v : Block) (pc : CommitAt) : Kernel P :=
  { s with
    cache := s.cache.setData i v
    last := update s.last (s.cache.buf i).blockno v
    thread := some { t with pc := pc } }

def commitStmt : CommitAt → Kernel P
  | .logCopy tail dst src => s.commitStore t dst (s.cache.buf src).data (.logWrite tail dst src)
  | .logWrite tail dst src => s.commitBwrite t dst (.logRelFrom tail dst src)
  | .headFill erase buf =>
    s.commitStore t buf (Log.putHeader (s.cache.buf buf).data s.lh) (.headWrite erase buf)
  | .headWrite erase buf => s.commitBwrite t buf (.headRel erase buf)
  | .instCopy tail lbuf dbuf =>
    { s with
      cache := s.cache.setData dbuf (s.cache.buf lbuf).data
      thread := some { t with pc := .instWrite tail lbuf dbuf } }
  | .instWrite tail lbuf dbuf => s.commitBwrite t dbuf (.instUnpin tail lbuf dbuf)
  | .instUnpin tail lbuf dbuf =>
    { s with
      cache := s.cache.bunpin dbuf
      thread := some { t with pc := .instRelLog tail lbuf dbuf } }
  | .clear => { s with lh := [], thread := some { t with pc := .head true } }
  | _ => s

def commitBread (blockno : Nat) : Kernel P :=
  match s.cache.bget rootdev blockno with
  | some (c, i) => { s with cache := c, thread := some { t with call := .wait i } }
  | none => { s with panicked := some .noBuffers }

def commitBrelse (i : Fin nbuf) : Kernel P :=
  if (s.cache.buf i).lock = some t.proc then
    { s with cache := s.cache.releasesleep i, thread := some { t with call := .drop i } }
  else { s with panicked := some .brelse }
end
end

def commitStep (start : Nat) (s : Kernel P) (t : Thread P) : Kernel P :=
  match t.call with
  | .wait i =>
    { s with cache := s.cache.acquiresleep t.proc i, thread := some { t with call := .fill i } }
  | .fill i =>
    { s with
      cache := s.cache.fill s.disk i
      thread := some { t with pc := t.pc.got i, call := .none } }
  | .drop i =>
    { s with
      cache := s.cache.unref i
      thread := some
        { t with pc := ((t.pc.releases s.lh.length).map Prod.snd).getD t.pc, call := .none } }
  | .none =>
    match t.pc.reads start s.lh, t.pc.releases s.lh.length with
    | some b, _ => s.commitBread t b
    | none, some (i, _) => s.commitBrelse t i
    | none, none => s.commitStmt t t.pc

def mustWait (s : Kernel P) : Bool :=
  s.committing || decide (s.lh.length + (s.outstanding + 1) * maxOpBlocks > logBlocks)

def canStep (s : Kernel P) (t : Thread P) : Bool :=
  match t.call with
  | .wait i => (s.cache.buf i).lock.isNone
  | .none => t.pc ≠ .ret
  | _ => true

def enabled (s : Kernel P) : Act P → Bool
  | .beginOp p => s.ready p && !s.inOp p && !s.mustWait
  | .endOp p => s.ready p && s.inOp p
  | .bread p _ _ => s.ready p
  | .acquiresleep r =>
    decide (r ∈ s.refs) && decide (r.stage = .wait) && (s.cache.buf r.buf).lock.isNone
  | .fill r => decide (r ∈ s.refs) && decide (r.stage = .fill)
  | .store r _ | .logWrite r | .bwrite r | .brelse r =>
    s.ready r.proc && decide (r ∈ s.refs) && r.stage.holds
  | .unref r => decide (r ∈ s.refs) && decide (r.stage = .drop)
  | .commit => s.thread.any s.canStep
  | .commitEnd => s.thread.any fun t => t.pc = .ret && t.call = .none

def effect (start : Nat) (s : Kernel P) : Act P → Kernel P
  | .beginOp p => { s with outstanding := s.outstanding + 1, inOp := update s.inOp p true }
  | .endOp p => s.endOp p
  | .bread p dev blockno => s.bread p dev blockno
  | .acquiresleep r => { s.replace r .fill with cache := s.cache.acquiresleep r.proc r.buf }
  | .fill r => { s.replace r (.hold false) with cache := s.cache.fill s.disk r.buf }
  | .store r v =>
    { s.replace r (.hold true) with
      cache := s.cache.setData r.buf v
      last := update s.last (s.cache.buf r.buf).blockno v }
  | .logWrite r => s.logWrite r
  | .bwrite r => s.bwrite r
  | .brelse r => s.brelse r
  | .unref r => { s with cache := s.cache.unref r.buf, refs := s.refs.erase r }
  | .commit =>
    match s.thread with
    | some t => s.commitStep start t
    | none => s
  | .commitEnd => { s with committing := false, thread := none }

/-- One step of a process or of `commit`. -/
def next (start : Nat) (s : Kernel P) (a : Act P) : Option (Kernel P) :=
  if s.panicked.isNone && s.enabled a then some (s.effect start a) else none

lemma next_some {start : Nat} {s s' : Kernel P} {a : Act P} (h : s.next start a = some s') :
    s.panicked = none ∧ s.enabled a ∧ s' = s.effect start a := by
  rw [next] at h
  split at h
  · rename_i hg
    rw [Bool.and_eq_true, Option.isNone_iff_eq_none] at hg
    cases h
    exact ⟨hg.1, hg.2, rfl⟩
  cases h
end Kernel
end Xv6.Bio
