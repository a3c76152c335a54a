import Xv6.Bio.Counted
import Xv6.Lib.Machine
import Xv6.Lib.Links

namespace Xv6.Bio
open Lib Function List Cache

structure Bcache (P : Type) where
  buf : Fin nbuf → Buf P
  links : Links (Fin nbuf)

namespace Bcache
variable {P : Type}

def binit (P : Type) : Bcache P :=
  { buf := (Cache.binit P).buf
    links := (finRange nbuf).foldl Links.pushFront (Links.empty (Fin nbuf)) }

section
variable (c : Bcache P)

def set (i : Fin nbuf) (b : Buf P) : Bcache P :=
  { c with buf := update c.buf i b }

def find (dev blockno : Nat) : Option (Fin nbuf) :=
  Links.scan c.links.next (fun i => (c.buf i).dev = dev ∧ (c.buf i).blockno = blockno) (nbuf + 1)
    (c.links.next none)

def unused : Option (Fin nbuf) :=
  Links.scan c.links.prev (fun i => (c.buf i).refcnt = 0) (nbuf + 1) (c.links.prev none)

def bget (dev blockno : Nat) : Option (Bcache P × Fin nbuf) :=
  match c.find dev blockno with
  | some i => some (c.set i { c.buf i with refcnt := (c.buf i).refcnt + 1 }, i)
  | none =>
    match c.unused with
    | some i =>
      some (c.set i { c.buf i with dev := dev, blockno := blockno, valid := false, refcnt := 1 }, i)
    | none => none

def acquiresleep (p : P) (i : Fin nbuf) : Bcache P :=
  c.set i { c.buf i with lock := some p }

def fill (d : Disk) (i : Fin nbuf) : Bcache P :=
  if (c.buf i).valid then c
  else c.set i { c.buf i with data := d (c.buf i).blockno, valid := true }

def releasesleep (i : Fin nbuf) : Bcache P :=
  c.set i { c.buf i with lock := none }

def unref (i : Fin nbuf) : Bcache P :=
  let c := c.set i { c.buf i with refcnt := (c.buf i).refcnt - 1 }
  if (c.buf i).refcnt = 0 then { c with links := (c.links.unlink i).pushFront i } else c

def bpin (i : Fin nbuf) : Bcache P :=
  c.set i { c.buf i with refcnt := (c.buf i).refcnt + 1 }

def bunpin (i : Fin nbuf) : Bcache P :=
  c.set i { c.buf i with refcnt := (c.buf i).refcnt - 1 }
end

structure Refines (c : Bcache P) (a : Cache P) : Prop where
  buf : c.buf = a.buf
  links : c.links.Reps a.lru
  all : ∀ i, i ∈ a.lru

variable {c c' : Bcache P} {a : Cache P} {i j : Fin nbuf} {b : Buf P} {dev blockno : Nat}

lemma buf_set_self : (c.set i b).buf i = b := by simp [set]

namespace Refines
variable (h : Refines c a)
include h

lemma length : a.lru.length = nbuf := by
  have hperm : a.lru.Perm (finRange nbuf) :=
    (perm_ext_iff_of_nodup h.links.nodup (nodup_finRange nbuf)).mpr
      fun i => iff_of_true (h.all i) (mem_finRange i)
  rw [hperm.length_eq, length_finRange]

lemma set : Refines (c.set i b) (a.set i b) := by
  refine ⟨?_, h.links, h.all⟩
  show update c.buf i b = update a.buf i b
  rw [h.buf]

lemma find : c.find dev blockno = a.find dev blockno := by
  unfold Bcache.find Cache.find
  rw [h.links.scan_next (by rw [h.length]; exact Nat.lt_succ_self nbuf), h.buf]

lemma unused : c.unused = a.unused := by
  unfold Bcache.unused Cache.unused
  rw [h.links.scan_prev (by rw [h.length]; exact Nat.lt_succ_self nbuf), h.buf]

lemma bget (hb : c.bget dev blockno = some (c', i)) :
    ∃ a', a.bget dev blockno = some (a', i) ∧ Refines c' a' := by
  unfold Bcache.bget at hb
  unfold Cache.bget
  rw [h.find] at hb
  cases hf : a.find dev blockno with
  | some k =>
    rw [hf] at hb
    cases hb
    exact ⟨_, rfl, by rw [h.buf]; exact h.set⟩
  | none =>
    rw [hf, h.unused] at hb
    cases hu : a.unused with
    | some k =>
      rw [hu] at hb
      cases hb
      exact ⟨_, rfl, by rw [h.buf]; exact h.set⟩
    | none =>
      rw [hu] at hb
      cases hb

lemma unref : Refines (c.unref i) (a.unref i) := by
  have hset := h.set (i := i) (b := { c.buf i with refcnt := (c.buf i).refcnt - 1 })
  unfold Bcache.unref Cache.unref
  dsimp only
  rw [buf_set_self, h.buf] at *
  by_cases h0 : (a.buf i).refcnt - 1 = 0
  · rw [if_pos h0, if_pos h0]
    have hfront : ((c.links.unlink i).pushFront i).Reps (i :: a.lru.erase i) :=
      (h.links.unlink (h.all i)).pushFront fun hm => (h.links.nodup.mem_erase_iff.mp hm).1 rfl
    refine ⟨hset.buf, hfront, fun j => ?_⟩
    by_cases hj : j = i
    · rw [hj]
      exact .head _
    exact mem_cons_of_mem i ((mem_erase_of_ne hj).mpr (h.all j))
  rwa [if_neg h0, if_neg h0]
end Refines

lemma reps_foldl {l l' : List (Fin nbuf)} {r : Links (Fin nbuf)} (h : r.Reps l')
    (hnodup : (l.reverse ++ l').Nodup) : (l.foldl Links.pushFront r).Reps (l.reverse ++ l') := by
  induction l generalizing r l' with
  | nil => exact h
  | cons i l ih =>
    rw [reverse_cons, append_assoc] at hnodup ⊢
    refine ih (h.pushFront ?_) hnodup
    exact (nodup_cons.mp (nodup_append.mp hnodup).2.1).1

lemma refines_binit : Refines (binit P) (Cache.binit P) := by
  have hnodup : ((finRange nbuf).reverse ++ []).Nodup := by
    rw [append_nil, nodup_reverse]
    exact nodup_finRange nbuf
  have hreps := reps_foldl Links.reps_empty hnodup
  rw [append_nil] at hreps
  exact ⟨rfl, hreps, fun i => mem_reverse.mpr (mem_finRange i)⟩
end Bcache

structure Users (P : Type) where
  cache : Bcache P
  refs : List (Ref P)
  pins : Fin nbuf → Nat
  clock : Nat
  dropped : Fin nbuf → WithBot Nat

inductive Users.Label (P : Type) where
  | bread (p : P) (dev blockno : Nat)
  | acquiresleep (r : Ref P)
  | fill (r : Ref P)
  | brelse (r : Ref P)
  | unref (r : Ref P)
  | bpin (r : Ref P)
  | bunpin (r : Ref P)

namespace Users
variable {P : Type}

def boot (P : Type) : Users P := ⟨.binit P, [], fun _ => 0, 0, fun _ => ⊥⟩

def advance (s : Users P) (c : Bcache P) (refs : List (Ref P)) (pins : Fin nbuf → Nat) :
    Users P where
  cache := c
  refs := refs
  pins := pins
  clock := s.clock + 1
  dropped := fun i =>
    if (s.cache.buf i).refcnt ≠ 0 ∧ (c.buf i).refcnt = 0 then (s.clock : WithBot Nat)
    else s.dropped i

def move [DecidableEq P] (s : Users P) (r : Ref P) (st : Stage) : List (Ref P) :=
  { r with stage := st } :: s.refs.erase r

def next [DecidableEq P] (d : Disk) (s : Users P) : Label P → Option (Users P)
  | .bread p dev blockno =>
    if dev = 0 then none
    else
      match s.cache.bget dev blockno with
      | some (c, i) => some (s.advance c (⟨p, i, dev, blockno, .wait⟩ :: s.refs) s.pins)
      | none => none
  | .acquiresleep r =>
    if r ∈ s.refs ∧ r.stage = .wait ∧ (s.cache.buf r.buf).lock = none then
      some (s.advance (s.cache.acquiresleep r.proc r.buf) (s.move r .fill) s.pins)
    else none
  | .fill r =>
    if r ∈ s.refs ∧ r.stage = .fill then
      some (s.advance (s.cache.fill d r.buf) (s.move r (.hold false)) s.pins)
    else none
  | .brelse r =>
    if r ∈ s.refs ∧ r.stage = .hold false ∧ (s.cache.buf r.buf).lock = some r.proc then
      some (s.advance (s.cache.releasesleep r.buf) (s.move r .drop) s.pins)
    else none
  | .unref r =>
    if r ∈ s.refs ∧ r.stage = .drop then
      some (s.advance (s.cache.unref r.buf) (s.refs.erase r) s.pins)
    else none
  | .bpin r =>
    if r ∈ s.refs ∧ r.stage = .hold false then
      some (s.advance (s.cache.bpin r.buf) s.refs (update s.pins r.buf (s.pins r.buf + 1)))
    else none
  | .bunpin r =>
    if r ∈ s.refs ∧ r.stage = .hold false ∧ 0 < s.pins r.buf then
      some (s.advance (s.cache.bunpin r.buf) s.refs (update s.pins r.buf (s.pins r.buf - 1)))
    else none

def uses (s : Users P) (i : Fin nbuf) : Nat := s.refs.countP (·.buf = i) + s.pins i

structure Inv (s : Users P) (a : Cache P) : Prop where
  refines : s.cache.Refines a
  count : ∀ i, (a.buf i).refcnt = s.uses i
  unique : ∀ i j, (a.buf i).dev = (a.buf j).dev → (a.buf i).blockno = (a.buf j).blockno →
    i = j ∨ (a.buf i).dev = 0
  order : a.lru.Pairwise fun i j => (a.buf i).refcnt = 0 → (a.buf j).refcnt = 0 →
    s.dropped j ≤ s.dropped i
  past : ∀ i, s.dropped i < (s.clock : WithBot Nat)

section Step
variable {s s' : Users P} {a a' : Cache P} {c : Bcache P} {refs : List (Ref P)} {r : Ref P}
  {pins : Fin nbuf → Nat} {i j : Fin nbuf} {b : Buf P} {dev blockno : Nat}

lemma countP_erase [DecidableEq P] (hr : r ∈ s.refs) (i : Fin nbuf) : s.refs.countP (·.buf = i) =
    (s.refs.erase r).countP (·.buf = i) + if r.buf = i then 1 else 0 := by
  rw [(perm_cons_erase hr).countP_eq, countP_cons]
  simp

lemma countP_move [DecidableEq P] (hr : r ∈ s.refs) (st : Stage) (i : Fin nbuf) :
    (s.move r st).countP (·.buf = i) = s.refs.countP (·.buf = i) := by
  rw [countP_erase hr, move, countP_cons]
  simp

lemma uses_pos (hr : r ∈ s.refs) : 0 < s.refs.countP (·.buf = r.buf) :=
  countP_pos_iff.mpr ⟨r, hr, by simp⟩

section
variable (h : Inv s a)
include h

lemma Inv.frame (hr : c.Refines a') (hlru : a'.lru = a.lru)
    (hcount : ∀ i, (a'.buf i).refcnt = (refs.countP (·.buf = i) + pins i : Nat))
    (hunique : ∀ i j, (a'.buf i).dev = (a'.buf j).dev → (a'.buf i).blockno = (a'.buf j).blockno →
      i = j ∨ (a'.buf i).dev = 0) (hidle : ∀ i, (a'.buf i).refcnt = 0 → (a.buf i).refcnt = 0) :
    Inv (s.advance c refs pins) a' := by
  have hdropped : ∀ i, (s.advance c refs pins).dropped i = s.dropped i := fun i => by
    refine if_neg fun hc => hc.1 ?_
    rw [h.refines.buf]
    exact hidle i (by rw [← hr.buf]; exact hc.2)
  refine ⟨hr, hcount, hunique, ?_, fun i => ?_⟩
  · rw [hlru]
    refine h.order.imp fun hij hi hj => ?_
    rw [hdropped, hdropped]
    exact hij (hidle _ hi) (hidle _ hj)
  rw [hdropped]
  exact lt_trans (h.past i) (WithBot.coe_lt_coe.mpr (Nat.lt_succ_self s.clock))

lemma Inv.unique_set (hdev : b.dev = (a.buf i).dev) (hno : b.blockno = (a.buf i).blockno)
    (j k : Fin nbuf) :
    ((a.set i b).buf j).dev = ((a.set i b).buf k).dev →
      ((a.set i b).buf j).blockno = ((a.set i b).buf k).blockno →
      j = k ∨ ((a.set i b).buf j).dev = 0 := by
  have hsame : ∀ k, ((a.set i b).buf k).dev = (a.buf k).dev ∧
      ((a.set i b).buf k).blockno = (a.buf k).blockno := fun k => by
    by_cases hk : k = i
    · rw [hk, set_buf_self]
      exact ⟨hdev, hno⟩
    rw [set_buf_of_ne a b hk]
    exact ⟨rfl, rfl⟩
  rw [(hsame j).1, (hsame j).2, (hsame k).1, (hsame k).2]
  exact h.unique j k

lemma Inv.set (hr : c.Refines (a.set i b)) (hdev : b.dev = (a.buf i).dev)
    (hno : b.blockno = (a.buf i).blockno)
    (hself : b.refcnt = (refs.countP (·.buf = i) + pins i : Nat))
    (hother : ∀ j ≠ i, refs.countP (·.buf = j) + pins j = s.uses j)
    (hidle : b.refcnt = 0 → (a.buf i).refcnt = 0) : Inv (s.advance c refs pins) (a.set i b) := by
  refine h.frame hr rfl (fun j => ?_) (h.unique_set hdev hno) fun j => ?_
  · by_cases hj : j = i
    · rw [hj, set_buf_self, hself]
    rw [set_buf_of_ne a b hj, h.count, hother j hj]
  by_cases hj : j = i
  · rwa [hj, set_buf_self]
  rw [set_buf_of_ne a b hj]
  exact id

lemma Inv.turn [DecidableEq P] {st : Stage} (hr : r ∈ s.refs) (hdev : b.dev = (a.buf r.buf).dev)
    (hno : b.blockno = (a.buf r.buf).blockno) (href : b.refcnt = (a.buf r.buf).refcnt) :
    Inv (s.advance (s.cache.set r.buf b) (s.move r st) s.pins) (a.set r.buf b) := by
  refine h.set h.refines.set hdev hno ?_ (fun j _ => ?_) fun h0 => by rwa [← href]
  · rw [href, h.count, countP_move hr]
    rfl
  rw [countP_move hr]
  rfl

lemma Inv.front (hone : (a.buf i).refcnt = 1)
    (hcount : ∀ j, ((a.unref i).buf j).refcnt = (refs.countP (·.buf = j) + pins j : Nat)) :
    Inv (s.advance (s.cache.unref i) refs pins) (a.unref i) := by
  have hr : (s.cache.unref i).Refines (a.unref i) := h.refines.unref
  have h0 : (a.buf i).refcnt - 1 = 0 := by omega
  have hlru : (a.unref i).lru = i :: a.lru.erase i := by rw [Cache.unref, if_pos h0]
  have hself : ((a.unref i).buf i).refcnt = 0 := by rwa [unref_buf, set_buf_self]
  have hother : ∀ j ≠ i, (a.unref i).buf j = a.buf j := fun j hj => by
    rw [unref_buf, set_buf_of_ne a _ hj]
  have hdropped : (s.advance (s.cache.unref i) refs pins).dropped i = (s.clock : WithBot Nat) := by
    refine if_pos ⟨?_, ?_⟩
    · rw [h.refines.buf, hone]
      decide
    rw [hr.buf, hself]
  have hkept : ∀ j ≠ i, (s.advance (s.cache.unref i) refs pins).dropped j = s.dropped j :=
    fun j hj => by
      refine if_neg fun hc => hc.1 ?_
      have := hc.2
      rw [hr.buf, hother j hj] at this
      rw [h.refines.buf, this]
  have hmem : ∀ j ∈ a.lru.erase i, j ≠ i := fun j hj e =>
    (h.refines.links.nodup.mem_erase_iff.mp hj).1 e
  refine ⟨hr, hcount, ?_, ?_, fun j => ?_⟩
  · rw [unref_buf]
    exact h.unique_set rfl rfl
  · rw [hlru]
    refine pairwise_cons.mpr ⟨fun j hj _ _ => ?_, ?_⟩
    · rw [hdropped, hkept j (hmem j hj)]
      exact le_of_lt (h.past j)
    refine (h.order.sublist erase_sublist).imp_of_mem fun {j k} hj hk hjk => ?_
    rwa [hother j (hmem j hj), hother k (hmem k hk), hkept j (hmem j hj), hkept k (hmem k hk)]
  by_cases hj : j = i
  · rw [hj, hdropped]
    exact WithBot.coe_lt_coe.mpr (Nat.lt_succ_self s.clock)
  rw [hkept j hj]
  exact lt_trans (h.past j) (WithBot.coe_lt_coe.mpr (Nat.lt_succ_self s.clock))

lemma Inv.find_none (hf : a.find dev blockno = none) (j : Fin nbuf) :
    ¬((a.buf j).dev = dev ∧ (a.buf j).blockno = blockno) := by
  have := find?_eq_none.mp hf j (h.refines.all j)
  simpa using this

lemma Inv.recycle {p : P} (hf : a.find dev blockno = none) (h0 : (a.buf i).refcnt = 0)
    (hr : c.Refines (a.set i b))
    (hb : b = { a.buf i with dev := dev, blockno := blockno, valid := false, refcnt := 1 }) :
    Inv (s.advance c (⟨p, i, dev, blockno, .wait⟩ :: s.refs) s.pins) (a.set i b) := by
  have hno := h.find_none hf
  have hzero := h.count i
  refine h.frame hr rfl (fun j => ?_) (fun j k hdev hblock => ?_) fun j => ?_
  · rw [countP_cons]
    by_cases hj : j = i
    · rw [hj, set_buf_self, hb]
      rw [h0, uses] at hzero
      simp only [decide_true, if_true]
      omega
    rw [set_buf_of_ne a b hj, h.count, uses]
    simp [Ne.symm hj]
  · by_cases hj : j = i
    · by_cases hk : k = i
      · exact .inl (hj.trans hk.symm)
      rw [hj, set_buf_self, set_buf_of_ne a b hk, hb] at hdev hblock
      exact absurd ⟨hdev.symm, hblock.symm⟩ (hno k)
    · by_cases hk : k = i
      · rw [hk, set_buf_self, set_buf_of_ne a b hj, hb] at hdev hblock
        exact absurd ⟨hdev, hblock⟩ (hno j)
      · rw [set_buf_of_ne a b hj, set_buf_of_ne a b hk] at hdev hblock
        rw [set_buf_of_ne a b hj]
        exact h.unique j k hdev hblock
  by_cases hj : j = i
  · rw [hj]
    exact fun _ => h0
  rw [set_buf_of_ne a b hj]
  exact id
end

lemma bget_cases (h : a.bget dev blockno = some (a', i)) : a.find dev blockno = some i ∧
      a' = a.set i { a.buf i with refcnt := (a.buf i).refcnt + 1 } ∨
    a.find dev blockno = none ∧ a.unused = some i ∧
      a' = a.set i { a.buf i with dev := dev, blockno := blockno, valid := false, refcnt := 1 } :=
        by
  unfold Cache.bget at h
  cases hf : a.find dev blockno with
  | some k =>
    rw [hf] at h
    cases h
    exact .inl ⟨rfl, rfl⟩
  | none =>
    rw [hf] at h
    cases hu : a.unused with
    | some k =>
      rw [hu] at h
      cases h
      exact .inr ⟨rfl, rfl, rfl⟩
    | none =>
      rw [hu] at h
      cases h

lemma unused_refcnt (h : a.unused = some i) : (a.buf i).refcnt = 0 := by simpa using find?_some h

lemma Inv.oldest (h : Inv s a) (hu : a.unused = some i) (hj : (a.buf j).refcnt = 0) :
    s.dropped i ≤ s.dropped j := by
  obtain ⟨hi, front, back, hlist, hbusy⟩ := find?_eq_some_iff_append.mp hu
  have hlru : a.lru = back.reverse ++ i :: front.reverse := by
    rw [← reverse_reverse a.lru, hlist]
    simp
  have hmem := h.refines.all j
  have horder := h.order
  rw [hlru] at hmem horder
  rcases mem_append.mp hmem with hback | hrest
  · have hpair := (pairwise_append.mp horder).2.2 j hback i mem_cons_self
    exact hpair hj (unused_refcnt hu)
  rcases mem_cons.mp hrest with rfl | hfront
  · exact le_rfl
  have := hbusy j (mem_reverse.mp hfront)
  simp [hj] at this

lemma inv_boot : Inv (boot P) (Cache.binit P) := by
  refine ⟨Bcache.refines_binit, fun _ => rfl, fun _ _ _ _ => .inr rfl, ?_, fun _ => ?_⟩
  · exact pairwise_of_forall fun _ _ _ _ => le_rfl
  exact WithBot.bot_lt_coe 0

lemma Inv.bread {p : P} (h : Inv s a) (hb : s.cache.bget dev blockno = some (c, i)) :
    ∃ a', Inv (s.advance c (⟨p, i, dev, blockno, .wait⟩ :: s.refs) s.pins) a' := by
  obtain ⟨a', ha, hr⟩ := h.refines.bget hb
  refine ⟨a', ?_⟩
  rcases bget_cases ha with ⟨-, rfl⟩ | ⟨hf, hu, rfl⟩
  · have hcount := h.count i
    rw [uses] at hcount
    refine h.set hr rfl rfl ?_ (fun j hj => ?_) fun h0 => ?_
    · rw [countP_cons]
      simp only [decide_true, if_true]
      omega
    · rw [countP_cons, uses]
      simp [Ne.symm hj]
    dsimp only at h0
    omega
  exact h.recycle hf (unused_refcnt hu) hr rfl

variable [DecidableEq P]

lemma Inv.unref (h : Inv s a) (hr : r ∈ s.refs) :
    Inv (s.advance (s.cache.unref r.buf) (s.refs.erase r) s.pins) (a.unref r.buf) := by
  have hcount : ∀ j, ((a.unref r.buf).buf j).refcnt =
      ((s.refs.erase r).countP (·.buf = j) + s.pins j : Nat) := fun j => by
    have hj := h.count j
    rw [uses, countP_erase hr] at hj
    rw [unref_buf]
    by_cases hjr : j = r.buf
    · rw [hjr] at hj ⊢
      rw [set_buf_self]
      simp only [if_true] at hj ⊢
      omega
    rw [set_buf_of_ne a _ hjr, hj, if_neg (Ne.symm hjr)]
    omega
  have hpos := uses_pos hr
  have hself := h.count r.buf
  rw [uses] at hself
  by_cases hone : (a.buf r.buf).refcnt = 1
  · exact h.front hone hcount
  have hne : ¬(a.buf r.buf).refcnt - 1 = 0 := by omega
  have hset : a.unref r.buf =
      a.set r.buf { a.buf r.buf with refcnt := (a.buf r.buf).refcnt - 1 } := by
    rw [Cache.unref, if_neg hne]
  have hrefines := h.refines.unref (i := r.buf)
  rw [hset] at hcount hrefines ⊢
  refine h.frame hrefines rfl hcount (h.unique_set rfl rfl) fun j => ?_
  by_cases hj : j = r.buf
  · rw [hj, set_buf_self]
    exact fun h0 => absurd h0 hne
  rw [set_buf_of_ne a _ hj]
  exact id

lemma Inv.next {d : Disk} {lab : Label P} (h : Inv s a) (hn : s.next d lab = some s') :
    ∃ a', Inv s' a' := by
  have hbuf := h.refines.buf
  cases lab with
  | bread p dev blockno =>
    rw [Users.next] at hn
    split at hn
    · cases hn
    cases hb : s.cache.bget dev blockno with
    | none =>
      rw [hb] at hn
      cases hn
    | some q =>
      rw [hb] at hn
      cases hn
      exact h.bread hb
  | acquiresleep r
  | brelse r =>
    rw [Users.next] at hn
    split at hn
    · rename_i hc
      cases hn
      exact ⟨_, h.turn hc.1 (by rw [hbuf]) (by rw [hbuf]) (by rw [hbuf])⟩
    cases hn
  | fill r =>
    rw [Users.next] at hn
    split at hn
    · rename_i hc
      cases hn
      unfold Bcache.fill
      split
      · have hself : s.cache = s.cache.set r.buf (s.cache.buf r.buf) := by simp [Bcache.set]
        rw [hself]
        exact ⟨_, h.turn hc.1 (by rw [hbuf]) (by rw [hbuf]) (by rw [hbuf])⟩
      exact ⟨_, h.turn hc.1 (by rw [hbuf]) (by rw [hbuf]) (by rw [hbuf])⟩
    cases hn
  | unref r =>
    rw [Users.next] at hn
    split at hn
    · rename_i hc
      cases hn
      exact ⟨_, h.unref hc.1⟩
    cases hn
  | bpin r =>
    rw [Users.next] at hn
    split at hn
    · rename_i hc
      cases hn
      have hself := h.count r.buf
      rw [uses] at hself
      refine ⟨_, h.set h.refines.set (by rw [hbuf]) (by rw [hbuf]) ?_ (fun j hj => ?_)
        (fun h0 => ?_)⟩
      · rw [update_self, hbuf]
        dsimp only
        omega
      · rw [update_of_ne hj]
        rfl
      rw [hbuf] at h0
      dsimp only at h0
      omega
    cases hn
  | bunpin r =>
    rw [Users.next] at hn
    split at hn
    · rename_i hc
      cases hn
      have hpos := uses_pos hc.1
      have hpin := hc.2.2
      have hself := h.count r.buf
      rw [uses] at hself
      refine ⟨_, h.set h.refines.set (by rw [hbuf]) (by rw [hbuf]) ?_ (fun j hj => ?_)
        (fun h0 => ?_)⟩
      · rw [update_self, hbuf]
        dsimp only
        omega
      · rw [update_of_ne hj]
        rfl
      rw [hbuf] at h0
      dsimp only at h0
      omega
    cases hn
end Step

theorem lru_of_run [DecidableEq P] {d : Disk} {s : Users P} {labs : List (Label P)}
    (hrun : run (Users.next d) (boot P) labs = some s) :
    (∃ l : List (Fin nbuf), l.Nodup ∧ (∀ i, i ∈ l) ∧
      iterate s.cache.links.next (s.cache.links.next none) nbuf = l.map some ∧
      s.cache.links.next^[nbuf + 1] none = none) ∧
    (∀ x, s.cache.links.prev (s.cache.links.next x) = x ∧
      s.cache.links.next (s.cache.links.prev x) = x) ∧
    (∀ i j, (s.cache.buf i).dev ≠ 0 → (s.cache.buf i).dev = (s.cache.buf j).dev →
      (s.cache.buf i).blockno = (s.cache.buf j).blockno → i = j) ∧
    ∀ dev blockno c i, s.cache.bget dev blockno = some (c, i) →
      (s.cache.buf i).dev = dev ∧ (s.cache.buf i).blockno = blockno ∨
      (∀ j, ¬((s.cache.buf j).dev = dev ∧ (s.cache.buf j).blockno = blockno)) ∧
        (s.cache.buf i).refcnt = 0 ∧
        ∀ j, (s.cache.buf j).refcnt = 0 → s.dropped i ≤ s.dropped j := by
  have hstep : ∀ (u : Users P) lab v, (∃ a, Inv u a) → u.next d lab = some v → ∃ a, Inv v a :=
    fun _ _ _ ⟨_, hu⟩ hn => hu.next hn
  obtain ⟨a, h⟩ : ∃ a, Inv s a := run_invariant hstep ⟨_, inv_boot⟩ hrun
  obtain ⟨hseq, hend⟩ := h.refines.links.seg.iterate
  rw [h.refines.length] at hseq hend
  refine ⟨⟨a.lru, h.refines.links.nodup, h.refines.all, hseq, hend⟩,
    h.refines.links.inverse h.refines.all, ?_, fun dev blockno c i hb => ?_⟩
  · rw [h.refines.buf]
    exact fun i j h0 hdev hno => (h.unique i j hdev hno).resolve_right h0
  obtain ⟨a', ha, -⟩ := h.refines.bget hb
  rw [h.refines.buf]
  rcases bget_cases ha with ⟨hf, -⟩ | ⟨hf, hu, -⟩
  · exact .inl (find_some hf)
  exact .inr ⟨h.find_none hf, unused_refcnt hu, fun j hj => h.oldest hu hj⟩

def pinOnce : List (Label Unit) :=
  let r : Stage → Ref Unit := fun st => ⟨(), ⟨0, by decide⟩, 1, 5, st⟩
  [.bread () 1 5, .acquiresleep (r .wait), .fill (r .fill), .bpin (r (.hold false)),
    .brelse (r (.hold false)), .unref (r .drop), .bread () 1 5, .acquiresleep (r .wait),
    .fill (r .fill), .bunpin (r (.hold false)), .brelse (r (.hold false)), .unref (r .drop)]

theorem lru_of_run_pinOnce : ∃ s c i, run (Users.next fun _ => .zero) (boot Unit) pinOnce = some s ∧
    s.cache.bget 1 6 = some (c, i) ∧ i.val = 1 ∧
    ∀ j, (s.cache.buf j).refcnt = 0 → s.dropped i ≤ s.dropped j := by
  have hrun : ((run (Users.next fun _ => .zero) (boot Unit) pinOnce).bind fun s =>
      (s.cache.bget 1 6).map fun q => decide (q.2.val = 1 ∧ (s.cache.buf q.2).blockno ≠ 6)) =
      some true := by decide +kernel
  obtain ⟨s, hs, hget⟩ := Option.bind_eq_some_iff.mp hrun
  obtain ⟨⟨c, i⟩, hc, hvals⟩ := Option.map_eq_some_iff.mp hget
  obtain ⟨hi, hno⟩ := of_decide_eq_true hvals
  obtain ⟨-, -, -, hlru⟩ := lru_of_run hs
  rcases hlru 1 6 c i hc with hhit | ⟨-, -, hold⟩
  · exact absurd hhit.2 hno
  exact ⟨s, c, i, hs, hc, hi, hold⟩
end Users
end Xv6.Bio
