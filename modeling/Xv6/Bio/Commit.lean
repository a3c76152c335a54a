import Xv6.Bio.Kernel

namespace Xv6.Bio
variable {P : Type}

def rootRef (p : P) (i : Fin nbuf) (b : Nat) (st : Stage) : Ref P := ⟨p, i, rootdev, b, st⟩

namespace CommitAt
def held (start : Nat) (lh : List Nat) (p : P) : CommitAt → List (Ref P)
  | logFrom tail dst | logRelTo tail dst => [rootRef p dst (start + tail + 1) (.hold false)]
  | logCopy tail dst src | logRelFrom tail dst src =>
    [rootRef p dst (start + tail + 1) (.hold false), rootRef p src (lh.getD tail 0) (.hold false)]
  | logWrite tail dst src =>
    [rootRef p dst (start + tail + 1) (.hold true), rootRef p src (lh.getD tail 0) (.hold false)]
  | headFill _ buf | headRel _ buf => [rootRef p buf start (.hold false)]
  | headWrite _ buf => [rootRef p buf start (.hold true)]
  | instHome tail lbuf => [rootRef p lbuf (start + tail + 1) (.hold false)]
  | instCopy tail lbuf dbuf | instWrite tail lbuf dbuf | instUnpin tail lbuf dbuf
  | instRelLog tail lbuf dbuf =>
    [rootRef p lbuf (start + tail + 1) (.hold false), rootRef p dbuf (lh.getD tail 0) (.hold false)]
  | instRelHome tail dbuf => [rootRef p dbuf (lh.getD tail 0) (.hold false)]
  | _ => []

def relBlock (start : Nat) (lh : List Nat) : CommitAt → Nat
  | logRelFrom tail _ _ | instRelHome tail _ => lh.getD tail 0
  | logRelTo tail _ | instRelLog tail _ _ => start + tail + 1
  | headRel _ _ => start
  | _ => 0

def unpinned (n : Nat) : CommitAt → Nat
  | instLog tail | instHome tail _ | instCopy tail _ _ | instWrite tail _ _
  | instUnpin tail _ _ => tail
  | instRelLog tail _ _ | instRelHome tail _ => tail + 1
  | clear => n
  | _ => 0

def written (n : Nat) : CommitAt → Nat
  | instLog tail | instHome tail _ | instCopy tail _ _ | instWrite tail _ _ => tail
  | instUnpin tail _ _ | instRelLog tail _ _ | instRelHome tail _ => tail + 1
  | clear => n
  | _ => 0

def installed (n : Nat) : CommitAt → Nat
  | instLog tail | instHome tail _ | instCopy tail _ _ => tail
  | instWrite tail _ _ | instUnpin tail _ _ | instRelLog tail _ _ | instRelHome tail _ => tail + 1
  | clear => n
  | _ => 0

def copied (n : Nat) : CommitAt → Nat
  | logTo tail | logFrom tail _ | logCopy tail _ _ => tail
  | logWrite tail _ _ | logRelFrom tail _ _ | logRelTo tail _ => tail + 1
  | _ => n

def Ok (n : Nat) : CommitAt → Prop
  | logTo tail | logFrom tail _ | logCopy tail _ _ | logWrite tail _ _ | logRelFrom tail _ _
  | logRelTo tail _ | instLog tail | instHome tail _ | instCopy tail _ _ | instWrite tail _ _
  | instUnpin tail _ _ | instRelLog tail _ _ | instRelHome tail _ => tail < n
  | head erase | headFill erase _ | headWrite erase _ | headRel erase _ =>
    if erase then n = 0 else 0 < n
  | clear => 0 < n
  | ret => n = 0

variable {start n : Nat} {lh : List Nat} {p : P} {pc pc' : CommitAt} {i : Fin nbuf} {b : Nat}

lemma held_got (h : pc.reads start lh = some b) :
    (((pc.got i).held start lh p : List (Ref P)) : Multiset (Ref P)) =
      rootRef p i b (.hold false) ::ₘ (pc.held start lh p : List (Ref P)) := by
  cases pc <;> simp only [reads, Option.some.injEq, reduceCtorEq] at h <;> subst h
  case logFrom => exact Multiset.coe_eq_coe.mpr (List.Perm.swap _ _ [])
  case instHome => exact Multiset.coe_eq_coe.mpr (List.Perm.swap _ _ [])
  all_goals rfl

lemma held_releases (h : pc.releases lh.length = some (i, pc')) :
    ((pc.held start lh p : List (Ref P)) : Multiset (Ref P)) =
      rootRef p i (pc.relBlock start lh) (.hold false) ::ₘ
        (pc'.held start lh p : List (Ref P)) := by
  cases pc with
  | logRelFrom tail dst src =>
    cases h
    exact Multiset.coe_eq_coe.mpr (List.Perm.swap _ _ [])
  | logRelTo tail dst
  | instRelHome tail dbuf =>
    cases h
    split <;> rfl
  | headRel erase buf => cases erase <;> cases h <;> rfl
  | instRelLog tail lbuf dbuf =>
    cases h
    rfl
  | _ => cases h

lemma Ok.got (h : pc.Ok n) : (pc.got i).Ok n := by cases pc <;> exact h

lemma Ok.releases (h : pc.Ok n) (hr : pc.releases n = some (i, pc')) : pc'.Ok n := by
  cases pc with
  | logRelFrom tail dst src
  | instRelLog tail lbuf dbuf => cases hr; exact h
  | logRelTo tail dst
  | instRelHome tail dbuf =>
    cases hr
    have h' : tail < n := h
    split
    · assumption
    show 0 < n
    omega
  | headRel erase buf => cases erase <;> cases hr <;> exact h
  | _ => cases hr

lemma got_progress (n : Nat) (i : Fin nbuf) (pc : CommitAt) :
    (pc.got i).unpinned n = pc.unpinned n ∧ (pc.got i).written n = pc.written n ∧
      (pc.got i).installed n = pc.installed n ∧ (pc.got i).copied n = pc.copied n := by
  cases pc <;> exact ⟨rfl, rfl, rfl, rfl⟩

lemma releases_progress (h : pc.Ok n) (hr : pc.releases n = some (i, pc')) :
    pc'.unpinned n = pc.unpinned n ∧ pc'.written n = pc.written n ∧
      pc'.installed n = pc.installed n ∧ pc'.copied n = pc.copied n := by
  cases pc with
  | logRelFrom tail dst src
  | instRelLog tail lbuf dbuf => cases hr; exact ⟨rfl, rfl, rfl, rfl⟩
  | logRelTo tail dst =>
    cases hr
    have h' : tail < n := h
    split
    · exact ⟨rfl, rfl, rfl, rfl⟩
    refine ⟨rfl, rfl, rfl, ?_⟩
    show n = tail + 1
    omega
  | headRel erase buf => cases erase <;> cases hr <;> exact ⟨rfl, rfl, rfl, rfl⟩
  | instRelHome tail dbuf =>
    cases hr
    have h' : tail < n := h
    split
    · exact ⟨rfl, rfl, rfl, rfl⟩
    have hn : n = tail + 1 := by omega
    exact ⟨hn, hn, hn, rfl⟩
  | _ => cases hr
end CommitAt
namespace Thread
def refs (start : Nat) (lh : List Nat) (t : Thread P) : List (Ref P) :=
  match t.call with
  | .none => t.pc.held start lh t.proc
  | .wait i => rootRef t.proc i ((t.pc.reads start lh).getD 0) .wait :: t.pc.held start lh t.proc
  | .fill i => rootRef t.proc i ((t.pc.reads start lh).getD 0) .fill :: t.pc.held start lh t.proc
  | .drop i =>
    rootRef t.proc i (t.pc.relBlock start lh) .drop ::
      (((t.pc.releases lh.length).map Prod.snd).getD t.pc).held start lh t.proc

structure Ok (start : Nat) (lh : List Nat) (t : Thread P) : Prop where
  pc : t.pc.Ok lh.length
  wait : ∀ i, t.call = .wait i ∨ t.call = .fill i → ∃ b, t.pc.reads start lh = some b
  drop : ∀ i, t.call = .drop i → ∃ pc, t.pc.releases lh.length = some (i, pc)

lemma Ok.of_none {start : Nat} {lh : List Nat} {p : P} {pc : CommitAt}
    (h : pc.Ok lh.length) : Ok start lh ⟨p, pc, .none⟩ :=
  ⟨h, by simp, by simp⟩
end Thread

def window (start : Nat) (lh : List Nat) (lo hi : Nat) : List (Nat × Nat) :=
  (List.range' lo (hi - lo)).map fun k => (start + k + 1, lh.getD k 0)

lemma mem_window {start : Nat} {lh : List Nat} {lo hi l n : Nat} :
    (l, n) ∈ window start lh lo hi ↔
      ∃ k, lo ≤ k ∧ k < hi ∧ l = start + k + 1 ∧ n = lh.getD k 0 := by
  simp only [window, List.mem_map, List.mem_range'_1, Prod.mk.injEq]
  constructor
  · rintro ⟨k, ⟨h1, h2⟩, h3, h4⟩
    exact ⟨k, h1, by omega, h3.symm, h4.symm⟩
  rintro ⟨k, h1, h2, h3, h4⟩
  exact ⟨k, ⟨h1, by omega⟩, h3.symm, h4.symm⟩

namespace Kernel
def commitRefs (start : Nat) (s : Kernel P) : List (Ref P) :=
  match s.thread with
  | some t => t.refs start s.lh
  | none => []

def allRefs (start : Nat) (s : Kernel P) : Multiset (Ref P) := s.refs + s.commitRefs start

def pins (s : Kernel P) : List Nat :=
  match s.thread with
  | some t => s.lh.drop (t.pc.unpinned s.lh.length)
  | none => s.lh

def lag (s : Kernel P) : List Nat :=
  match s.thread with
  | some t => s.lh.drop (t.pc.written s.lh.length)
  | none => s.lh

def copies (start : Nat) (s : Kernel P) : List (Nat × Nat) :=
  match s.thread with
  | some t => window start s.lh (t.pc.installed s.lh.length) (t.pc.copied s.lh.length)
  | none => []
end Kernel
end Xv6.Bio
