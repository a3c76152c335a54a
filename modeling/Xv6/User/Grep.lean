import Xv6.User.Match

namespace Xv6.Grep
open List Option

def newline : UInt8 := 10
def bufsize : Nat := 1024

def str (buf : Str) (p : Nat) : Option Str :=
  if 0 ∈ buf.drop p then some ((buf.drop p).takeWhile (· ≠ 0)) else none

def store (buf : Str) (p : Nat) (bytes : Str) : Option Str :=
  if p + bytes.length ≤ buf.length then
    some (buf.take p ++ (bytes ++ buf.drop (p + bytes.length)))
  else none

def printLine (pattern buf : Str) (p q : Nat) (out : Str) : Option (Str × Str) := do
  let buf ← store buf q [0]
  let line ← str buf p
  if matchText pattern line then
    let buf ← store buf q [newline]
    return (buf, out ++ (buf.drop p).take (q + 1 - p))
  else return (buf, out)

def lineLoop (pattern : Str) : Nat → Str → Nat → Str → Option (Str × Nat × Str)
  | 0, _, _, _ => none
  | fuel + 1, buf, p, out => do
    let s ← str buf p
    if newline ∈ s then
      let q := p + s.idxOf newline
      let (buf, out) ← printLine pattern buf p q out
      lineLoop pattern fuel buf (q + 1) out
    else return (buf, p, out)

def readLoop (pattern : Str) (chunk : Nat → Nat) : Nat → Str → Nat → Str → Str → Option Str
  | 0, _, _, _, _ => none
  | fuel + 1, buf, m, input, out =>
    let got := input.take (min (chunk input.length + 1) (bufsize - m - 1))
    if got = [] then some out
    else do
      let buf ← store buf m got
      let m := m + got.length
      let buf ← store buf m [0]
      let (buf, p, out) ← lineLoop pattern (m + 1) buf 0 out
      let m := m - p
      let buf ← store buf 0 ((buf.drop p).take m)
      readLoop pattern chunk fuel buf m (input.drop got.length) out

def grep (pattern : Str) (chunk : Nat → Nat) (buf input : Str) : Option Str :=
  readLoop pattern chunk (input.length + 1) buf 0 input []

def lines (input : Str) : List Str := (input.splitOn newline).dropLast

def printed (pattern : Str) (ls : List Str) : Str :=
  (ls.filter (matchText pattern)).flatMap (· ++ [newline])

variable {pattern s t line rest out buf : Str}

lemma lines_of_notMem (h : newline ∉ s) : lines s = [] := by
  rw [lines, splitOn_eq_singleton h]
  rfl

lemma lines_append (h : newline ∉ line) : lines (line ++ newline :: t) = line :: lines t := by
  have hne : ∀ x ∈ line, (x == newline) = false := by
    intro x hx
    rw [beq_eq_false_iff_ne]
    rintro rfl
    exact h hx
  rw [lines, splitOn, splitOnP_append_cons_of_forall_mem hne _ (beq_self_eq_true newline)]
  exact dropLast_cons_of_ne_nil (splitOnP_ne_nil _ _)

lemma str_append (d : Str) (h : 0 ∉ s) : str (d ++ (s ++ 0 :: rest)) d.length = some s := by
  rw [str, drop_left, if_pos (by simp), takeWhile_append_of_pos (fun x hx => ?_)]
  · simp
  rw [decide_eq_true_eq]
  rintro rfl
  exact h hx

lemma store_append (d e f : Str) (h : e.length = f.length) :
    store (d ++ (e ++ rest)) d.length f = some (d ++ (f ++ rest)) := by
  rw [store, if_pos (by simp [h]), take_left, ← h, ← length_append, ← append_assoc d e, drop_left]

lemma store_zero (h : s.length ≤ buf.length) : store buf 0 s = some (s ++ buf.drop s.length) := by
  rw [store, if_pos (by omega), Nat.zero_add, take_zero, nil_append]

lemma printed_append (ls ms : List Str) :
    printed pattern (ls ++ ms) = printed pattern ls ++ printed pattern ms := by
  rw [printed, filter_append, flatMap_append]
  rfl

lemma printed_singleton : printed pattern [line] =
    if matchText pattern line then line ++ [newline] else [] := by
  cases h : matchText pattern line <;> simp [printed, h]

lemma printLine_spec (pattern d rest out : Str) (h : 0 ∉ line) : ∃ x,
    printLine pattern (d ++ (line ++ newline :: rest)) d.length (d.length + line.length) out =
      some (d ++ line ++ [x] ++ rest, out ++ printed pattern [line]) := by
  have hcut : str (d ++ line ++ ([0] ++ rest)) d.length = some line := by
    rw [append_assoc]
    exact str_append d h
  rw [printLine, ← append_assoc, ← length_append, ← singleton_append,
    store_append _ [newline] [0] rfl, bind_eq_bind, bind_some, hcut,
    printed_singleton]
  dsimp only [bind_eq_bind, bind_some]
  cases matchText pattern line with
  | false => exact ⟨0, by simp⟩
  | true =>
    refine ⟨newline, ?_⟩
    have hwrite : take ((d ++ line).length + 1 - d.length)
        (drop d.length (d ++ line ++ ([newline] ++ rest))) = line ++ [newline] := by
      rw [append_assoc, drop_left, ← append_assoc, take_left']
      rw [length_append, length_append, length_singleton]
      omega
    rw [if_pos rfl, if_pos rfl, store_append _ [0] [newline] rfl, bind_some, hwrite,
      append_assoc (d ++ line)]
    rfl

lemma lineLoop_spec (pattern : Str) : ∀ fuel (text d rest out : Str), 0 ∉ text →
    text.length < fuel →
    ∃ d' r ls, lineLoop pattern fuel (d ++ (text ++ 0 :: rest)) d.length out =
        some (d' ++ (r ++ 0 :: rest), d'.length, out ++ printed pattern ls) ∧
      newline ∉ r ∧ d'.length + r.length = d.length + text.length ∧ r ⊆ text ∧
      ∀ t, lines (text ++ t) = ls ++ lines (r ++ t) := by
  intro fuel
  induction fuel with
  | zero => exact fun text d rest out _ h => absurd h (Nat.not_lt_zero _)
  | succ fuel ih =>
    intro text d rest out h0 hfuel
    rw [lineLoop, str_append d h0, bind_eq_bind, bind_some]
    by_cases hn : newline ∈ text
    · obtain ⟨line, text', rfl, hline⟩ := eq_append_cons_of_mem hn
      rw [mem_append, mem_cons, not_or, not_or] at h0
      rw [length_append, length_cons] at hfuel
      obtain ⟨x, hx⟩ := printLine_spec pattern d (text' ++ 0 :: rest) out h0.1
      rw [if_pos hn, idxOf_append_of_notMem hline, idxOf_cons_self, Nat.add_zero, append_assoc line,
        cons_append]
      dsimp only
      rw [hx, bind_eq_bind, bind_some]
      obtain ⟨d', r, ls, hrun, hr, hlen, hsub, hlines⟩ :=
        ih text' (d ++ line ++ [x]) rest (out ++ printed pattern [line]) h0.2.2 (by omega)
      refine ⟨d', r, line :: ls, ?_, hr, ?_, ?_, fun t => ?_⟩
      · rw [show d.length + line.length + 1 = (d ++ line ++ [x]).length by simp; omega]
        dsimp only
        rw [hrun, append_assoc out, ← printed_append]
        rfl
      · simp only [length_append, length_cons, length_nil] at hlen ⊢
        omega
      · exact fun y hy => mem_append_right _ (mem_cons_of_mem _ (hsub hy))
      rw [append_assoc, cons_append, lines_append hline, hlines t]
      rfl
    rw [if_neg hn]
    exact ⟨d, text, [], by simp [printed], hn, rfl, fun _ h => h, fun t => rfl⟩

lemma lines_of_full {r : Str} (hr : newline ∉ r) (hfull : t = [] ∨ r.length + 1 = bufsize)
    (hlen : ∀ l ∈ lines (r ++ t), l.length + 2 ≤ bufsize) : lines (r ++ t) = [] := by
  refine lines_of_notMem fun hn => ?_
  rcases hfull with rfl | hfull
  · rw [append_nil] at hn
    exact hr hn
  obtain ⟨line, u, he, hline⟩ := eq_append_cons_of_mem hn
  have hle := hlen line (by rw [he, lines_append hline]; exact mem_cons_self)
  have hget : (r ++ t)[line.length]? = some newline := by
    rw [he]
    simp
  rw [getElem?_append_left (by omega)] at hget
  exact hr (mem_of_getElem? hget)

lemma readLoop_spec (chunk : Nat → Nat) : ∀ fuel (r rest t out : Str),
    (r ++ rest).length = bufsize → r.length < bufsize → newline ∉ r → 0 ∉ r ++ t →
    (∀ l ∈ lines (r ++ t), l.length + 2 ≤ bufsize) → t.length < fuel →
    readLoop pattern chunk fuel (r ++ rest) r.length t out =
      some (out ++ printed pattern (lines (r ++ t))) := by
  intro fuel
  induction fuel with
  | zero => exact fun r rest t out _ _ _ _ _ h => absurd h (Nat.not_lt_zero _)
  | succ fuel ih =>
    intro r rest t out hbuf hlt hr h0 hlen hfuel
    rw [readLoop]
    by_cases hgot : t.take (min (chunk t.length + 1) (bufsize - r.length - 1)) = []
    · rw [if_pos hgot, lines_of_full hr ?_ hlen]
      · simp [printed]
      rw [take_eq_nil_iff] at hgot
      exact hgot.symm.imp_right fun h => by omega
    rw [if_neg hgot]
    have hle : (t.take (min (chunk t.length + 1) (bufsize - r.length - 1))).length ≤
        bufsize - r.length - 1 := by
      rw [length_take]
      omega
    obtain ⟨t', ht⟩ := take_prefix (min (chunk t.length + 1) (bufsize - r.length - 1)) t
    generalize t.take (min (chunk t.length + 1) (bufsize - r.length - 1)) = got at *
    subst ht
    have hpos := length_pos_of_ne_nil hgot
    rw [length_append] at hbuf hfuel
    rw [← append_assoc, mem_append, not_or] at h0
    obtain ⟨e, x, rest', rfl, he⟩ : ∃ e x rest', rest = e ++ ([x] ++ rest') ∧
        e.length = got.length := by
      cases hd : rest.drop got.length with
      | nil =>
        have := congrArg length hd
        rw [length_drop, length_nil] at this
        omega
      | cons x rest' =>
        refine ⟨rest.take got.length, x, rest', ?_, by rw [length_take]; omega⟩
        rw [singleton_append, ← hd, take_append_drop]
    obtain ⟨d', r', ls, hrun, hr', hsum, hsub, hlines⟩ :=
      lineLoop_spec pattern _ (r ++ got) [] rest' out h0.1 (Nat.lt_succ_self _)
    have hm : (r ++ got).length - d'.length = r'.length := by
      rw [length_nil] at hsum
      omega
    rw [bind_eq_bind, store_append r e got he, bind_some, ← length_append, ← append_assoc r got]
    dsimp only
    rw [store_append (r ++ got) [x] [0] rfl, bind_some,
      show lineLoop pattern _ (r ++ got ++ ([0] ++ rest')) 0 out = _ from hrun]
    dsimp only [bind_eq_bind, bind_some]
    rw [hm, drop_left, take_left, store_zero (by simp; omega), bind_some, drop_left,
      ih r' _ t' _ ?_ ?_ hr' ?_ ?_ (by omega), append_assoc, ← printed_append, ← hlines,
      append_assoc]
    · rw [length_append, length_drop]
      simp only [length_append, length_cons] at *
      omega
    · simp only [length_append] at *
      omega
    · rw [mem_append, not_or]
      exact ⟨fun h => h0.1 (hsub h), h0.2⟩
    intro l hl
    refine hlen l ?_
    rw [← append_assoc, hlines]
    exact mem_append_right _ hl

theorem grep_prints_lines (pattern : Str) (chunk : Nat → Nat) (buf input : Str)
    (hbuf : buf.length = bufsize) (h0 : 0 ∉ input) (hlen : ∀ l ∈ lines input, l.length ≤ 1022) :
    grep pattern chunk buf input = some (printed pattern (lines input)) := by
  exact readLoop_spec chunk (input.length + 1) [] buf input [] hbuf (by decide) not_mem_nil h0
    (fun l hl => Nat.add_le_add_right (hlen l hl) 2) (Nat.lt_succ_self _)

theorem grep_prints_lines_bytewise :
    grep [97] (fun _ => 0) (replicate bufsize 0) [98, 10, 97, 10] = some [97, 10] := by
  rw [grep_prints_lines _ _ _ _ length_replicate (by decide) (by decide)]
  rfl
end Xv6.Grep
