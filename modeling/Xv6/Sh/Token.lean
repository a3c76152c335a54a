import Mathlib.Data.List.TakeWhile
import Xv6.Sh.Parse

namespace Xv6.Sh
open Lib List

abbrev Word := List UInt8

inductive Token where
  | sym (y : Sym)
  | word (w : List UInt8)
  deriving DecidableEq

def wordCons (c : UInt8) (joined : Bool) (ts : List Token) : List Token :=
  match joined, ts with
  | true, .word w :: ts => .word (c :: w) :: ts
  | _, ts => .word [c] :: ts

def tokens : List UInt8 → List Token
  | [] => []
  | [c] =>
    if isSpace c then []
    else match symOf c with
      | some y => [.sym y]
      | none => [.word [c]]
  | c :: d :: s =>
    if isSpace c then tokens (d :: s)
    else match symOf c with
      | some .gt => if d = 62 then .sym .gtgt :: tokens s else .sym .gt :: tokens (d :: s)
      | some y => .sym y :: tokens (d :: s)
      | none => wordCons c (isWord d) (tokens (d :: s))

variable {c d : UInt8} {s q r : Ptr} {w : Word} {toks : List UInt8} {y : Sym} {ts : List Token}
  {E : Stop → Prop} {Q : Ret × Arg → Ptr → Prop}

lemma symOf_eq_none : symOf c = none ↔ c ∉ symbols := by
  unfold symOf symbols
  constructor
  · intro h
    simp only [mem_cons, not_mem_nil, or_false]
    rintro (rfl | rfl | rfl | rfl | rfl | rfl | rfl) <;> exact absurd h (by decide)
  intro h
  simp only [mem_cons, not_mem_nil, or_false, not_or] at h
  obtain ⟨h1, h2, h3, h4, h5, h6, h7⟩ := h
  simp only [if_neg h1, if_neg h2, if_neg h3, if_neg h4, if_neg h5, if_neg h6, if_neg h7]

lemma isWord_iff : isWord c ↔ isSpace c = false ∧ symOf c = none := by
  rw [symOf_eq_none, isWord, isSpace]
  simp

lemma tokens_space (h : isSpace c) (s : Ptr) : tokens (c :: s) = tokens s := by
  cases s with
  | nil => exact if_pos h
  | cons d s => rw [tokens, if_pos h]

lemma tokens_skip (s : Ptr) : tokens (skip s) = tokens s := by
  induction s with
  | nil => rfl
  | cons c s ih =>
    by_cases h : isSpace c
    · rwa [skip, dropWhile_cons_of_pos h, tokens_space h]
    rw [skip, dropWhile_cons_of_neg h]

lemma tokens_word (h : isWord c) (s : Ptr) :
    tokens (c :: s) = .word (c :: s.takeWhile isWord) :: tokens (s.dropWhile isWord) := by
  induction s generalizing c with
  | nil =>
    obtain ⟨hs, hn⟩ := isWord_iff.mp h
    rw [tokens, if_neg (by rw [hs]; decide), hn]
    rfl
  | cons d s ih =>
    obtain ⟨hs, hn⟩ := isWord_iff.mp h
    rw [tokens, if_neg (by rw [hs]; decide), hn]
    by_cases hd : isWord d
    · rw [hd, ih hd, takeWhile_cons_of_pos hd, dropWhile_cons_of_pos hd]
      rfl
    have hd : isWord d = false := Bool.eq_false_iff.mpr hd
    rw [hd, takeWhile_cons_of_neg (by rw [hd]; decide), dropWhile_cons_of_neg (by rw [hd]; decide)]
    rfl

def Ret.tokens (r : Ret) (q eq : Ptr) : List Token :=
  match r with
  | .eof => []
  | .sym y => [.sym y]
  | .word => [.word (q.take (q.length - eq.length))]

lemma take_length_sub_dropWhile (p : UInt8 → Bool) (s : Ptr) :
    s.take (s.length - (s.dropWhile p).length) = s.takeWhile p := by
  have hlen := congrArg length (takeWhile_append_dropWhile (p := p) (l := s))
  rw [length_append] at hlen
  have hsub : s.length - (s.dropWhile p).length = (s.takeWhile p).length := by omega
  rw [hsub]
  exact (prefix_iff_eq_take.mp ( takeWhile_prefix p)).symm

lemma tokens_scan (h : ∀ c ∈ q.head?, isSpace c = false) :
    tokens q = (scan q).1.tokens q (scan q).2 ++ tokens (scan q).2 := by
  cases q with
  | nil => rfl
  | cons c s =>
    have hc : ¬isSpace c := by
      rw [h c rfl]
      decide
    cases hy : symOf c with
    | none =>
      have hw : isWord c := isWord_iff.mpr ⟨Bool.eq_false_iff.mpr hc, hy⟩
      have hscan : scan (c :: s) = (.word, (c :: s).dropWhile isWord) := by rw [scan, hy]
      rw [hscan, tokens_word hw]
      dsimp only [Ret.tokens]
      rw [take_length_sub_dropWhile, takeWhile_cons_of_pos hw, dropWhile_cons_of_pos hw]
      rfl
    | some y =>
      cases s with
      | nil =>
        rw [tokens, if_neg hc, hy, scan, hy]
        cases y <;> rfl
      | cons d s =>
        rw [tokens, if_neg hc, hy, scan, hy]
        by_cases hd : d = 62
        · cases y <;> simp [Ret.tokens, hd]
        cases y <;> simp [Ret.tokens, hd]

lemma head_skip (s : Ptr) : ∀ c ∈ (skip s).head?, isSpace c = false := by
  intro c hc
  have hne : skip s ≠ [] := by
    rintro h
    rw [h] at hc
    cases hc
  have hhead := head_dropWhile_not isSpace hne
  rw [head?_eq_some_head hne] at hc
  cases hc
  exact hhead

lemma length_skip_le (s : Ptr) : (skip s).length ≤ s.length :=
  (dropWhile_sublist isSpace).length_le

def Sym.char : Sym → UInt8
  | .lt => 60
  | .bar => 124
  | .gt => 62
  | .gtgt => 62
  | .amp => 38
  | .semi => 59
  | .lparen => 40
  | .rparen => 41

lemma char_of_symOf {c : UInt8} (h : symOf c = some y) : y.char = c := by
  unfold symOf at h
  split_ifs at h with h1 h2 h3 h4 h5 h6 h7
  · cases h
    exact h1.symm
  · cases h
    exact h2.symm
  · cases h
    exact h3.symm
  · cases h
    exact h4.symm
  · cases h
    exact h5.symm
  · cases h
    exact h6.symm
  cases h
  exact h7.symm

lemma scan_cases (c : UInt8) (s : Ptr) :
    (∃ y eq, scan (c :: s) = (.sym y, eq) ∧ y.char = c ∧ eq <:+ s) ∨
      symOf c = none ∧ scan (c :: s) = (.word, (c :: s).dropWhile isWord) := by
  cases hz : symOf c with
  | none => exact .inr ⟨rfl, by rw [scan, hz]⟩
  | some z =>
    have hc := char_of_symOf hz
    have hs : s <:+ s := suffix_refl s
    rw [scan, hz]
    cases z
    case gt =>
      dsimp only
      split
      · exact .inl ⟨.gtgt, s.tail, rfl, hc, tail_suffix s⟩
      exact .inl ⟨.gt, s, rfl, hc, hs⟩
    all_goals exact .inl ⟨_, s, rfl, hc, hs⟩

lemma scan_suffix (q : Ptr) : (scan q).2 <:+ q := by
  cases q with
  | nil => exact suffix_refl _
  | cons c s =>
    rcases scan_cases c s with ⟨y, eq, h, -, hsuf⟩ | ⟨-, h⟩
    · rw [h]
      exact hsuf.trans (suffix_cons c s)
    rw [h]
    exact dropWhile_suffix isWord

lemma length_scan_lt (hq : q ≠ []) (h : ∀ c ∈ q.head?, isSpace c = false) :
    (scan q).2.length < q.length := by
  cases q with
  | nil => exact absurd rfl hq
  | cons c s =>
    rcases scan_cases c s with ⟨y, eq, he, -, hsuf⟩ | ⟨hn, he⟩
    · rw [he]
      exact Nat.lt_succ_of_le hsuf.length_le
    rw [he, dropWhile_cons_of_pos (isWord_iff.mpr ⟨h c rfl, hn⟩)]
    exact Nat.lt_succ_of_le (dropWhile_sublist isWord).length_le

lemma scan_eof (h : (scan q).1 = .eof) : q = [] := by
  cases q with
  | nil => rfl
  | cons c s =>
    rcases scan_cases c s with ⟨y, eq, he, -⟩ | ⟨-, he⟩
    · rw [he] at h
      cases h
    rw [he] at h
    cases h

lemma head_of_scan (h : (scan q).1 = .sym y) : q.head? = some y.char := by
  cases q with
  | nil => cases h
  | cons c s =>
    rcases scan_cases c s with ⟨z, eq, he, hc, -⟩ | ⟨-, he⟩
    · rw [he] at h
      cases h
      rw [hc]
      rfl
    rw [he] at h
    cases h

lemma scan_word (h : (scan q).1 = .word) :
    (∃ c, q.head? = some c ∧ c ∉ symbols) ∧ (scan q).2 = q.dropWhile isWord := by
  cases q with
  | nil => cases h
  | cons c s =>
    rcases scan_cases c s with ⟨z, eq, he, -⟩ | ⟨hn, he⟩
    · rw [he] at h
      cases h
    rw [he]
    exact ⟨⟨c, rfl, symOf_eq_none.mp hn⟩, rfl⟩

@[simp] lemma wp_peek {Q : Bool → Ptr → Prop} :
    wp (peek toks) s Q E ↔ Q ((skip s).head?.any fun c => decide (c ∈ toks)) (skip s) := by
  simp [peek]

@[simp] lemma wp_gettoken : wp gettoken s Q E ↔
    Q ((scan (skip s)).1, ⟨skip s, (scan (skip s)).2⟩) (skip (scan (skip s)).2) := by
  simp [gettoken]

def headIn (toks : List UInt8) : List Token → Bool
  | .sym y :: _ => decide (y.char ∈ toks)
  | _ => false

def Arg.word (a : Arg) : Word := a.q.take (a.q.length - a.eq.length)
def Arg.Of (s : Ptr) (a : Arg) : Prop := a.q <:+ s ∧ a.eq = a.q.dropWhile isWord

structure Took (s r : Ptr) (ts : List Token) : Prop where
  suffix : r <:+ s
  tokens : tokens s = ts ++ tokens r

variable {t : Ptr} {a : Arg} {us : List Token}

lemma Took.trans (h : Took s r ts) (h' : Took r t us) : Took s t (ts ++ us) :=
  ⟨h'.suffix.trans h.suffix, by rw [h.tokens, h'.tokens, append_assoc]⟩

lemma Took.length_le (h : Took s r ts) : r.length ≤ s.length := h.suffix.length_le

lemma took_skip (s : Ptr) : Took s (skip s) [] :=
  ⟨dropWhile_suffix isSpace, (tokens_skip s).symm⟩

lemma Arg.Of.mono (h : Arg.Of r a) (hr : r <:+ s) : Arg.Of s a := ⟨h.1.trans hr, h.2⟩

lemma took_scan (s : Ptr) : Took s (skip (scan (skip s)).2)
    ((scan (skip s)).1.tokens (skip s) (scan (skip s)).2) := by
  refine ⟨?_, ?_⟩
  · exact (took_skip _).suffix.trans ((scan_suffix _).trans (took_skip s).suffix)
  rw [tokens_skip, ← tokens_scan (head_skip s), tokens_skip]

lemma length_scan_skip_lt (h : skip s ≠ []) : (skip (scan (skip s)).2).length < s.length :=
  calc (skip (scan (skip s)).2).length ≤ (scan (skip s)).2.length := length_skip_le _
    _ < (skip s).length := length_scan_lt h (head_skip s)
    _ ≤ s.length := length_skip_le s

lemma skip_eq_nil_iff : skip s = [] ↔ tokens s = [] := by
  constructor
  · intro h
    rw [← tokens_skip, h]
    rfl
  intro h
  have htok := tokens_scan (head_skip s)
  rw [tokens_skip, h] at htok
  refine scan_eof ?_
  cases hr : (scan (skip s)).1 with
  | eof => rfl
  | sym y
  | word => simp [hr, Ret.tokens] at htok

lemma wp_peek_tokens {Q : Bool → Ptr → Prop} (htoks : toks ⊆ symbols)
    (hQ : ∀ r, Took s r [] → Q (headIn toks (tokens s)) r) : wp (peek toks) s Q E := by
  rw [wp_peek]
  have hq := hQ (skip s) (took_skip s)
  have htok := tokens_scan (head_skip s)
  rw [tokens_skip] at htok
  have hhead : headIn toks (tokens s) = (skip s).head?.any fun c => decide (c ∈ toks) := by
    rw [htok]
    cases hr : (scan (skip s)).1 with
    | eof =>
      rw [scan_eof hr]
      rfl
    | sym y =>
      rw [head_of_scan hr]
      rfl
    | word =>
      obtain ⟨c, hc, hsym⟩ := (scan_word hr).1
      have hno : c ∉ toks := fun h => hsym (htoks h)
      rw [hc]
      simp [headIn, Ret.tokens, hno]
  rwa [hhead] at hq

lemma wp_gettoken_sym (h : tokens s = .sym y :: ts)
    (hQ : ∀ a r, Took s r [.sym y] → r.length < s.length → Q (.sym y, a) r) :
    wp gettoken s Q E := by
  rw [wp_gettoken]
  have htook := took_scan s
  have hne : skip s ≠ [] := by
    rw [Ne, skip_eq_nil_iff, h]
    exact cons_ne_nil _ _
  have hlen := length_scan_skip_lt hne
  cases hr : (scan (skip s)).1 with
  | eof => exact absurd (scan_eof hr) hne
  | sym z =>
    rw [hr] at htook
    have htok := htook.tokens
    rw [h] at htok
    cases htok
    exact hQ _ _ htook hlen
  | word =>
    rw [hr] at htook
    have htok := htook.tokens
    rw [h] at htok
    cases htok

lemma wp_gettoken_word (h : tokens s = .word w :: ts)
    (hQ : ∀ a r, Took s r [.word w] → r.length < s.length → a.Of s → a.word = w → Q (.word, a) r) :
    wp gettoken s Q E := by
  rw [wp_gettoken]
  have htook := took_scan s
  have hne : skip s ≠ [] := by
    rw [Ne, skip_eq_nil_iff, h]
    exact cons_ne_nil _ _
  have hlen := length_scan_skip_lt hne
  cases hr : (scan (skip s)).1 with
  | eof => exact absurd (scan_eof hr) hne
  | sym z =>
    rw [hr] at htook
    have htok := htook.tokens
    rw [h] at htok
    cases htok
  | word =>
    rw [hr] at htook
    have htok := htook.tokens
    rw [h] at htok
    have hw : w = (skip s).take ((skip s).length - (scan (skip s)).2.length) := by
      cases htok
      rfl
    have htook : Took s (skip (scan (skip s)).2) [.word w] := by rwa [hw]
    exact hQ _ _ htook hlen ⟨(took_skip s).suffix, (scan_word hr).2⟩ hw.symm

lemma wp_gettoken_eof (h : tokens s = [])
    (hQ : ∀ a, Took s [] [] → Q (.eof, a) []) : wp gettoken s Q E := by
  have hnil : skip s = [] := skip_eq_nil_iff.mpr h
  have htook := took_skip s
  rw [hnil] at htook
  rw [wp_gettoken, hnil]
  exact hQ _ htook
end Xv6.Sh
