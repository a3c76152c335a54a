import Xv6.Sh.Token

namespace Xv6.Sh
open Lib List

def Sym.redir : Sym → Option (Nat × Nat)
  | .lt => some (oRdonly, 0)
  | .gt => some (oWronly ||| oCreate ||| oTrunc, 1)
  | .gtgt => some (oWronly ||| oCreate, 1)
  | _ => none

inductive Redirs : List Token → List (Redir Word) → Prop where
  | nil : Redirs [] []
  | cons {y : Sym} {m : Nat × Nat} {f : Word} {ts : List Token} {rs : List (Redir Word)}
      (hy : y.redir = some m) (h : Redirs ts rs) :
    Redirs (.sym y :: .word f :: ts) (⟨f, m.1, m.2⟩ :: rs)

inductive Words : List Token → List (Redir Word) → List Word → Prop where
  | nil : Words [] [] []
  | cons {w : Word} {ts us : List Token} {rs rs' : List (Redir Word)} {ws : List Word}
      (h : Redirs ts rs) (hws : Words us rs' ws) :
    Words (.word w :: (ts ++ us)) (rs ++ rs') (w :: ws)

def backs {α : Type} : Nat → Cmd α → Cmd α
  | 0, c => c
  | n + 1, c => backs n (.back c)

mutual

inductive Line : List Token → Cmd Word → Prop where
  | pipe {ts : List Token} {c : Cmd Word} (n : Nat) (h : Pipe ts c) :
    Line (ts ++ replicate n (.sym .amp)) (backs n c)
  | list {ts us : List Token} {c d : Cmd Word} (n : Nat) (h : Pipe ts c) (hd : Line us d) :
    Line (ts ++ replicate n (.sym .amp) ++ .sym .semi :: us) (.list (backs n c) d)

inductive Pipe : List Token → Cmd Word → Prop where
  | exec {ts : List Token} {c : Cmd Word} (h : Exec ts c) : Pipe ts c
  | pipe {ts us : List Token} {c d : Cmd Word} (h : Exec ts c) (hd : Pipe us d) :
    Pipe (ts ++ .sym .bar :: us) (.pipe c d)

inductive Exec : List Token → Cmd Word → Prop where
  | block {ts us : List Token} {c : Cmd Word} {rs : List (Redir Word)} (h : Line ts c)
      (hr : Redirs us rs) : Exec (.sym .lparen :: (ts ++ .sym .rparen :: us)) (wrap c rs)
  | simple {ts us : List Token} {rs rs' : List (Redir Word)} {ws : List Word} (hr : Redirs ts rs)
      (hw : Words us rs' ws) (hlen : ws.length < maxargs) :
    Exec (ts ++ us) (wrap (.exec ws) (rs ++ rs'))
end

def Redir.word (r : Redir Arg) : Redir Word := ⟨r.file.word, r.mode, r.fd⟩

variable {s r : Ptr} {a : Arg} {ts us : List Token} {y : Sym} {w : Word}
  {E : Stop → Prop} {fuel n argc : Nat} {α : Type} {P : α → Prop} {c : Cmd α}

def Cmd.All (P : α → Prop) : Cmd α → Prop
  | .exec argv => ∀ a ∈ argv, P a
  | .redir cmd r => cmd.All P ∧ P r.file
  | .pipe left right => left.All P ∧ right.All P
  | .list left right => left.All P ∧ right.All P
  | .back cmd => cmd.All P

lemma Cmd.All.mono {P' : α → Prop} (h : c.All P) (hP : ∀ a, P a → P' a) : c.All P' := by
  induction c with
  | exec argv => exact fun a ha => hP a (h a ha)
  | redir c r ih => exact ⟨ih h.1, hP _ h.2⟩
  | pipe l r ihl ihr
  | list l r ihl ihr => exact ⟨ihl h.1, ihr h.2⟩
  | back c ih => exact ih h

lemma all_wrap {rs : List (Redir α)} (h : c.All P)
    (hrs : ∀ x ∈ rs, P x.file) : (wrap c rs).All P := by
  induction rs generalizing c with
  | nil => exact h
  | cons x rs ih => exact ih ⟨h, hrs x mem_cons_self⟩ fun z hz => hrs z (mem_cons_of_mem x hz)

lemma all_backs (h : c.All P) (n : Nat) : (backs n c).All P := by
  induction n generalizing c with
  | zero => exact h
  | succ n ih => exact ih h

lemma map_wrap (c : Cmd Arg) (rs : List (Redir Arg)) :
    (wrap c rs).map Arg.word = wrap (c.map Arg.word) (rs.map Redir.word) := by
  induction rs generalizing c with
  | nil => rfl
  | cons x rs ih => exact ih (.redir c x)

lemma map_backs (n : Nat) (c : Cmd Arg) :
    (backs n c).map Arg.word = backs n (c.map Arg.word) := by
  induction n generalizing c with
  | zero => rfl
  | succ n ih => exact ih (.back c)

lemma headIn_redir (h : headIn [60, 62] ts) : ∃ y m us, ts = .sym y :: us ∧ y.redir = some m := by
  match ts with
  | [] => cases h
  | .word w :: us => cases h
  | .sym y :: us =>
    cases y
    case lt => exact ⟨_, _, _, rfl, rfl⟩
    case gt => exact ⟨_, _, _, rfl, rfl⟩
    case gtgt => exact ⟨_, _, _, rfl, rfl⟩
    all_goals exact absurd h (by simp [headIn, Sym.char])

lemma redirFor_eq {m : Nat × Nat} (h : y.redir = some m) (a : Arg) :
    redirFor (.sym y) a = [⟨a, m.1, m.2⟩] := by
  cases y
  case lt =>
    cases h
    rfl
  case gt =>
    cases h
    rfl
  case gtgt =>
    cases h
    rfl
  all_goals cases h

structure Parsed (D : List Token → Cmd Word → Prop) (s : Ptr) (c : Cmd Arg) (r : Ptr) : Prop where
  took : ∃ ts, Took s r ts ∧ D ts (c.map Arg.word)
  args : c.All (Arg.Of s)

structure ParsedRedirs (s : Ptr) (rs : List (Redir Arg)) (r : Ptr) : Prop where
  took : ∃ ts, Took s r ts ∧ Redirs ts (rs.map Redir.word)
  args : ∀ x ∈ rs, x.file.Of s

lemma wp_redirLoop : ∀ fuel s, s.length < fuel →
    wp (redirLoop fuel) s (ParsedRedirs s) (· ≠ .fuel) := by
  intro fuel
  induction fuel with
  | zero =>
    intro s h
    exact absurd h (Nat.not_lt_zero _)
  | succ fuel ih =>
    intro s h
    rw [redirLoop, wp_bind]
    refine wp_peek_tokens (by decide) fun r hr => ?_
    cases hb : headIn [60, 62] (tokens s) with
    | false =>
      rw [if_neg (by decide), wp_pure]
      exact ⟨⟨[], hr, .nil⟩, fun x hx => absurd hx not_mem_nil⟩
    | true =>
      rw [if_pos rfl]
      obtain ⟨y, m, us, hts, hm⟩ := headIn_redir hb
      rw [hr.tokens, nil_append] at hts
      rw [wp_bind]
      refine wp_gettoken_sym hts fun a1 r1 hr1 hl1 => ?_
      have hus : us = tokens r1 := by
        have := hr1.tokens
        rw [hts] at this
        exact cons.inj this |>.2
      rw [wp_bind]
      have hle := hr.length_le
      match hu : us with
      | [] =>
        refine wp_gettoken_eof hus.symm fun a _ => ?_
        rw [if_pos (by simp), wp_throw]
        decide
      | .sym z :: vs =>
        refine wp_gettoken_sym hus.symm fun a r2 _ _ => ?_
        rw [if_pos (by simp), wp_throw]
        decide
      | .word f :: vs =>
        refine wp_gettoken_word hus.symm fun a r2 hr2 hl2 hof hword => ?_
        rw [if_neg (by simp)]
        refine wp_bind_of (ih r2 (by omega)) fun rs r3 hrs => ?_
        obtain ⟨ts, htook, hd⟩ := hrs.took
        have hsub : r2 <:+ s := hr2.suffix.trans (hr1.suffix.trans hr.suffix)
        rw [wp_pure, redirFor_eq hm]
        refine ⟨⟨.sym y :: .word f :: ts, ?_, ?_⟩, fun x hx => ?_⟩
        · exact ((hr.trans hr1).trans hr2).trans htook
        · rw [map_append, ← hword]
          exact .cons hm hd
        rcases mem_append.mp hx with hx | hx
        · rw [mem_singleton.mp hx]
          exact hof.mono (hr1.suffix.trans hr.suffix)
        exact (hrs.args x hx).mono hsub

lemma wp_parseredirs (s : Ptr) : wp parseredirs s (ParsedRedirs s) (· ≠ .fuel) := by
  rw [parseredirs, wp_bind, wp_get]
  exact wp_redirLoop _ s (Nat.lt_succ_self _)

structure ParsedArgs (s : Ptr) (argc : Nat) (x : List Arg × List (Redir Arg)) (r : Ptr) : Prop where
  took : ∃ ts, Took s r ts ∧ Words ts (x.2.map Redir.word) (x.1.map Arg.word)
  few : argc + x.1.length < maxargs
  args : ∀ a ∈ x.1, a.Of s
  files : ∀ z ∈ x.2, z.file.Of s

lemma wp_argLoop : ∀ fuel argc s, s.length < fuel → argc < maxargs →
    wp (argLoop fuel argc) s (ParsedArgs s argc) (· ≠ .fuel) := by
  intro fuel
  induction fuel with
  | zero =>
    intro argc s h
    exact absurd h (Nat.not_lt_zero _)
  | succ fuel ih =>
    intro argc s h hargc
    have hdone : ∀ r, Took s r [] → ParsedArgs s argc ([], []) r := fun r hr =>
      ⟨⟨[], hr, .nil⟩, hargc, fun a ha => absurd ha not_mem_nil, fun x hx => absurd hx not_mem_nil⟩
    rw [argLoop, wp_bind]
    refine wp_peek_tokens (by decide) fun r hr => ?_
    cases hb : headIn [124, 41, 38, 59] (tokens s) with
    | true =>
      rw [if_pos rfl, wp_pure]
      exact hdone r hr
    | false =>
      rw [if_neg (by decide), wp_bind]
      have htok := hr.tokens
      have hle := hr.length_le
      rw [nil_append] at htok
      match ht : tokens s with
      | [] =>
        rw [ht] at htok
        refine wp_gettoken_eof htok.symm fun a hr1 => ?_
        rw [if_pos rfl, wp_pure]
        exact hdone [] (hr.trans hr1)
      | .sym y :: us =>
        rw [ht] at htok
        refine wp_gettoken_sym htok.symm fun a r1 _ _ => ?_
        rw [if_neg (by simp), if_pos (by simp), wp_throw]
        decide
      | .word w :: us =>
        rw [ht] at htok
        refine wp_gettoken_word htok.symm fun a r1 hr1 hl1 hof hword => ?_
        rw [if_neg (by simp), if_neg (by simp)]
        refine wp_ite (fun _ => ?_) fun hmany => ?_
        · rw [wp_throw]
          simp
        refine wp_bind_of (wp_parseredirs r1) fun rs r2 hrs => ?_
        obtain ⟨ts1, htook1, hd1⟩ := hrs.took
        have hle2 := htook1.length_le
        refine wp_bind_of (ih (argc + 1) r2 (by omega) (by omega)) fun x r3 hx => ?_
        obtain ⟨ts2, htook2, hd2⟩ := hx.took
        have hfew := hx.few
        rw [wp_pure]
        have hsub1 : r1 <:+ s := hr1.suffix.trans hr.suffix
        have hsub2 : r2 <:+ s := htook1.suffix.trans hsub1
        refine ⟨⟨.word w :: (ts1 ++ ts2), ?_, ?_⟩, ?_, fun b hb => ?_, fun z hz => ?_⟩
        · exact (hr.trans hr1).trans (htook1.trans htook2)
        · rw [map_append, map_cons, hword]
          exact .cons hd1 hd2
        · rw [length_cons]
          omega
        · rcases mem_cons.mp hb with hb | hb
          · rw [hb]
            exact hof.mono hr.suffix
          exact (hx.args b hb).mono hsub2
        rcases mem_append.mp hz with hz | hz
        · exact (hrs.args z hz).mono hsub1
        exact (hx.files z hz).mono hsub2

lemma char_inj {z : Sym} (hy : y.char ≠ 62) (h : z.char = y.char) : z = y := by
  cases y <;> cases z <;> first | rfl | exact absurd rfl hy | exact absurd h (by decide)

lemma headIn_eq_true (hy : y.char ≠ 62) (h : headIn [y.char] ts) : ∃ us, ts = .sym y :: us := by
  match ts with
  | [] => cases h
  | .word w :: us => cases h
  | .sym z :: us =>
    have hz : z.char = y.char := by simpa [headIn] using h
    exact ⟨us, by rw [char_inj hy hz]⟩

lemma wp_gettoken_peeked {Q : Ret × Arg → Ptr → Prop} (hy : y.char ≠ 62)
    (h : headIn [y.char] (tokens s))
    (hQ : ∀ a r, Took s r [.sym y] → r.length < s.length → Q (.sym y, a) r) :
    wp gettoken s Q E := by
  obtain ⟨us, hus⟩ := headIn_eq_true hy h
  exact wp_gettoken_sym hus hQ

lemma wp_backLoop : ∀ fuel c s, s.length < fuel →
    wp (backLoop fuel c) s (fun c' r => ∃ n, c' = backs n c ∧
      Took s r (replicate n (.sym .amp))) (· ≠ .fuel) := by
  intro fuel
  induction fuel with
  | zero =>
    intro c s h
    exact absurd h (Nat.not_lt_zero _)
  | succ fuel ih =>
    intro c s h
    rw [backLoop, wp_bind]
    refine wp_peek_tokens (by decide) fun r hr => ?_
    cases hb : headIn [38] (tokens s) with
    | false =>
      rw [if_neg (by decide), wp_pure]
      exact ⟨0, rfl, hr⟩
    | true =>
      rw [hr.tokens, nil_append] at hb
      rw [if_pos rfl, wp_bind]
      have hle := hr.length_le
      refine wp_gettoken_peeked (y := .amp) (by decide) hb fun a r1 hr1 hl1 => ?_
      refine wp_imp (ih (.back c) r1 (by omega)) fun c' r2 hc' => ?_
      obtain ⟨n, hc', htook⟩ := hc'
      exact ⟨n + 1, hc', (hr.trans hr1).trans htook⟩

def Sound (m : ShM (Cmd Arg)) (D : List Token → Cmd Word → Prop) (s : Ptr) : Prop :=
  wp m s (Parsed D s) (· ≠ .fuel)

lemma sound_parseline (hpipe : Sound (parsepipe fuel) Pipe s)
    (hline : ∀ r, r.length < s.length → Sound (parseline fuel) Line r) :
    Sound (parseline (fuel + 1)) Line s := by
  unfold Sound
  rw [parseline]
  refine wp_bind_of hpipe fun c r1 hc => ?_
  obtain ⟨ts, htook, hd⟩ := hc.took
  rw [wp_bind, wp_get]
  refine wp_bind_of (wp_backLoop _ c r1 (Nat.lt_succ_self _)) fun c' r2 hc' => ?_
  obtain ⟨n, rfl, hback⟩ := hc'
  have htook2 := htook.trans hback
  rw [wp_bind]
  refine wp_peek_tokens (by decide) fun r3 hr3 => ?_
  have htook3 := htook2.trans hr3
  rw [append_nil] at htook3
  cases hb : headIn [59] (tokens r2) with
  | false =>
    rw [if_neg (by decide), wp_pure]
    refine ⟨⟨_, htook3, ?_⟩, all_backs hc.args n⟩
    rw [map_backs]
    exact .pipe n hd
  | true =>
    rw [hr3.tokens, nil_append] at hb
    rw [if_pos rfl, wp_bind]
    refine wp_gettoken_peeked (y := .semi) (by decide) hb fun a r4 hr4 hl4 => ?_
    have hle := htook3.length_le
    refine wp_bind_of (hline r4 (by omega)) fun d r5 hdd => ?_
    obtain ⟨us, hus, hd'⟩ := hdd.took
    rw [wp_pure]
    have htook5 := htook3.trans (hr4.trans hus)
    refine ⟨⟨_, htook5, ?_⟩, all_backs hc.args n, ?_⟩
    · rw [Cmd.map, map_backs]
      exact .list n hd hd'
    exact hdd.args.mono fun b hb => hb.mono (hr4.suffix.trans htook3.suffix)

lemma sound_parsepipe (hexec : Sound (parseexec fuel) Exec s)
    (hpipe : ∀ r, r.length < s.length → Sound (parsepipe fuel) Pipe r) :
    Sound (parsepipe (fuel + 1)) Pipe s := by
  unfold Sound
  rw [parsepipe]
  refine wp_bind_of hexec fun c r1 hc => ?_
  obtain ⟨ts, htook, hd⟩ := hc.took
  rw [wp_bind]
  refine wp_peek_tokens (by decide) fun r2 hr2 => ?_
  have htook2 := htook.trans hr2
  rw [append_nil] at htook2
  cases hb : headIn [124] (tokens r1) with
  | false =>
    rw [if_neg (by decide), wp_pure]
    exact ⟨⟨_, htook2, .exec hd⟩, hc.args⟩
  | true =>
    rw [hr2.tokens, nil_append] at hb
    rw [if_pos rfl, wp_bind]
    refine wp_gettoken_peeked (y := .bar) (by decide) hb fun a r3 hr3 hl3 => ?_
    have hle := htook2.length_le
    refine wp_bind_of (hpipe r3 (by omega)) fun d r4 hdd => ?_
    obtain ⟨us, hus, hd'⟩ := hdd.took
    rw [wp_pure]
    refine ⟨⟨_, htook2.trans (hr3.trans hus), .pipe hd hd'⟩, hc.args, ?_⟩
    exact hdd.args.mono fun b hb => hb.mono (hr3.suffix.trans htook2.suffix)

lemma sound_parseblock (hs : headIn [40] (tokens s))
    (hline : ∀ r, r.length < s.length → Sound (parseline fuel) Line r) :
    Sound (parseblock (fuel + 1)) Exec s := by
  unfold Sound
  rw [parseblock, wp_bind]
  refine wp_peek_tokens (by decide) fun r1 hr1 => ?_
  rw [hs, if_neg (by decide), wp_bind]
  rw [hr1.tokens, nil_append] at hs
  refine wp_gettoken_peeked (y := .lparen) (by decide) hs fun a r2 hr2 hl2 => ?_
  have htook2 := hr1.trans hr2
  have hle := hr1.length_le
  refine wp_bind_of (hline r2 (by omega)) fun c r3 hc => ?_
  obtain ⟨ts, hts, hd⟩ := hc.took
  rw [wp_bind]
  refine wp_peek_tokens (by decide) fun r4 hr4 => ?_
  have htook4 := htook2.trans (hts.trans hr4)
  rw [append_nil] at htook4
  cases hb : headIn [41] (tokens r3) with
  | false =>
    rw [if_pos rfl, wp_throw]
    decide
  | true =>
    rw [hr4.tokens, nil_append] at hb
    rw [if_neg (by decide), wp_bind]
    refine wp_gettoken_peeked (y := .rparen) (by decide) hb fun a r5 hr5 hl5 => ?_
    refine wp_bind_of (wp_parseredirs r5) fun rs r6 hrs => ?_
    obtain ⟨us, hus, hr⟩ := hrs.took
    have htook6 := htook4.trans (hr5.trans hus)
    rw [wp_pure]
    refine ⟨⟨_, htook6, ?_⟩, all_wrap ?_ (fun x hx => ?_)⟩
    · rw [map_wrap]
      simpa using Exec.block hd hr
    · exact hc.args.mono fun b hb => hb.mono htook2.suffix
    exact (hrs.args x hx).mono (hr5.suffix.trans htook4.suffix)

lemma sound_parseexec (hblock : headIn [40] (tokens s) →
    ∀ r, Took s r [] → Sound (parseblock fuel) Exec r) :
    Sound (parseexec (fuel + 1)) Exec s := by
  unfold Sound
  rw [parseexec, wp_bind]
  refine wp_peek_tokens (by decide) fun r1 hr1 => ?_
  cases hb : headIn [40] (tokens s) with
  | true =>
    rw [if_pos rfl]
    refine wp_imp (hblock hb r1 hr1) fun c r hc => ?_
    obtain ⟨ts, hts, hd⟩ := hc.took
    exact ⟨⟨ts, hr1.trans hts, hd⟩, hc.args.mono (fun b hb => hb.mono hr1.suffix)⟩
  | false =>
    rw [if_neg (by decide)]
    refine wp_bind_of (wp_parseredirs r1) fun rs r2 hrs => ?_
    obtain ⟨ts, hts, hd⟩ := hrs.took
    rw [wp_bind, wp_get]
    refine wp_bind_of (wp_argLoop _ 0 r2 (Nat.lt_succ_self _) (by decide)) fun x r3 hx => ?_
    obtain ⟨us, hus, hw⟩ := hx.took
    have hfew := hx.few
    rw [wp_pure]
    have hsub : r2 <:+ s := hts.suffix.trans hr1.suffix
    refine ⟨⟨ts ++ us, hr1.trans (hts.trans hus), ?_⟩, all_wrap (fun a ha => ?_) (fun z hz => ?_)⟩
    · rw [map_wrap, Cmd.map, map_append]
      refine .simple hd hw ?_
      rw [length_map]
      omega
    · exact (hx.args a ha).mono hsub
    rcases mem_append.mp hz with hz | hz
    · exact (hrs.args z hz).mono hr1.suffix
    exact (hx.files z hz).mono hsub

lemma sound_parse : ∀ fuel s, (4 * s.length + 4 ≤ fuel → Sound (parseline fuel) Line s) ∧
    (4 * s.length + 3 ≤ fuel → Sound (parsepipe fuel) Pipe s) ∧
    (4 * s.length + 2 ≤ fuel → Sound (parseexec fuel) Exec s) ∧
    (4 * s.length + 1 ≤ fuel → headIn [40] (tokens s) → Sound (parseblock fuel) Exec s) := by
  intro fuel
  induction fuel with
  | zero =>
    intro s
    refine ⟨fun h => ?_, fun h => ?_, fun h => ?_, fun h => ?_⟩ <;> omega
  | succ fuel ih =>
    intro s
    refine ⟨fun h => ?_, fun h => ?_, fun h => ?_, fun h hs => ?_⟩
    · exact sound_parseline ((ih s).2.1 (by omega)) fun r hr => (ih r).1 (by omega)
    · exact sound_parsepipe ((ih s).2.2.1 (by omega)) fun r hr => (ih r).2.1 (by omega)
    · refine sound_parseexec fun hs r hr => ?_
      have hle := hr.length_le
      rw [hr.tokens, nil_append] at hs
      exact (ih r).2.2.2 (by omega) hs
    exact sound_parseblock hs fun r hr => (ih r).1 (by omega)
end Xv6.Sh
