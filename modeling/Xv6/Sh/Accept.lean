import Mathlib.Data.List.Forall2
import Xv6.Sh.Grammar

namespace Xv6.Sh
open Lib List

def Stops (ys : List Sym) (u : List Token) : Prop := ∀ t ∈ u.head?, ∃ y ∈ ys, t = .sym y

variable {s r : Ptr} {ys zs : List Sym} {toks : List UInt8} {ts us u : List Token} {y : Sym}
  {c d : Cmd Word} {fuel n argc : Nat} {rs : List (Redir Word)} {ws : List Word}

lemma stops_nil : Stops ys [] := by
  intro t ht
  cases ht

lemma stops_cons (hy : y ∈ ys) : Stops ys (.sym y :: u) := by
  intro t ht
  cases ht
  exact ⟨y, hy, rfl⟩

lemma Stops.mono (h : Stops ys u) (hsub : ys ⊆ zs) : Stops zs u := by
  intro t ht
  obtain ⟨y, hy, hty⟩ := h t ht
  exact ⟨y, hsub hy, hty⟩

lemma Stops.headIn_eq_false (h : Stops ys u) (hno : ∀ y ∈ ys, y.char ∉ toks) :
    headIn toks u = false := by
  cases u with
  | nil => rfl
  | cons t u =>
    obtain ⟨y, hy, rfl⟩ := h t rfl
    simpa [headIn] using hno y hy

lemma Took.tokens_eq (h : Took s r ts) (hs : Sh.tokens s = ts ++ u) : Sh.tokens r = u :=
  append_cancel_left (h.tokens.symm.trans hs)

lemma Redirs.head_word (h : Redirs ts rs) (hu : headIn toks u = false)
    (hno : ∀ y m, Sym.redir y = some m → y.char ∉ toks) : headIn toks (ts ++ u) = false := by
  cases h with
  | nil => exact hu
  | cons hy h => simpa [headIn] using hno _ _ hy

lemma redirLoop_complete : ∀ fuel s ts rs u, s.length < fuel → Redirs ts rs →
    tokens s = ts ++ u → headIn [60, 62] u = false →
    wp (redirLoop fuel) s (fun rs' r => rs'.map Redir.word = rs ∧ Took s r ts)
      (fun _ => False) := by
  intro fuel
  induction fuel with
  | zero =>
    intro s ts rs u h
    exact absurd h (Nat.not_lt_zero _)
  | succ fuel ih =>
    intro s ts rs u h hd hs hu
    rw [redirLoop, wp_bind]
    refine wp_peek_tokens (by decide) fun r hr => ?_
    cases hd with
    | nil =>
      rw [hs, nil_append, hu, if_neg (by decide), wp_pure]
      exact ⟨rfl, hr⟩
    | @cons y m f ts rs hy hd =>
      have hb : headIn [60, 62] (tokens s) := by
        rw [hs]
        cases y
        case lt => rfl
        case gt => rfl
        case gtgt => rfl
        all_goals cases hy
      rw [hb, if_pos rfl, wp_bind]
      have hle := hr.length_le
      have hr' := hr.tokens
      rw [hs, nil_append] at hr'
      refine wp_gettoken_sym hr'.symm fun a1 r1 hr1 hl1 => ?_
      rw [wp_bind]
      have hr1' : tokens r1 = .word f :: (ts ++ u) := hr1.tokens_eq hr'.symm
      refine wp_gettoken_word hr1' fun a2 r2 hr2 hl2 _ hword => ?_
      have hr2' : tokens r2 = ts ++ u := hr2.tokens_eq hr1'
      rw [if_neg (by simp)]
      refine wp_bind_of (ih r2 ts rs u (by omega) hd hr2' hu) fun rs' r3 hrs => ?_
      rw [wp_pure, redirFor_eq hy]
      refine ⟨?_, ((hr.trans hr1).trans hr2).trans hrs.2⟩
      rw [map_append, hrs.1, ← hword]
      rfl

lemma parseredirs_complete (hd : Redirs ts rs) (hs : tokens s = ts ++ u)
    (hu : headIn [60, 62] u = false) :
    wp parseredirs s (fun rs' r => rs'.map Redir.word = rs ∧ Took s r ts) (fun _ => False) := by
  rw [parseredirs, wp_bind, wp_get]
  exact redirLoop_complete _ s ts rs u (Nat.lt_succ_self _) hd hs hu

def followExec : List Sym := [.bar, .amp, .semi, .rparen]
def followPipe : List Sym := [.amp, .semi, .rparen]
def followLine : List Sym := [.rparen]

lemma Words.headIn_eq_false (h : Words ts rs ws) (hu : Stops followExec u) :
    headIn [60, 62] (ts ++ u) = false := by
  cases h with
  | nil => exact hu.headIn_eq_false (by decide)
  | cons => rfl

lemma argLoop_complete : ∀ fuel argc s ts rs ws u, s.length < fuel → Words ts rs ws →
    argc + ws.length < maxargs → tokens s = ts ++ u → Stops followExec u →
    wp (argLoop fuel argc) s (fun x r => x.2.map Redir.word = rs ∧ x.1.map Arg.word = ws ∧
      Took s r ts) (fun _ => False) := by
  intro fuel
  induction fuel with
  | zero =>
    intro argc s ts rs ws u h
    exact absurd h (Nat.not_lt_zero _)
  | succ fuel ih =>
    intro argc s ts rs ws u h hd hfew hs hu
    rw [argLoop, wp_bind]
    refine wp_peek_tokens (by decide) fun r hr => ?_
    have hr' := hr.tokens
    rw [nil_append] at hr'
    cases hd with
    | nil =>
      rw [nil_append] at hs
      cases u with
      | nil =>
        rw [hs, if_neg (by decide), wp_bind]
        refine wp_gettoken_eof (hr'.symm.trans hs) fun a hr1 => ?_
        rw [if_pos rfl, wp_pure]
        exact ⟨rfl, rfl, hr.trans hr1⟩
      | cons t v =>
        obtain ⟨y, hy, rfl⟩ := hu t rfl
        have hb : headIn [124, 41, 38, 59] (tokens s) := by
          rw [hs]
          cases y
          case bar => rfl
          case amp => rfl
          case semi => rfl
          case rparen => rfl
          all_goals exact absurd hy (by decide)
        rw [hb, if_pos rfl, wp_pure]
        exact ⟨rfl, rfl, hr⟩
    | @cons w ts us rs rs' ws hd hws =>
      rw [cons_append, append_assoc] at hs
      rw [length_cons] at hfew
      have hle := hr.length_le
      rw [hs] at hr'
      rw [hs, if_neg (by simp [headIn]), wp_bind]
      refine wp_gettoken_word hr'.symm fun a r1 hr1 hl1 _ hword => ?_
      have hr1' : tokens r1 = ts ++ (us ++ u) := hr1.tokens_eq hr'.symm
      rw [if_neg (by simp), if_neg (by simp), if_neg (by omega)]
      refine wp_bind_of (parseredirs_complete hd hr1' (hws.headIn_eq_false hu))
        fun rs1 r2 hrs => ?_
      have hr2' : tokens r2 = us ++ u := hrs.2.tokens_eq hr1'
      have hle2 := hrs.2.length_le
      refine wp_bind_of (ih (argc + 1) r2 us rs' ws u (by omega) hws (by omega) hr2' hu)
        fun x r3 hx => ?_
      rw [wp_pure]
      refine ⟨?_, ?_, ?_⟩
      · rw [map_append, hrs.1, hx.1]
      · rw [map_cons, hword, hx.2.1]
      exact (hr.trans hr1).trans (hrs.2.trans hx.2.2)

def Finds (m : ShM (Cmd Arg)) (s : Ptr) (c : Cmd Word) (ts : List Token) : Prop :=
  wp m s (fun c' r => c'.map Arg.word = c ∧ Took s r ts) (fun _ => False)

lemma backLoop_complete : ∀ fuel n c s u, s.length < fuel →
    tokens s = replicate n (.sym .amp) ++ u → headIn [38] u = false →
    wp (backLoop fuel c) s (fun c' r => c' = backs n c ∧
      Took s r (replicate n (.sym .amp))) (fun _ => False) := by
  intro fuel
  induction fuel with
  | zero =>
    intro n c s u h
    exact absurd h (Nat.not_lt_zero _)
  | succ fuel ih =>
    intro n c s u h hs hu
    rw [backLoop, wp_bind]
    refine wp_peek_tokens (by decide) fun r hr => ?_
    cases n with
    | zero =>
      rw [replicate_zero, nil_append] at hs
      rw [hs, hu, if_neg (by decide), wp_pure]
      exact ⟨rfl, hr⟩
    | succ n =>
      have hr' := hr.tokens
      rw [nil_append, hs, replicate_succ, cons_append] at hr'
      rw [hs, replicate_succ, cons_append, if_pos (by simp [headIn, Sym.char]), wp_bind]
      have hle := hr.length_le
      refine wp_gettoken_sym hr'.symm fun a r1 hr1 hl1 => ?_
      have hr1' := hr1.tokens_eq hr'.symm
      refine wp_imp (ih n (.back c) r1 u (by omega) hr1' hu) fun c' r2 hc => ?_
      exact ⟨hc.1, (hr.trans hr1).trans hc.2⟩

lemma parseline_finds (hd : Line ts c) (hs : tokens s = ts ++ u) (hu : Stops followLine u)
    (hpipe : ∀ ts c u, Pipe ts c → tokens s = ts ++ u → Stops followPipe u →
      Finds (parsepipe fuel) s c ts)
    (hline : ∀ r ts c u, r.length < s.length → Line ts c → tokens r = ts ++ u →
      Stops followLine u → Finds (parseline fuel) r c ts) :
    Finds (parseline (fuel + 1)) s c ts := by
  unfold Finds
  rw [parseline]
  cases hd with
  | @pipe ts c n h =>
    rw [append_assoc] at hs
    have hstop : Stops followPipe (replicate n (.sym .amp) ++ u) := by
      cases n with
      | zero => exact hu.mono (by decide)
      | succ n => exact stops_cons (by decide)
    refine wp_bind_of (hpipe ts c _ h hs hstop) fun c1 r1 hc => ?_
    have hr1 := hc.2.tokens_eq hs
    rw [wp_bind, wp_get]
    refine wp_bind_of (backLoop_complete _ n c1 r1 u (Nat.lt_succ_self _) hr1
      (hu.headIn_eq_false (by decide))) fun c2 r2 hc2 => ?_
    have hr2 := hc2.2.tokens_eq hr1
    rw [wp_bind]
    refine wp_peek_tokens (by decide) fun r3 hr3 => ?_
    rw [hr2, hu.headIn_eq_false (by decide), if_neg (by decide), wp_pure, hc2.1, map_backs, hc.1]
    have htook := hc.2.trans (hc2.2.trans hr3)
    rw [append_nil] at htook
    exact ⟨rfl, htook⟩
  | @list ts us c d n h hd =>
    have hs' : tokens s = ts ++ (replicate n (.sym .amp) ++ (.sym .semi :: (us ++ u))) := by
      rw [hs]
      simp
    have hstop : Stops followPipe (replicate n (.sym .amp) ++ (.sym .semi :: (us ++ u))) := by
      cases n with
      | zero
      | succ n => exact stops_cons (by decide)
    refine wp_bind_of (hpipe ts c _ h hs' hstop) fun c1 r1 hc => ?_
    have hr1 := hc.2.tokens_eq hs'
    rw [wp_bind, wp_get]
    refine wp_bind_of (backLoop_complete _ n c1 r1 _ (Nat.lt_succ_self _) hr1 rfl)
      fun c2 r2 hc2 => ?_
    have hr2 := hc2.2.tokens_eq hr1
    rw [wp_bind]
    refine wp_peek_tokens (by decide) fun r3 hr3 => ?_
    have hr3' := hr3.tokens
    rw [nil_append, hr2] at hr3'
    rw [hr2, if_pos (by simp [headIn, Sym.char]), wp_bind]
    refine wp_gettoken_sym hr3'.symm fun a r4 hr4 hl4 => ?_
    have hr4' := hr4.tokens_eq hr3'.symm
    have htook3 := hc.2.trans (hc2.2.trans hr3)
    have hle := htook3.length_le
    refine wp_bind_of (hline r4 us d u (by omega) hd hr4' hu) fun d1 r5 hd1 => ?_
    rw [wp_pure, hc2.1, Cmd.map, map_backs, hc.1, hd1.1]
    have htook := htook3.trans (hr4.trans hd1.2)
    refine ⟨rfl, ?_⟩
    simpa using htook

lemma parsepipe_finds (hd : Pipe ts c) (hs : tokens s = ts ++ u) (hu : Stops followPipe u)
    (hexec : ∀ ts c u, Exec ts c → tokens s = ts ++ u → Stops followExec u →
      Finds (parseexec fuel) s c ts)
    (hpipe : ∀ r ts c u, r.length < s.length → Pipe ts c → tokens r = ts ++ u →
      Stops followPipe u → Finds (parsepipe fuel) r c ts) :
    Finds (parsepipe (fuel + 1)) s c ts := by
  unfold Finds
  rw [parsepipe]
  cases hd with
  | exec h =>
    refine wp_bind_of (hexec ts c u h hs (hu.mono (by decide))) fun c1 r1 hc => ?_
    have hr1 := hc.2.tokens_eq hs
    rw [wp_bind]
    refine wp_peek_tokens (by decide) fun r2 hr2 => ?_
    rw [hr1, hu.headIn_eq_false (by decide), if_neg (by decide), wp_pure]
    have htook := hc.2.trans hr2
    rw [append_nil] at htook
    exact ⟨hc.1, htook⟩
  | @pipe ts us c d h hd =>
    have hs' : tokens s = ts ++ (.sym .bar :: (us ++ u)) := by
      rw [hs]
      simp
    refine wp_bind_of (hexec ts c _ h hs' (stops_cons (by decide))) fun c1 r1 hc => ?_
    have hr1 := hc.2.tokens_eq hs'
    rw [wp_bind]
    refine wp_peek_tokens (by decide) fun r2 hr2 => ?_
    have hr2' := hr2.tokens
    rw [nil_append, hr1] at hr2'
    rw [hr1, if_pos (by simp [headIn, Sym.char]), wp_bind]
    refine wp_gettoken_sym hr2'.symm fun a r3 hr3 hl3 => ?_
    have hr3' := hr3.tokens_eq hr2'.symm
    have htook2 := hc.2.trans hr2
    have hle := htook2.length_le
    refine wp_bind_of (hpipe r3 us d u (by omega) hd hr3' hu) fun d1 r4 hd1 => ?_
    rw [wp_pure, Cmd.map, hc.1, hd1.1]
    refine ⟨rfl, ?_⟩
    simpa using htook2.trans (hr3.trans hd1.2)

lemma parseblock_finds (hd : Line ts c) (hr : Redirs us rs)
    (hs : tokens s = .sym .lparen :: (ts ++ .sym .rparen :: us) ++ u) (hu : Stops followExec u)
    (hline : ∀ r ts c u, r.length < s.length → Line ts c → tokens r = ts ++ u →
      Stops followLine u → Finds (parseline fuel) r c ts) :
    Finds (parseblock (fuel + 1)) s (wrap c rs) (.sym .lparen :: (ts ++ .sym .rparen :: us)) := by
  unfold Finds
  have hs' : tokens s = .sym .lparen :: (ts ++ (.sym .rparen :: (us ++ u))) := by
    rw [hs]
    simp
  rw [parseblock, wp_bind]
  refine wp_peek_tokens (by decide) fun r1 hr1 => ?_
  have hr1' := hr1.tokens
  rw [nil_append, hs'] at hr1'
  rw [hs', if_neg (by simp [headIn, Sym.char]), wp_bind]
  refine wp_gettoken_sym hr1'.symm fun a r2 hr2 hl2 => ?_
  have hr2' := hr2.tokens_eq hr1'.symm
  have hle := hr1.length_le
  refine wp_bind_of (hline r2 ts c _ (by omega) hd hr2' (stops_cons (by decide)))
    fun c1 r3 hc => ?_
  have hr3' := hc.2.tokens_eq hr2'
  rw [wp_bind]
  refine wp_peek_tokens (by decide) fun r4 hr4 => ?_
  have hr4' := hr4.tokens
  rw [nil_append, hr3'] at hr4'
  rw [hr3', if_neg (by simp [headIn, Sym.char]), wp_bind]
  refine wp_gettoken_sym hr4'.symm fun a r5 hr5 hl5 => ?_
  have hr5' := hr5.tokens_eq hr4'.symm
  refine wp_bind_of (parseredirs_complete hr hr5' (hu.headIn_eq_false (by decide)))
    fun rs1 r6 hrs => ?_
  rw [wp_pure, map_wrap, hc.1, hrs.1]
  refine ⟨rfl, ?_⟩
  simpa using (hr1.trans hr2).trans (hc.2.trans ((hr4.trans hr5).trans hrs.2))

lemma parseexec_finds (hd : Exec ts c) (hs : tokens s = ts ++ u) (hu : Stops followExec u)
    (hblock : ∀ r ts us c rs, Took s r [] → Line ts c → Redirs us rs →
      tokens r = .sym .lparen :: (ts ++ .sym .rparen :: us) ++ u →
      Finds (parseblock fuel) r (wrap c rs) (.sym .lparen :: (ts ++ .sym .rparen :: us))) :
    Finds (parseexec (fuel + 1)) s c ts := by
  unfold Finds
  rw [parseexec, wp_bind]
  refine wp_peek_tokens (by decide) fun r1 hr1 => ?_
  have hr1' := hr1.tokens
  rw [nil_append, hs] at hr1'
  cases hd with
  | @block ts us c rs h hr =>
    rw [hs, cons_append, if_pos (by simp [headIn, Sym.char])]
    refine wp_imp (hblock r1 ts us c rs hr1 h hr hr1'.symm) fun c1 r2 hc => ?_
    exact ⟨hc.1, hr1.trans hc.2⟩
  | @simple ts us rs rs' ws hr hw hlen =>
    rw [append_assoc] at hs hr1'
    have hb : headIn [40] (tokens s) = false := by
      rw [hs]
      refine hr.head_word ?_ fun y m hy => ?_
      · cases hw with
        | nil => exact hu.headIn_eq_false (by decide)
        | cons => rfl
      cases y <;> first | decide | cases hy
    rw [hb, if_neg (by decide)]
    refine wp_bind_of (parseredirs_complete hr hr1'.symm (hw.headIn_eq_false hu))
      fun rs1 r2 hrs => ?_
    have hr2' := hrs.2.tokens_eq hr1'.symm
    rw [wp_bind, wp_get]
    refine wp_bind_of (argLoop_complete _ 0 r2 us rs' ws u (Nat.lt_succ_self _) hw
      (by omega) hr2' hu)
      fun x r3 hx => ?_
    rw [wp_pure, map_wrap, Cmd.map, map_append, hrs.1, hx.1, hx.2.1]
    exact ⟨rfl, hr1.trans (hrs.2.trans hx.2.2)⟩

lemma parse_finds : ∀ fuel s ts c u, tokens s = ts ++ u →
    (4 * s.length + 4 ≤ fuel → Line ts c → Stops followLine u → Finds (parseline fuel) s c ts) ∧
    (4 * s.length + 3 ≤ fuel → Pipe ts c → Stops followPipe u → Finds (parsepipe fuel) s c ts) ∧
    (4 * s.length + 2 ≤ fuel → Exec ts c → Stops followExec u → Finds (parseexec fuel) s c ts) := by
  intro fuel
  induction fuel using Nat.strong_induction_on with
  | _ fuel ih =>
    intro s ts c u hs
    refine ⟨fun h hd hu => ?_, fun h hd hu => ?_, fun h hd hu => ?_⟩
    · cases fuel with
      | zero => omega
      | succ fuel =>
        refine parseline_finds hd hs hu (fun ts c u hd hs hu => ?_) fun r ts c u hr hd hs hu => ?_
        · exact (ih fuel (Nat.lt_succ_self _) s ts c u hs).2.1 (by omega) hd hu
        exact (ih fuel (Nat.lt_succ_self _) r ts c u hs).1 (by omega) hd hu
    · cases fuel with
      | zero => omega
      | succ fuel =>
        refine parsepipe_finds hd hs hu (fun ts c u hd hs hu => ?_) fun r ts c u hr hd hs hu => ?_
        · exact (ih fuel (Nat.lt_succ_self _) s ts c u hs).2.2 (by omega) hd hu
        exact (ih fuel (Nat.lt_succ_self _) r ts c u hs).2.1 (by omega) hd hu
    match fuel with
    | 0 => omega
    | 1 => omega
    | fuel + 2 =>
      refine parseexec_finds hd hs hu fun r ts us c rs hr hd hrs hs => ?_
      have hle := hr.length_le
      refine parseblock_finds hd hrs hs hu fun r' ts c u hr' hd hs hu => ?_
      exact (ih fuel (by omega) r' ts c u hs).1 (by omega) hd hu

def Cut (line buf : List UInt8) : Prop :=
  List.Forall₂ (fun c x => x = c ∨ x = 0 ∧ isWord c = false) line buf

variable {line buf : List UInt8} {a : Arg} {cmd : Cmd Arg} {i : Nat}

lemma cut_refl (line : List UInt8) : Cut line line :=
  forall₂_same.mpr fun _ _ => .inl rfl

lemma Arg.Of.not_isWord (h : a.Of line) {x : UInt8}
    (hx : (line)[line.length - a.eq.length]? = some x) : isWord x = false := by
  obtain ⟨p, hp⟩ := h.1
  have heq := h.2
  have hsuf : a.eq <:+ line := by
    rw [heq]
    exact (dropWhile_suffix isWord).trans h.1
  obtain ⟨p', hp'⟩ := hsuf
  rw [← hp', length_append, Nat.add_sub_cancel, getElem?_append_right le_rfl, Nat.sub_self] at hx
  have hne : a.eq ≠ [] := by
    intro h0
    rw [h0] at hx
    cases hx
  have hhead : a.q.dropWhile isWord ≠ [] := heq ▸ hne
  have hnot := head_dropWhile_not isWord hhead
  have hx' : (a.q.dropWhile isWord).head hhead = x := by
    rw [heq, ← head?_eq_getElem?, head?_eq_some_head hhead] at hx
    exact Option.some.inj hx
  rwa [hx'] at hnot

lemma Cut.cut (h : Cut line buf) (ha : a.Of line) : Cut line (cut buf a) := by
  have hlen := h.length_eq
  rw [Sh.cut, ← hlen]
  rw [Cut, forall₂_iff_get] at h ⊢
  refine ⟨by rw [length_set, h.1], fun i hi hi' => ?_⟩
  rw [get_eq_getElem, get_eq_getElem, getElem_set]
  split
  · rename_i he
    refine .inr ⟨rfl, ha.not_isWord ?_⟩
    rw [he]
    exact getElem?_eq_getElem hi
  exact h.2 i hi (by rwa [length_set] at hi')

lemma getD_cut_of_zero (a : Arg) (h : buf.getD i 0 = 0) : (cut buf a).getD i 0 = 0 := by
  rw [cut, getD_eq_getElem?_getD, getElem?_set]
  split
  · split <;> rfl
  rwa [getD_eq_getElem?_getD] at h

lemma getD_cut_self (a : Arg) : (cut buf a).getD (buf.length - a.eq.length) 0 = 0 := by
  rw [cut, getD_eq_getElem?_getD, getElem?_set, if_pos rfl]
  split <;> rfl

structure Cuts (line buf buf' : List UInt8) (P : (Arg → Prop) → Prop) : Prop where
  cut : Cut line buf'
  kept : ∀ i, buf.getD i 0 = 0 → buf'.getD i 0 = 0
  done : P fun a => buf'.getD (line.length - a.eq.length) 0 = 0

lemma cuts_foldl (argv : List Arg) : ∀ buf, Cut line buf → (∀ a ∈ argv, a.Of line) →
    Cuts line buf (argv.foldl cut buf) fun P => ∀ a ∈ argv, P a := by
  induction argv with
  | nil =>
    intro buf h _
    exact ⟨h, fun _ hi => hi, fun a ha => absurd ha not_mem_nil⟩
  | cons a argv ih =>
    intro buf h hargs
    have hstep := ih (cut buf a) (h.cut (hargs a mem_cons_self))
      fun b hb => hargs b (mem_cons_of_mem a hb)
    refine ⟨hstep.cut, fun i hi => hstep.kept i (getD_cut_of_zero a hi), fun b hb => ?_⟩
    rcases mem_cons.mp hb with hb | hb
    · rw [hb, h.length_eq]
      exact hstep.kept _ (getD_cut_self a)
    exact hstep.done b hb

lemma cuts_nulterminate (cmd : Cmd Arg) : ∀ buf, Cut line buf → cmd.All (Arg.Of line) →
    Cuts line buf (nulterminate buf cmd) fun P => cmd.All P := by
  induction cmd with
  | exec argv => exact cuts_foldl argv
  | redir cmd r ih =>
    intro buf h hargs
    have hstep := ih buf h hargs.1
    refine ⟨hstep.cut.cut hargs.2, fun i hi => getD_cut_of_zero _ (hstep.kept i hi), ?_, ?_⟩
    · exact hstep.done.mono fun a ha => getD_cut_of_zero _ ha
    rw [hstep.cut.length_eq]
    exact getD_cut_self _
  | pipe left right ihl ihr
  | list left right ihl ihr =>
    intro buf h hargs
    have hl := ihl buf h hargs.1
    have hr := ihr _ hl.cut hargs.2
    exact ⟨hr.cut, fun i hi => hr.kept i (hl.kept i hi), hl.done.mono (fun a ha => hr.kept _ ha),
      hr.done⟩
  | back cmd ih =>
    intro buf h hargs
    exact ih buf h hargs

lemma takeWhile_of_cut : ∀ {q buf : List UInt8}, Cut q buf → (0 : UInt8) ∉ q →
    buf.getD (q.takeWhile isWord).length 0 = 0 → cstring buf = q.takeWhile isWord := by
  intro q
  induction q with
  | nil =>
    intro buf h _ _
    rw [forall₂_nil_left_iff.mp h]
    rfl
  | cons c q ih =>
    intro buf h h0 hend
    obtain ⟨x, buf', hx, hbuf, rfl⟩ := forall₂_cons_left_iff.mp h
    have hc0 : c ≠ 0 := fun h => h0 (h ▸ (.head _))
    by_cases hc : isWord c
    · have hxc : x = c := by
        rcases hx with hx | hx
        · exact hx
        rw [hc] at hx
        exact absurd hx.2 (by decide)
      rw [takeWhile_cons_of_pos hc] at hend ⊢
      rw [length_cons, getD_cons_succ] at hend
      have hrest := ih hbuf (fun h => h0 (mem_cons_of_mem c h)) hend
      rw [cstring, takeWhile_cons_of_pos (by rw [hxc]; exact decide_eq_true hc0), hxc]
      exact congrArg (cons c) hrest
    rw [takeWhile_cons_of_neg hc] at hend ⊢
    rw [length_nil, getD_cons_zero] at hend
    rw [cstring, takeWhile_cons_of_neg (by rw [hend]; decide)]

lemma strAt_eq_word (h : Cut line buf) (h0 : (0 : UInt8) ∉ line) (ha : a.Of line)
    (hend : buf.getD (line.length - a.eq.length) 0 = 0) : strAt buf a = a.word := by
  obtain ⟨p, hp⟩ := ha.1
  have hlen := h.length_eq
  have hword : a.word = a.q.takeWhile isWord := by
    rw [Arg.word, ha.2]
    exact take_length_sub_dropWhile isWord a.q
  have hpos : buf.length - a.q.length = p.length := by
    rw [← hlen, ← hp, length_append, Nat.add_sub_cancel]
  have hdrop : Cut a.q (buf.drop p.length) := by
    have := forall₂_drop p.length h
    rwa [← hp, drop_left] at this
  rw [strAt, hpos, hword]
  refine takeWhile_of_cut hdrop (fun h => h0 ?_) ?_
  · rw [← hp]
    exact mem_append_right p h
  have hsum := congrArg length (takeWhile_append_dropWhile (p := isWord) (l := a.q))
  rw [length_append, ← ha.2] at hsum
  have hidx : line.length - a.eq.length = p.length + (a.q.takeWhile isWord).length := by
    rw [← hp, length_append]
    omega
  rw [hidx] at hend
  rwa [getD_eq_getElem?_getD, getElem?_drop, ← getD_eq_getElem?_getD]

lemma Cmd.map_congr {α β : Type} {f g : α → β} {c : Cmd α} (h : c.All fun a => f a = g a) :
    c.map f = c.map g := by
  induction c with
  | exec argv => rw [Cmd.map, Cmd.map, map_congr_left h]
  | redir c r ih => rw [Cmd.map, Cmd.map, ih h.1, h.2]
  | pipe l r ihl ihr
  | list l r ihl ihr => rw [Cmd.map, Cmd.map, ihl h.1, ihr h.2]
  | back c ih => rw [Cmd.map, Cmd.map, ih h]

lemma Cmd.All.and {α : Type} {P P' : α → Prop} {c : Cmd α} (h : c.All P) (h' : c.All P') :
    c.All fun a => P a ∧ P' a := by
  induction c with
  | exec argv => exact fun a ha => ⟨h a ha, h' a ha⟩
  | redir c r ih => exact ⟨ih h.1 h'.1, h.2, h'.2⟩
  | pipe l r ihl ihr
  | list l r ihl ihr => exact ⟨ihl h.1 h'.1, ihr h.2 h'.2⟩
  | back c ih => exact ih h h'

lemma map_strAt_nulterminate (h0 : (0 : UInt8) ∉ line) (h : cmd.All (Arg.Of line)) :
    cmd.map (strAt (nulterminate line cmd)) = cmd.map Arg.word := by
  have hcuts := cuts_nulterminate cmd line (cut_refl line) h
  refine Cmd.map_congr ((h.and hcuts.done).mono (fun a ha => ?_))
  exact strAt_eq_word hcuts.cut h0 ha.1 ha.2

lemma zero_not_mem_cstring (s : List UInt8) : (0 : UInt8) ∉ cstring s := by
  intro h
  have := mem_takeWhile_imp h
  simp at this

lemma sound_parseTop (s : Ptr) : wp (parseTop (4 * s.length + 4)) s
    (fun c _ => c.All (Arg.Of s) ∧ Line (tokens s) (c.map Arg.word)) (· ≠ .fuel) := by
  rw [parseTop]
  refine wp_bind_of ((sound_parse _ s).1 le_rfl) fun c r hc => ?_
  obtain ⟨ts, htook, hd⟩ := hc.took
  rw [wp_bind, wp_peek, wp_bind, wp_get]
  by_cases hr : skip r = []
  · rw [if_neg (fun h => h hr), wp_pure, htook.tokens, skip_eq_nil_iff.mp hr, append_nil]
    exact ⟨hc.args, hd⟩
  rw [if_pos hr, wp_throw]
  decide

lemma parseTop_finds (h : Line (tokens s) c) : wp (parseTop (4 * s.length + 4)) s
    (fun c' _ => c'.map Arg.word = c) (fun _ => False) := by
  rw [parseTop]
  have hfinds := (parse_finds _ s (tokens s) c [] (append_nil _).symm).1 le_rfl h stops_nil
  refine wp_bind_of hfinds fun c' r hc => ?_
  have hr := hc.2.tokens_eq (append_nil _).symm
  rw [wp_bind, wp_peek, wp_bind, wp_get, if_neg (fun h => h (skip_eq_nil_iff.mpr hr)), wp_pure]
  exact hc.1

lemma parsecmd_ok (h : parsecmd line = .ok (cmd, buf)) :
    cmd.All (Arg.Of (cstring line)) ∧ Line (tokens (cstring line)) (cmd.map Arg.word) ∧
      buf = nulterminate (cstring line) cmd := by
  unfold parsecmd at h
  cases htop : parseTop (4 * (cstring line).length + 4) (cstring line) with
  | error e =>
    rw [htop] at h
    cases h
  | ok x =>
    rw [htop] at h
    cases h
    have hx := wp_ok (sound_parseTop _) htop
    exact ⟨hx.1, hx.2, rfl⟩

theorem parsecmd_iff (s : List UInt8) :
    (∀ tree, (∃ cmd buf, parsecmd s = .ok (cmd, buf) ∧ cmd.map (strAt buf) = tree) ↔
      Line (tokens (cstring s)) tree) ∧
    ∀ e, parsecmd s = .error e → ∃ p, e = .panic p := by
  have hsound := sound_parseTop (cstring s)
  have h0 := zero_not_mem_cstring s
  refine ⟨fun tree => ⟨?_, fun hd => ?_⟩, fun e he => ?_⟩
  · rintro ⟨cmd, buf, hrun, rfl⟩
    obtain ⟨hargs, hline, rfl⟩ := parsecmd_ok hrun
    rwa [map_strAt_nulterminate h0 hargs]
  · obtain ⟨cmd, r, hrun, hcmd⟩ := wp_total (parseTop_finds hd)
    have hx := wp_ok hsound hrun
    refine ⟨cmd, nulterminate (cstring s) cmd, ?_, ?_⟩
    · rw [parsecmd, hrun]
    rwa [map_strAt_nulterminate h0 hx.1]
  unfold parsecmd at he
  cases htop : parseTop (4 * (cstring s).length + 4) (cstring s) with
  | ok x =>
    rw [htop] at he
    cases he
  | error e' =>
    rw [htop] at he
    cases he
    have hne := wp_error hsound htop
    cases e with
    | panic p => exact ⟨p, rfl⟩
    | fuel => exact absurd rfl hne

lemma Cut.getElem?_word (h : Cut line buf) (ha : a.Of line)
    (hq : line.length - a.q.length ≤ i) (heq : i < line.length - a.eq.length) :
    buf[i]? = (line)[i]? := by
  obtain ⟨p, rfl⟩ := ha.1
  have hlen := congrArg length (takeWhile_append_dropWhile (p := isWord) (l := a.q))
  rw [length_append, ← ha.2] at hlen
  rw [length_append] at hq heq
  rw [Cut, forall₂_iff_get] at h
  have hi : i < (p ++ a.q).length := by
    rw [length_append]
    omega
  have hj : i - p.length < (a.q.takeWhile isWord).length := by omega
  have hword : isWord (p ++ a.q)[i] := by
    rw [getElem_append_right (by omega), ← ( takeWhile_prefix isWord).getElem hj]
    exact mem_takeWhile_imp (getElem_mem hj)
  rw [getElem?_eq_getElem hi, getElem?_eq_getElem (h.1 ▸ hi)]
  rcases h.2 i hi (h.1 ▸ hi) with hx | hx
  · exact congrArg some hx
  exact absurd (hword.symm.trans hx.2) (by decide)

theorem nulterminate_exact (s buf : List UInt8) (cmd : Cmd Arg) (h : parsecmd s = .ok (cmd, buf)) :
    Line (tokens (cstring s)) (cmd.map Arg.word) ∧ cmd.All fun a =>
      a.Of (cstring s) ∧ strAt buf a = a.word ∧ ∀ i, (cstring s).length - a.q.length ≤ i →
        i < (cstring s).length - a.eq.length → buf[i]? = (cstring s)[i]? := by
  obtain ⟨hargs, hline, rfl⟩ := parsecmd_ok h
  have hcuts := cuts_nulterminate cmd _ (cut_refl _) hargs
  refine ⟨hline, (hargs.and hcuts.done).mono fun a ha => ⟨ha.1, ?_, fun i => ?_⟩⟩
  · exact strAt_eq_word hcuts.cut (zero_not_mem_cstring s) ha.1 ha.2
  exact hcuts.cut.getElem?_word ha.1

theorem nulterminate_exact_redir : (Cmd.redir (.exec [⟨[97, 32, 62, 98], [32, 62, 98]⟩])
      ⟨⟨[98], []⟩, oWronly ||| oCreate ||| oTrunc, 1⟩).All fun a =>
        strAt [97, 0, 62, 98] a = a.word :=
  (nulterminate_exact [97, 32, 62, 98] _ _ rfl).2.mono fun _ h => h.2.1
end Xv6.Sh
