import Xv6.Fs.Failed

namespace Xv6.Fs
open State Lib List

def elements (path : Path) : List Name :=
  ((path.splitOn slash).filter (· ≠ [])).map (·.take dirsiz)

inductive Skips : Path → List Name → Prop
  | stop {path : Path} : skipelem path = none → Skips path []
  | next {path rest : Path} {name : Name} {names : List Name} :
    skipelem path = some (name, rest) → Skips rest names → Skips path (name :: names)

section Elements
variable {path rest w : Path} {name : Name}

lemma elements_nil : elements [] = [] := rfl

lemma elements_slash : elements (slash :: path) = elements path := by
  have hsplit : (slash :: path).splitOn slash = [] :: path.splitOn slash := by
    unfold splitOn
    rw [splitOnP_cons_eq_if_modifyHead, if_pos (beq_self_eq_true slash)]
  rw [elements, hsplit, filter_cons_of_neg (by simp)]
  rfl

lemma elements_slashes : elements (path.dropWhile (· = slash)) = elements path := by
  induction path with
  | nil => rfl
  | cons c path ih =>
    by_cases hc : c = slash
    · rw [dropWhile_cons_of_pos (by simpa using hc), ih, hc, elements_slash]
    rw [dropWhile_cons_of_neg (by simpa using hc)]

lemma elements_word (hne : w ≠ []) (hw : ∀ c ∈ w, c ≠ slash)
    (hrest : rest = [] ∨ ∃ p, rest = slash :: p) :
    elements (w ++ rest) = w.take dirsiz :: elements rest := by
  have hno : ∀ c ∈ w, (c == slash) = false := fun c hc => beq_eq_false_iff_ne.mpr (hw c hc)
  rcases hrest with rfl | ⟨p, rfl⟩
  · have hsplit : w.splitOn slash = [w] := splitOnP_eq_singleton hno
    rw [append_nil, elements, hsplit, filter_cons_of_pos (by simpa using hne)]
    rfl
  have hsplit : (w ++ slash :: p).splitOn slash = w :: p.splitOn slash :=
    splitOnP_append_cons_of_forall_mem hno slash (beq_self_eq_true slash) p
  rw [elements, hsplit, filter_cons_of_pos (by simpa using hne), map_cons, elements_slash]
  rfl

lemma elements_of_skipelem_none (h : skipelem path = none) : elements path = [] := by
  unfold skipelem at h
  split at h
  · rename_i hnil
    rw [← elements_slashes, hnil, elements_nil]
  cases h

lemma elements_of_skipelem (h : skipelem path = some (name, rest)) :
    elements path = name :: elements rest ∧ rest.head? ≠ some slash := by
  unfold skipelem at h
  split at h
  · cases h
  rename_i c s hs
  cases h
  have hc : c ≠ slash := fun hc => by
    have := head_dropWhile_not (· = slash) (l := path) (by simp [hs])
    simp [hs, hc] at this
  have hword : (c :: s).takeWhile (· ≠ slash) ≠ [] := by
    rw [takeWhile_cons_of_pos (by simpa using hc)]
    exact cons_ne_nil _ _
  have hfree : ∀ d ∈ (c :: s).takeWhile (· ≠ slash), d ≠ slash := fun d hd => by
    simpa using mem_takeWhile_imp hd
  have hbehind : (c :: s).dropWhile (· ≠ slash) = [] ∨
      ∃ p, (c :: s).dropWhile (· ≠ slash) = slash :: p := by
    cases hd : (c :: s).dropWhile (· ≠ slash) with
    | nil => exact .inl rfl
    | cons d p =>
      have := head?_dropWhile_not (· ≠ slash) (c :: s)
      rw [hd] at this
      have hslash : d = slash := by simpa using this
      exact .inr ⟨p, by rw [hslash]⟩
  refine ⟨?_, ?_⟩
  · rw [← @elements_slashes path, hs, elements_slashes,
      ← elements_word hword hfree hbehind, takeWhile_append_dropWhile]
  intro hhead
  have := head?_dropWhile_not (· = slash) ((c :: s).dropWhile (· ≠ slash))
  rw [hhead] at this
  simp at this

lemma elements_eq_nil_iff (h : rest.head? ≠ some slash) : elements rest = [] ↔ rest = [] := by
  constructor
  · intro hnil
    cases hs : skipelem rest with
    | none =>
      unfold skipelem at hs
      split at hs
      · rename_i hd
        cases rest with
        | nil => rfl
        | cons c s =>
          have hc : c ≠ slash := fun hc => h (by rw [hc]; rfl)
          rw [dropWhile_cons_of_neg (by simpa using hc)] at hd
          cases hd
      cases hs
    | some q =>
      rw [(elements_of_skipelem hs).1] at hnil
      cases hnil
  intro hnil
  rw [hnil, elements_nil]

lemma skips_elements (path : Path) : Skips path (elements path) := by
  induction hn : path.length using Nat.strong_induction_on generalizing path with
  | _ n ih =>
    cases hs : skipelem path with
    | none =>
      rw [elements_of_skipelem_none hs]
      exact .stop hs
    | some q =>
      have hlt := skipelem_length_lt hs
      rw [(elements_of_skipelem hs).1]
      exact .next hs (ih _ (hn ▸ hlt) q.2 rfl)
end Elements

variable {sb : Superblock} {s t u : State} {ip cwd : Fin ninode} {i j : Nat} {path : Path}
  {name : Name} {names : List Name}

section
variable (s : State) (sb : Superblock) (i : Nat)

def State.enter (name : Name) : Option Nat :=
  if (s.ino sb i).type = tDir then (s.lookup sb i name).map Prod.fst else none

def State.follow (names : List Name) : Option Nat :=
  names.foldlM (s.enter sb) i

def State.followParent (names : List Name) : Option (Nat × Name) := do
  let name ← names.getLast?
  let d ← s.follow sb i names.dropLast
  if (s.ino sb d).type = tDir then some (d, name) else none
end

lemma follow_cons : s.follow sb i (name :: names) =
    (s.enter sb i name).bind fun j => s.follow sb j names := rfl

lemma follow_append (names' : List Name) : s.follow sb i (names ++ names') =
    (s.follow sb i names).bind fun j => s.follow sb j names' := foldlM_append

lemma enter_eq_none_iff : s.enter sb i name = none ↔
    (s.ino sb i).type ≠ tDir ∨ s.lookup sb i name = none := by
  unfold State.enter
  split
  · rename_i h
    simp [h]
  rename_i h
  simp [h]

lemma follow_eq_none_iff : s.follow sb i names = none ↔ ∃ front name back j,
    names = front ++ name :: back ∧ s.follow sb i front = some j ∧
    ((s.ino sb j).type ≠ tDir ∨ s.lookup sb j name = none) := by
  constructor
  · intro h
    induction names generalizing i with
    | nil => cases h
    | cons name names ih =>
      rw [follow_cons] at h
      cases he : s.enter sb i name with
      | none => exact ⟨[], name, names, i, rfl, rfl, enter_eq_none_iff.mp he⟩
      | some j =>
        rw [he] at h
        obtain ⟨front, name', back, k, hn, hk, hfail⟩ := ih h
        refine ⟨name :: front, name', back, k, by rw [hn]; rfl, ?_, hfail⟩
        rwa [follow_cons, he]
  rintro ⟨front, name, back, j, rfl, hj, hfail⟩
  rw [follow_append, hj, Option.bind_some, follow_cons, enter_eq_none_iff.mpr hfail]
  rfl

lemma followParent_singleton : s.followParent sb i [name] =
    if (s.ino sb i).type = tDir then some (i, name) else none := rfl

lemma followParent_cons (h : names ≠ []) : s.followParent sb i (name :: names) =
    (s.enter sb i name).bind fun j => s.followParent sb j names := by
  unfold State.followParent
  rw [getLast?_cons_of_ne_nil h, dropLast_cons_of_ne_nil h, follow_cons]
  cases names.getLast? with
  | none
  | some last => cases s.enter sb i name <;> rfl

lemma follow_of_followParent {d : Nat} (h : s.followParent sb i names = some (d, name)) :
    s.follow sb i names = (s.lookup sb d name).map Prod.fst := by
  obtain ⟨last, hlast, h⟩ := Option.bind_eq_some_iff.mp h
  obtain ⟨d', hd, h⟩ := Option.bind_eq_some_iff.mp h
  split at h
  · rename_i hdir
    cases h
    rw [← dropLast_append_getLast? name hlast, follow_append, hd, Option.bind_some, follow_cons,
      State.enter, if_pos hdir]
    cases s.lookup sb d name <;> rfl
  cases h

lemma walk_false : ∀ (fuel i : Nat) (path : Path) (name : Name), path.length ≤ fuel →
    (s.walk sb false fuel i path name).map Prod.fst = s.follow sb i (elements path) := by
  intro fuel
  induction fuel with
  | zero =>
    intro i path name hle
    rw [length_eq_zero_iff.mp (Nat.le_zero.mp hle)]
    rfl
  | succ fuel ih =>
    intro i path name hle
    rw [State.walk]
    cases hs : skipelem path with
    | none =>
      rw [elements_of_skipelem_none hs]
      rfl
    | some q =>
      have hlt := skipelem_length_lt hs
      rw [(elements_of_skipelem hs).1, follow_cons, State.enter]
      dsimp only
      by_cases hdir : (s.ino sb i).type = tDir
      · rw [if_neg (fun hne => hne hdir), if_neg (fun h => (by cases h.1)), if_pos hdir]
        cases s.lookup sb i q.1 with
        | none => rfl
        | some r => exact ih r.1 q.2 q.1 (by omega)
      rw [if_pos hdir, if_neg hdir]
      rfl

lemma walk_true : ∀ (fuel i : Nat) (path : Path) (name : Name), path.length ≤ fuel →
    s.walk sb true fuel i path name = s.followParent sb i (elements path) := by
  intro fuel
  induction fuel with
  | zero =>
    intro i path name hle
    rw [length_eq_zero_iff.mp (Nat.le_zero.mp hle)]
    rfl
  | succ fuel ih =>
    intro i path name hle
    rw [State.walk]
    cases hs : skipelem path with
    | none =>
      rw [elements_of_skipelem_none hs]
      rfl
    | some q =>
      have hlt := skipelem_length_lt hs
      obtain ⟨helems, hhead⟩ := elements_of_skipelem hs
      rw [helems]
      dsimp only
      by_cases hlast : q.2 = []
      · rw [hlast, elements_nil, followParent_singleton]
        by_cases hdir : (s.ino sb i).type = tDir
        · rw [if_neg (fun hne => hne hdir), if_pos ⟨rfl, rfl⟩, if_pos hdir]
        rw [if_pos hdir, if_neg hdir]
      have hne : elements q.2 ≠ [] := fun h => hlast ((elements_eq_nil_iff hhead).mp h)
      rw [followParent_cons hne, State.enter]
      by_cases hdir : (s.ino sb i).type = tDir
      · rw [if_neg (fun hn => hn hdir), if_neg (fun h => hlast h.2), if_pos hdir]
        cases s.lookup sb i q.1 with
        | none => rfl
        | some r => exact ih r.1 q.2 q.1 (by omega)
      rw [if_pos hdir, if_neg hdir]
      rfl

def State.start (s : State) (cwd : Fin ninode) (path : Path) : Nat :=
  if path.head? = some slash then rootino else (s.itable cwd).inum

def RefTo (s t : State) (r : Option (Fin ninode)) : Prop :=
  ∀ k, (t.itable k).ref = (s.itable k).ref + if r = some k then 1 else 0

lemma Found.refTo {parent : Bool} {res : Option (Nat × Name)} {r : Option (Fin ninode × Name)}
    (h : Found sb s parent res r t) : RefTo s t (r.map Prod.fst) := by
  intro k
  cases r with
  | none =>
    rw [h.2.2.ref]
    rfl
  | some q =>
    obtain ⟨j, -, -, -, hold⟩ := h.2
    rw [hold.ref]
    by_cases hk : q.1 = k
    · simp [hk]
    simp [hk]

lemma Found.inums {parent : Bool} {res : Option (Nat × Name)} {r : Option (Fin ninode × Name)}
    (h : Found sb s parent res r t) : r.map (fun q => ((t.itable q.1).inum, q.2)) = res := by
  cases r with
  | none => exact h.2.1.symm
  | some q =>
    obtain ⟨j, hres, -, -, hold⟩ := h.2
    have hinum : (t.itable q.1).inum = j := hold.inum _ mem_cons_self
    rw [hres, ← hinum]
    rfl

theorem path_resolution (ok : sb.Ok) (hs : Consistent sb s) (hcwd : 0 < (s.itable cwd).ref)
    (path : Path) :
    Skips path (elements path) ∧
    wp (namei sb cwd path) s (fun r t => SameFiles sb s t ∧ RefTo s t r ∧
      r.map (fun ip => (t.itable ip).inum) = s.follow sb (s.start cwd path) (elements path))
      (NamexPanic sb s) ∧
    wp (nameiparent sb cwd path) s (fun r t => SameFiles sb s t ∧ RefTo s t (r.map Prod.fst) ∧
      r.map (fun q => ((t.itable q.1).inum, q.2)) =
        s.followParent sb (s.start cwd path) (elements path) ∧
      ∀ dp name, r = some (dp, name) → ∀ q u, dirlookup sb dp name t = .ok (q, u) →
        q.map (fun p => (u.itable p.1).inum) = s.follow sb (s.start cwd path) (elements path))
      (NamexPanic sb s) ∧
    (s.follow sb (s.start cwd path) (elements path) = none ↔ ∃ front name back j,
      elements path = front ++ name :: back ∧ s.follow sb (s.start cwd path) front = some j ∧
      ((s.ino sb j).type ≠ tDir ∨ s.lookup sb j name = none)) := by
  refine ⟨skips_elements path, ?_, ?_, follow_eq_none_iff⟩
  · refine wp_imp (wp_namei (fun _ he => he) ok hs hcwd) fun r t ht => ?_
    obtain ⟨q, rfl, hfound⟩ := ht
    refine ⟨hfound.1, hfound.refTo, ?_⟩
    rw [← walk_false path.length _ path [] (le_refl _)]
    have hinums := congrArg (Option.map Prod.fst) hfound.inums
    rw [Option.map_map] at hinums ⊢
    exact hinums
  refine wp_imp (wp_nameiparent (fun _ he => he) ok hs hcwd) fun r t hfound => ?_
  have hres := hfound.inums
  rw [State.resolve, walk_true _ _ _ _ (le_refl _)] at hres
  refine ⟨hfound.1, hfound.refTo, hres, fun dp name hr q u hq => ?_⟩
  rw [hr] at hfound hres
  obtain ⟨d, -, -, -, hold⟩ := hfound.2
  have hopen := hold.locked _ mem_cons_self rfl
  have hlook := wp_ok (wp_dirlookup_lookup (E := fun _ => True) hold.good hopen (fun _ => trivial)
    (fun _ => trivial) (fun _ => trivial)) hq
  have hinum : (t.itable dp).inum = d := hold.inum _ mem_cons_self
  rw [Option.map_some, hinum] at hres
  rw [State.start, follow_of_followParent hres.symm, ← hfound.1.bytes.lookup]
  cases q with
  | none => rw [hlook.2]; rfl
  | some p =>
    obtain ⟨j, hj, hgot⟩ := hlook
    rw [hj, Option.map_some, hgot.inum]
    rfl

theorem path_resolution_root : ∃ s t, run (next tiny) (boot (tinyDisk .zero)) makeRoot = some s ∧
    Consistent tiny s ∧ namei tiny entry0 [slash, 46] s = .ok (some entry0, t) ∧
    RefTo s t (some entry0) ∧ s.follow tiny rootino [dot] = some (t.itable entry0).inum := by
  obtain ⟨s, hs, hchecked, hcwd, hroot⟩ : ∃ s,
      run (next tiny) (boot (tinyDisk .zero)) makeRoot = some s ∧ Checked tiny s ∧
      0 < (s.itable entry0).ref ∧
      (namei tiny entry0 [slash, 46] s).map Prod.fst = .ok (some entry0) :=
    exists_of_any (by decide +kernel)
  have hcons := hchecked.consistent (image_tiny.good_of_run hs) (by decide)
  cases hm : namei tiny entry0 [slash, 46] s with
  | error e =>
    rw [hm] at hroot
    cases hroot
  | ok r =>
    rw [hm] at hroot
    obtain ⟨r, t⟩ := r
    cases hroot
    obtain ⟨-, href, hinum⟩ := wp_ok (path_resolution tiny_ok hcons hcwd [slash, 46]).2.1 hm
    exact ⟨s, t, hs, hcons, hm, href, hinum.symm⟩
end Xv6.Fs
