import Xv6.Fs.Dir

namespace Xv6.Fs
abbrev Path := List UInt8
def slash : UInt8 := 47
def dot : Name := [46]
def dotdot : Name := [46, 46]

def skipelem (path : Path) : Option (Name × Path) :=
  match path.dropWhile (· = slash) with
  | [] => none
  | c :: s =>
    some (((c :: s).takeWhile (· ≠ slash)).take dirsiz,
      ((c :: s).dropWhile (· ≠ slash)).dropWhile (· = slash))

variable (sb : Superblock)

def iunlockput (ip : Fin ninode) : FsM Unit := iput sb ip

def namexEnd (parent : Bool) (ip : Fin ninode) (name : Name) :
    FsM (Option (Fin ninode × Name)) := do
  if parent then
    iput sb ip
    return none
  else return some (ip, name)

def namexRound (parent : Bool) (ip : Fin ninode) (name : Name) (path : Path)
    (rest : Fin ninode → FsM (Option (Fin ninode × Name))) :
    FsM (Option (Fin ninode × Name)) := do
  ilock sb ip
  let e ← inode ip
  if e.copy.type ≠ tDir then
    iunlockput sb ip
    return none
  else if parent ∧ path = [] then return some (ip, name)
  else
    let r ← dirlookup sb ip name
    match r with
    | none =>
      iunlockput sb ip
      return none
    | some (next, _) =>
      iunlockput sb ip
      rest next

def namexLoop (parent : Bool) : Nat → Fin ninode → Path → Name → FsM (Option (Fin ninode × Name))
  | 0, ip, _, name => namexEnd sb parent ip name
  | fuel + 1, ip, path, name =>
    match skipelem path with
    | none => namexEnd sb parent ip name
    | some (name, path) => namexRound sb parent ip name path fun next =>
      namexLoop parent fuel next path name

section
variable (cwd : Fin ninode) (path : Path)

def namex (parent : Bool) : FsM (Option (Fin ninode × Name)) := do
  if path.head? = some slash then
    let ip ← iget rootino
    namexLoop sb parent path.length ip path []
  else
    idup cwd
    namexLoop sb parent path.length cwd path []

def namei : FsM (Option (Fin ninode)) := do
  let r ← namex sb cwd path false
  return r.map Prod.fst

def nameiparent : FsM (Option (Fin ninode × Name)) :=
  namex sb cwd path true
end

lemma skipelem_length_lt {path rest : Path} {name : Name}
    (h : skipelem path = some (name, rest)) : rest.length < path.length := by
  unfold skipelem at h
  split at h
  · cases h
  next c s hs =>
  simp only [Option.some.injEq, Prod.mk.injEq] at h
  have hc : c ≠ slash := by
    intro hc
    have := List.head_dropWhile_not (· = slash) (l := path) (by simp [hs])
    simp [hs, hc] at this
  have hdrop : (c :: s).dropWhile (· ≠ slash) = s.dropWhile (· ≠ slash) := by
    rw [List.dropWhile_cons_of_pos (by simpa using hc)]
  rw [← h.2, hdrop]
  calc ((s.dropWhile (· ≠ slash)).dropWhile (· = slash)).length
      ≤ (s.dropWhile (· ≠ slash)).length := (List.dropWhile_sublist _).length_le
    _ ≤ s.length := (List.dropWhile_sublist _).length_le
    _ < (c :: s).length := Nat.lt_succ_self _
    _ ≤ path.length := by
      rw [← hs]
      exact (List.dropWhile_sublist _).length_le

lemma skipelem_nil : skipelem [] = none := rfl

lemma namexLoop_eq {parent : Bool} {n : Nat} {ip : Fin ninode} {path : Path} {name : Name}
    (h : path.length ≤ n) : namexLoop sb parent n ip path name =
      match skipelem path with
      | none => namexEnd sb parent ip name
      | some (name, path) => namexRound sb parent ip name path fun next =>
        namexLoop sb parent n next path name := by
  induction n generalizing ip path name with
  | zero =>
    have hnil : path = [] := List.length_eq_zero_iff.mp (Nat.le_zero.mp h)
    rw [hnil, skipelem_nil, namexLoop]
  | succ n ih =>
    rw [namexLoop]
    cases hs : skipelem path with
    | none => rfl
    | some q =>
      have hlt := skipelem_length_lt hs
      have hnext : ∀ next, namexLoop sb parent n next q.2 q.1 =
          namexLoop sb parent (n + 1) next q.2 q.1 := fun next => by
        rw [ih (by omega), namexLoop]
      simp only [hnext]
end Xv6.Fs
