import Xv6.Fs.Hold

namespace Xv6.Fs
open State Lib

def State.walk (s : State) (sb : Superblock) (parent : Bool) : Nat → Nat → Path → Name →
    Option (Nat × Name)
  | 0, i, _, name => if parent then none else some (i, name)
  | fuel + 1, i, path, name =>
    match skipelem path with
    | none => if parent then none else some (i, name)
    | some (name, path) =>
      if (s.ino sb i).type ≠ tDir then none
      else if parent ∧ path = [] then some (i, name)
      else
        match s.lookup sb i name with
        | none => none
        | some (j, _) => s.walk sb parent fuel j path name

def State.resolve (s : State) (sb : Superblock) (dir : Nat) (path : Path) (parent : Bool) :
    Option (Nat × Name) :=
  s.walk sb parent path.length (if path.head? = some slash then rootino else dir) path []

variable {sb : Superblock} {s t u : State} {ip cwd : Fin ninode} {E : Panic → Prop} {i j : Nat}
  {parent : Bool} {path : Path} {name : Name}

def Found (sb : Superblock) (s : State) (parent : Bool) (res : Option (Nat × Name))
    (r : Option (Fin ninode × Name)) (t : State) : Prop :=
  SameFiles sb s t ∧
    match r with
    | none => res = none ∧ Holding sb s [] t
    | some (ip, name) => ∃ j, res = some (j, name) ∧ j < sb.ninodes ∧
      (parent → (s.ino sb j).type = tDir) ∧ Holding sb s [⟨ip, j, parent⟩] t

lemma wp_namexEnd (ok : sb.Ok) (hs : Consistent sb s) (h : Holding sb s [⟨ip, i, false⟩] t)
    (hfiles : SameFiles sb s t) (hi : i < sb.ninodes) :
    wp (namexEnd sb parent ip name) t
      (Found sb s parent (if parent then none else some (i, name))) E := by
  unfold namexEnd
  cases parent with
  | true =>
    simp only [if_true]
    refine wp_bind_of (hs.wp_iput ok h (fun h0 => ?_) (fun h0 => ?_)) fun _ u hu => ?_
    · rwa [hfiles.ino] at h0
    · rwa [hfiles.ino]
    exact wp_pure.mpr ⟨hfiles.trans hu.2, rfl, hu.1⟩
  | false =>
    simp only [Bool.false_eq_true, if_false, wp_pure]
    exact ⟨hfiles, i, rfl, hi, fun h0 => (by cases h0), h⟩

def NamexPanic (sb : Superblock) (s : State) : Panic → Prop
  | .igetNoInodes => ∃ ip, ∀ k ≠ ip, 0 < (s.itable k).ref
  | .ilockNoType => (s.ino sb rootino).type = 0 ∨ ∃ d off name, (s.ino sb d).type = tDir ∧
    s.Names sb d off name ∧ (s.ino sb (s.dirent sb d off).inum).type = 0
  | .dirlookupRead => ∃ d, (s.ino sb d).type = tDir ∧ (s.ino sb d).size % 16 ≠ 0
  | _ => False

lemma NamexPanic.ne {e : Panic} (h : NamexPanic sb s e) : e ≠ .unlinkNlink := fun he => by
  rw [he] at h
  exact h

def Reached (sb : Superblock) (s : State) (i : Nat) : Prop :=
  (s.ino sb i).type = 0 → NamexPanic sb s .ilockNoType

variable (hE : ∀ e, NamexPanic sb s e → E e)
include hE

section
variable (ok : sb.Ok) (hs : Consistent sb s)
include ok hs

lemma wp_namexLoop :
    ∀ (fuel : Nat) (ip : Fin ninode) (i : Nat) (path : Path) (name : Name) (t : State),
      Holding sb s [⟨ip, i, false⟩] t → SameFiles sb s t → i < sb.ninodes → Reached sb s i →
      wp (namexLoop sb parent fuel ip path name) t
        (Found sb s parent (s.walk sb parent fuel i path name)) E := by
  intro fuel
  induction fuel with
  | zero =>
    intro ip i path name t h hfiles hi hreach
    exact wp_namexEnd ok hs h hfiles hi
  | succ fuel ih =>
    intro ip i path name t h hfiles hi hreach
    rw [namexLoop, State.walk]
    cases hskip : skipelem path with
    | none => exact wp_namexEnd ok hs h hfiles hi
    | some q =>
      dsimp only
      unfold namexRound
      have hlock : (t.ino sb i).type = 0 → E .ilockNoType := fun h0 => by
        rw [hfiles.ino] at h0
        exact hE _ (hreach h0)
      refine wp_bind_of (h.wp_ilock hi hlock) fun _ t1 h1 => ?_
      obtain ⟨h1, hf1⟩ := h1
      have hf1 := hfiles.trans hf1
      have hopen := h1.locked _ List.mem_cons_self rfl
      have hunchanged : ∀ v, SameFiles sb s v → ((v.ino sb i).nlink = 0 → (s.ino sb i).nlink = 0) ∧
          ((s.ino sb i).type = 0 → (v.ino sb i).type = 0) := fun v hv => by
        rw [hv.ino]
        exact ⟨id, id⟩
      rw [wp_bind, wp_inode, ← ino_of_open h1.good.owned.table hopen, hf1.ino]
      refine wp_ite (fun hdir => ?_) fun hdir => ?_
      · rw [if_pos hdir]
        refine wp_bind_of (hs.wp_iput ok h1 (hunchanged t1 hf1).1 (hunchanged t1 hf1).2)
          (fun _ u hu => ?_)
        exact wp_pure.mpr ⟨hf1.trans hu.2, rfl, hu.1⟩
      rw [if_neg hdir]
      refine wp_ite (fun hlast => ?_) fun hlast => ?_
      · rw [if_pos hlast, wp_pure]
        refine ⟨hf1, i, rfl, hi, fun _ => not_not.mp hdir, ?_⟩
        rw [hlast.1]
        exact h1
      rw [if_neg hlast]
      have htype : (s.ino sb i).type = tDir := not_not.mp hdir
      have hread : (t1.ino sb i).size % 16 ≠ 0 → E .dirlookupRead := fun h16 => by
        rw [hf1.ino] at h16
        exact hE _ ⟨i, htype, h16⟩
      have hget : (∀ k, 0 < (t1.itable k).ref) → E .igetNoInodes := fun hfull => by
        refine hE _ ⟨ip, fun k hk => ?_⟩
        have := hfull k
        rw [h1.ref] at this
        simpa [Ne.symm hk] using this
      have hnot : (t1.ino sb i).type ≠ tDir → E .dirlookupNotDir := fun hne => by
        rw [hf1.ino] at hne
        exact absurd htype hne
      refine wp_bind_of (wp_dirlookup_lookup h1.good hopen hnot hread hget) fun r t2 hr => ?_
      rw [hf1.bytes.lookup] at hr
      cases r with
      | none =>
        obtain ⟨rfl, hnone⟩ := hr
        rw [hnone]
        refine wp_bind_of (hs.wp_iput ok h1 (hunchanged _ hf1).1 (hunchanged _ hf1).2)
          (fun _ u hu => ?_)
        exact wp_pure.mpr ⟨hf1.trans hu.2, rfl, hu.1⟩
      | some p =>
        obtain ⟨j, hlook, hgot⟩ := hr
        have hf2 := hf1.trans hgot.files
        obtain ⟨hname, hinum⟩ := names_of_lookup hlook
        have hj : j < sb.ninodes := by
          have := hs.entries i hi htype _ _ hname
          rwa [hinum] at this
        have hreach' : Reached sb s j := fun h0 => by
          refine .inr ⟨i, p.2, q.1, htype, hname, ?_⟩
          rwa [hinum]
        rw [hlook]
        refine wp_bind_of (hs.wp_iput ok (h1.ofGot hgot).swap (hunchanged t2 hf2).1
          (hunchanged t2 hf2).2) (fun _ u hu => ?_)
        exact ih p.1 j q.2 q.1 u hu.1 (hf2.trans hu.2) hj hreach'

lemma wp_namex (hcwd : 0 < (s.itable cwd).ref) : wp (namex sb cwd path parent) s
      (Found sb s parent (s.resolve sb (s.itable cwd).inum path parent)) E := by
  unfold namex State.resolve
  split
  · refine wp_bind_of (wp_iget hs.good (fun hfull => hE _ ⟨cwd, fun k _ => hfull k⟩))
      fun ip t ht => ?_
    exact wp_namexLoop hE ok hs _ ip rootino path [] t ((Holding.refl hs.good).ofGot ht) ht.files
      hs.root .inl
  obtain ⟨hlt, htype⟩ := hs.live cwd hcwd
  refine wp_bind_of (wp_idup hs.good hcwd) fun _ t ht => ?_
  exact wp_namexLoop hE ok hs _ cwd _ path [] t ((Holding.refl hs.good).ofGot ht) ht.files hlt
    fun h0 => absurd h0 htype

lemma wp_nameiparent (hcwd : 0 < (s.itable cwd).ref) : wp (nameiparent sb cwd path) s
      (Found sb s true (s.resolve sb (s.itable cwd).inum path true)) E :=
  wp_namex hE ok hs hcwd

lemma wp_namei (hcwd : 0 < (s.itable cwd).ref) :
    wp (namei sb cwd path) s (fun r t => ∃ q, r = q.map Prod.fst ∧
      Found sb s false (s.resolve sb (s.itable cwd).inum path false) q t) E := by
  unfold namei
  refine wp_bind_of (wp_namex hE ok hs hcwd) fun q t hq => ?_
  exact wp_pure.mpr ⟨q, rfl, hq⟩
end
end Xv6.Fs
