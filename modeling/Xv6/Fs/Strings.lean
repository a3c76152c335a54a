import Xv6.Fs.Lookup

namespace Xv6.Fs
open State Lib List

abbrev CStr := Nat → UInt8
def CStr.next (p : CStr) : CStr := fun k => p (k + 1)

def strncmp : CStr → CStr → Nat → Int
  | _, _, 0 => 0
  | p, q, n + 1 =>
    if p 0 ≠ 0 ∧ p 0 = q 0 then strncmp p.next q.next n
    else (p 0).toNat - (q 0).toNat

def strncpy : CStr → Nat → List UInt8
  | _, 0 => []
  | t, n + 1 =>
    if t 0 ≠ 0 then t 0 :: strncpy t.next n
    else t 0 :: replicate n 0

def namecmp (p q : CStr) : Int := strncmp p q dirsiz
def CStr.upTo (p : CStr) (n : Nat) : List UInt8 := ((range n).map p).takeWhile (· ≠ 0)
def CStr.name (p : CStr) : Name := p.upTo dirsiz

variable {p q : CStr} {n k : Nat} {bs : List UInt8}

lemma upTo_succ : p.upTo (n + 1) = if p 0 ≠ 0 then p 0 :: p.next.upTo n else [] := by
  have hmap : (range (n + 1)).map p = p 0 :: (range n).map p.next := by
    rw [range_succ_eq_map, map_cons, map_map]
    rfl
  rw [CStr.upTo, hmap, takeWhile_cons, CStr.upTo]
  simp

lemma upTo_length_le : (p.upTo n).length ≤ n := by
  have h := ( takeWhile_prefix (· ≠ 0) (l := (range n).map p)).length_le
  rwa [length_map, length_range] at h

lemma zero_not_mem_upTo : (0 : UInt8) ∉ p.upTo n := fun h => by simpa using mem_takeWhile_imp h

lemma toNat_sub_eq_zero {a b : UInt8} : ((a.toNat : Int) - b.toNat = 0) ↔ a = b := by
  rw [Int.sub_eq_zero, Int.ofNat_inj, UInt8.toNat_inj]

lemma strncmp_eq_zero_iff : ∀ n p q, strncmp p q n = 0 ↔ p.upTo n = q.upTo n := by
  intro n
  induction n with
  | zero =>
    intro p q
    exact iff_of_true rfl rfl
  | succ n ih =>
    intro p q
    rw [strncmp, upTo_succ, upTo_succ]
    by_cases hboth : p 0 ≠ 0 ∧ p 0 = q 0
    · obtain ⟨hp, hpq⟩ := hboth
      rw [if_pos ⟨hp, hpq⟩, ih, if_pos hp, ← hpq, if_pos hp, cons_inj_right]
    rw [if_neg hboth, toNat_sub_eq_zero]
    by_cases hp : p 0 = 0
    · rw [if_neg (fun h => h hp), hp]
      by_cases hq : q 0 = 0
      · rw [if_neg (fun h => h hq), hq]
        exact iff_of_true rfl rfl
      rw [if_pos hq]
      exact iff_of_false (fun h => hq h.symm) fun h => cons_ne_nil _ _ h.symm
    have hpq : p 0 ≠ q 0 := fun h => hboth ⟨hp, h⟩
    rw [if_pos hp]
    refine iff_of_false hpq fun h => ?_
    split at h
    · exact hpq (cons.inj h).1
    exact cons_ne_nil _ _ h

lemma strncpy_eq : ∀ n p, strncpy p n = p.upTo n ++ replicate (n - (p.upTo n).length) 0 := by
  intro n
  induction n with
  | zero =>
    intro p
    rfl
  | succ n ih =>
    intro p
    rw [strncpy, upTo_succ]
    by_cases hp : p 0 = 0
    · simp [hp, replicate_succ]
    rw [if_pos hp, if_pos hp, ih, cons_append, length_cons, Nat.add_sub_add_right]

lemma getD_strncpy (p : CStr) (n k : Nat) : (strncpy p n).getD k 0 = (p.upTo n).getD k 0 := by
  rw [strncpy_eq]
  by_cases hk : k < (p.upTo n).length
  · rw [getD_append _ _ _ _ hk]
  rw [getD_append_right _ _ _ _ (Nat.le_of_not_lt hk),
    getD_eq_default (p.upTo n) _ (Nat.le_of_not_lt hk)]
  by_cases hr : k - (p.upTo n).length < n - (p.upTo n).length
  · rw [getD_eq_getElem _ _ (by rwa [length_replicate]), getElem_replicate]
  rw [getD_eq_default _ _ (by rw [length_replicate]; omega)]

lemma upTo_getD : ∀ n (bs : List UInt8),
    CStr.upTo (fun k => bs.getD k 0) n = (bs.take n).takeWhile (· ≠ 0) := by
  intro n
  induction n with
  | zero =>
    intro bs
    rfl
  | succ n ih =>
    intro bs
    rw [upTo_succ]
    cases bs with
    | nil => simp
    | cons b bs =>
      have hnext : CStr.next (fun k => (b :: bs).getD k 0) = fun k => bs.getD k 0 := rfl
      have h0 : (b :: bs).getD 0 0 = b := rfl
      rw [hnext, ih, h0, take_succ_cons, takeWhile_cons]
      simp

def direntInum (bs : List UInt8) : Nat := (bs.getD 0 0).toNat + 256 * (bs.getD 1 0).toNat
def direntName (bs : List UInt8) : CStr := fun k => (bs.drop 2).getD k 0

lemma namecmp_direntName : namecmp p (direntName bs) = 0 ↔ (Dirent.ofBytes bs).name = p.name := by
  have hname : (direntName bs).upTo dirsiz = (Dirent.ofBytes bs).name := upTo_getD dirsiz _
  rw [namecmp, strncmp_eq_zero_iff, hname]
  exact eq_comm

variable (sb : Superblock)

def dirlookupStrLoop (dp : Fin ninode) (name : CStr) : Nat → Nat → FsM (Option (Fin ninode × Nat))
  | 0, _ => return none
  | fuel + 1, off => do
    let e ← inode dp
    if off < e.copy.size then
      let r ← readEntry sb dp off
      if r.1 ≠ 16 then throw .dirlookupRead
      else if direntInum r.2 = 0 then dirlookupStrLoop dp name fuel (off + 16)
      else if namecmp name (direntName r.2) = 0 then
        let ip ← iget (direntInum r.2)
        return some (ip, off)
      else dirlookupStrLoop dp name fuel (off + 16)
    else return none

def dirlookupStr (dp : Fin ninode) (name : CStr) : FsM (Option (Fin ninode × Nat)) := do
  let e ← inode dp
  if e.copy.type ≠ tDir then throw .dirlookupNotDir
  else dirlookupStrLoop sb dp name (e.copy.size / 16 + 1) 0

def direntBytes (name : CStr) (inum : Nat) : List UInt8 :=
  UInt8.ofNat inum :: UInt8.ofNat (inum / 256) :: strncpy name dirsiz

def dirlinkStr (dp : Fin ninode) (name : CStr) (inum : Nat) : FsM Int := do
  let r ← dirlookupStr sb dp name
  match r with
  | some (ip, _) =>
    iput sb ip
    return -1
  | none =>
    let e ← inode dp
    let off ← emptyLoop sb dp (e.copy.size / 16 + 1) 0
    let n ← writei sb dp (fun k => some ((direntBytes name inum).getD k 0)) off 16
    if n ≠ 16 then return -1 else return 0

variable {sb} {dp : Fin ninode} {inum : Nat}

lemma dirlookupStrLoop_eq : ∀ fuel off,
    dirlookupStrLoop sb dp p fuel off = dirlookupLoop sb dp p.name fuel off := by
  intro fuel
  induction fuel with
  | zero =>
    intro off
    rfl
  | succ fuel ih =>
    intro off
    rw [dirlookupStrLoop, dirlookupLoop]
    refine bind_congr fun e => ?_
    split
    · refine bind_congr fun r => ?_
      have hinum : direntInum r.2 = (Dirent.ofBytes r.2).inum := rfl
      split
      · rfl
      by_cases h0 : (Dirent.ofBytes r.2).inum = 0
      · rw [hinum, if_pos h0, if_neg (fun h => h.1 h0), ih]
      by_cases hname : (Dirent.ofBytes r.2).name = p.name
      · rw [hinum, if_neg h0, if_pos (namecmp_direntName.mpr hname), if_pos ⟨h0, hname⟩]
      rw [hinum, if_neg h0, if_neg (mt namecmp_direntName.mp hname),
        if_neg (fun h => hname h.2), ih]
    rfl

lemma dirlookupStr_eq : dirlookupStr sb dp p = dirlookup sb dp p.name := by
  unfold dirlookupStr dirlookup
  simp only [dirlookupStrLoop_eq]

lemma getD_direntBytes : (direntBytes p inum).getD k 0 = (⟨inum, p.name⟩ : Dirent).byte k := by
  unfold Dirent.byte direntBytes
  match k with
  | 0 => rfl
  | 1 => rfl
  | k + 2 => exact getD_strncpy p dirsiz k

lemma dirlinkStr_eq : dirlinkStr sb dp p inum = dirlink sb dp p.name inum := by
  unfold dirlinkStr dirlink writeEntry
  rw [dirlookupStr_eq]
  refine bind_congr fun r => ?_
  cases r with
  | some r => rfl
  | none => simp only [getD_direntBytes]
end Xv6.Fs
