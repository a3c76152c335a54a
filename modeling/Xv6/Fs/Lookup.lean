import Xv6.Fs.Path

namespace Xv6.Fs
open State Lib List
variable {sb : Superblock} {s : State} {ip dp : Fin ninode} {E : Panic → Prop} {name : Name}
  {M off n fuel inum : Nat} {bytes : Nat → UInt8}

lemma wp_iget_free {Q : Fin ninode → State → Prop}
    (hnone : ∀ k, 0 < (s.itable k).ref → (s.itable k).inum ≠ inum)
    (hfree : ∃ k, (s.itable k).ref = 0) (hok : ∀ k, (s.itable k).ref = 0 →
      Q k (s.setInode k { s.itable k with inum := inum, ref := 1, valid := false })) :
    wp (iget inum) s Q E := by
  have hfind : (finRange ninode).find? (fun k => 0 < (s.itable k).ref ∧
      (s.itable k).inum = inum) = none := by
    rw [find?_eq_none]
    intro k _ hk
    have hk : 0 < (s.itable k).ref ∧ (s.itable k).inum = inum := by simpa using hk
    exact hnone k hk.1 hk.2
  rw [iget, wp_bind, wp_get, hfind]
  cases hf : (finRange ninode).find? fun k => (s.itable k).ref = 0 with
  | none =>
    obtain ⟨k, hk⟩ := hfree
    have := find?_eq_none.mp hf k (mem_finRange k)
    simp [hk] at this
  | some k =>
    have h0 : (s.itable k).ref = 0 := by simpa using find?_some hf
    simp only [wp_bind, wp_setInode, wp_pure]
    exact hok k h0

lemma wp_ilock_load {Q : Unit → State → Prop} (href : 0 < (s.itable ip).ref)
    (hvalid : (s.itable ip).valid = false)
    (htype : (sb.dinode s.disk (s.itable ip).inum).type ≠ 0) :
    wp (ilock sb ip) s Q E ↔ Q () (s.setInode ip { s.itable ip with
      copy := sb.dinode s.disk (s.itable ip).inum, valid := true }) := by
  rw [ilock, wp_bind, wp_get]
  rw [if_neg (by omega), hvalid, if_neg Bool.false_ne_true, wp_bind, wp_setInode, if_neg htype,
    wp_pure]

lemma wp_iput_linked {Q : Unit → State → Prop} (hlink : (s.itable ip).copy.nlink ≠ 0) :
    wp (iput sb ip) s Q E ↔
      Q () (s.setInode ip { s.itable ip with ref := (s.itable ip).ref - 1 }) := by
  rw [iput, wp_bind, wp_inode, wp_bind, if_neg (fun h => hlink h.2.2), wp_pure, wp_bind, wp_inode,
    wp_setInode]

structure Mapped (s : State) (ip : Fin ninode) (M : Nat) (bytes : Nat → UInt8) : Prop where
  block : ∀ o < M, o / bsize < maxfile ∧ s.block ip (o / bsize) ≠ 0
  byte : ∀ o < M, s.byte ip o = bytes o

lemma Mapped.wp_readi {dst : Nat → Option Unit} {Q : Int × List UInt8 → State → Prop}
    (h : Mapped s ip M bytes) (hdst : ∀ k < n, (dst k).isSome)
    (hoff : off ≤ (s.itable ip).copy.size) (hlt : off + n < 2 ^ 32)
    (hM : off + min n ((s.itable ip).copy.size - off) ≤ M)
    (hQ : Q (((min n ((s.itable ip).copy.size - off) : Nat) : Int),
      (range (min n ((s.itable ip).copy.size - off))).map fun k => bytes (off + k)) s) :
    wp (readi sb ip dst off n) s Q E := by
  have hno : ¬(off > (s.itable ip).copy.size ∨ (off + n) % 2 ^ 32 < off) := by
    rw [Nat.mod_eq_of_lt hlt]
    omega
  have hn : (if off + n > (s.itable ip).copy.size then (s.itable ip).copy.size - off else n) =
      min n ((s.itable ip).copy.size - off) := by
    split <;> omega
  rw [readi, wp_bind, wp_inode, if_neg hno, hn]
  generalize min n ((s.itable ip).copy.size - off) = m at hM hQ hn ⊢
  have hm : m ≤ n := by
    rw [← hn]
    split <;> omega
  refine wp_imp (wp_readLoop (fun o _ ho => h.block o (by omega)) m 0 [] zero_le (by omega))
    fun r t hr => ?_
  rw [hr.1, hr.2 (fun k hk => hdst k (by omega))]
  have hbytes : (range (m - 0)).map (fun i => s.byte ip (off + 0 + i)) =
      (range m).map fun k => bytes (off + k) := by
    refine map_congr_left fun k hk => ?_
    have := mem_range.mp hk
    exact h.byte _ (by omega)
  rwa [nil_append, hbytes]

def entryAt (bytes : Nat → UInt8) (off : Nat) : Dirent :=
  .ofBytes ((range 16).map fun k => bytes (off + k))

section Loop
variable {Q : Option (Fin ninode × Nat) → State → Prop} (h : Mapped s dp M bytes)
  (hsize : (s.itable dp).copy.size ≤ maxfile * bsize) (hle : M ≤ (s.itable dp).copy.size)
include h hsize hle

lemma Mapped.wp_readEntry {Q : Int × List UInt8 → State → Prop} (hM : off + 16 ≤ M)
    (hQ : Q (16, (range 16).map fun k => bytes (off + k)) s) :
    wp (readEntry sb dp off) s Q E := by
  have hmin : min 16 ((s.itable dp).copy.size - off) = 16 := by omega
  rw [maxfile_eq, bsize_eq] at hsize
  refine h.wp_readi (fun _ _ => rfl) (by omega) (by omega) ?_ ?_
  · rwa [hmin]
  rwa [hmin]

lemma Mapped.wp_dirlookupLoop_skip (hM : off + 16 ≤ M)
    (hno : ¬((entryAt bytes off).inum ≠ 0 ∧ (entryAt bytes off).name = name))
    (hrest : wp (dirlookupLoop sb dp name fuel (off + 16)) s Q E) :
    wp (dirlookupLoop sb dp name (fuel + 1) off) s Q E := by
  rw [dirlookupLoop, wp_bind, wp_inode, if_pos (by omega), wp_bind]
  refine h.wp_readEntry hsize hle hM ?_
  rw [if_neg (fun hne => hne rfl)]
  exact (if_neg hno).symm ▸ hrest

lemma Mapped.wp_dirlookupLoop_skips (k : Nat) : ∀ off fuel, off + 16 * k ≤ M →
    (∀ l < k, ¬((entryAt bytes (off + 16 * l)).inum ≠ 0 ∧
      (entryAt bytes (off + 16 * l)).name = name)) →
    wp (dirlookupLoop sb dp name fuel (off + 16 * k)) s Q E →
    wp (dirlookupLoop sb dp name (fuel + k) off) s Q E := by
  induction k with
  | zero =>
    intro off fuel _ _ hrest
    exact hrest
  | succ k ih =>
    intro off fuel hM hno hrest
    refine h.wp_dirlookupLoop_skip hsize hle (by omega) (hno 0 (by omega)) ?_
    have hnext : ∀ l, off + 16 + 16 * l = off + 16 * (l + 1) := by omega
    refine ih (off + 16) fuel (by omega) (fun l hl => ?_) ?_
    · rw [hnext]
      exact hno (l + 1) (by omega)
    rwa [hnext]

lemma Mapped.wp_dirlookupLoop_found (hM : off + 16 ≤ M)
    (hin : (entryAt bytes off).inum ≠ 0) (hname : (entryAt bytes off).name = name)
    (hrest : wp (iget (entryAt bytes off).inum) s (fun k t => Q (some (k, off)) t) E) :
    wp (dirlookupLoop sb dp name (fuel + 1) off) s Q E := by
  rw [dirlookupLoop, wp_bind, wp_inode, if_pos (by omega), wp_bind]
  refine h.wp_readEntry hsize hle hM ?_
  rw [if_neg (fun hne => hne rfl)]
  have hmatch : (entryAt bytes off).inum ≠ 0 ∧ (entryAt bytes off).name = name := ⟨hin, hname⟩
  refine (if_pos hmatch).symm ▸ ?_
  exact wp_bind_of hrest fun k t hk => wp_pure.mpr hk
end Loop
section Hole
lemma wp_readEntry_iff {Q : Int × List UInt8 → State → Prop}
    (hsize : off + 16 ≤ (s.itable ip).copy.size) (hlt : off + 16 < 2 ^ 32) :
    wp (readEntry sb ip off) s Q E ↔
      wp (readLoop sb ip (fun _ => some ()) 16 16 0 off []) s Q E := by
  have hno : ¬(off > (s.itable ip).copy.size ∨ (off + 16) % 2 ^ 32 < off) := by
    rw [Nat.mod_eq_of_lt hlt]
    omega
  rw [readEntry, readi, wp_bind, wp_inode, if_neg hno, if_neg (by omega)]

variable (sb) in
def State.fillHole (s : State) (ip : Fin ninode) (bn b : Nat) : State :=
  (s.alloc sb b).setCopy ip ((s.itable ip).copy.setAddr bn b)

lemma block_fillHole {bn b : Nat} (hd : bn < ndirect) :
    (s.fillHole sb ip bn b).block ip bn = b := by
  rw [block_direct hd, State.fillHole, itable_setCopy_self,
    Dinode.addr_setAddr (Nat.lt_succ_of_lt hd), if_pos rfl]

variable (hd : off / bsize < ndirect) (h0 : (s.itable ip).copy.addr (off / bsize) = 0)
  (hlow : sb.bit s.disk 0)
include hd h0 hlow

lemma wp_readLoop_hole {dst : Nat → Option Unit} {tot : Nat} {out : List UInt8}
    {Q : Int × List UInt8 → State → Prop} (hlt : tot < n)
    (hfull : sb.Exhausted s.disk → Q (tot, out) s) (hnew : ∀ b < sb.size, sb.bit s.disk b = false →
      wp (readLoop sb ip dst n (fuel + 1) tot off out) (s.fillHole sb ip (off / bsize) b) Q E) :
    wp (readLoop sb ip dst n (fuel + 1) tot off out) s Q E := by
  rw [readLoop, if_pos hlt, wp_bind, bmap, wp_bind, wp_inode, if_pos hd, if_pos h0, wp_bind]
  refine wp_balloc hlow (fun hex => ?_) fun b hb0 hb hfree => ?_
  · rw [if_pos rfl, wp_pure, if_pos rfl, wp_pure]
    exact hfull hex
  rw [if_neg hb0, wp_bind, wp_setAddr, wp_pure]
  have hgo := hnew b hb hfree
  have hblock : (s.fillHole sb ip (off / bsize) b).block ip (off / bsize) = b := block_fillHole hd
  have hmax : off / bsize < maxfile := lt_of_lt_of_le hd (by decide)
  rwa [readLoop, if_pos hlt, wp_bind, wp_bmap_mapped hmax (by rw [hblock]; exact hb0),
    hblock] at hgo

lemma wp_dirlookupLoop_hole {Q : Option (Fin ninode × Nat) → State → Prop}
    (hsize : off + 16 ≤ (s.itable ip).copy.size) (hlt : off + 16 < 2 ^ 32)
    (hfull : sb.Exhausted s.disk → E .dirlookupRead)
    (hnew : ∀ b < sb.size, sb.bit s.disk b = false →
      wp (dirlookupLoop sb ip name (fuel + 1) off) (s.fillHole sb ip (off / bsize) b) Q E) :
    wp (dirlookupLoop sb ip name (fuel + 1) off) s Q E := by
  have hread : ∀ b, ((s.fillHole sb ip (off / bsize) b).itable ip).copy.size =
      (s.itable ip).copy.size := fun b => by
    rw [State.fillHole, itable_setCopy_self]
    rfl
  rw [dirlookupLoop, wp_bind, wp_inode, if_pos (by omega), wp_bind, wp_readEntry_iff hsize hlt]
  refine wp_readLoop_hole hd h0 hlow (by decide) (fun hex => ?_) fun b hb hfree => ?_
  · rw [if_pos (by decide), wp_throw]
    exact hfull hex
  have hgo := hnew b hb hfree
  rwa [dirlookupLoop, wp_bind, wp_inode, if_pos (by rw [hread]; omega), wp_bind,
    wp_readEntry_iff (by rw [hread]; exact hsize) hlt] at hgo
end Hole

structure Dirent.Fits (de : Dirent) : Prop where
  inum : de.inum < 2 ^ 16
  long : de.name.length ≤ dirsiz
  string : (0 : UInt8) ∉ de.name

lemma Dirent.Fits.ofBytes_byte {de : Dirent} (h : de.Fits) :
    Dirent.ofBytes ((range 16).map de.byte) = de := by
  have hinum := h.inum
  have hlong := h.long
  have hname : (((range 16).map de.byte).drop 2).take dirsiz =
      (range 14).map fun k => de.name.getD k 0 := rfl
  have hsplit : (range 14).map (fun k => de.name.getD k 0) =
      de.name ++ replicate (14 - de.name.length) 0 := by
    rw [dirsiz] at hlong
    refine ext_getElem (by simp; omega) fun k h1 h2 => ?_
    rw [getElem_map, getElem_range]
    by_cases hk : k < de.name.length
    · rw [getD_eq_getElem _ _ hk, getElem_append_left hk]
    rw [getD_eq_default _ _ (by omega), getElem_append_right (by omega), getElem_replicate]
  have hall : ∀ c ∈ de.name, decide (c ≠ 0) := fun c hc =>
    decide_eq_true fun h0 => h.string (h0 ▸ hc)
  have htake : (de.name ++ replicate (14 - de.name.length) (0 : UInt8)).takeWhile
      (fun c => decide (c ≠ 0)) = de.name := by
    rw [takeWhile_append_of_pos hall]
    cases 14 - de.name.length with
    | zero => simp
    | succ m => rw [replicate_succ, takeWhile_cons_of_neg (by simp), append_nil]
  have hlow : (Dirent.ofBytes ((range 16).map de.byte)).inum = de.inum := by
    show (UInt8.ofNat de.inum).toNat + 256 * (UInt8.ofNat (de.inum / 256)).toNat = de.inum
    rw [UInt8.toNat_ofNat', UInt8.toNat_ofNat']
    omega
  have hhigh : (Dirent.ofBytes ((range 16).map de.byte)).name = de.name := by
    rwa [Dirent.ofBytes, hname, hsplit]
  calc Dirent.ofBytes ((range 16).map de.byte) = ⟨(Dirent.ofBytes ((range 16).map de.byte)).inum,
          (Dirent.ofBytes ((range 16).map de.byte)).name⟩ := rfl
    _ = de := by rw [hlow, hhigh]

lemma skipelem_root (hne : name ≠ []) (hslash : slash ∉ name) :
    skipelem (slash :: name) = some (name.take dirsiz, []) := by
  cases name with
  | nil => exact absurd rfl hne
  | cons c cs =>
    have hc : c ≠ slash := fun h => hslash (h ▸ (.head _))
    have hdrop : (slash :: c :: cs).dropWhile (fun x => decide (x = slash)) = c :: cs := by
      rw [dropWhile_cons_of_pos (by simp), dropWhile_cons_of_neg (by simpa using hc)]
    have hall : ∀ x ∈ c :: cs, decide (x ≠ slash) := fun x hx =>
      decide_eq_true fun h => hslash (h ▸ hx)
    have hrest : (c :: cs).dropWhile (fun x => decide (x ≠ slash)) = [] :=
      dropWhile_eq_nil_iff.mpr hall
    unfold skipelem
    rw [hdrop]
    dsimp only
    rw [takeWhile_eq_self_iff.mpr hall, hrest]
    rfl
end Xv6.Fs
