import Xv6.Fs.Owned

namespace Xv6.Fs
open State Lib List
variable {sb : Superblock} {s t : State} {ip : Fin ninode} {E : Panic → Prop} {b bn : Nat}
  {Q : Unit → State → Prop} {mem : Nat → Option α} {v : Block} {α : Type}

@[simp] lemma wp_bread {Q : Block → State → Prop} : wp (bread b) s Q E ↔ Q (s.disk b) s := by
  simp [bread]

@[simp] lemma wp_logWrite : wp (logWrite b v) s Q E ↔ Q () (s.logWrite b v) := wp_modify

@[simp] lemma wp_scribble : wp (scribble b v) s Q E ↔ Q () (s.scribble b v) := wp_modify

@[simp] lemma wp_inode {Q : Inode → State → Prop} : wp (inode ip) s Q E ↔ Q (s.itable ip) s := by
  simp [inode]

@[simp] lemma wp_setInode {e : Inode} :
    wp (setInode ip e) s Q E ↔ Q () (s.setInode ip e) := wp_modify

@[simp] lemma wp_setAddr {k a : Nat} :
    wp (setAddr ip k a) s Q E ↔ Q () (s.setCopy ip ((s.itable ip).copy.setAddr k a)) := by
  simp only [setAddr, wp_bind, wp_inode, wp_setInode]
  exact Iff.rfl

@[simp] lemma wp_iupdate : wp (iupdate sb ip) s Q E ↔ Q () (s.iupdate sb ip) := by
  simp only [iupdate, wp_bind, wp_get, wp_logWrite]
  exact Iff.rfl

def Superblock.Exhausted (sb : Superblock) (d : Disk) : Prop :=
  ∀ b < sb.size, sb.bit d b

lemma wp_balloc {Q : Nat → State → Prop} (h0 : sb.bit s.disk 0)
    (hnone : sb.Exhausted s.disk → Q 0 s)
    (hsome : ∀ b ≠ 0, b < sb.size → sb.bit s.disk b = false → Q b (s.alloc sb b)) :
    wp (balloc sb) s Q E := by
  unfold balloc
  simp only [wp_bind, wp_get]
  cases hf : (range sb.size).find? fun b => !sb.bit s.disk b with
  | none =>
    refine wp_pure.mpr (hnone (fun b hb => ?_))
    have := find?_eq_none.mp hf b (mem_range.mpr hb)
    simpa using this
  | some b =>
    have hbit : sb.bit s.disk b = false := by
      have := find?_some hf
      simpa using this
    have hlt : b < sb.size := mem_range.mp (mem_of_find?_eq_some hf)
    simp only [bzero, wp_bind, wp_logWrite, wp_pure]
    refine hsome b (fun e => ?_) hlt hbit
    rw [e, h0] at hbit
    cases hbit

lemma wp_bfree (hb : sb.bit s.disk b) : wp (bfree sb b) s Q E ↔ Q () (s.free sb b) := by
  have hbit : (s.disk (sb.bblock b)).getBit (b % bpb) := hb
  unfold bfree
  simp only [wp_bind, wp_bread, hbit, Bool.true_eq_false, if_false, wp_logWrite]
  exact Iff.rfl

inductive Grow (sb : Superblock) (ip : Fin ninode) (s : State) : Nat → State → Prop
  | addr (k b : Nat) (hk : k ≤ ndirect) (h0 : (s.itable ip).copy.addr k = 0) (hb : b < sb.size)
      (hfree : sb.bit s.disk b = false) :
    Grow sb ip s k ((s.alloc sb b).setCopy ip ((s.itable ip).copy.setAddr k b))
  | word (j b : Nat) (hj : j < nindirect) (ha : (s.itable ip).copy.addr ndirect ≠ 0)
      (h0 : (s.disk ((s.itable ip).copy.addr ndirect)).word j = 0) (hb : b < sb.size)
      (hfree : sb.bit s.disk b = false) :
    Grow sb ip s (ndirect + 1 + j) ((s.alloc sb b).logWrite ((s.itable ip).copy.addr ndirect)
      ((s.disk ((s.itable ip).copy.addr ndirect)).setWord j b))

def State.block (s : State) (ip : Fin ninode) (bn : Nat) : Nat := (s.itable ip).copy.block s.disk bn

lemma block_direct (h : bn < ndirect) : s.block ip bn = (s.itable ip).copy.addr bn := by
  rw [State.block, Dinode.block, fileSlot, if_pos h, Dinode.slot_direct (le_of_lt h)]

lemma block_entry (h : ¬bn < ndirect) (ha : (s.itable ip).copy.addr ndirect ≠ 0) :
    s.block ip bn = (s.disk ((s.itable ip).copy.addr ndirect)).word (bn - ndirect) := by
  rw [State.block, Dinode.block, fileSlot, if_neg h, Dinode.slot_entry (by omega) ha,
    Nat.add_sub_add_right]

lemma block_none (h : ¬bn < ndirect) (ha : (s.itable ip).copy.addr ndirect = 0) :
    s.block ip bn = 0 := by
  rw [State.block, Dinode.block, fileSlot, if_neg h, Dinode.slot_none (by omega) ha]

section Bmap
variable {I : State → Prop} {Q : Nat → State → Prop}

def Uses (bn k : Nat) : Prop := k = fileSlot bn ∨ ndirect ≤ bn ∧ k = ndirect

lemma wp_indirect (hgrow : ∀ t t', I t → Grow sb ip t ndirect t' → I t')
    (hlow : ∀ t, I t → sb.bit t.disk 0) (hs : I s)
    (hdone : ∀ t, I t → ((t.itable ip).copy.addr ndirect = 0 → sb.Exhausted t.disk) →
      Q ((t.itable ip).copy.addr ndirect) t) : wp (indirect sb ip) s Q E := by
  unfold indirect
  simp only [wp_bind, wp_inode]
  refine wp_ite (fun h0 => ?_) fun h0 => ?_
  · refine wp_bind.mpr (wp_balloc (hlow s hs) (fun hfull => ?_) (fun b hb0 hb hfree => ?_))
    · simpa [h0] using hdone s hs fun _ => hfull
    · simp only [hb0, if_false, wp_bind, wp_setAddr, wp_pure, itable_alloc]
      have hI := hgrow s _ hs (Grow.addr ndirect b le_rfl h0 hb hfree)
      have hq := hdone _ hI
      rw [itable_setCopy_self, Dinode.addr_setAddr (by omega), if_pos rfl] at hq
      exact hq fun h => absurd h hb0
  rw [wp_pure]
  exact hdone s hs fun h => absurd h h0

lemma wp_bmap (ok : sb.Ok) (hgrow : ∀ k t t', Uses bn k → I t → Grow sb ip t k t' → I t')
    (hlow : ∀ t, I t → sb.bit t.disk 0) (hs : I s) (hbn : bn < maxfile)
    (hdone : ∀ r t, I t → t.block ip bn = r → (r = 0 → sb.Exhausted t.disk) → Q r t) : wp
      (bmap sb ip bn) s Q E := by
  unfold bmap
  simp only [wp_bind, wp_inode]
  by_cases hd : bn < ndirect
  · rw [if_pos hd]
    refine wp_ite (fun h0 => ?_) fun h0 => ?_
    · refine wp_bind.mpr (wp_balloc (hlow s hs) (fun hfull => ?_) (fun b hb0 hb hfree => ?_))
      · rw [if_pos rfl, wp_pure]
        exact hdone 0 s hs (by rw [block_direct hd, h0]) fun _ => hfull
      · simp only [hb0, if_false, wp_bind, wp_setAddr, wp_pure, itable_alloc]
        have huse : Uses bn bn := .inl (by rw [fileSlot, if_pos hd])
        have hg := hgrow bn s _ huse hs (Grow.addr bn b (le_of_lt hd) h0 hb hfree)
        refine hdone b _ hg ?_ fun h => absurd h hb0
        rw [block_direct hd, itable_setCopy_self, Dinode.addr_setAddr (by omega), if_pos rfl]
    rw [wp_pure]
    exact hdone _ s hs (block_direct hd) fun h => absurd h h0
  have hj : bn - ndirect < nindirect := by
    rw [maxfile] at hbn
    omega
  rw [if_neg hd, if_pos hj]
  have hge : ndirect ≤ bn := Nat.le_of_not_lt hd
  refine wp_bind.mpr (wp_indirect (fun t t' => hgrow ndirect t t' (.inr ⟨hge, rfl⟩)) hlow hs
    (fun t ht hnone => ?_))
  refine wp_ite (fun ha => wp_pure.mpr ?_) fun ha => ?_
  · exact hdone 0 t ht (block_none hd ha) fun _ => hnone ha
  simp only [wp_bind, wp_bread]
  refine wp_ite (fun h0 => ?_) fun h0 => ?_
  · refine wp_bind.mpr (wp_balloc (hlow t ht) (fun hfull => ?_) (fun b hb0 hb hfree => ?_))
    · rw [if_pos rfl, wp_pure]
      exact hdone 0 t ht (by rw [block_entry hd ha, h0]) fun _ => hfull
    · simp only [hb0, if_false, wp_bind, wp_logWrite, wp_pure]
      have huse : Uses bn (ndirect + 1 + (bn - ndirect)) := .inl (by
        rw [fileSlot, if_neg hd]
        omega)
      have hg := hgrow _ t _ huse ht (Grow.word (bn - ndirect) b hj ha h0 hb hfree)
      refine hdone b _ hg ?_ fun h => absurd h hb0
      have hb32 : b < 2 ^ 32 := by
        have := ok.size
        omega
      have hj4 : 4 * (bn - ndirect) + 4 ≤ bsize := by
        rw [nindirect_eq] at hj
        rw [bsize_eq]
        omega
      have ha' : (((t.alloc sb b).logWrite ((t.itable ip).copy.addr ndirect)
          ((t.disk ((t.itable ip).copy.addr ndirect)).setWord (bn - ndirect) b)).itable
            ip).copy.addr ndirect ≠ 0 := ha
      rw [block_entry hd ha', itable_logWrite, itable_alloc, disk_logWrite_self,
        Block.word_setWord hj4 hb32, if_pos rfl]
  rw [wp_pure]
  exact hdone _ t ht (block_entry hd ha) fun h => absurd h h0
end Bmap

lemma wp_bmap_mapped {Q : Nat → State → Prop} (hbn : bn < maxfile) (h : s.block ip bn ≠ 0) :
    wp (bmap sb ip bn) s Q E ↔ Q (s.block ip bn) s := by
  unfold bmap
  simp only [wp_bind, wp_inode]
  by_cases hd : bn < ndirect
  · rw [block_direct hd] at h ⊢
    rw [if_pos hd, if_neg h, wp_pure]
  have hj : bn - ndirect < nindirect := by
    rw [maxfile] at hbn
    omega
  have ha : (s.itable ip).copy.addr ndirect ≠ 0 := fun e => h (block_none hd e)
  rw [block_entry hd ha] at h ⊢
  rw [if_neg hd, if_pos hj]
  simp only [wp_bind, indirect, wp_inode, if_neg ha, wp_pure, wp_bread, if_neg h]

def State.byte (s : State) (ip : Fin ninode) (o : Nat) : UInt8 :=
  (s.disk (s.block ip (o / bsize))).byte (o % bsize)

lemma byte_add {o i : Nat} (h : o % bsize + i < bsize) :
    s.byte ip (o + i) = (s.disk (s.block ip (o / bsize))).byte (o % bsize + i) := by
  rw [bsize_eq] at h
  have hdiv : (o + i) / bsize = o / bsize := by
    rw [bsize_eq]
    omega
  have hmod : (o + i) % bsize = o % bsize + i := by
    rw [bsize_eq]
    omega
  rw [State.byte, hdiv, hmod]

lemma copyable_le {k m : Nat} : copyable mem k m ≤ m := by
  have hsub := ( takeWhile_prefix (fun i => (mem (k + i)).isSome) (l := range m)).length_le
  rwa [length_range] at hsub

lemma isSome_of_lt_copyable {k m l : Nat} (h : l < copyable mem k m) : (mem (k + l)).isSome := by
  have hpre := takeWhile_prefix (fun i => (mem (k + i)).isSome) (l := range m)
  have hget := hpre.getElem h
  rw [getElem_range] at hget
  have := mem_takeWhile_imp (getElem_mem h)
  rwa [hget] at this

lemma eq_none_of_copyable_lt {k m : Nat} (h : copyable mem k m < m) :
    mem (k + copyable mem k m) = none := by
  by_contra hsome
  have hp : (mem (k + copyable mem k m)).isSome := Option.isSome_iff_ne_none.mpr hsome
  obtain ⟨l, hl⟩ := takeWhile_prefix (fun i => (mem (k + i)).isSome) (l := range m)
  have hget : l[0]? = some (copyable mem k m) := by
    rw [← getElem?_range h, ← hl, copyable, getElem?_append_right (le_refl _), Nat.sub_self]
  obtain ⟨l', rfl⟩ : ∃ l', l = copyable mem k m :: l' := by
    cases l with
    | nil => cases hget
    | cons a l' =>
      cases hget
      exact ⟨l', rfl⟩
  have hlen := congrArg (fun l => (l.takeWhile fun i => (mem (k + i)).isSome).length) hl
  rw [takeWhile_append_of_pos
    (fun a ha => mem_takeWhile_imp (p := fun i => (mem (k + i)).isSome) ha),
    takeWhile_cons_of_pos (p := fun i => (mem (k + i)).isSome) hp, length_append,
      length_cons] at hlen
  omega

lemma copyable_eq {k m : Nat} (h : ∀ i < k + m, (mem i).isSome) : copyable mem k m = m := by
  have hall : (range m).takeWhile (fun i => (mem (k + i)).isSome) = range m :=
    takeWhile_eq_self_iff.mpr fun i hi => h (k + i) (by
      have := mem_range.mp hi
      omega)
  rw [copyable, hall, length_range]

lemma wp_readLoop {dst : Nat → Option Unit} {n off : Nat}
    (hmap : ∀ o, off ≤ o → o < off + n → o / bsize < maxfile ∧ s.block ip (o / bsize) ≠ 0) :
    ∀ (fuel tot : Nat) (out : List UInt8), tot ≤ n → n ≤ tot + fuel →
      wp (readLoop sb ip dst n fuel tot (off + tot) out) s (fun r t => t = s ∧
        ((∀ k < n, (dst k).isSome) → r = ((n : Int), out ++
          (range (n - tot)).map fun i => s.byte ip (off + tot + i)))) E := by
  intro fuel
  induction fuel with
  | zero =>
    intro tot out htot hfuel
    have hn : tot = n := by omega
    rw [readLoop, wp_pure, hn, Nat.sub_self]
    exact ⟨rfl, fun _ => by simp⟩
  | succ fuel ih =>
    intro tot out htot hfuel
    rw [readLoop]
    by_cases hlt : tot < n
    · obtain ⟨hbn, hblock⟩ := hmap (off + tot) (by omega) (by omega)
      rw [if_pos hlt, wp_bind, wp_bmap_mapped hbn hblock, if_neg hblock, wp_bind, wp_bread]
      generalize hm : min (n - tot) (bsize - (off + tot) % bsize) = m
      have hpos : 0 < m := by
        have : (off + tot) % bsize < bsize := Nat.mod_lt _ (by decide)
        omega
      by_cases hlen : copyable dst tot m < m
      · rw [if_pos hlen, wp_pure]
        refine ⟨rfl, fun hall => ?_⟩
        rw [copyable_eq (fun i hi => hall i (by omega))] at hlen
        omega
      have hlen : copyable dst tot m = m := le_antisymm copyable_le (Nat.le_of_not_lt hlen)
      rw [if_neg (by omega), hlen, add_assoc off tot m]
      refine wp_imp (ih (tot + m) _ (by omega) (by omega)) fun r t hr => ⟨hr.1, fun hall => ?_⟩
      rw [hr.2 hall, append_assoc]
      have hsplit : n - tot = m + (n - (tot + m)) := by omega
      rw [hsplit, range_add, map_append, map_map]
      congr 3
      · refine map_congr_left fun i hi => ?_
        have him := mem_range.mp hi
        rw [byte_add (by omega)]
      refine map_congr_left fun i _ => ?_
      show s.byte ip (off + (tot + m) + i) = s.byte ip (off + tot + (m + i))
      congr 1
      omega
    have hn : tot = n := by omega
    rw [if_neg hlt, wp_pure, hn, Nat.sub_self]
    exact ⟨rfl, fun _ => by simp⟩

def State.fillAt (s : State) (src : Nat → Option UInt8) (a off tot len : Nat) : Block :=
  fill (s.disk a) (off % bsize) len fun i => (src (tot + i)).getD 0

lemma wp_writeLoop {I J : Nat → State → Prop} {src : Nat → Option UInt8} {n off : Nat}
    (ok : sb.Ok) (hbound : off + n ≤ maxfile * bsize)
    (hgrow : ∀ tot k t t', tot < n → Uses ((off + tot) / bsize) k → I tot t → Grow sb ip t k t' →
      I tot t')
    (hlow : ∀ tot t, I tot t → sb.bit t.disk 0)
    (hdata : ∀ tot t m, I tot t → tot < n → m = min (n - tot) (bsize - (off + tot) % bsize) →
      t.block ip ((off + tot) / bsize) ≠ 0 → copyable src tot m = m →
      I (tot + m) (t.logWrite (t.block ip ((off + tot) / bsize))
        (t.fillAt src (t.block ip ((off + tot) / bsize)) (off + tot) tot m)))
    (hfail : ∀ tot t m, I tot t → tot < n → m = min (n - tot) (bsize - (off + tot) % bsize) →
      t.block ip ((off + tot) / bsize) ≠ 0 → copyable src tot m < m →
      J tot (t.scribble (t.block ip ((off + tot) / bsize))
        (t.fillAt src (t.block ip ((off + tot) / bsize)) (off + tot) tot (copyable src tot m))))
    (hfull : ∀ tot t, I tot t → tot < n → t.block ip ((off + tot) / bsize) = 0 →
      sb.Exhausted t.disk → J tot t)
    (hstop : ∀ t, I n t → J n t) :
    ∀ (fuel tot : Nat) (s : State), I tot s → tot ≤ n → n ≤ tot + fuel →
      wp (writeLoop sb ip src n fuel tot (off + tot)) s
        (fun r t => J r.1 t ∧ r.1 ≤ n ∧ r.2 = off + r.1) E := by
  intro fuel
  induction fuel with
  | zero =>
    intro tot s hs htot hfuel
    have hn : tot = n := by omega
    rw [hn] at hs
    rw [writeLoop, wp_pure, hn]
    exact ⟨hstop s hs, le_refl n, rfl⟩
  | succ fuel ih =>
    intro tot s hs htot hfuel
    rw [writeLoop]
    by_cases hlt : tot < n
    · have hbn : (off + tot) / bsize < maxfile := by
        rw [Nat.div_lt_iff_lt_mul (by decide)]
        omega
      rw [if_pos hlt, wp_bind]
      refine wp_bmap ok (fun k t t' hk => hgrow tot k t t' hlt hk) (hlow tot) hs hbn
        fun a t ht ha hnone => ?_
      by_cases h0 : a = 0
      · rw [if_pos h0, wp_pure]
        exact ⟨hfull tot t ht hlt (ha.trans h0) (hnone h0), htot, rfl⟩
      have hblock : t.block ip ((off + tot) / bsize) ≠ 0 := by rwa [ha]
      rw [if_neg h0, ← ha, wp_bind, wp_bread]
      generalize hm : min (n - tot) (bsize - (off + tot) % bsize) = m
      have hpos : 0 < m := by
        have : (off + tot) % bsize < bsize := Nat.mod_lt _ (by decide)
        omega
      by_cases hlen : copyable src tot m < m
      · rw [if_pos hlen, wp_bind, wp_scribble, wp_pure]
        exact ⟨hfail tot t m ht hlt hm.symm hblock hlen, htot, rfl⟩
      have hlen : copyable src tot m = m := le_antisymm copyable_le (Nat.le_of_not_lt hlen)
      rw [if_neg (by omega), wp_bind, wp_logWrite, hlen, add_assoc off tot m]
      exact ih (tot + m) _ (hdata tot t m ht hlt hm.symm hblock hlen) (by omega) (by omega)
    have hn : tot = n := by omega
    rw [hn] at hs
    rw [if_neg hlt, wp_pure, hn]
    exact ⟨hstop s hs, le_refl n, rfl⟩
end Xv6.Fs
