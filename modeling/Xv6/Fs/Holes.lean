import Xv6.Fs.Contents

namespace Xv6.Fs
open State Lib

def indirectWith (alloc : FsM Nat) (ip : Fin ninode) : FsM Nat := do
  let e ← inode ip
  if e.copy.addr ndirect = 0 then
    let addr ← alloc
    if addr = 0 then return 0
    else
      setAddr ip ndirect addr
      return addr
  else return e.copy.addr ndirect

def bmapWith (alloc : FsM Nat) (ip : Fin ninode) (bn : Nat) : FsM Nat := do
  let e ← inode ip
  if bn < ndirect then
    if e.copy.addr bn = 0 then
      let addr ← alloc
      if addr = 0 then return 0
      else
        setAddr ip bn addr
        return addr
    else return e.copy.addr bn
  else if bn - ndirect < nindirect then
    let ind ← indirectWith alloc ip
    if ind = 0 then return 0
    else
      let bp ← bread ind
      if bp.word (bn - ndirect) = 0 then
        let addr ← alloc
        if addr = 0 then return 0
        else
          logWrite ind (bp.setWord (bn - ndirect) addr)
          return addr
      else return bp.word (bn - ndirect)
  else throw .bmapOutOfRange

def readLoopWith (alloc : FsM Nat) (ip : Fin ninode) (dst : Nat → Option Unit) (n : Nat) :
    Nat → Nat → Nat → List UInt8 → FsM (Int × List UInt8)
  | 0, tot, _, out => return (tot, out)
  | fuel + 1, tot, off, out => do
    if tot < n then
      let addr ← bmapWith alloc ip (off / bsize)
      if addr = 0 then return (tot, out)
      else
        let bp ← bread addr
        let m := min (n - tot) (bsize - off % bsize)
        let len := copyable dst tot m
        let out := out ++ (List.range len).map fun i => bp.byte (off % bsize + i)
        if len < m then return (-1, out)
        else readLoopWith alloc ip dst n fuel (tot + m) (off + m) out
    else return (tot, out)

def readiWith (alloc : FsM Nat) (ip : Fin ninode) (dst : Nat → Option Unit) (off n : Nat) :
    FsM (Int × List UInt8) := do
  let e ← inode ip
  if off > e.copy.size ∨ (off + n) % 2 ^ 32 < off then return (0, [])
  else
    let n := if off + n > e.copy.size then e.copy.size - off else n
    readLoopWith alloc ip dst n n 0 off []

variable {sb : Superblock} {s t : State} {ip : Fin ninode} {i bn off n : Nat} {alloc : FsM Nat}
  {dst : Nat → Option Unit}

lemma readLoop_eq : readLoop sb ip dst n = readLoopWith (balloc sb) ip dst n := by
  funext fuel
  induction fuel with
  | zero => rfl
  | succ fuel ih =>
    funext tot off out
    rw [readLoop, readLoopWith, ih]
    rfl

lemma readi_eq : readi sb ip dst off n = readiWith (balloc sb) ip dst off n := by
  simp only [readi, readiWith, readLoop_eq]

lemma bmapWith_mapped (hbn : bn < maxfile) (h : s.block ip bn ≠ 0) :
    bmapWith alloc ip bn s = .ok (s.block ip bn, s) := by
  have hinode : inode ip s = .ok (s.itable ip, s) := rfl
  unfold bmapWith
  rw [bind_of_ok hinode]
  by_cases hd : bn < ndirect
  · rw [block_direct hd] at h ⊢
    rw [if_pos hd, if_neg h]
    rfl
  have hj : bn - ndirect < nindirect := by
    rw [maxfile] at hbn
    omega
  have ha : (s.itable ip).copy.addr ndirect ≠ 0 := fun e => h (block_none hd e)
  have hind : indirectWith alloc ip s = .ok ((s.itable ip).copy.addr ndirect, s) := by
    unfold indirectWith
    rw [bind_of_ok hinode, if_neg ha]
    rfl
  have hbread : bread ((s.itable ip).copy.addr ndirect) s =
      .ok (s.disk ((s.itable ip).copy.addr ndirect), s) := rfl
  rw [block_entry hd ha] at h ⊢
  rw [if_neg hd, if_pos hj, bind_of_ok hind, if_neg ha, bind_of_ok hbread, if_neg h]
  rfl

lemma readLoopWith_congr {alloc' : FsM Nat}
    (hmap : ∀ o, off ≤ o → o < off + n → o / bsize < maxfile ∧ s.block ip (o / bsize) ≠ 0) :
    ∀ (fuel tot : Nat) (out : List UInt8), readLoopWith alloc ip dst n fuel tot (off + tot) out s =
        readLoopWith alloc' ip dst n fuel tot (off + tot) out s := by
  intro fuel
  induction fuel with
  | zero =>
    intro tot out
    rfl
  | succ fuel ih =>
    intro tot out
    rw [readLoopWith, readLoopWith]
    by_cases hlt : tot < n
    · obtain ⟨hbn, hblock⟩ := hmap (off + tot) (by omega) (by omega)
      have hbread : bread (s.block ip ((off + tot) / bsize)) s =
          .ok (s.disk (s.block ip ((off + tot) / bsize)), s) := rfl
      rw [if_pos hlt, if_pos hlt, bind_of_ok (bmapWith_mapped hbn hblock),
        bind_of_ok (bmapWith_mapped hbn hblock), if_neg hblock, if_neg hblock, bind_of_ok hbread,
        bind_of_ok hbread]
      split
      · rfl
      rw [add_assoc]
      exact ih _ _
    rw [if_neg hlt, if_neg hlt]

lemma readiWith_eq (h : Good sb s) (hip : s.Open ip i) :
    readiWith alloc ip dst off n s = readi sb ip dst off n s := by
  have hinode : inode ip s = .ok (s.itable ip, s) := rfl
  have hsino := ino_of_open h.owned.table hip
  have ht := h.typed ip i hip
  rw [readi_eq]
  unfold readiWith
  rw [bind_of_ok hinode, bind_of_ok hinode]
  split
  · rfl
  rename_i hoff
  generalize hn' : (if off + n > (s.itable ip).copy.size then
    (s.itable ip).copy.size - off else n) = n'
  have hle : n' ≤ (s.itable ip).copy.size - off := by
    rw [← hn']
    split <;> omega
  refine readLoopWith_congr (fun o h1 h2 => ?_) n' 0 []
  obtain ⟨hlt, hne⟩ := h.full i (h.owned.table.lt ip i hip) (by rwa [hsino]) o
    (by rw [hsino]; omega)
  exact ⟨hlt, by rwa [block_eq_slot h.owned hip ht hlt]⟩

def NoHoles (sb : Superblock) (s : State) : Prop :=
  ∀ i < sb.ninodes, (s.ino sb i).type ≠ 0 → (s.ino sb i).size ≤ maxfile * bsize ∧
    ∀ bn < ((s.ino sb i).size + bsize - 1) / bsize, s.slot sb (i, fileSlot bn) ≠ 0

lemma full_iff {size : Nat} : s.Full sb i size ↔ size ≤ maxfile * bsize ∧
    ∀ bn < (size + bsize - 1) / bsize, s.slot sb (i, fileSlot bn) ≠ 0 := by
  constructor
  · intro h
    refine ⟨?_, fun bn hbn => ?_⟩
    · by_contra hlt
      obtain ⟨hbn, -⟩ := h (maxfile * bsize) (by omega)
      rw [Nat.mul_div_cancel _ (by decide)] at hbn
      exact lt_irrefl _ hbn
    have hlt : bn * bsize < size := by
      rw [bsize_eq] at *
      omega
    have hslot := (h (bn * bsize) hlt).2
    rwa [Nat.mul_div_cancel _ (by decide)] at hslot
  intro h o ho
  refine ⟨?_, h.2 _ ?_⟩
  · rw [Nat.div_lt_iff_lt_mul (by decide)]
    omega
  rw [bsize_eq]
  omega

theorem noHoles_of_run {d : Disk} (h : Image sb d) {ops : List Op}
    (hrun : run (next sb) (boot d) ops = some s) :
    NoHoles sb s ∧ (∀ op, Ready sb s op → exec sb op s ≠ .error .bmapOutOfRange) ∧
    ∀ ip, s.Held ip → ∀ dst off n, ∃ r, readi sb ip dst off n s = .ok (r, s) ∧
      ∀ alloc, readiWith alloc ip dst off n s = .ok (r, s) := by
  have hgood := h.good_of_run hrun
  refine ⟨fun i hi ht => full_iff.mp (hgood.full i hi ht),
    fun op hr he => wp_error (wp_exec h.layout hgood hr) he (.inr rfl), fun ip hip dst off n => ?_⟩
  have hopen : s.Open ip (s.itable ip).inum := ⟨hip.1, hip.2, rfl⟩
  have hwp : wp (readi sb ip dst off n) s _ fun _ => False := wp_readi hgood hopen
  obtain ⟨r, t, hm, rfl, -⟩ := wp_total hwp
  exact ⟨r, hm, fun alloc => by rw [readiWith_eq hgood hopen, hm]⟩

theorem noHoles_of_run_tiny : ∃ s, run (next tiny) (boot (tinyDisk .zero))
        [.ialloc tFile, .ilock entry0, .writei entry0 oneByte 0 3] = some s ∧ NoHoles tiny s ∧
      s.Held entry0 ∧ ∃ r, readi tiny entry0 (fun _ => some ()) 0 2 s = .ok (r, s) := by
  have hrun : ((run (next tiny) (boot (tinyDisk .zero))
      [.ialloc tFile, .ilock entry0, .writei entry0 oneByte 0 3]).map
        fun s => decide (s.Held entry0)) = some true := by decide +kernel
  obtain ⟨s, hs, hheld⟩ := Option.map_eq_some_iff.mp hrun
  have hheld := of_decide_eq_true hheld
  obtain ⟨hholes, -, hread⟩ := noHoles_of_run image_tiny hs
  obtain ⟨r, hr, -⟩ := hread entry0 hheld (fun _ => some ()) 0 2
  exact ⟨s, hs, hholes, hheld, r, hr⟩

instance (sb : Superblock) (s : State) : Decidable (NoHoles sb s) :=
  inferInstanceAs (Decidable (∀ i < sb.ninodes, _))

def stray : Disk := fun b =>
  if b = 4 then Block.zero.setWord 0 5
  else tinyDisk { Dinode.zero with
    type := tFile, nlink := 1, size := ndirect * bsize + 1
    addrs := fun k => if k.val = ndirect then 4 else 5 } b

theorem hole_made : NoHoles { tiny with ninodes := 3 } (boot stray) ∧
    ∃ s, run (next { tiny with ninodes := 3 }) (boot stray)
        [.ialloc tFile, .ilock entry0, .writei entry0 (fun _ => some 0) 0 1] = some s ∧
      ¬NoHoles { tiny with ninodes := 3 } s := by
  refine ⟨by decide +kernel, ?_⟩
  have hrun : ((run (next { tiny with ninodes := 3 }) (boot stray)
      [.ialloc tFile, .ilock entry0, .writei entry0 (fun _ => some 0) 0 1]).map
        fun s => decide (NoHoles { tiny with ninodes := 3 } s)) = some false := by decide +kernel
  obtain ⟨s, hs, hno⟩ := Option.map_eq_some_iff.mp hrun
  exact ⟨s, hs, of_decide_eq_false hno⟩
end Xv6.Fs
