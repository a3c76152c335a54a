import Xv6.Mkfs.Build

namespace Xv6.Mkfs
open Fs Lib Function List

def Input.content (f : Input) : List UInt8 := (f.reads.getD []).flatMap Subtype.val

def entriesFrom : Nat → List Input → List Dirent
  | _, [] => []
  | k, f :: fs => ⟨k, shortname f.arg⟩ :: entriesFrom (k + 1) fs

def entries (fs : List Input) : List Dirent :=
  ⟨rootino, [46]⟩ :: ⟨rootino, [46, 46]⟩ :: entriesFrom 2 fs

def laidOut (fs : List Input) : Nat → List UInt8
  | 0 => []
  | 1 => (entries fs).flatMap direntBytes
  | i + 2 => ((fs[i]?).map Input.content).getD []

def blocksFor (N : Nat) (F : Nat → List UInt8) : Nat :=
  nmeta + ∑ j ∈ Finset.range N, blocksOf (F j).length

variable {i j k N : Nat} {L F : Nat → List UInt8} {s s' : State} {E : Fail → Prop}
  {p : List UInt8} {fs gs files : List Input} {f : Input}

lemma blocksFor_mono {n : Nat} (hn : n ≤ N) (hF : ∀ j, (L j).length ≤ (F j).length) :
    blocksFor n L ≤ blocksFor N F := by
  refine Nat.add_le_add_left (le_trans (Finset.sum_le_sum fun j _ => blocksOf_mono (hF j)) ?_) _
  exact Finset.sum_le_sum_of_subset (Finset.range_subset_range.mpr hn)

structure Fails (E : Fail → Prop) (N : Nat) (F : Nat → List UInt8) : Prop where
  assertion : (∃ j, maxfile * bsize < (F j).length) → E .assertion
  die : fssize < blocksFor N F → E .die

lemma wp_iappend_within (hE : Fails E N F) (h : Made s L) (hi : i < s.freeinode)
    (hN : s.freeinode ≤ N) (hF : ∀ j, (update L i (L i ++ p) j).length ≤ (F j).length) :
    wp (iappend i p) s (fun _ s' => Made s' (update L i (L i ++ p)) ∧
      s'.freeinode = s.freeinode ∧ s'.img 1 = s.img 1) E := by
  have hself := hF i
  rw [update_self, length_append] at hself
  refine wp_iappend h hi (fun hlt => hE.assertion ⟨i, by omega⟩) fun hlt => hE.die ?_
  have hmono : blocksOf (L i).length ≤ blocksOf ((L i).length + p.length) :=
    blocksOf_mono (Nat.le_add_right _ _)
  have hsum : ∑ j ∈ Finset.range s.freeinode, blocksOf (update L i (L i ++ p) j).length =
      ∑ j ∈ Finset.range s.freeinode, blocksOf (L j).length +
        (blocksOf ((L i).length + p.length) - blocksOf (L i).length) := by
    refine sum_update (f := fun l => blocksOf l.length) hi ?_
    rw [length_append]
    omega
  calc fssize < s.freeblock + (blocksOf ((L i).length + p.length) - blocksOf (L i).length) := hlt
    _ = blocksFor s.freeinode (update L i (L i ++ p)) := by
      rw [blocksFor, hsum, ← add_assoc, ← h.laid.count]
    _ ≤ blocksFor N F := blocksFor_mono hN hF

lemma length_update_le {l l' : List UInt8} (hl : l.length ≤ l'.length)
    (hF : (update L i l' j).length ≤ (F j).length) :
    (update L i l j).length ≤ (F j).length := by
  by_cases hj : j = i
  · rw [hj, update_self] at hF ⊢
    omega
  rw [update_of_ne hj] at hF ⊢
  exact hF

lemma wp_appendReads (hE : Fails E N F) : ∀ cs s L, Made s L → i < s.freeinode → s.freeinode ≤ N →
      (∀ j, (update L i (L i ++ cs.flatMap Subtype.val) j).length ≤ (F j).length) →
      wp (appendReads i cs) s (fun _ s' =>
        Made s' (update L i (L i ++ cs.flatMap Subtype.val)) ∧
        s'.freeinode = s.freeinode ∧ s'.img 1 = s.img 1) E := by
  intro cs
  induction cs with
  | nil =>
    intro s L h _ _ _
    rw [appendReads, wp_pure, flatMap_nil, append_nil, update_eq_self]
    exact ⟨h, rfl, rfl⟩
  | cons c cs ih =>
    intro s L h hi hN hF
    rw [flatMap_cons, ← append_assoc] at hF ⊢
    rw [appendReads]
    refine wp_bind_of (wp_iappend_within hE h hi hN (fun j => length_update_le ?_ (hF j)))
      fun _ s' hs' => ?_
    · exact (sublist_append_left _ _).length_le
    obtain ⟨h', hfi, himg⟩ := hs'
    have hnext := ih s' _ h' (by omega) (by omega) (by
      rw [update_idem, update_self]
      exact hF)
    rw [update_idem, update_self] at hnext
    refine wp_imp hnext fun _ s'' hs'' => ?_
    exact ⟨hs''.1, by rw [hs''.2.1, hfi], by rw [hs''.2.2, himg]⟩

lemma entriesFrom_append (k : Nat) (fs : List Input) (f : Input) :
    entriesFrom k (fs ++ [f]) = entriesFrom k fs ++ [⟨k + fs.length, shortname f.arg⟩] := by
  induction fs generalizing k with
  | nil => rfl
  | cons g fs ih =>
    rw [cons_append, entriesFrom, entriesFrom, ih, cons_append, length_cons,
      add_right_comm, add_assoc]

lemma laidOut_new (fs : List Input) : laidOut fs (fs.length + 2) = [] := by
  show ((fs[fs.length]?).map Input.content).getD [] = []
  rw [getElem?_eq_none le_rfl]
  rfl

lemma laidOut_snoc : laidOut (fs ++ [f]) = update (update (laidOut fs) 1
      (laidOut fs 1 ++ direntBytes ⟨fs.length + 2, shortname f.arg⟩)) (fs.length + 2)
      f.content := by
  funext i
  match i with
  | 0 =>
    rw [update_of_ne (by omega), update_of_ne (by omega)]
    rfl
  | 1 =>
    rw [update_of_ne (by omega), update_self, laidOut, laidOut, entries, entries,
      entriesFrom_append, add_comm 2]
    simp
  | i + 2 =>
    by_cases hi : i = fs.length
    · rw [hi, update_self, laidOut, getElem?_append_right le_rfl, Nat.sub_self]
      rfl
    rw [update_of_ne (by omega), update_of_ne (by omega), laidOut, laidOut]
    rcases lt_or_ge i fs.length with hlt | hge
    · rw [getElem?_append_left hlt]
    rw [getElem?_eq_none hge, getElem?_eq_none (by
      rw [length_append, length_singleton]
      omega)]

lemma laidOut_length_le (fs gs : List Input) (i : Nat) :
    (laidOut fs i).length ≤ (laidOut (fs ++ gs) i).length := by
  induction gs generalizing fs with
  | nil => rw [append_nil]
  | cons g gs ih =>
    have hstep : (laidOut fs i).length ≤ (laidOut (fs ++ [g]) i).length := by
      rw [laidOut_snoc]
      by_cases h2 : i = fs.length + 2
      · rw [h2, laidOut_new]
        exact Nat.zero_le _
      rw [update_of_ne h2]
      by_cases h1 : i = 1
      · rw [h1, update_self, length_append]
        exact Nat.le_add_right _ _
      rw [update_of_ne h1]
    have hrest := ih (fs ++ [g])
    rw [append_assoc] at hrest
    exact hstep.trans hrest

structure Refuses (E : Fail → Prop) (f : Input) : Prop where
  slash : (47 : UInt8) ∈ withoutUser f.arg → E .assertion
  missing : f.reads = none → E .die
  long : dirsiz < (shortname f.arg).length → E .assertion

lemma kindOf_file (n : Nat) : kindOf (n + 2) = tFile := by
  rw [kindOf, if_neg (by rw [rootino]; omega)]

lemma wp_addFile (hE : Fails E N (laidOut (fs ++ [f]))) (hR : Refuses E f)
    (h : Made s (laidOut fs)) (hfi : s.freeinode = fs.length + 2) (hlt : fs.length + 2 < ninodes)
    (hN : fs.length + 3 ≤ N) :
    wp (addFile rootino f) s (fun _ s' => Made s' (laidOut (fs ++ [f])) ∧
      s'.freeinode = fs.length + 3 ∧ s'.img 1 = s.img 1) E := by
  unfold addFile
  refine wp_ite (fun hslash => ?_) fun hslash => ?_
  · rw [wp_throw]
    exact hR.slash hslash
  cases hreads : f.reads with
  | none => exact wp_throw.mpr (hR.missing hreads)
  | some reads =>
    refine wp_ite (fun hlong => ?_) fun hlong => ?_
    · rw [wp_throw]
      exact hR.long hlong
    have hcontent : f.content = reads.flatMap Subtype.val := by rw [Input.content, hreads]; rfl
    have hsnoc := @laidOut_snoc fs f
    refine wp_bind_of (wp_ialloc h (by omega) (by omega) (by rw [hfi, kindOf_file])
      (by rw [hfi]; exact laidOut_new fs)) fun inum s1 hs1 => ?_
    obtain ⟨rfl, h1, hfi1, himg1⟩ := hs1
    rw [hfi] at hfi1 ⊢
    refine wp_bind_of (wp_iappend_within hE h1 (by rw [hfi1, rootino]; omega) (by omega)
      (fun j => ?_)) fun _ s2 hs2 => ?_
    · rw [hsnoc]
      by_cases hj : j = fs.length + 2
      · rw [hj, update_of_ne (by rw [rootino]; omega), laidOut_new]
        exact Nat.zero_le _
      rw [update_of_ne hj]
      exact le_rfl
    obtain ⟨h2, hfi2, himg2⟩ := hs2
    have hempty : update (laidOut fs) rootino
        (laidOut fs rootino ++ direntBytes ⟨fs.length + 2, shortname f.arg⟩)
        (fs.length + 2) = [] := by
      rw [update_of_ne (by rw [rootino]; omega), laidOut_new]
    have hfinal := wp_appendReads hE reads s2 _ h2 (i := fs.length + 2) (by omega) (by omega)
    rw [hempty, nil_append, ← hcontent] at hfinal
    refine wp_imp (hfinal (fun j => ?_)) fun _ s3 hs3 => ?_
    · rw [hsnoc]
      exact le_rfl
    obtain ⟨h3, hfi3, himg3⟩ := hs3
    refine ⟨?_, by omega, by rw [himg3, himg2, himg1]⟩
    rwa [hsnoc]

lemma wp_addFiles :
    ∀ fs gs s, Fails E ((gs ++ fs).length + 2) (laidOut (gs ++ fs)) → (∀ f ∈ fs, Refuses E f) →
      Made s (laidOut gs) → s.freeinode = gs.length + 2 → (gs ++ fs).length + 2 ≤ ninodes →
      wp (addFiles rootino fs) s (fun _ s' => Made s' (laidOut (gs ++ fs)) ∧
        s'.freeinode = (gs ++ fs).length + 2 ∧ s'.img 1 = s.img 1) E := by
  intro fs
  induction fs with
  | nil =>
    intro gs s _ _ h hfi _
    rw [addFiles, wp_pure, append_nil]
    exact ⟨h, hfi, rfl⟩
  | cons f fs ih =>
    intro gs s hE hR h hfi hn
    have happ : gs ++ f :: fs = (gs ++ [f]) ++ fs := by rw [append_assoc]; rfl
    rw [happ] at hE hn ⊢
    have hlen : (gs ++ [f]).length = gs.length + 1 := by rw [length_append, length_singleton]
    have hlen' : (gs ++ [f] ++ fs).length = gs.length + 1 + fs.length := by rw [length_append, hlen]
    have hE' : Fails E ((gs ++ [f] ++ fs).length + 2) (laidOut (gs ++ [f])) := by
      refine ⟨fun ⟨j, hj⟩ => hE.assertion ⟨j, ?_⟩, fun hlt => hE.die ?_⟩
      · exact lt_of_lt_of_le hj (laidOut_length_le _ _ j)
      exact lt_of_lt_of_le hlt (blocksFor_mono le_rfl (laidOut_length_le _ _))
    rw [addFiles]
    refine wp_bind_of (wp_addFile hE' (hR f mem_cons_self) h hfi (by omega) (by omega))
      fun _ s1 hs1 => ?_
    obtain ⟨h1, hfi1, himg1⟩ := hs1
    refine wp_imp (ih (gs ++ [f]) s1 hE (fun g hg => hR g (mem_cons_of_mem f hg)) h1
      (by rwa [hlen]) hn) fun _ s2 hs2 => ?_
    exact ⟨hs2.1, hs2.2.1, by rw [hs2.2.2, himg1]⟩

def superBlock : Block := Block.zero.setFields 0 superblockFields
def formatted : State := { blank with img := update blank.img 1 superBlock }

lemma dinode_formatted : sb.dinode formatted.img 0 = Dinode.zero := by
  have hz : formatted.img (sb.iblock 0) = .zero := by
    show update blank.img 1 superBlock (sb.iblock 0) = _
    rw [update_of_ne (by decide)]
    rfl
  rw [Superblock.dinode, hz]
  ext k <;> exact Block.field_zero _ _

lemma made_formatted : Made formatted (fun _ => []) := by
  have hslot : ∀ k, (sb.dinode formatted.img 0).slot formatted.img k = 0 := by
    intro k
    rw [dinode_formatted]
    refine Dinode.slot_zero_addrs fun j => ?_
    unfold Dinode.addr
    split <;> rfl
  have hone : ∀ j < formatted.freeinode, j = 0 := fun j hj => by
    have hj : j < 1 := hj
    omega
  refine ⟨rfl, by decide, by decide, ⟨⟨le_rfl, fun j k hj _ hne => ?_,
    fun j _ k _ hj _ _ _ hne _ => ?_, fun b hb => ?_⟩, fun j _ => Superblock.dinode_fits,
    fun j _ => Nat.zero_le _, fun j bn hj _ => ?_, fun j hj => ?_, fun j bn o _ hbn => ?_, ?_⟩,
    fun j => ?_, fun j hj => ?_, fun j h0 hj => ?_⟩
  · rw [hone j hj] at hne
    exact absurd (hslot k) hne
  · rw [hone j hj] at hne
    exact absurd (hslot k) hne
  · have hb : 47 ≤ b := hb
    show update blank.img 1 superBlock b = _
    rw [update_of_ne (by omega)]
    rfl
  · rw [hone j hj, Dinode.block, hslot]
    exact ⟨fun _ => Nat.zero_le _, fun _ => rfl⟩
  · have hz := hslot ndirect
    rw [Dinode.slot_direct le_rfl] at hz
    rw [hone j hj, hz]
    exact ⟨fun _ => Nat.zero_le _, fun _ => rfl⟩
  · exact absurd hbn (Nat.not_lt_zero _)
  · rfl
  · constructor
    · intro hj
      cases hj
    · rintro ⟨h0, hj⟩
      have := hone j hj
      omega
  · rw [hone j hj, dinode_formatted]
    rfl
  have := hone j hj
  omega

lemma laidOut_nil : laidOut [] = update (update (fun _ => []) rootino
    (direntBytes ⟨rootino, [46]⟩)) rootino
    (direntBytes ⟨rootino, [46]⟩ ++ direntBytes ⟨rootino, [46, 46]⟩) := by
  funext i
  match i with
  | 0 => rfl
  | 1 => rfl
  | i + 2 =>
    have hne : i + 2 ≠ rootino := by
      rw [rootino]
      omega
    rw [update_of_ne hne, update_of_ne hne]
    rfl

lemma length_direntBytes (de : Dirent) : (direntBytes de).length = 16 := by
  rw [direntBytes, length_map, length_range]

lemma length_entriesFrom (k : Nat) (fs : List Input) : (entriesFrom k fs).length = fs.length := by
  induction fs generalizing k with
  | nil => rfl
  | cons f fs ih => rw [entriesFrom, length_cons, length_cons, ih]

lemma length_flatMap_direntBytes (des : List Dirent) :
    (des.flatMap direntBytes).length = 16 * des.length := by
  induction des with
  | nil => rfl
  | cons de des ih =>
    rw [flatMap_cons, length_append, length_direntBytes, ih, length_cons]
    omega

lemma length_root (fs : List Input) : (laidOut fs rootino).length = 16 * (fs.length + 2) := by
  show ((entries fs).flatMap direntBytes).length = _
  rw [length_flatMap_direntBytes, entries, length_cons, length_cons, length_entriesFrom]

lemma wp_root {K : Nat → MkM Unit} {Q : Unit → State → Prop}
    (hE : Fails E N (laidOut [])) (hN : 2 ≤ N)
    (hK : ∀ s, Made s (laidOut []) → s.freeinode = 2 → s.img 1 = formatted.img 1 →
      wp (K rootino) s Q E) :
    wp (ialloc tDir >>= fun r => if r ≠ rootino then throw .assertion else
      iappend r (direntBytes ⟨r, [46]⟩) >>= fun _ =>
      iappend r (direntBytes ⟨r, [46, 46]⟩) >>= fun _ => K r) formatted Q E := by
  refine wp_bind_of (wp_ialloc made_formatted (by decide) (by decide) rfl rfl) fun r s1 hs1 => ?_
  obtain ⟨rfl, h1, hfi1, himg1⟩ := hs1
  have hone : formatted.freeinode = rootino := rfl
  rw [hone] at hfi1 ⊢
  have hfi1 : s1.freeinode = 2 := hfi1
  rw [if_neg (fun h => h rfl)]
  have hnil := laidOut_nil
  refine wp_bind_of (wp_iappend_within hE h1 (by rw [hfi1]; decide) (by omega) (fun j => ?_))
    fun _ s2 hs2 => ?_
  · rw [hnil, nil_append]
    by_cases hj : j = rootino
    · rw [hj, update_self, update_self, length_direntBytes, length_append, length_direntBytes]
      omega
    rw [update_of_ne hj, update_of_ne hj]
    exact Nat.zero_le _
  obtain ⟨h2, hfi2, himg2⟩ := hs2
  rw [nil_append] at h2
  refine wp_bind_of (wp_iappend_within hE h2 (by rw [hfi2, hfi1]; decide) (by omega) (fun j => ?_))
    fun _ s3 hs3 => ?_
  · rw [hnil, update_self]
  obtain ⟨h3, hfi3, himg3⟩ := hs3
  rw [update_self, ← hnil] at h3
  exact hK s3 h3 (by omega) (by rw [himg3, himg2, himg1])

structure Final (s : State) (files : List Input) : Prop where
  issued : ∀ i, i ∈ s.inodes ↔ 0 < i ∧ i < files.length + 2
  room : s.freeblock ≤ fssize
  laid : Laid s.img (sb.dinode s.img) (files.length + 2) s.freeblock (laidOut files)
  root : (sb.dinode s.img rootino).size = (16 * (files.length + 2) / bsize + 1) * bsize
  size : ∀ i < files.length + 2, i ≠ rootino →
    (sb.dinode s.img i).size = (laidOut files i).length
  kind : ∀ i, 0 < i → i < files.length + 2 →
    (sb.dinode s.img i).type = kindOf i ∧ (sb.dinode s.img i).nlink = 1
  bits : ∀ b < bpb, sb.bit s.img b = decide (b < s.freeblock)
  super : s.img 1 = superBlock

lemma getBit_usedBits (n : Nat) : ∀ b < bpb, (usedBits n).getBit b = decide (b < n) := by
  induction n with
  | zero =>
    intro b _
    rw [usedBits, range_zero, foldl_nil]
    show Lib.getBit Block.zero.byte b = _
    rw [Lib.getBit, Block.byte_zero, decide_eq_false (Nat.not_lt_zero b)]
    simp
  | succ n ih =>
    intro b hb
    have hstep : usedBits (n + 1) = (usedBits n).setBit n := by
      rw [usedBits, range_succ, foldl_append]
      rfl
    have hlt : b / 8 < bsize := by
      rw [bpb_eq] at hb
      rw [bsize_eq]
      omega
    rw [hstep, Block.getBit_setBit hlt, ih b hb]
    by_cases he : b = n
    · simp [he]
    have hiff : b < n ↔ b < n + 1 := by omega
    simp [he, hiff]

lemma wp_finish (h : Made s (laidOut files)) (hfi : s.freeinode = files.length + 2)
    (hsuper : s.img 1 = superBlock) :
    wp (fixRoot rootino >>= fun _ => get >>= fun s => balloc s.freeblock) s
      (fun _ s' => Final s' files) E := by
  have hroot : rootino < ninodes := by decide
  have hn := h.inodes
  have hroom := h.room
  rw [hfi] at hn
  have hsize : (sb.dinode s.img rootino).size = 16 * (files.length + 2) := by
    rw [h.size rootino (by rw [hfi, rootino]; omega), length_root]
  have hmod : (16 * (files.length + 2) / bsize + 1) * bsize % 2 ^ 32 =
      (16 * (files.length + 2) / bsize + 1) * bsize := by
    rw [ninodes_eq] at hn
    rw [bsize_eq]
    omega
  generalize hx : ({ sb.dinode s.img rootino with
    size := (16 * (files.length + 2) / bsize + 1) * bsize } : Dinode) = x
  have hfits : x.Fits := by
    have hd : (sb.dinode s.img rootino).Fits := Superblock.dinode_fits
    rw [← hx]
    refine ⟨hd.type, hd.major, hd.minor, hd.nlink, ?_, hd.addrs⟩
    show (16 * (files.length + 2) / bsize + 1) * bsize < 2 ^ 32
    rw [← hmod]
    exact Nat.mod_lt _ (by decide)
  rw [fixRoot, wp_bind, wp_bind]
  refine wp_rinode h.len hroot ?_
  rw [hsize, hmod, hx]
  refine wp_winode h.len hroot ?_
  have hfb : s.freeblock < 2 ^ 31 := by
    rw [fssize_eq] at hroom
    omega
  have hused : cint s.freeblock < bpb := by
    rw [cint_of_lt hfb, bpb_eq]
    rw [fssize_eq] at hroom
    omega
  rw [wp_bind, wp_get, balloc, if_pos hused, cint_of_lt hfb, Int.toNat_natCast]
  refine wp_wsect h.len (by decide) ?_
  generalize hd : update (withInode s.img rootino x) sb.bmapstart (usedBits s.freeblock) = d
  have hlow : ∀ c ≠ sb.bmapstart, d c = withInode s.img rootino x c := by
    intro c hc
    rw [← hd, update_of_ne hc]
  have hdino : ∀ j, j < files.length + 2 →
      sb.dinode d j = if j = rootino then x else sb.dinode s.img j := by
    intro j hj
    rw [← dinode_withInode hfits]
    exact Superblock.dinode_congr (hlow _ (Nat.ne_of_lt (iblock_lt (by omega))))
  refine ⟨?_, hroom, ?_, ?_, fun j hj hne => ?_, fun j h0 hj => ?_, fun b hb => ?_, ?_⟩
  · rw [← hfi]
    exact h.issued
  · have hl := h.laid
    rw [hfi] at hl
    refine hl.congr (fun j hj => ?_) (fun j _ => Superblock.dinode_fits) fun c hc => ?_
    · show (sb.dinode d j).addrs = _
      rw [hdino j hj]
      by_cases hj1 : j = rootino
      · rw [if_pos hj1, hj1, ← hx]
      rw [if_neg hj1]
    show d c = s.img c
    have hc : 47 ≤ c := hc
    rw [hlow c (by show c ≠ 46; omega), withInode_of_ge hroot hc]
  · show (sb.dinode d rootino).size = _
    rw [hdino rootino (by rw [rootino]; omega), if_pos rfl, ← hx]
  · show (sb.dinode d j).size = _
    rw [hdino j hj, if_neg hne]
    exact h.size j (by omega)
  · show (sb.dinode d j).type = _ ∧ (sb.dinode d j).nlink = _
    rw [hdino j hj]
    by_cases hj1 : j = rootino
    · rw [if_pos hj1, hj1, ← hx]
      exact h.kind rootino (by decide) (by rw [hfi, rootino]; omega)
    rw [if_neg hj1]
    exact h.kind j h0 (by omega)
  · have hbb : sb.bblock b = sb.bmapstart := by
      rw [Superblock.bblock, Nat.div_eq_of_lt hb, zero_add]
    show sb.bit d b = decide (b < s.freeblock)
    rw [Superblock.bit, hbb, ← hd, update_self, Nat.mod_eq_of_lt hb, getBit_usedBits _ b hb]
  show d 1 = superBlock
  rwa [hlow 1 (by decide), withInode, update_of_ne (by decide)]

lemma wp_main (hn : files.length + 2 ≤ ninodes) (hE : Fails E (files.length + 2) (laidOut files))
    (hR : ∀ f ∈ files, Refuses E f) : wp (main files) blank (fun _ s => Final s files) E := by
  have hE' : Fails E (files.length + 2) (laidOut []) := by
    refine ⟨fun ⟨j, hj⟩ => hE.assertion ⟨j, ?_⟩, fun hlt => hE.die ?_⟩
    · exact lt_of_lt_of_le hj (laidOut_length_le [] files j)
    exact lt_of_lt_of_le hlt (blocksFor_mono le_rfl (laidOut_length_le [] files))
  rw [main, wp_bind]
  refine wp_wsect rfl (by decide) ?_
  refine wp_root (K := fun r => addFiles r files >>= fun _ => fixRoot r >>= fun _ => get >>=
    fun s => balloc s.freeblock) hE' (by omega) fun s h hfi himg => ?_
  refine wp_bind_of (wp_addFiles files [] s hE hR h hfi hn) fun _ s' hs' => ?_
  obtain ⟨h', hfi', himg'⟩ := hs'
  exact wp_finish h' hfi' (by rw [himg', himg]; rfl)
end Xv6.Mkfs
