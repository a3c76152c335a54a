import Xv6.Sys.File

namespace Xv6.Sys
open Lib Fs List

structure Call where
  src : Nat → Option UInt8
  n : Nat
  i : Nat
  ret : Option Int

def Call.test (c : Call) : Call :=
  if c.i < c.n then c else { c with ret := some (if c.i = c.n then c.n else -1) }

def Call.start (x : File) (src : Nat → Option UInt8) (n : Nat) : Call :=
  if x.writable = false then ⟨src, n, 0, some (-1)⟩ else Call.test ⟨src, n, 0, none⟩

def Call.after (c : Call) (r : Int) : Call :=
  if r ≠ chunk c.n c.i then { c with ret := some (if c.i = c.n then c.n else -1) }
  else Call.test { c with i := c.i + r.toNat }

structure Writers where
  sys : State
  calls : List Call

inductive Writers.Label where
  | call (src : Nat → Option UInt8) (n : Nat)
  | round (k : Nat)

def Writers.next (sb : Superblock) (f : Fin nfile) (s : Writers) : Label → Option Writers
  | .call src n => some { s with calls := s.calls ++ [Call.start (s.sys.ftable f) src n] }
  | .round k =>
    match s.calls[k]? with
    | none => none
    | some c =>
      if c.ret.isSome then none
      else
        match filewriteRound sb f c.src c.n c.i s.sys with
        | .error _ => none
        | .ok (r, t) => some ⟨t, s.calls.set k (c.after r)⟩

section
variable {sb : Superblock} {f : Fin nfile} {j n i : Nat} {s t : State} {E : Panic → Prop}
  {src : Nat → Option UInt8}

structure AtEnd (sb : Superblock) (f : Fin nfile) (j : Nat) (s : State) : Prop where
  good : Good sb s.fs
  isInode : (s.ftable f).type = .inode
  ref : 0 < (s.fs.itable (s.ftable f).ip).ref
  inum : (s.fs.itable (s.ftable f).ip).inum = j
  lt : j < sb.ninodes
  type : (s.fs.ino sb j).type = tFile
  off : (s.ftable f).off = (s.fs.ino sb j).size

lemma chunk_le : chunk n i ≤ maxWrite := by
  unfold chunk
  split <;> omega

lemma add_chunk_le (h : i < n) : i + chunk n i ≤ n := by
  unfold chunk
  split <;> omega

lemma chunk_pos (h : i < n) : 0 < chunk n i := by
  have : 0 < maxWrite := by decide
  unfold chunk
  split <;> omega

lemma wp_filewriteRound (ok : sb.Ok) (h : AtEnd sb f j s) (hi : i < n) :
    wp (filewriteRound sb f src n i) s (fun r t => r = chunk n i → AtEnd sb f j t ∧
      t.fs.contents sb j =
        s.fs.contents sb j ++ bytesOf (fun k => src (i + k)) (chunk n i)) E := by
  have hpos := chunk_pos hi
  unfold filewriteRound
  rw [wp_bind, wp_file, wp_bind, wp_fsCall]
  refine wp_imp (wp_ilock h.good h.ref (by rw [h.inum]; exact h.lt) (fun h0 => ?_))
    fun _ t1 hl => ?_
  · rw [h.inum, h.type] at h0
    cases h0
  have hopen := hl.isOpen
  rw [h.inum] at hopen
  rw [wp_bind, wp_fsCall]
  refine wp_imp (wp_writei ok hl.good hopen) fun r t2 hr => ?_
  by_cases hall : r = chunk n i
  · rcases hr with ⟨hneg, -⟩ | ⟨tot, stop, htot, -, hstop, -, -, hoff, hmax, hw⟩
    · omega
    · have htot' : tot = chunk n i := by omega
      subst htot'
      have hsize : (t1.ino sb j).size = (s.ftable f).off := by rw [hl.files.ino, h.off]
      have hend : (t2.ino sb j).size = (s.ftable f).off + chunk n i := by
        rw [hw.ino, hsize]
        exact max_eq_right (Nat.le_add_right _ _)
      have hb : maxfile * bsize < 2 ^ 32 := by decide
      have hr : r.toNat = chunk n i := by omega
      rw [if_pos (by omega), wp_bind, wp_setFile, wp_pure]
      refine fun _ => ⟨⟨hw.good, ?_, ?_, ?_, h.lt, ?_, ?_⟩, ?_⟩
      · rw [ftable_setFile_self]
        exact h.isInode
      · rw [ftable_setFile_self, fs_setFile, (hw.refs _).1, hl.ref]
        exact h.ref
      · rw [ftable_setFile_self, fs_setFile, (hw.refs _).2.1, hl.inum]
        exact h.inum
      · rw [fs_setFile, hw.ino, hl.files.ino]
        exact h.type
      · rw [ftable_setFile_self, fs_setFile, hend, hr, Nat.mod_eq_of_lt (by omega)]
      have hcontents := (hw.stop_le hstop).contents hoff
      rwa [hl.files.contents, h.off, ← contents_length, splice_end] at hcontents
  split
  · rw [wp_bind, wp_setFile, wp_pure]
    exact fun he => absurd he hall
  exact wp_pure.mpr fun he => absurd he hall

lemma bytesOf_add (src : Nat → Option UInt8) (i m : Nat) :
    bytesOf src (i + m) = bytesOf src i ++ bytesOf (fun k => src (i + k)) m := by
  simp only [bytesOf, range_add, map_append, map_map]
  rfl
end
section
variable {sb : Superblock} {f : Fin nfile} {j : Nat} {old : List UInt8}
  {log : List (Nat × List UInt8)} {s t : Writers}

def bytesBy (log : List (Nat × List UInt8)) (k : Nat) : List UInt8 :=
  (log.filter (·.1 = k)).flatMap (·.2)

lemma bytesBy_append (log : List (Nat × List UInt8)) (k l : Nat) (bs : List UInt8) :
    bytesBy (log ++ [(l, bs)]) k = bytesBy log k ++ if l = k then bs else [] := by
  unfold bytesBy
  rw [filter_append, flatMap_append]
  by_cases h : l = k <;> simp [h]

lemma bytesBy_eq_nil {k : Nat} (h : ∀ e ∈ log, e.1 < k) : bytesBy log k = [] := by
  have hnone : log.filter (·.1 = k) = [] :=
    filter_eq_nil_iff.mpr fun e he => by simp [Nat.ne_of_lt (h e he)]
  rw [bytesBy, hnone, flatMap_nil]

structure Call.Wrote (c : Call) (bs : List UInt8) : Prop where
  bytes : bs = bytesOf c.src c.i
  le : c.i ≤ c.n
  busy : c.ret = none → c.i < c.n
  done : c.ret = some (c.n : Int) → c.i = c.n

lemma Call.wrote_test {c : Call} {bs : List UInt8} (hbytes : bs = bytesOf c.src c.i)
    (hle : c.i ≤ c.n) (hret : c.ret = none) : c.test.Wrote bs ∧ c.test.i = c.i := by
  unfold Call.test
  split
  · rename_i hlt
    refine ⟨⟨hbytes, hle, fun _ => hlt, fun hd => ?_⟩, rfl⟩
    rw [hret] at hd
    cases hd
  rename_i hge
  exact ⟨⟨hbytes, hle, fun hd => (by cases hd), fun _ => le_antisymm hle (not_lt.mp hge)⟩, rfl⟩

structure Tiled (sb : Superblock) (f : Fin nfile) (j : Nat) (old : List UInt8)
    (log : List (Nat × List UInt8)) (s : Writers) : Prop where
  atEnd : AtEnd sb f j s.sys
  contents : s.sys.fs.contents sb j = old ++ log.flatMap (·.2)
  own : ∀ (k : Nat) (c : Call), s.calls[k]? = some c → c.Wrote (bytesBy log k)
  known : ∀ e ∈ log, e.1 < s.calls.length ∧ 0 < e.2.length ∧ e.2.length ≤ maxWrite
  total : (log.flatMap (·.2)).length = (s.calls.map Call.i).sum

def Failed (s : Writers) : Prop := ∃ c ∈ s.calls, c.ret = some (-1)

lemma sum_set {cs : List Call} {k m : Nat} {c c' : Call} (hc : cs[k]? = some c)
    (hi : c'.i = c.i + m) : ((cs.set k c').map Call.i).sum = (cs.map Call.i).sum + m := by
  induction cs generalizing k with
  | nil => cases hc
  | cons d cs ih =>
    cases k with
    | zero =>
      cases hc
      simp only [set_cons_zero, map_cons, sum_cons, hi]
      omega
    | succ k =>
      simp only [set_cons_succ, map_cons, sum_cons, ih hc]
      omega

lemma Tiled.call (h : Tiled sb f j old log s) (src : Nat → Option UInt8) (n : Nat) :
    Failed { s with calls := s.calls ++ [Call.start (s.sys.ftable f) src n] } ∨
      Tiled sb f j old log { s with calls := s.calls ++ [Call.start (s.sys.ftable f) src n] } := by
  by_cases hw : (s.sys.ftable f).writable = false
  · refine .inl ⟨⟨src, n, 0, some (-1)⟩, ?_, rfl⟩
    rw [Call.start, if_pos hw]
    exact mem_append_right _ (mem_singleton_self _)
  rw [Call.start, if_neg hw]
  have hnew : [] = bytesOf src 0 := rfl
  obtain ⟨hwrote, hi⟩ := Call.wrote_test (c := ⟨src, n, 0, none⟩) hnew zero_le rfl
  refine .inr ⟨h.atEnd, h.contents, fun k c hk => ?_, fun e he => ?_, ?_⟩
  · rcases lt_or_ge k s.calls.length with hlt | hge
    · rw [List.getElem?_append_left hlt] at hk
      exact h.own k c hk
    · rw [List.getElem?_append_right hge] at hk
      obtain ⟨hk0, rfl⟩ := List.getElem?_eq_some_iff.mp hk
      have hnil : bytesBy log k = [] :=
        bytesBy_eq_nil fun e he => lt_of_lt_of_le (h.known e he).1 hge
      rwa [hnil, getElem_singleton]
  · refine ⟨?_, (h.known e he).2⟩
    rw [length_append]
    exact Nat.lt_add_right _ (h.known e he).1
  rw [map_append, sum_append, h.total]
  simp [hi]

lemma Tiled.round {k : Nat} {c : Call} {r : Int} {u : State} (ok : sb.Ok)
    (h : Tiled sb f j old log s) (hc : s.calls[k]? = some c) (hret : c.ret = none)
    (hr : filewriteRound sb f c.src c.n c.i s.sys = .ok (r, u)) :
    Failed ⟨u, s.calls.set k (c.after r)⟩ ∨
      ∃ log, Tiled sb f j old log ⟨u, s.calls.set k (c.after r)⟩ := by
  have hwrote := h.own k c hc
  have hlt := hwrote.busy hret
  have hk : k < s.calls.length := (List.getElem?_eq_some_iff.mp hc).1
  by_cases hall : r = chunk c.n c.i
  · have hwp : wp (filewriteRound sb f c.src c.n c.i) s.sys _ (fun _ => True) :=
      wp_filewriteRound ok h.atEnd hlt
    obtain ⟨hend, hcontents⟩ := wp_ok hwp hr hall
    have hnat : r.toNat = chunk c.n c.i := by omega
    have hafter : c.after r = Call.test { c with i := c.i + chunk c.n c.i } := by
      rw [Call.after, if_neg (fun hne => hne hall), hnat]
    have hbytes : bytesBy (log ++ [(k, bytesOf (fun m => c.src (c.i + m)) (chunk c.n c.i))]) k =
        bytesOf c.src (c.i + chunk c.n c.i) := by
      rw [bytesBy_append, if_pos rfl, hwrote.bytes, bytesOf_add]
    obtain ⟨htest, hi⟩ := Call.wrote_test (c := { c with i := c.i + chunk c.n c.i }) hbytes
      (add_chunk_le hlt) hret
    rw [hafter]
    refine .inr ⟨log ++ [(k, bytesOf (fun m => c.src (c.i + m)) (chunk c.n c.i))], hend, ?_,
      fun l d hl => ?_, fun e he => ?_, ?_⟩
    · rw [hcontents, h.contents, flatMap_append, append_assoc]
      simp
    · by_cases hlk : l = k
      · subst hlk
        rw [List.getElem?_set_self hk] at hl
        cases hl
        exact htest
      · rw [List.getElem?_set_ne (Ne.symm hlk)] at hl
        rw [bytesBy_append, if_neg (Ne.symm hlk), append_nil]
        exact h.own l d hl
    · rw [length_set]
      rcases mem_append.mp he with he | he
      · exact h.known e he
      rw [mem_singleton.mp he, bytesOf_length]
      exact ⟨hk, chunk_pos hlt, chunk_le⟩
    rw [sum_set hc hi, flatMap_append, length_append, h.total]
    simp [bytesOf_length]
  refine .inl ⟨c.after r, mem_set hk _, ?_⟩
  rw [Call.after, if_pos hall, if_neg (Nat.ne_of_lt hlt)]

lemma Writers.next_round {k : Nat} (hn : Writers.next sb f s (.round k) = some t) :
    ∃ c r u, s.calls[k]? = some c ∧ c.ret = none ∧
      filewriteRound sb f c.src c.n c.i s.sys = .ok (r, u) ∧ t = ⟨u, s.calls.set k (c.after r)⟩ :=
        by
  simp only [Writers.next] at hn
  cases hc : s.calls[k]? with
  | none =>
    rw [hc] at hn
    cases hn
  | some c =>
    simp only [hc] at hn
    split at hn
    · cases hn
    rename_i hret
    cases hr : filewriteRound sb f c.src c.n c.i s.sys with
    | error e =>
      rw [hr] at hn
      cases hn
    | ok p =>
      rw [hr] at hn
      cases hn
      exact ⟨c, p.1, p.2, rfl, by simpa using hret, hr, rfl⟩

lemma Tiled.next (ok : sb.Ok) (h : Tiled sb f j old log s) {a : Writers.Label}
    (hn : Writers.next sb f s a = some t) : Failed t ∨ ∃ log, Tiled sb f j old log t := by
  cases a with
  | call src n =>
    cases hn
    exact (h.call src n).imp_right fun h => ⟨log, h⟩
  | round k =>
    obtain ⟨c, r, u, hc, hret, hr, rfl⟩ := Writers.next_round hn
    exact h.round ok hc hret hr

lemma Failed.next (h : Failed s) {a : Writers.Label} (hn : Writers.next sb f s a = some t) :
    Failed t := by
  obtain ⟨d, hd, hfail⟩ := h
  cases a with
  | call src n =>
    cases hn
    exact ⟨d, mem_append_left _ hd, hfail⟩
  | round k =>
    obtain ⟨c, r, u, hc, hret, -, rfl⟩ := Writers.next_round hn
    obtain ⟨l, hl⟩ := mem_iff_getElem?.mp hd
    have hlk : k ≠ l := by
      rintro rfl
      rw [hl] at hc
      cases hc
      rw [hfail] at hret
      cases hret
    refine ⟨d, mem_iff_getElem?.mpr ⟨l, ?_⟩, hfail⟩
    rw [List.getElem?_set_ne hlk, hl]

theorem writers_append {s : State} {as : List Writers.Label} (ok : sb.Ok) (h : AtEnd sb f j s)
    (hrun : run (Writers.next sb f) ⟨s, []⟩ as = some t)
    (hall : ∀ c ∈ t.calls, c.ret = some (c.n : Int)) :
    ∃ log : List (Nat × List UInt8),
      t.sys.fs.contents sb j = s.fs.contents sb j ++ log.flatMap (·.2) ∧
      (∀ (k : Nat) (c : Call), t.calls[k]? = some c → bytesBy log k = bytesOf c.src c.n) ∧
      (∀ e ∈ log, e.1 < t.calls.length ∧ 0 < e.2.length ∧ e.2.length ≤ maxWrite) ∧
      (t.sys.ftable f).off = (s.ftable f).off + (t.calls.map Call.n).sum ∧
      (t.sys.fs.ino sb j).size = (s.fs.ino sb j).size + (t.calls.map Call.n).sum := by
  have hstart : Tiled sb f j (s.fs.contents sb j) [] ⟨s, []⟩ :=
    ⟨h, (append_nil _).symm, fun _ _ hk => (by cases hk), fun _ he => (by cases he), rfl⟩
  have hstep : ∀ u a v, (Failed u ∨ ∃ log, Tiled sb f j (s.fs.contents sb j) log u) →
      Writers.next sb f u a = some v →
      Failed v ∨ ∃ log, Tiled sb f j (s.fs.contents sb j) log v := by
    intro u a v hu hn
    rcases hu with hu | ⟨log, hu⟩
    · exact .inl (hu.next hn)
    exact hu.next ok hn
  have hend : Failed t ∨ ∃ log, Tiled sb f j (s.fs.contents sb j) log t :=
    run_invariant hstep (.inr ⟨[], hstart⟩) hrun
  rcases hend with ⟨c, hc, hfail⟩ | ⟨log, ht⟩
  · rw [hall c hc] at hfail
    cases hfail
  have hdone : ∀ c ∈ t.calls, c.i = c.n := fun c hc => by
    obtain ⟨k, hk⟩ := mem_iff_getElem?.mp hc
    exact (ht.own k c hk).done (hall c hc)
  have hsum : (log.flatMap (·.2)).length = (t.calls.map Call.n).sum := by
    rw [ht.total, map_congr_left hdone]
  have hsize : (t.sys.fs.ino sb j).size = (s.fs.ino sb j).size + (t.calls.map Call.n).sum := by
    rw [← contents_length, ht.contents, length_append, contents_length, hsum]
  refine ⟨log, ht.contents, fun k c hk => ?_, ht.known, ?_, hsize⟩
  · rw [(ht.own k c hk).bytes, hdone c (mem_of_getElem? hk)]
  rw [ht.atEnd.off, h.off, hsize]

def oneInode (s : Fs.State) : State :=
  ⟨s, fun _ => ⟨.inode, true, entry0, 0⟩⟩

def file0 : Fin nfile := ⟨0, nfile_pos⟩

def twoWriters : List Writers.Label :=
  [.call (fun k => some (UInt8.ofNat k)) 3, .call (fun _ => some 7) 2, .round 1, .round 0]

theorem writers_append_two :
    ∃ s t, run (Fs.next tiny) (boot (tinyDisk .zero)) [.ialloc tFile] = some s ∧
      AtEnd tiny file0 1 (oneInode s) ∧
      run (Writers.next tiny file0) ⟨oneInode s, []⟩ twoWriters = some t ∧
      (∀ c ∈ t.calls, c.ret = some (c.n : Int)) ∧ (t.sys.fs.ino tiny 1).size = 5 := by
  have hrun : ((run (Fs.next tiny) (boot (tinyDisk .zero)) [.ialloc tFile]).bind fun s =>
      (run (Writers.next tiny file0) ⟨oneInode s, []⟩ twoWriters).map fun t =>
        decide ((∀ c ∈ t.calls, c.ret = some (c.n : Int)) ∧ (t.calls.map Call.n).sum = 5 ∧
          0 < (s.itable entry0).ref ∧ (s.itable entry0).inum = 1 ∧ (s.ino tiny 1).type = tFile ∧
          (s.ino tiny 1).size = 0)) = some true := by decide +kernel
  obtain ⟨s, hs, hrun⟩ := Option.bind_eq_some_iff.mp hrun
  obtain ⟨t, ht, hvals⟩ := Option.map_eq_some_iff.mp hrun
  obtain ⟨hall, hsum, href, hinum, htype, hsize⟩ := of_decide_eq_true hvals
  have hend : AtEnd tiny file0 1 (oneInode s) :=
    ⟨image_tiny.good_of_run hs, rfl, href, hinum, by decide, htype, hsize.symm⟩
  obtain ⟨-, -, -, -, -, hgrown⟩ := writers_append tiny_ok hend ht hall
  refine ⟨s, t, hs, hend, ht, hall, ?_⟩
  rw [hgrown, hsum]
  exact congrArg (· + 5) hsize
end
end Xv6.Sys
