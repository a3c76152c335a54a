import Xv6.Fs.Capacity
import Xv6.Fs.Fsck

namespace Xv6.Fs
open State Lib List
variable {sb : Superblock} {s t : State} {ip : Fin ninode} {i off n tot : Nat}
  {src : Nat → Option UInt8} {dst : Nat → Option Unit}

def State.contents (s : State) (sb : Superblock) (i : Nat) : List UInt8 :=
  (range (s.ino sb i).size).map (s.content sb i)

def bytesOf (src : Nat → Option UInt8) (n : Nat) : List UInt8 :=
  (range n).map fun k => (src k).getD 0

def splice (old : List UInt8) (off : Nat) (new : List UInt8) : List UInt8 :=
  old.take off ++ new ++ old.drop (off + new.length)

lemma contents_length : (s.contents sb i).length = (s.ino sb i).size := by
  rw [State.contents, length_map, length_range]

lemma getElem?_contents (o : Nat) :
    (s.contents sb i)[o]? = if o < (s.ino sb i).size then some (s.content sb i o) else none := by
  rw [State.contents, getElem?_map]
  by_cases h : o < (s.ino sb i).size
  · rw [if_pos h, getElem?_range h]
    rfl
  rw [if_neg h, getElem?_eq_none (by rw [length_range]; omega)]
  rfl

lemma SameFiles.contents (h : SameFiles sb s t) (j : Nat) :
    t.contents sb j = s.contents sb j := by
  rw [State.contents, State.contents, h.ino]
  exact map_congr_left fun o _ => h.content j o

lemma bytesOf_length : (bytesOf src n).length = n := by rw [bytesOf, length_map, length_range]

lemma getElem?_splice {old new : List UInt8} (hoff : off ≤ old.length) (o : Nat) :
    (splice old off new)[o]? = if off ≤ o ∧ o < off + new.length then new[o - off]? else old[o]? :=
      by
  have htake : (old.take off).length = off := by rw [length_take, min_eq_left hoff]
  have hmid : (old.take off ++ new).length = off + new.length := by rw [length_append, htake]
  unfold splice
  rcases Nat.lt_or_ge o off with hlo | hge
  · rw [getElem?_append_left (by omega), getElem?_append_left (by omega),
      getElem?_take_of_lt hlo, if_neg (by omega)]
  rcases Nat.lt_or_ge o (off + new.length) with hin | hout
  · rw [getElem?_append_left (by omega), getElem?_append_right (by omega), htake, if_pos ⟨hge, hin⟩]
  rw [getElem?_append_right (by omega), hmid, getElem?_drop, if_neg (by omega)]
  congr 1
  omega

lemma splice_end (old new : List UInt8) : splice old old.length new = old ++ new := by
  rw [splice, take_length, drop_eq_nil_of_le (Nat.le_add_right _ _), append_nil]

lemma contents_slice : ((s.contents sb i).drop off).take n =
      (range (min n ((s.ino sb i).size - off))).map fun k => s.content sb i (off + k) := by
  refine ext_getElem ?_ fun k h1 h2 => ?_
  · simp [contents_length]
  simp [State.contents]

lemma readi_ok (h : Good sb s) (hip : s.Open ip i) (hdst : ∀ k < n, (dst k).isSome)
    (hoff : off ≤ (s.ino sb i).size) (hwrap : off + n < 2 ^ 32) :
    readi sb ip dst off n s = .ok ((((min n ((s.ino sb i).size - off) : Nat) : Int),
      ((s.contents sb i).drop off).take n), s) := by
  have hwp : wp (readi sb ip dst off n) s _ fun _ => False := wp_readi h hip
  obtain ⟨r, t, hm, rfl, hr⟩ := wp_total hwp
  rw [hm, hr hdst hoff hwrap, contents_slice]

lemma readi_refused (h : Good sb s) (hip : s.Open ip i) (hn : n < 2 ^ 32)
    (hno : ¬(off ≤ (s.ino sb i).size ∧ off + n < 2 ^ 32)) (hoff : off < 2 ^ 32) :
    readi sb ip dst off n s = .ok ((0, []), s) := by
  have hc : off > (s.itable ip).copy.size ∨ (off + n) % 2 ^ 32 < off := by
    rw [ino_of_open h.owned.table hip] at hno
    omega
  have hwp : wp (readi sb ip dst off n) s (fun r t => r = (0, []) ∧ t = s) (fun _ => False) := by
    unfold readi
    rw [wp_bind, wp_inode, if_pos hc, wp_pure]
    exact ⟨rfl, rfl⟩
  obtain ⟨r, t, hm, rfl, rfl⟩ := wp_total hwp
  exact hm

lemma Wrote.contents (h : Wrote sb i src off tot (off + tot) s t)
    (hoff : off ≤ (s.ino sb i).size) :
    t.contents sb i = splice (s.contents sb i) off (bytesOf src tot) := by
  have hsize : (t.ino sb i).size = max (s.ino sb i).size (off + tot) := by rw [h.ino]
  refine ext_getElem? fun o => ?_
  rw [getElem?_splice (by rwa [contents_length]), getElem?_contents, getElem?_contents,
    bytesOf_length, hsize]
  by_cases hin : off ≤ o ∧ o < off + tot
  · have hk : o - off < tot := by omega
    have hlt : o < max (s.ino sb i).size (off + tot) := by omega
    rw [if_pos hlt, if_pos hin, h.written o hin.1 hin.2, bytesOf, getElem?_map, getElem?_range hk]
    rfl
  rw [if_neg hin, h.unwritten o (by omega)]
  by_cases hlt : o < (s.ino sb i).size
  · rw [if_pos (by omega), if_pos hlt]
  rw [if_neg (by omega), if_neg hlt]

def bare : Superblock := { tiny with size := 4, nblocks := 0 }
end Xv6.Fs
