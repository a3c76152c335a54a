import Xv6.Fs.Inode
import Xv6.Lib.Ledger

namespace Xv6.Fs
def nslot : Nat := ndirect + 1 + nindirect
lemma nslot_eq : nslot = 269 := rfl
def fileSlot (bn : Nat) : Nat := if bn < ndirect then bn else bn + 1

def Dinode.slot (x : Dinode) (d : Disk) (k : Nat) : Nat :=
  if k ≤ ndirect then x.addr k
  else if x.addr ndirect = 0 then 0 else (d (x.addr ndirect)).word (k - (ndirect + 1))

lemma fileSlot_lt {bn : Nat} (h : bn < maxfile) : fileSlot bn < nslot := by
  rw [maxfile_eq] at h
  rw [fileSlot, ndirect_eq, nslot_eq]
  split <;> omega

lemma fileSlot_ne {bn : Nat} : fileSlot bn ≠ ndirect := by
  rw [fileSlot]
  split <;> omega

lemma fileSlot_inj {bn bn' : Nat} (h : fileSlot bn = fileSlot bn') : bn = bn' := by
  unfold fileSlot at h
  split at h <;> split at h <;> omega

def Dinode.block (x : Dinode) (d : Disk) (bn : Nat) : Nat := x.slot d (fileSlot bn)

namespace Dinode
variable {x y : Dinode} {d d' : Disk} {k : Nat}

lemma slot_direct (hk : k ≤ ndirect) : x.slot d k = x.addr k := if_pos hk

lemma slot_entry (hk : ndirect < k) (hx : x.addr ndirect ≠ 0) :
    x.slot d k = (d (x.addr ndirect)).word (k - (ndirect + 1)) := by
  rw [slot, if_neg (by omega), if_neg hx]

lemma slot_none (hk : ndirect < k) (hx : x.addr ndirect = 0) : x.slot d k = 0 := by
  rw [slot, if_neg (by omega), if_pos hx]

lemma slot_congr (haddr : y.addrs = x.addrs)
    (hind : x.addr ndirect ≠ 0 → d' (x.addr ndirect) = d (x.addr ndirect)) :
    y.slot d' k = x.slot d k := by
  have ha : ∀ j, y.addr j = x.addr j := fun j => by unfold addr; rw [haddr]
  unfold slot
  rw [ha, ha]
  by_cases h0 : x.addr ndirect = 0
  · simp [h0]
  rw [hind h0]

lemma addr_ne_of_addrs {v : Nat} (hk : k ≤ ndirect) (hv : v ≠ k) (c : Nat) :
    (x.setAddr v c).addr k = x.addr k := by
  rw [addr_setAddr (by omega), if_neg (fun e => hv e.symm)]

lemma slot_setAddr {b j : Nat} (hj : j ≤ ndirect)
    (hind : j = ndirect → x.addr j = 0 ∧ d b = Block.zero) :
    (x.setAddr j b).slot d k = if k = j then b else x.slot d k := by
  by_cases hk : k ≤ ndirect
  · rw [slot_direct hk, slot_direct hk, addr_setAddr (by omega)]
  have hkj : k ≠ j := by omega
  rw [if_neg hkj]
  by_cases hjn : j = ndirect
  · obtain ⟨h0, hzero⟩ := hind hjn
    have hempty : x.slot d k = 0 := slot_none (by omega) (hjn ▸ h0)
    have hself : (x.setAddr j b).addr ndirect = b := by
      rw [addr_setAddr (by omega), if_pos hjn.symm]
    rw [hempty, slot, if_neg hk, hself, hzero, Block.word_zero, ite_self]
  rw [slot, slot, if_neg hk, if_neg hk, addr_ne_of_addrs le_rfl hjn]

lemma slot_clear_indirect :
    (x.setAddr ndirect 0).slot d k = if ndirect ≤ k then 0 else x.slot d k := by
  by_cases hk : k ≤ ndirect
  · rw [slot_direct hk, slot_direct hk, addr_setAddr (by omega)]
    by_cases he : k = ndirect
    · rw [if_pos he, if_pos (by omega)]
    rw [if_neg he, if_neg (by omega)]
  have hself : (x.setAddr ndirect 0).addr ndirect = 0 := by rw [addr_setAddr (by omega), if_pos rfl]
  rw [if_pos (by omega), slot_none (by omega) hself]

lemma slot_zero_addrs (h : ∀ j, x.addr j = 0) : x.slot d k = 0 := by
  unfold slot
  rw [h, h]
  simp
end Dinode
namespace State
def Open (s : State) (ip : Fin ninode) (i : Nat) : Prop :=
  0 < (s.itable ip).ref ∧ (s.itable ip).valid ∧ (s.itable ip).inum = i

instance (s : State) (ip : Fin ninode) (i : Nat) : Decidable (s.Open ip i) :=
  inferInstanceAs (Decidable (_ ∧ _))

def ino (s : State) (sb : Superblock) (i : Nat) : Dinode :=
  match (List.finRange ninode).find? fun ip => s.Open ip i with
  | some ip => (s.itable ip).copy
  | none => sb.dinode s.disk i

structure Table (s : State) (sb : Superblock) : Prop where
  unique : ∀ k l, 0 < (s.itable k).ref → 0 < (s.itable l).ref →
    (s.itable k).inum = (s.itable l).inum → k = l
  lt : ∀ k i, s.Open k i → i < sb.ninodes
  fits : ∀ k i, s.Open k i → (s.itable k).copy.Fits

variable {s s' : State} {sb : Superblock} {ip k : Fin ninode} {i : Nat}

lemma Table.eq_of_open (h : Table s sb) (hk : s.Open k i) (hip : s.Open ip i) : k = ip :=
  h.unique k ip hk.1 hip.1 (hk.2.2.trans hip.2.2.symm)

lemma ino_of_open (h : Table s sb) (hip : s.Open ip i) : s.ino sb i = (s.itable ip).copy := by
  unfold ino
  cases hf : (List.finRange ninode).find? fun k => s.Open k i with
  | some k =>
    have hk : s.Open k i := by simpa using List.find?_some hf
    rw [h.eq_of_open hk hip]
  | none =>
    have := List.find?_eq_none.mp hf ip (List.mem_finRange ip)
    exact absurd hip (by simpa using this)

lemma ino_of_closed (h : ∀ k, ¬s.Open k i) : s.ino sb i = sb.dinode s.disk i := by
  have hf : (List.finRange ninode).find? (fun k => decide (s.Open k i)) = none :=
    List.find?_eq_none.mpr fun k _ => by simpa using h k
  rw [ino, hf]

lemma ino_fits (h : Table s sb) : (s.ino sb i).Fits := by
  by_cases hex : ∃ k, s.Open k i
  · obtain ⟨k, hk⟩ := hex
    rw [ino_of_open h hk]
    exact h.fits k i hk
  rw [ino_of_closed (not_exists.mp hex)]
  exact Superblock.dinode_fits

lemma ino_congr (h : Table s sb) (h' : Table s' sb) (hopen : ∀ k, s'.Open k i ↔ s.Open k i)
    (hcopy : ∀ k, s.Open k i → (s'.itable k).copy = (s.itable k).copy)
    (hdisk : (∀ k, ¬s.Open k i) → sb.dinode s'.disk i = sb.dinode s.disk i) :
    s'.ino sb i = s.ino sb i := by
  by_cases hex : ∃ k, s.Open k i
  · obtain ⟨k, hk⟩ := hex
    rw [ino_of_open h hk, ino_of_open h' ((hopen k).mpr hk), hcopy k hk]
  have hno := not_exists.mp hex
  rw [ino_of_closed hno, ino_of_closed (fun k hk => hno k ((hopen k).mp hk)), hdisk hno]

def slot (s : State) (sb : Superblock) (p : Nat × Nat) : Nat :=
  if p.1 < sb.ninodes ∧ p.2 < nslot ∧ (s.ino sb p.1).type ≠ 0 then
    (s.ino sb p.1).slot s.disk p.2
  else 0

lemma slot_of_lt (hi : i < sb.ninodes) {k : Nat} (hk : k < nslot) (ht : (s.ino sb i).type ≠ 0) :
    s.slot sb (i, k) = (s.ino sb i).slot s.disk k := if_pos ⟨hi, hk, ht⟩

lemma slot_of_free {k : Nat} (ht : (s.ino sb i).type = 0) : s.slot sb (i, k) = 0 :=
  if_neg fun h => h.2.2 ht

lemma slot_congr {p : Nat × Nat} (h : p.1 < sb.ninodes → s'.ino sb p.1 = s.ino sb p.1)
    (hind : p.1 < sb.ninodes → (s.ino sb p.1).type ≠ 0 → (s.ino sb p.1).addr ndirect ≠ 0 →
      s'.disk ((s.ino sb p.1).addr ndirect) = s.disk ((s.ino sb p.1).addr ndirect)) :
    s'.slot sb p = s.slot sb p := by
  unfold slot
  by_cases hp : p.1 < sb.ninodes
  · rw [h hp]
    by_cases ht : (s.ino sb p.1).type ≠ 0
    · rw [Dinode.slot_congr rfl (hind hp ht)]
    simp [ht]
  simp [hp]

def content (s : State) (sb : Superblock) (i o : Nat) : UInt8 :=
  if s.slot sb (i, fileSlot (o / bsize)) = 0 then 0
  else (s.disk (s.slot sb (i, fileSlot (o / bsize)))).byte (o % bsize)
end State

/-- Each block has one owner. -/
structure Owned (sb : Superblock) (s : State) (spare : List Nat) : Prop where
  table : s.Table sb
  ledger : Lib.Ledger sb.InData (s.slot sb) (fun b => sb.bit s.disk b) spare
  low : ∀ b < sb.dataStart, sb.bit s.disk b
  unlogged : ∀ b ∈ s.unlogged, sb.InData b ∧
    ∀ i < sb.ninodes, (s.ino sb i).type ≠ 0 → (s.ino sb i).addr ndirect ≠ b
end Xv6.Fs
