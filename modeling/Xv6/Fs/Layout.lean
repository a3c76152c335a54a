import Xv6.Disk.Block

namespace Xv6.Fs
open Function

structure Superblock where
  size : Nat
  nblocks : Nat
  ninodes : Nat
  inodestart : Nat
  bmapstart : Nat
  deriving DecidableEq

@[ext]
structure Dinode where
  type : Nat
  major : Nat
  minor : Nat
  nlink : Nat
  size : Nat
  addrs : Fin (ndirect + 1) → Nat

namespace Dinode
def addr (x : Dinode) (k : Nat) : Nat := if h : k < ndirect + 1 then x.addrs ⟨k, h⟩ else 0

def setAddr (x : Dinode) (k v : Nat) : Dinode :=
  { x with addrs := fun j => if j.val = k then v else x.addrs j }

def zero : Dinode :=
  { type := 0, major := 0, minor := 0, nlink := 0, size := 0, addrs := fun _ => 0 }

variable {x : Dinode}

lemma addr_setAddr {k j v : Nat} (hj : j < ndirect + 1) :
    (x.setAddr k v).addr j = if j = k then v else x.addr j := by
  unfold addr setAddr
  simp only [hj, dif_pos]

lemma addr_of_ge {k : Nat} (h : ndirect < k) : x.addr k = 0 := by
  unfold addr
  rw [dif_neg (by omega)]

def fields (x : Dinode) : List Lib.Field :=
  [⟨0, 2, x.type⟩, ⟨2, 2, x.major⟩, ⟨4, 2, x.minor⟩, ⟨6, 2, x.nlink⟩, ⟨8, 4, x.size⟩] ++
    (List.finRange (ndirect + 1)).map fun k => ⟨12 + 4 * k.val, 4, x.addrs k⟩

def read (b : Block) (j : Nat) : Dinode :=
  { type := b.field (64 * j) 2
    major := b.field (64 * j + 2) 2
    minor := b.field (64 * j + 4) 2
    nlink := b.field (64 * j + 6) 2
    size := b.field (64 * j + 8) 4
    addrs := fun k => b.field (64 * j + (12 + 4 * k.val)) 4 }

def write (x : Dinode) (b : Block) (j : Nat) : Block := b.setFields (64 * j) x.fields

structure Fits (x : Dinode) : Prop where
  type : x.type < 2 ^ 16
  major : x.major < 2 ^ 16
  minor : x.minor < 2 ^ 16
  nlink : x.nlink < 2 ^ 16
  size : x.size < 2 ^ 32
  addrs : ∀ k, x.addrs k < 2 ^ 32

lemma Fits.setAddr (hx : x.Fits) {k v : Nat} (hv : v < 2 ^ 32) : (x.setAddr k v).Fits := by
  refine ⟨hx.type, hx.major, hx.minor, hx.nlink, hx.size, fun j => ?_⟩
  show (if j.val = k then v else x.addrs j) < 2 ^ 32
  split
  · exact hv
  exact hx.addrs j

lemma fields_disjoint (x : Dinode) : x.fields.Pairwise Lib.Field.Disjoint := by
  have hlayout : (x.fields.map fun f => (f.off, f.width)) =
      zero.fields.map fun f => (f.off, f.width) := rfl
  have hz : (zero.fields.map fun f => (f.off, f.width)).Pairwise
      (fun f g => f.1 + f.2 ≤ g.1 ∨ g.1 + g.2 ≤ f.1) := by decide
  rwa [← hlayout, List.pairwise_map] at hz

lemma mem_fields {f : Lib.Field} (hf : f ∈ x.fields) : f.off + f.width ≤ 64 := by
  have hz : ∀ p ∈ zero.fields.map fun f => (f.off, f.width), p.1 + p.2 ≤ 64 := by decide
  exact hz (f.off, f.width) (List.mem_map_of_mem (f := fun f => (f.off, f.width)) hf)

lemma read_fits (b : Block) (j : Nat) : (read b j).Fits :=
  ⟨b.field_lt _ 2, b.field_lt _ 2, b.field_lt _ 2, b.field_lt _ 2, b.field_lt _ 4,
    fun _ => b.field_lt _ 4⟩

lemma read_write {b : Block} {j : Nat} (hx : x.Fits) (hj : j < ipb) :
    read (x.write b j) j = x := by
  have hfield : ∀ f ∈ x.fields, f.Fits → (x.write b j).field (64 * j + f.off) f.width = f.val := by
    intro f hf hfit
    have hin := mem_fields hf
    rw [ipb_eq] at hj
    exact Block.field_setFields x.fields_disjoint hf hfit (by rw [bsize_eq]; omega)
  have haddr : ∀ k, (⟨12 + 4 * k.val, 4, x.addrs k⟩ : Lib.Field) ∈ x.fields := fun k =>
    List.mem_append_right _ (List.mem_map.mpr ⟨k, List.mem_finRange k, rfl⟩)
  ext k
  · exact hfield ⟨0, 2, x.type⟩ (by simp [fields]) hx.type
  · exact hfield ⟨2, 2, x.major⟩ (by simp [fields]) hx.major
  · exact hfield ⟨4, 2, x.minor⟩ (by simp [fields]) hx.minor
  · exact hfield ⟨6, 2, x.nlink⟩ (by simp [fields]) hx.nlink
  · exact hfield ⟨8, 4, x.size⟩ (by simp [fields]) hx.size
  exact hfield ⟨12 + 4 * k.val, 4, x.addrs k⟩ (haddr k) (hx.addrs k)

lemma read_write_of_ne {b : Block} {i j : Nat} (h : i ≠ j) : read (x.write b j) i = read b i := by
  have hfield : ∀ o k, o + k ≤ 64 → (x.write b j).field (64 * i + o) k = b.field (64 * i + o) k :=
    by
    intro o k hok
    refine Lib.getLE_congr fun a h1 h2 => Block.byte_setFields_of_disjoint (fun f hf => ?_)
    have hin := mem_fields hf
    omega
  ext k
  · exact hfield 0 2 (by decide)
  · exact hfield 2 2 (by decide)
  · exact hfield 4 2 (by decide)
  · exact hfield 6 2 (by decide)
  · exact hfield 8 4 (by decide)
  have hk : k.val < 13 := k.isLt
  exact hfield (12 + 4 * k.val) 4 (by omega)
end Dinode
namespace Superblock
def iblock (sb : Superblock) (i : Nat) : Nat := i / ipb + sb.inodestart
def bblock (sb : Superblock) (b : Nat) : Nat := b / bpb + sb.bmapstart
def dataStart (sb : Superblock) : Nat := sb.size - sb.nblocks
def InData (sb : Superblock) (b : Nat) : Prop := sb.dataStart ≤ b ∧ b < sb.size

instance (sb : Superblock) (b : Nat) : Decidable (sb.InData b) :=
  inferInstanceAs (Decidable (_ ∧ _))

structure Ok (sb : Superblock) : Prop where
  start : 0 < sb.inodestart
  inodes : sb.inodestart + (sb.ninodes + 15) / 16 ≤ sb.bmapstart
  bitmap : sb.bmapstart + (sb.size + 8191) / 8192 ≤ sb.dataStart
  size : sb.size < 2 ^ 31

variable {sb : Superblock} {d d' : Disk} {i j b c : Nat}

lemma Ok.iblock_lt (h : sb.Ok) (hi : i < sb.ninodes) : sb.iblock i < sb.bmapstart := by
  have := h.inodes
  unfold iblock
  rw [ipb_eq]
  omega

lemma bmapstart_le_bblock : sb.bmapstart ≤ sb.bblock b := Nat.le_add_left _ _

section
variable (h : sb.Ok)
include h

lemma Ok.bblock_lt (hb : b < sb.size) : sb.bblock b < sb.dataStart := by
  have := h.bitmap
  unfold bblock
  rw [bpb_eq]
  omega

lemma Ok.bmapstart_le : sb.bmapstart ≤ sb.dataStart := by
  have := h.bitmap
  omega

lemma Ok.dataStart_pos : 0 < sb.dataStart := by
  have := h.start
  have := h.inodes
  have := h.bitmap
  omega

lemma Ok.lt_two_pow (hb : sb.InData b) : b < 2 ^ 32 := by
  have h1 := h.size
  have h2 := hb.2
  omega

lemma Ok.iblock_ne_bblock (hi : i < sb.ninodes) : sb.iblock i ≠ sb.bblock b := by
  have h1 := h.iblock_lt hi
  have h2 : sb.bmapstart ≤ sb.bblock b := bmapstart_le_bblock
  omega

lemma Ok.iblock_ne_data (hi : i < sb.ninodes) (hb : sb.InData b) : sb.iblock i ≠ b := by
  have h1 := h.iblock_lt hi
  have h2 := h.bmapstart_le
  have h3 := hb.1
  omega

lemma Ok.bblock_ne_data (hc : c < sb.size) (hb : sb.InData b) : sb.bblock c ≠ b := by
  have h1 := h.bblock_lt hc
  have h2 := hb.1
  omega
end

def dinode (sb : Superblock) (d : Disk) (i : Nat) : Dinode := .read (d (sb.iblock i)) (i % ipb)

def putDinode (sb : Superblock) (d : Disk) (i : Nat) (x : Dinode) : Block :=
  x.write (d (sb.iblock i)) (i % ipb)

lemma dinode_fits : (sb.dinode d i).Fits := Dinode.read_fits _ _

lemma dinode_congr (h : d' (sb.iblock i) = d (sb.iblock i)) : sb.dinode d' i = sb.dinode d i := by
  rw [dinode, dinode, h]

lemma dinode_putDinode {x : Dinode} (hx : x.Fits) :
    sb.dinode (update d (sb.iblock i) (sb.putDinode d i x)) j =
      if j = i then x else sb.dinode d j := by
  unfold dinode putDinode
  by_cases hb : sb.iblock j = sb.iblock i
  · rw [hb, update_self]
    by_cases hij : j = i
    · rw [if_pos hij, hij]
      exact Dinode.read_write hx (Nat.mod_lt _ (by decide))
    rw [if_neg hij]
    refine Dinode.read_write_of_ne fun hmod => hij ?_
    unfold iblock at hb
    have hdiv : j / ipb = i / ipb := Nat.add_right_cancel hb
    rw [← Nat.div_add_mod j ipb, hdiv, hmod, Nat.div_add_mod]
  have hij : j ≠ i := fun e => hb (by rw [e])
  rw [update_of_ne hb, if_neg hij]

def bit (sb : Superblock) (d : Disk) (b : Nat) : Bool := (d (sb.bblock b)).getBit (b % bpb)

lemma bit_congr (h : d' (sb.bblock b) = d (sb.bblock b)) : sb.bit d' b = sb.bit d b := by
  rw [bit, bit, h]

lemma bit_index_lt : b % bpb / 8 < bsize := by
  rw [bpb_eq, bsize_eq]
  omega

lemma eq_of_bblock (h : sb.bblock c = sb.bblock b) (hmod : c % bpb = b % bpb) : c = b := by
  unfold bblock at h
  have hdiv : c / bpb = b / bpb := Nat.add_right_cancel h
  rw [← Nat.div_add_mod c bpb, hdiv, hmod, Nat.div_add_mod]

lemma bit_setBit : sb.bit (update d (sb.bblock b) ((d (sb.bblock b)).setBit (b % bpb))) c =
      (decide (c = b) || sb.bit d c) := by
  unfold bit
  by_cases hb : sb.bblock c = sb.bblock b
  · have hmod : c % bpb = b % bpb ↔ c = b := ⟨eq_of_bblock hb, fun e => by rw [e]⟩
    rw [hb, update_self, Block.getBit_setBit bit_index_lt, decide_eq_decide.mpr hmod]
  have hne : c ≠ b := fun e => hb (by rw [e])
  rw [update_of_ne hb]
  simp [hne]

lemma bit_clearBit : sb.bit (update d (sb.bblock b) ((d (sb.bblock b)).clearBit (b % bpb))) c =
      (!decide (c = b) && sb.bit d c) := by
  unfold bit
  by_cases hb : sb.bblock c = sb.bblock b
  · have hmod : c % bpb = b % bpb ↔ c = b := ⟨eq_of_bblock hb, fun e => by rw [e]⟩
    rw [hb, update_self, Block.getBit_clearBit bit_index_lt, decide_eq_decide.mpr hmod]
  have hne : c ≠ b := fun e => hb (by rw [e])
  rw [update_of_ne hb]
  simp [hne]
end Superblock
end Xv6.Fs
