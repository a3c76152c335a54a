import Xv6.Mkfs.Slots

namespace Xv6.Mkfs
open Fs Lib Function List Dinode

def blocksOf (n : Nat) : Nat :=
  (n + (bsize - 1)) / bsize + if ndirect * bsize < n then 1 else 0

lemma blocksOf_eq (n : Nat) : blocksOf n = (n + 1023) / 1024 + if 12288 < n then 1 else 0 := rfl

lemma blocksOf_mono {m n : Nat} (h : m ≤ n) : blocksOf m ≤ blocksOf n := by
  rw [blocksOf_eq, blocksOf_eq]
  by_cases h1 : 12288 < m
  · rw [if_pos h1, if_pos (by omega)]
    omega
  rw [if_neg h1]
  split <;> omega

structure Laid (d : Disk) (X : Nat → Dinode) (fi fb : Nat) (L : Nat → List UInt8) : Prop where
  slots : Slots d X fi fb
  fits : ∀ i < fi, (X i).Fits
  short : ∀ i < fi, (L i).length ≤ maxfile * bsize
  block : ∀ i bn, i < fi → bn < maxfile → ((X i).block d bn = 0 ↔ (L i).length ≤ bn * bsize)
  indirect : ∀ i < fi, ((X i).addr ndirect = 0 ↔ (L i).length ≤ ndirect * bsize)
  data : ∀ i bn k, i < fi → bn * bsize < (L i).length → k < bsize →
    (d ((X i).block d bn)).byte k = (L i).getD (bn * bsize + k) 0
  count : fb = nmeta + ∑ i ∈ Finset.range fi, blocksOf (L i).length

variable {d d' : Disk} {X X' : Nat → Dinode} {fi fb i j k b bn off sec : Nat}
  {L : Nat → List UInt8} {x : Dinode} {s s' : State} {E : Fail → Prop} {v : Block}
  {f : Nat → UInt8}

lemma sector_of_lt (h : sec < fssize) : sector sec = sec := by
  rw [fssize_eq] at h
  exact Nat.mod_eq_of_lt (by omega)

lemma wp_rsect {Q : Block → State → Prop} (hlen : s.len = fssize)
    (hdie : fssize ≤ sec → E .die) (hlt : sec < 2 ^ 22) (hok : sec < fssize → Q (s.img sec) s) :
    wp (rsect sec) s Q E := by
  have hsec : sector sec = sec := Nat.mod_eq_of_lt hlt
  rw [rsect, wp_bind, wp_get, hlen, hsec]
  refine wp_ite (fun h => wp_pure.mpr ?_) fun h => ?_
  · exact hok h
  rw [wp_throw]
  exact hdie (by omega)

lemma wp_wsect {Q : Unit → State → Prop} (hlen : s.len = fssize) (hlt : sec < fssize)
    (hok : Q () { s with img := update s.img sec v }) : wp (wsect sec v) s Q E := by
  rwa [wsect, wp_modify, sector_of_lt hlt, hlen, max_eq_left (by omega), ← hlen]

lemma wp_nextBlock {Q : Nat → State → Prop} (hfb : s.freeblock < 2 ^ 32 - 1)
    (hok : Q s.freeblock { s with freeblock := s.freeblock + 1 }) : wp nextBlock s Q E := by
  have hmod : (s.freeblock + 1) % 2 ^ 32 = s.freeblock + 1 := Nat.mod_eq_of_lt (by omega)
  rwa [nextBlock, wp_bind, wp_get, wp_bind, wp_set, wp_pure, hmod]

structure Located (s s' : State) (X : Nat → Dinode) (fi i bn : Nat) (x : Dinode) (b : Nat) :
    Prop where
  frame : s' = { s with img := s'.img, freeblock := s'.freeblock }
  slots : Slots s'.img (update X i x) fi s'.freeblock
  same : x = { X i with addrs := x.addrs }
  fits : x.Fits
  here : x.block s'.img bn = b
  other : ∀ bn' < maxfile, bn' ≠ bn → x.block s'.img bn' = (X i).block s.img bn'
  indirect : x.addr ndirect = 0 ↔ (X i).addr ndirect = 0 ∧ bn < ndirect
  disk : ∀ c ≠ x.addr ndirect, s'.img c = s.img c
  low : ∀ c < nmeta, s'.img c = s.img c
  pos : b ≠ 0

def newBlocks (off : Nat) : Nat := blocksOf ((off / bsize + 1) * bsize) - blocksOf off

lemma newBlocks_of_mod (h : off % bsize ≠ 0) : newBlocks off = 0 := by
  rw [bsize_eq] at h
  rw [newBlocks, blocksOf_eq, blocksOf_eq, bsize_eq]
  by_cases h1 : 12288 < off
  · rw [if_pos (by omega), if_pos h1]
    omega
  rw [if_neg (by omega), if_neg h1]
  omega

lemma newBlocks_of_ne (h : off % bsize = 0) (hne : off / bsize ≠ ndirect) :
    newBlocks off = 1 := by
  rw [bsize_eq] at h
  rw [bsize_eq, ndirect_eq] at hne
  rw [newBlocks, blocksOf_eq, blocksOf_eq, bsize_eq]
  by_cases h1 : 12288 < off
  · rw [if_pos (by omega), if_pos h1]
    omega
  rw [if_neg (by omega), if_neg h1]
  omega

lemma newBlocks_of_eq (h : off % bsize = 0) (he : off / bsize = ndirect) : newBlocks off = 2 := by
  rw [bsize_eq] at h
  rw [bsize_eq, ndirect_eq] at he
  rw [newBlocks, blocksOf_eq, blocksOf_eq, bsize_eq, if_pos (by omega), if_neg (by omega)]
  omega

lemma fileSlot_direct (h : bn < ndirect) : fileSlot bn = bn := if_pos h
lemma fileSlot_entry (h : ndirect ≤ bn) : fileSlot bn = bn + 1 := if_neg (by omega)

lemma block_direct (h : bn < ndirect) : x.block d bn = x.addr bn := by
  rw [Dinode.block, fileSlot_direct h, slot_direct (by omega)]

lemma block_entry (h : ndirect ≤ bn) (hx : x.addr ndirect ≠ 0) :
    x.block d bn = (d (x.addr ndirect)).word (bn - ndirect) := by
  rw [Dinode.block, fileSlot_entry h, slot_entry (by omega) hx, Nat.add_sub_add_right]

lemma Slots.located (h : Slots s.img X fi s.freeblock) (hfits : (X i).Fits)
    (hb : (X i).block s.img bn ≠ 0) (hind : ndirect ≤ bn → (X i).addr ndirect ≠ 0) :
    Located s s X fi i bn (X i) ((X i).block s.img bn) where
  frame := rfl
  slots := by rwa [update_eq_self]
  same := rfl
  fits := hfits
  here := rfl
  other _ _ _ := rfl
  indirect := by
    refine ⟨fun h0 => ⟨h0, ?_⟩, fun h0 => h0.1⟩
    by_contra hge
    exact hind (by omega) h0
  disk _ _ := rfl
  low _ _ := rfl
  pos := hb

lemma Slots.located_direct (h : Slots s.img X fi s.freeblock) (hfits : (X i).Fits)
    (hbn : bn < ndirect) (h0 : (X i).addr bn = 0) (hfb : s.freeblock < 2 ^ 32) :
    Located s { s with freeblock := s.freeblock + 1 } X fi i bn ((X i).setAddr bn s.freeblock)
      s.freeblock where
  frame := rfl
  slots := (h.setAddr (by omega) h0).1
  same := rfl
  fits := hfits.setAddr hfb
  here := by rw [Dinode.block, (h.setAddr (by omega) h0).2, fileSlot_direct hbn, if_pos rfl]
  other bn' _ hne := by
    rw [Dinode.block, (h.setAddr (by omega) h0).2, if_neg (fun e => hne ?_), Dinode.block]
    rw [← fileSlot_direct hbn] at e
    exact fileSlot_inj e
  indirect := by
    rw [addr_ne_of_addrs le_rfl (by omega)]
    exact ⟨fun h0 => ⟨h0, hbn⟩, fun h0 => h0.1⟩
  disk _ _ := rfl
  low _ _ := rfl
  pos := h.fb_ne_zero

def withEntry (d : Disk) (ind j b : Nat) : Disk := update d ind ((d ind).setWord j b)

section
variable (h : Slots s.img X fi s.freeblock) (hfits : (X i).Fits) (hi : i < fi)
include h hfits hi

lemma Slots.located_entry (hbn : ndirect ≤ bn) (hmax : bn < maxfile)
    (hind : (X i).addr ndirect ≠ 0) (hfb : s.freeblock < 2 ^ 32)
    (hd : d = withEntry s.img ((X i).addr ndirect) (bn - ndirect) s.freeblock) :
    Located s { s with img := d, freeblock := s.freeblock + 1 } X fi i bn (X i) s.freeblock := by
  have hslot := fileSlot_lt hmax
  have hset := h.setWord hi (by rw [fileSlot_entry hbn]; omega) hslot hind hfb
  rw [fileSlot_entry hbn, Nat.add_sub_add_right] at hset
  have hrange := h.range i ndirect hi (by decide) (by rwa [slot_direct (le_refl _)])
  rw [slot_direct le_rfl] at hrange
  have hdisk : ∀ c ≠ (X i).addr ndirect, d c = s.img c := by
    intro c hc
    rw [hd]
    exact update_of_ne hc _ _
  refine ⟨rfl, ?_, rfl, hfits, ?_, fun bn' hlt hne => ?_, ?_, hdisk,
    fun c hc => hdisk c (by omega), h.fb_ne_zero⟩
  · rw [update_eq_self, hd]
    exact hset.1
  · rw [fileSlot_entry hbn] at hslot
    rw [Dinode.block, fileSlot_entry hbn, hd]
    exact (hset.2 _ hslot).trans (if_pos rfl)
  · rw [Dinode.block, Dinode.block, hd]
    refine (hset.2 _ (fileSlot_lt hlt)).trans (if_neg (fun e => hne ?_))
    rw [← fileSlot_entry hbn] at e
    exact fileSlot_inj e
  exact ⟨fun h0 => absurd h0 hind, fun h0 => h0.1⟩

lemma Slots.located_indirect (h0 : (X i).addr ndirect = 0) (hfb : s.freeblock + 1 < 2 ^ 32)
    (hx : x = (X i).setAddr ndirect s.freeblock)
    (hd : d = withEntry s.img s.freeblock 0 (s.freeblock + 1)) :
    Located s { s with img := d, freeblock := s.freeblock + 1 + 1 } X fi i ndirect x
      (s.freeblock + 1) := by
  obtain ⟨hslots, hslot⟩ := h.setAddr (le_refl _) h0
  have haddr : x.addr ndirect = s.freeblock := by rw [hx, addr_setAddr (by omega), if_pos rfl]
  have hne : x.addr ndirect ≠ 0 := by
    rw [haddr]
    exact h.fb_ne_zero
  have hxi : update X i x i = x := update_self _ _ _
  rw [← hx] at hslots hslot
  have hfits' : x.Fits := by
    rw [hx]
    exact hfits.setAddr (by omega)
  have hloc := Slots.located_entry (s := { s with freeblock := s.freeblock + 1 }) hslots
    (by rw [hxi]; exact hfits') hi (le_refl _) (by decide) (by rw [hxi]; exact hne) hfb
    (d := d) (by rw [hxi, haddr, Nat.sub_self]; exact hd)
  rw [hxi] at hloc
  refine ⟨rfl, ?_, by rw [hx]; rfl, hfits', hloc.here, fun bn' hlt hbn => ?_, ?_, hloc.disk,
    hloc.low, hloc.pos⟩
  · have hs := hloc.slots
    rwa [update_idem] at hs
  · rw [hloc.other bn' hlt hbn, hxi, Dinode.block, hslot, if_neg fileSlot_ne, Dinode.block]
  exact ⟨fun hz => absurd hz hne, fun hz => absurd hz.2 (lt_irrefl _)⟩
end

structure Finds (s s' : State) (X : Nat → Dinode) (fi i : Nat) (l : List UInt8) (k : Nat)
    (r : Dinode × Nat) : Prop where
  len : s'.len = fssize
  full : fssize < s.freeblock + k → fssize ≤ r.2 ∧ r.2 < 2 ^ 22
  freeblock : s.freeblock + k ≤ fssize → s'.freeblock = s.freeblock + k
  located : s.freeblock + k ≤ fssize → Located s s' X fi i (l.length / bsize) r.1 r.2
  below : s.freeblock + k ≤ fssize → r.2 < fssize
  bytes : s.freeblock + k ≤ fssize → ∀ o, o < bsize →
    (s'.img r.2).byte o = l.getD (l.length / bsize * bsize + o) 0

lemma byte_behind {l : List UInt8} (hmod : l.length % bsize = 0) (hv : v = .zero) (o : Nat)
    (_ : o < bsize) : v.byte o = l.getD (l.length / bsize * bsize + o) 0 := by
  rw [hv, Block.byte_zero, getD_eq_default _ _ (by
    rw [Nat.div_mul_cancel (Nat.dvd_of_mod_eq_zero hmod)]
    omega)]

section BlockFor
variable (h : Laid s.img X fi s.freeblock L) (hlen : s.len = fssize) (hfb : s.freeblock ≤ fssize)
  (hi : i < fi) (hmax : (L i).length / bsize < maxfile)

include h hlen hfb hi hmax

lemma Laid.wp_blockFor_old (hmod : (L i).length % bsize ≠ 0) :
    wp (blockFor (X i) ((L i).length / bsize)) s (fun r s' => Finds s s' X fi i (L i) 0 r) E := by
  have hdiv := Nat.div_add_mod (L i).length bsize
  have hb : (X i).block s.img ((L i).length / bsize) ≠ 0 := by
    rw [ne_eq, h.block i _ hi hmax, mul_comm]
    omega
  have hind : ndirect ≤ (L i).length / bsize → (X i).addr ndirect ≠ 0 := by
    intro hge
    rw [ne_eq, h.indirect i hi]
    have := Nat.mul_le_mul_left bsize hge
    rw [mul_comm]
    omega
  have hrange := h.slots.range i _ hi (fileSlot_lt hmax) hb
  have hfind : Finds s s X fi i (L i) 0 (X i, (X i).block s.img ((L i).length / bsize)) := by
    refine ⟨hlen, by omega, by omega, fun _ => h.slots.located (h.fits i hi) hb hind,
      fun _ => lt_of_lt_of_le hrange.2 hfb, fun _ o ho => h.data i _ o hi ?_ ho⟩
    rw [mul_comm]
    omega
  unfold blockFor
  by_cases hd : (L i).length / bsize < ndirect
  · rw [block_direct hd] at hb hfind
    rwa [if_pos hd, if_neg hb, wp_pure]
  have hge : ndirect ≤ (L i).length / bsize := by omega
  have hirange := h.slots.range i ndirect hi (by decide)
    (by rw [slot_direct le_rfl]; exact hind hge)
  rw [slot_direct le_rfl] at hirange
  rw [block_entry hge (hind hge)] at hb hfind
  rw [if_neg hd, if_neg (hind hge), wp_bind, wp_pure, wp_bind]
  refine wp_rsect hlen (by omega) (by rw [fssize_eq] at hfb; omega) fun _ => ?_
  rwa [if_neg hb, wp_pure]

lemma Laid.wp_blockFor_direct (hmod : (L i).length % bsize = 0)
    (hd : (L i).length / bsize < ndirect) :
    wp (blockFor (X i) ((L i).length / bsize)) s (fun r s' => Finds s s' X fi i (L i) 1 r) E := by
  have h0 : (X i).addr ((L i).length / bsize) = 0 := by
    have hz := (h.block i _ hi hmax).mpr (by rw [Nat.div_mul_cancel (Nat.dvd_of_mod_eq_zero hmod)])
    rwa [block_direct hd] at hz
  have hlt : s.freeblock < 2 ^ 32 - 1 := by
    rw [fssize_eq] at hfb
    omega
  unfold blockFor
  rw [if_pos hd, if_pos h0, wp_bind]
  refine wp_nextBlock hlt (wp_pure.mpr ⟨hlen, fun hfull => ⟨by omega, ?_⟩, fun _ => rfl,
    fun _ => h.slots.located_direct (h.fits i hi) hd h0 (by omega), fun hroom => by omega,
    fun _ => byte_behind hmod (h.slots.fresh _ le_rfl)⟩)
  rw [fssize_eq] at hfb
  omega

lemma Laid.wp_blockFor_entry (hmod : (L i).length % bsize = 0)
    (hd : ndirect < (L i).length / bsize) :
    wp (blockFor (X i) ((L i).length / bsize)) s (fun r s' => Finds s s' X fi i (L i) 1 r) E := by
  have hdm := Nat.div_mul_cancel (Nat.dvd_of_mod_eq_zero hmod)
  have hind : (X i).addr ndirect ≠ 0 := by
    rw [ne_eq, h.indirect i hi, ← hdm]
    exact not_le.mpr (Nat.mul_lt_mul_of_pos_right hd (by decide))
  have h0 : (s.img ((X i).addr ndirect)).word ((L i).length / bsize - ndirect) = 0 := by
    have hz := (h.block i _ hi hmax).mpr (by rw [hdm])
    rwa [block_entry (by omega) hind] at hz
  have hlt : s.freeblock < 2 ^ 32 - 1 := by
    rw [fssize_eq] at hfb
    omega
  have hirange := h.slots.range i ndirect hi (by decide)
    (by rwa [slot_direct (le_refl _)])
  rw [slot_direct le_rfl] at hirange
  have hloc := h.slots.located_entry (h.fits i hi) hi (by omega) hmax hind (by omega) rfl
  unfold blockFor
  rw [if_neg (by omega), if_neg hind, wp_bind, wp_pure, wp_bind]
  refine wp_rsect hlen (by omega) (by rw [fssize_eq] at hfb; omega) fun _ => ?_
  rw [if_pos h0, wp_bind]
  refine wp_nextBlock hlt ?_
  rw [wp_bind]
  refine wp_wsect hlen (by omega) (wp_pure.mpr ⟨hlen, fun hfull => ⟨by omega, ?_⟩, fun _ => rfl,
    fun _ => hloc, fun hroom => by omega, fun _ => byte_behind hmod ?_⟩)
  · rw [fssize_eq] at hfb
    omega
  exact (update_of_ne (by omega) _ _).trans (h.slots.fresh _ le_rfl)

omit hmax in
lemma Laid.wp_blockFor_indirect (hmod : (L i).length % bsize = 0)
    (hd : (L i).length / bsize = ndirect) (hdie : fssize < s.freeblock + 2 → E .die) :
    wp (blockFor (X i) ((L i).length / bsize)) s (fun r s' => Finds s s' X fi i (L i) 2 r) E := by
  have hdm := Nat.div_mul_cancel (Nat.dvd_of_mod_eq_zero hmod)
  have h0 : (X i).addr ndirect = 0 := by rw [h.indirect i hi, ← hd, hdm]
  have hlt : s.freeblock + 1 < 2 ^ 22 := by
    rw [fssize_eq] at hfb
    omega
  have hzero := h.slots.fresh s.freeblock (le_refl _)
  have haddr : ((X i).setAddr ndirect s.freeblock).addr ndirect = s.freeblock := by
    rw [addr_setAddr (by omega), if_pos rfl]
  have hloc := h.slots.located_indirect (h.fits i hi) hi h0 (by omega) rfl rfl
  unfold blockFor
  rw [hd, if_neg (lt_irrefl _), if_pos h0, wp_bind, wp_bind]
  refine wp_nextBlock (by omega) ?_
  rw [wp_pure, wp_bind, haddr]
  refine wp_rsect hlen (fun hge => hdie (by omega)) (by omega) fun hroom => ?_
  dsimp only
  rw [hzero, Block.word_zero, if_pos rfl, wp_bind]
  refine wp_nextBlock (by show s.freeblock + 1 < _; omega) ?_
  rw [wp_bind]
  refine wp_wsect hlen hroom (wp_pure.mpr ⟨hlen, fun hfull => ⟨?_, hlt⟩, fun _ => rfl,
    fun _ => ?_, fun hroom => ?_, fun _ => byte_behind hmod ?_⟩)
  · show fssize ≤ s.freeblock + 1
    omega
  · rw [hd, Nat.sub_self]
    rw [withEntry, hzero] at hloc
    exact hloc
  · show s.freeblock + 1 < fssize
    omega
  exact (update_of_ne (Nat.succ_ne_self _) _ _).trans (h.slots.fresh _ (Nat.le_succ _))

lemma Laid.wp_blockFor (hdie : fssize < s.freeblock + newBlocks (L i).length → E .die) :
    wp (blockFor (X i) ((L i).length / bsize)) s
      (fun r s' => Finds s s' X fi i (L i) (newBlocks (L i).length) r) E := by
  by_cases hmod : (L i).length % bsize = 0
  · rcases Nat.lt_trichotomy ((L i).length / bsize) ndirect with hd | hd | hd
    · rw [newBlocks_of_ne hmod (by omega)]
      exact h.wp_blockFor_direct hlen hfb hi hmax hmod hd
    · rw [newBlocks_of_eq hmod hd] at hdie ⊢
      exact h.wp_blockFor_indirect hlen hfb hi hmod hd hdie
    rw [newBlocks_of_ne hmod (by omega)]
    exact h.wp_blockFor_entry hlen hfb hi hmax hmod hd
  rw [newBlocks_of_mod hmod]
  exact h.wp_blockFor_old hlen hfb hi hmax hmod
end BlockFor

lemma Slots.congr (h : Slots d X fi fb)
    (hslot : ∀ j l, j < fi → l < nslot → (X' j).slot d' l = (X j).slot d l)
    (hfresh : ∀ b, fb ≤ b → d' b = d b) : Slots d' X' fi fb where
  low := h.low
  range j l hj hl hne := by
    rw [hslot j l hj hl] at hne ⊢
    exact h.range j l hj hl hne
  once j j' l l' hj hj' hl hl' hne he := by
    rw [hslot j l hj hl] at hne he
    rw [hslot j' l' hj' hl'] at he
    exact h.once j j' l l' hj hj' hl hl' hne he
  fresh b hb := by rw [hfresh b hb, h.fresh b hb]

lemma sum_update {f : List UInt8 → Nat} {l : List UInt8} (hi : i < fi) {k : Nat}
    (hl : f l = f (L i) + k) :
    ∑ j ∈ Finset.range fi, f (update L i l j) = ∑ j ∈ Finset.range fi, f (L j) + k := by
  have hmem := Finset.mem_range.mpr hi
  rw [← Finset.add_sum_erase _ _ hmem, ← Finset.add_sum_erase (Finset.range fi) _ hmem,
    update_self, hl]
  have hrest : ∑ j ∈ (Finset.range fi).erase i, f (update L i l j) =
      ∑ j ∈ (Finset.range fi).erase i, f (L j) :=
    Finset.sum_congr rfl fun j hj => by rw [update_of_ne (Finset.ne_of_mem_erase hj)]
  rw [hrest]
  omega

lemma blocksOf_append {n m : Nat} (hm : 0 < m) (hfit : n % bsize + m ≤ bsize) :
    blocksOf (n + m) = blocksOf n + newBlocks n := by
  have hle : blocksOf n ≤ blocksOf ((n / bsize + 1) * bsize) :=
    blocksOf_mono (by rw [bsize_eq]; omega)
  have he : blocksOf (n + m) = blocksOf ((n / bsize + 1) * bsize) := by
    rw [bsize_eq] at hfit ⊢
    rw [blocksOf_eq, blocksOf_eq]
    by_cases h1 : 12288 < n + m
    · rw [if_pos h1, if_pos (by omega)]
      omega
    rw [if_neg h1, if_neg (by omega)]
    omega
  rw [he, newBlocks]
  omega

lemma byte_fill {v : Block} {off n o : Nat} (ho : o < bsize) :
    (fill v off n f).byte o = if off ≤ o ∧ o < off + n then f (o - off) else v.byte o := by
  rw [fill, Block.byte_ofBytes ho]

lemma Located.slot_other (hloc : Located s s' X fi i bn x b) (hi : i < fi) (hj : j < fi)
    (hji : j ≠ i) : (X j).slot s'.img k = (X j).slot s.img k := by
  have hns : ndirect < nslot := by decide
  refine slot_congr rfl fun hne => hloc.disk _ (fun e => hji ?_)
  have hdi : (update X i x i).slot s'.img ndirect = x.addr ndirect := by
    rw [update_self, slot_direct le_rfl]
  have hdj : (update X i x j).slot s'.img ndirect = (X j).addr ndirect := by
    rw [update_of_ne hji, slot_direct le_rfl]
  exact (hloc.slots.once j i ndirect ndirect hj hi hns hns (by rwa [hdj])
    (by rw [hdj, hdi, e])).1

lemma Located.img_eq (hloc : Located s s' X fi i bn x b) (hi : i < fi) (hbn : bn < maxfile)
    (hj : j < fi) (hk : k < nslot) (hind : k ≠ ndirect) (hne : ¬(j = i ∧ k = fileSlot bn))
    (h0 : (update X i x j).slot s'.img k ≠ 0) :
    update s'.img b v ((update X i x j).slot s'.img k) =
      s.img ((update X i x j).slot s'.img k) := by
  have hb : (update X i x i).slot s'.img (fileSlot bn) = b := by
    rw [update_self]
    exact hloc.here
  have hdi : (update X i x i).slot s'.img ndirect = x.addr ndirect := by
    rw [update_self, slot_direct le_rfl]
  rw [update_of_ne (fun e => hne ?_), hloc.disk _ (fun e => hind ?_)]
  · exact (hloc.slots.once j i k ndirect hj hi hk (by decide) h0 (by rw [hdi, e])).2
  exact hloc.slots.once j i k _ hj hi hk (fileSlot_lt hbn) h0 (by rw [hb, e])

lemma lt_of_earlier {n m o : Nat} (h : bn * bsize < n + m) (hfit : n % bsize + m ≤ bsize)
    (hbn : bn ≠ n / bsize) (ho : o < bsize) : bn * bsize + o < n := by
  rw [bsize_eq] at h hfit hbn ho ⊢
  have hle : bn ≤ n / 1024 := by omega
  have hlt : bn + 1 ≤ n / 1024 := by omega
  calc bn * 1024 + o < (bn + 1) * 1024 := by rw [Nat.succ_mul]; exact Nat.add_lt_add_left ho _
    _ ≤ n / 1024 * 1024 := Nat.mul_le_mul_right _ hlt
    _ ≤ n := Nat.div_mul_le_self _ _

structure Appends (s s' : State) (X : Nat → Dinode) (fi i : Nat) (l q : List UInt8) (x : Dinode)
    (b : Nat) (v : Block) : Prop where
  located : Located s s' X fi i (l.length / bsize) x b
  freeblock : s'.freeblock = s.freeblock + newBlocks l.length
  max : l.length / bsize < maxfile
  some : 0 < q.length
  fit : l.length % bsize + q.length ≤ bsize
  bytes : ∀ o < bsize, v.byte o = (l ++ q).getD (l.length / bsize * bsize + o) 0

section Append
variable {q : List UInt8} (h : Laid s.img X fi s.freeblock L) (hi : i < fi)
  (ha : Appends s s' X fi i (L i) q x b v)

include hi ha

lemma Appends.slot (hj : j < fi) (k : Nat) :
    (update X i x j).slot (update s'.img b v) k = (update X i x j).slot s'.img k := by
  have hb : (update X i x i).slot s'.img (fileSlot ((L i).length / bsize)) = b := by
    rw [update_self]
    exact ha.located.here
  have hset := ha.located.slots.setBlock (v := v) hi (fileSlot_lt ha.max) fileSlot_ne
    (by rw [hb]; exact ha.located.pos) hj k
  rwa [hb] at hset

lemma Appends.slots : Slots (update s'.img b v) (update X i x) fi s'.freeblock := by
  refine ha.located.slots.congr (fun j l hj _ => ha.slot hi hj l) fun c hc => ?_
  have hb : (update X i x i).slot s'.img (fileSlot ((L i).length / bsize)) = b := by
    rw [update_self]
    exact ha.located.here
  have hlt := (ha.located.slots.range i _ hi (fileSlot_lt ha.max)
    (by rw [hb]; exact ha.located.pos)).2
  exact update_of_ne (by omega) _ _

include h

lemma Laid.block_append (hj : j < fi) (hbn : bn < maxfile) :
    (update X i x j).block (update s'.img b v) bn = 0 ↔
      (update L i (L i ++ q) j).length ≤ bn * bsize := by
  rw [Dinode.block, ha.slot hi hj]
  by_cases hji : j = i
  · rw [hji, update_self, update_self, length_append]
    have hfit := ha.fit
    have hsome := ha.some
    by_cases he : bn = (L i).length / bsize
    · have hhere := ha.located.here
      rw [Dinode.block, ← he] at hhere
      rw [hhere]
      refine ⟨fun h0 => absurd h0 ha.located.pos, fun hle => ?_⟩
      rw [he, bsize_eq] at hle
      omega
    have hother := ha.located.other bn hbn he
    have hold := h.block i bn hi hbn
    rw [← hother, Dinode.block] at hold
    rw [hold]
    rw [bsize_eq] at hfit he ⊢
    omega
  rw [update_of_ne hji, update_of_ne hji, ha.located.slot_other hi hj hji]
  exact h.block j bn hj hbn

lemma Laid.indirect_append (hj : j < fi) :
    (update X i x j).addr ndirect = 0 ↔ (update L i (L i ++ q) j).length ≤ ndirect * bsize := by
  by_cases hji : j = i
  · have hfit := ha.fit
    have hsome := ha.some
    rw [hji, update_self, update_self, length_append]
    rw [ha.located.indirect, h.indirect i hi]
    rw [bsize_eq] at hfit
    rw [ndirect_eq, bsize_eq]
    omega
  rw [update_of_ne hji, update_of_ne hji]
  exact h.indirect j hj

lemma Laid.data_append {o : Nat} (hj : j < fi)
    (hbn : bn * bsize < (update L i (L i ++ q) j).length) (ho : o < bsize) :
    (update s'.img b v ((update X i x j).block (update s'.img b v) bn)).byte o =
      (update L i (L i ++ q) j).getD (bn * bsize + o) 0 := by
  have hfit := ha.fit
  have hmax := ha.max
  have hlt : bn < maxfile := by
    by_cases hji : j = i
    · rw [hji, update_self, length_append] at hbn
      rw [bsize_eq] at *
      omega
    rw [update_of_ne hji] at hbn
    have hshort := h.short j hj
    rw [maxfile_eq, bsize_eq] at *
    omega
  have hne := mt (h.block_append hi ha hj hlt).mp (not_le.mpr hbn)
  rw [Dinode.block, ha.slot hi hj] at hne ⊢
  by_cases hlast : j = i ∧ bn = (L i).length / bsize
  · -- the block that was written
    obtain ⟨rfl, rfl⟩ := hlast
    have hhere := ha.located.here
    rw [Dinode.block] at hhere
    rw [update_self, update_self, hhere, update_self]
    exact ha.bytes o ho
  rw [ha.located.img_eq hi hmax hj (fileSlot_lt hlt) fileSlot_ne
    (fun e => hlast ⟨e.1, fileSlot_inj e.2⟩) hne]
  by_cases hji : j = i
  · have hbn' : bn ≠ (L i).length / bsize := fun e => hlast ⟨hji, e⟩
    have hother := ha.located.other bn hlt hbn'
    rw [Dinode.block] at hother
    rw [hji, update_self, length_append] at hbn
    rw [hji, update_self, update_self, hother]
    have hin := lt_of_earlier hbn hfit hbn' ho
    rw [getD_append _ _ _ _ hin]
    exact h.data i bn o hi (by omega) ho
  rw [update_of_ne hji] at hbn ⊢
  rw [update_of_ne hji, ha.located.slot_other hi hj hji]
  exact h.data j bn o hj hbn ho

lemma Laid.append : Laid (update s'.img b v) (update X i x) fi s'.freeblock
    (update L i (L i ++ q)) where
  slots := ha.slots hi
  fits j hj := by
    by_cases hji : j = i
    · rw [hji, update_self]
      exact ha.located.fits
    rw [update_of_ne hji]
    exact h.fits j hj
  short j hj := by
    by_cases hji : j = i
    · have hfit := ha.fit
      have hmax := ha.max
      rw [hji, update_self, length_append]
      rw [maxfile_eq] at *
      rw [bsize_eq] at *
      omega
    rw [update_of_ne hji]
    exact h.short j hj
  block j bn hj hbn := h.block_append hi ha hj hbn
  indirect j hj := h.indirect_append hi ha hj
  data j bn o hj hbn ho := h.data_append hi ha hj hbn ho
  count := by
    have hsum : ∑ j ∈ Finset.range fi, blocksOf (update L i (L i ++ q) j).length =
        ∑ j ∈ Finset.range fi, blocksOf (L j).length + newBlocks (L i).length := by
      refine sum_update (f := fun l => blocksOf l.length) hi ?_
      rw [length_append]
      exact blocksOf_append ha.some ha.fit
    calc s'.freeblock = s.freeblock + newBlocks (L i).length := ha.freeblock
      _ = _ := by rw [hsum, ← add_assoc, ← h.count]
end Append

structure Appended (s s' : State) (X : Nat → Dinode) (fi i : Nat) (L : Nat → List UInt8)
    (p : List UInt8) (r : Dinode × Nat) : Prop where
  off : r.2 = (L i).length + p.length
  same : r.1 = { X i with addrs := r.1.addrs }
  frame : s' = { s with img := s'.img, freeblock := s'.freeblock }
  room : s'.freeblock ≤ fssize
  laid : Laid s'.img (update X i r.1) fi s'.freeblock (update L i (L i ++ p))
  low : ∀ c < nmeta, s'.img c = s.img c

lemma Laid.appended_nil (h : Laid s.img X fi s.freeblock L) (hroom : s.freeblock ≤ fssize) :
    Appended s s X fi i L [] (X i, (L i).length) := by
  refine ⟨rfl, rfl, rfl, hroom, ?_, fun _ _ => rfl⟩
  rwa [append_nil, update_eq_self, update_eq_self]

lemma Appended.trans {s'' : State} {p q : List UInt8} {r r' : Dinode × Nat}
    (h : Appended s s' X fi i L p r)
    (h' : Appended s' s'' (update X i r.1) fi i (update L i (L i ++ p)) q r') :
    Appended s s'' X fi i L (p ++ q) r' where
  off := by rw [h'.off, update_self, length_append, length_append, add_assoc]
  same := by
    have hr := h'.same
    rw [update_self] at hr
    rw [hr, h.same]
  frame := by rw [h'.frame, h.frame]
  room := h'.room
  laid := by
    have hl := h'.laid
    rwa [update_idem, update_idem, update_self, append_assoc] at hl
  low c hc := by rw [h'.low c hc, h.low c hc]

lemma byte_appended {l q : List UInt8} {o : Nat}
    (hv : ∀ o < bsize, v.byte o = l.getD (l.length / bsize * bsize + o) 0)
    (hf : ∀ k < q.length, f k = q.getD k 0) (ho : o < bsize) :
    (fill v (l.length - l.length / bsize * bsize) q.length f).byte o =
      (l ++ q).getD (l.length / bsize * bsize + o) 0 := by
  have hle := Nat.div_mul_le_self l.length bsize
  rw [byte_fill ho]
  by_cases hin : l.length - l.length / bsize * bsize ≤ o ∧
      o < l.length - l.length / bsize * bsize + q.length
  · rw [if_pos hin, hf _ (by omega), getD_append_right _ _ _ _ (by omega)]
    congr 1
    omega
  rw [if_neg hin, hv o ho]
  by_cases hlo : l.length / bsize * bsize + o < l.length
  · rw [getD_append _ _ _ _ hlo]
  rw [getD_eq_default _ _ (by omega), getD_eq_default _ _ (by rw [length_append]; omega)]

lemma Laid.wp_round {q : List UInt8} {n : Nat} {K : Dinode × Nat → MkM (Dinode × Nat)}
    {Q : Dinode × Nat → State → Prop} (h : Laid s.img X fi s.freeblock L) (hlen : s.len = fssize)
    (hroom : s.freeblock ≤ fssize) (hi : i < fi) (hmax : (L i).length / bsize < maxfile)
    (hdie : fssize < s.freeblock + newBlocks (L i).length → E .die) (hn : q.length = n)
    (hq : 0 < n) (hfit : (L i).length % bsize + n ≤ bsize) (hf : ∀ k < n, f k = q.getD k 0)
    (hK : ∀ r s', Appended s s' X fi i L q (r.1, (L i).length + n) →
      s'.freeblock = s.freeblock + newBlocks (L i).length → wp (K r) s' Q E) :
    wp (blockFor (X i) ((L i).length / bsize) >>= fun r => rsect r.2 >>= fun buf =>
      wsect r.2 (fill buf ((L i).length - (L i).length / bsize * bsize) n f) >>= fun _ => K r)
      s Q E := by
  subst hn
  refine wp_bind_of (h.wp_blockFor hlen hroom hi hmax hdie) fun r s' hr => ?_
  rw [wp_bind]
  by_cases hfull : fssize < s.freeblock + newBlocks (L i).length
  · obtain ⟨hge, hlt⟩ := hr.full hfull
    exact wp_rsect hr.len (fun _ => hdie hfull) hlt (by omega)
  have hfull : s.freeblock + newBlocks (L i).length ≤ fssize := by omega
  have hbelow := hr.below hfull
  have hloc := hr.located hfull
  have hfb := hr.freeblock hfull
  refine wp_rsect hr.len (by omega) (by rw [fssize_eq] at hbelow; omega) fun _ => ?_
  rw [wp_bind]
  refine wp_wsect hr.len hbelow (hK r _ ?_ hfb)
  have happ : Appends s s' X fi i (L i) q r.1 r.2
      (fill (s'.img r.2) ((L i).length - (L i).length / bsize * bsize) q.length f) :=
    ⟨hloc, hfb, hmax, hq, hfit, fun o ho => byte_appended (hr.bytes hfull) hf ho⟩
  have hb : (update X i r.1 i).slot s'.img (fileSlot ((L i).length / bsize)) = r.2 := by
    rw [update_self]
    exact hloc.here
  have hge := (hloc.slots.range i _ hi (fileSlot_lt hmax) (by rw [hb]; exact hloc.pos)).1
  rw [hb] at hge
  refine ⟨rfl, hloc.same, by rw [hloc.frame], ?_, h.append hi happ, fun c hc => ?_⟩
  · show s'.freeblock ≤ fssize
    omega
  show update s'.img r.2 _ c = _
  rw [update_of_ne (by omega), hloc.low c hc]

lemma wp_iappendLoop (hi : i < fi) :
    ∀ fuel p s X L, p.length ≤ fuel → Laid s.img X fi s.freeblock L → s.len = fssize →
      s.freeblock ≤ fssize → (maxfile * bsize < (L i).length + p.length → E .assertion) →
      (fssize < s.freeblock + (blocksOf ((L i).length + p.length) - blocksOf (L i).length) →
        E .die) →
      wp (iappendLoop fuel (X i) (L i).length p) s (fun r s' => Appended s s' X fi i L p r) E := by
  intro fuel
  induction fuel with
  | zero =>
    intro p s X L hp h _ hroom _ _
    rw [length_eq_zero_iff.mp (Nat.le_zero.mp hp), iappendLoop, wp_pure]
    exact h.appended_nil hroom
  | succ fuel ih =>
    intro p s X L hp h hlen hroom hassert hdie
    rw [iappendLoop]
    by_cases hnil : p = []
    · rw [if_pos hnil, wp_pure, hnil]
      exact h.appended_nil hroom
    have hpos : 0 < p.length := length_pos_iff.mpr hnil
    rw [if_neg hnil]
    refine wp_ite (fun hmax => ?_) fun hmax => ?_
    · rw [wp_throw]
      refine hassert ?_
      rw [maxfile_eq, bsize_eq] at *
      omega
    have hbs : bsize = 1024 := bsize_eq
    have hlast : (L i).length % bsize < bsize := Nat.mod_lt _ (by decide)
    have hdm : (L i).length / bsize * bsize + (L i).length % bsize = (L i).length := by
      rw [mul_comm]
      exact Nat.div_add_mod _ _
    generalize hn : min p.length (((L i).length / bsize + 1) * bsize - (L i).length) = n
    have hsucc : ((L i).length / bsize + 1) * bsize = (L i).length / bsize * bsize + bsize :=
      Nat.succ_mul _ _
    have hfit : (L i).length % bsize + n ≤ bsize := by omega
    have hn0 : 0 < n := by omega
    have hnp : n ≤ p.length := by omega
    have htake : (p.take n).length = n := by rw [length_take, min_eq_left hnp]
    have hdrop : (p.drop n).length = p.length - n := length_drop
    have hblocks := blocksOf_append hn0 hfit
    have hmono : blocksOf ((L i).length + n) ≤ blocksOf ((L i).length + p.length) :=
      blocksOf_mono (by omega)
    refine h.wp_round hlen hroom hi (not_le.mp hmax) (fun hfull => hdie (by omega)) htake hn0
      hfit (fun k hk => ?_) (fun r s' hr hfb => ?_)
    · rw [getD_eq_getElem?_getD, getD_eq_getElem?_getD, getElem?_take_of_lt hk]
    have hL : (update L i (L i ++ p.take n) i).length = (L i).length + n := by
      rw [update_self, length_append, htake]
    have hnext := ih (p.drop n) s' (update X i r.1) (update L i (L i ++ p.take n))
      (by omega) hr.laid (by rw [hr.frame]; exact hlen) hr.room
      (fun hlt => hassert (by rw [hL, hdrop] at hlt; omega))
      (fun hlt => hdie (by
        rw [hL, hdrop, hfb] at hlt
        have he : (L i).length + n + (p.length - n) = (L i).length + p.length := by omega
        rw [he] at hlt
        omega))
    rw [hL, update_self] at hnext
    refine wp_imp hnext fun r' s'' hr' => ?_
    have htrans := hr.trans hr'
    rwa [take_append_drop] at htrans
end Xv6.Mkfs
