import Xv6.Fs.Owned

namespace Xv6.Fs
open State
variable {sb : Superblock} {s s' t : State} {ip : Fin ninode} {i j : Nat} {spare : List Nat}
  {x : Dinode} {k : Fin ninode}

def SameRefs (s s' : State) : Prop :=
  ∀ k, (s'.itable k).ref = (s.itable k).ref ∧ (s'.itable k).inum = (s.itable k).inum ∧
    (s'.itable k).valid = (s.itable k).valid

lemma SameRefs.refl : SameRefs s s := fun _ => ⟨rfl, rfl, rfl⟩

lemma SameRefs.trans (h : SameRefs s t) (h' : SameRefs t s') : SameRefs s s' := fun k =>
  ⟨(h' k).1.trans (h k).1, (h' k).2.1.trans (h k).2.1, (h' k).2.2.trans (h k).2.2⟩

lemma SameRefs.open_iff (h : SameRefs s s') : s'.Open k i ↔ s.Open k i := by
  unfold State.Open
  rw [(h k).1, (h k).2.1, (h k).2.2]

lemma content_congr (hslot : ∀ p, s'.slot sb p = s.slot sb p)
    (hdisk : ∀ c, sb.InData c → s'.disk c = s.disk c) (h : Owned sb s spare) (j o : Nat) :
    s'.content sb j o = s.content sb j o := by
  unfold State.content
  rw [hslot]
  by_cases h0 : s.slot sb (j, fileSlot (o / bsize)) = 0
  · rw [if_pos h0, if_pos h0]
  rw [if_neg h0, if_neg h0, hdisk _ (h.ledger.slot_area _ h0)]

def State.put (s : State) (sb : Superblock) (ip : Fin ninode) (x : Dinode) : State :=
  (s.setCopy ip x).iupdate sb ip

lemma itable_put_self : (s.put sb ip x).itable ip = { s.itable ip with copy := x } :=
  itable_setCopy_self

lemma itable_put_of_ne (h : k ≠ ip) : (s.put sb ip x).itable k = s.itable k :=
  itable_setCopy_of_ne h

lemma sameRefs_put : SameRefs s (s.put sb ip x) := by
  intro k
  by_cases h : k = ip
  · rw [h, itable_put_self]
    exact ⟨rfl, rfl, rfl⟩
  rw [itable_put_of_ne h]
  exact ⟨rfl, rfl, rfl⟩

lemma copy_put (h : Table s sb) (hip : s.Open ip i) (hk : s.Open k j) :
    ((s.put sb ip x).itable k).copy = if j = i then x else (s.itable k).copy := by
  by_cases hkp : k = ip
  · have hji : j = i := by
      rw [hkp] at hk
      exact hk.2.2.symm.trans hip.2.2
    rw [if_pos hji, hkp, itable_put_self]
  have hji : j ≠ i := fun e => hkp (h.eq_of_open (e ▸ hk) hip)
  rw [if_neg hji, itable_put_of_ne hkp]

lemma ino_put (h : Table s sb) (hip : s.Open ip i) (hx : x.Fits) :
    (s.put sb ip x).ino sb j = if j = i then x else s.ino sb j := by
  rw [State.put, ino_iupdate (h.setCopy hx) (open_setCopy.mpr hip), ino_setCopy h hip hx]

lemma dinode_put (hip : s.Open ip i) (hx : x.Fits) :
    sb.dinode (s.put sb ip x).disk j = if j = i then x else sb.dinode s.disk j := by
  rw [State.put, dinode_iupdate (open_setCopy.mpr hip) (by rwa [itable_setCopy_self]),
    itable_setCopy_self]
  rfl

lemma disk_put (ok : sb.Ok) (h : Table s sb) (hip : s.Open ip i) (hx : x.Fits) {c : Nat}
    (hc : sb.InData c) : (s.put sb ip x).disk c = s.disk c :=
  disk_iupdate_of_data ok (h.setCopy hx) (open_setCopy.mpr hip) hc

section
variable (ok : sb.Ok) (h : Owned sb s spare) (hip : s.Open ip i) (hx : x.Fits)
  (haddrs : x.addrs = (s.itable ip).copy.addrs) (htype : x.type = 0 ↔ (s.itable ip).copy.type = 0)
include ok h hip hx haddrs htype

lemma slot_put (p : Nat × Nat) : (s.put sb ip x).slot sb p = s.slot sb p := by
  have howned := h.setCopy hip hx haddrs htype
  have hip' : (s.setCopy ip x).Open ip i := open_setCopy.mpr hip
  rw [← slot_setCopy h hip hx haddrs htype p]
  exact slot_congr (fun _ => ino_iupdate howned.table hip') fun hp ht ha =>
    disk_iupdate_of_data ok howned.table hip' (howned.indirect_data hp ht ha)

lemma Owned.put : Owned sb (s.put sb ip x) spare :=
  (h.setCopy hip hx haddrs htype).iupdate ok (open_setCopy.mpr hip)

lemma content_put (j o : Nat) : (s.put sb ip x).content sb j o = s.content sb j o :=
  content_congr (slot_put ok h hip hx haddrs htype) (fun _ hc => disk_put ok h.table hip hx hc) h j
    o
end

def State.Full (s : State) (sb : Superblock) (i size : Nat) : Prop :=
  ∀ o < size, o / bsize < maxfile ∧ s.slot sb (i, fileSlot (o / bsize)) ≠ 0

/-- The invariant between calls. -/
structure Good (sb : Superblock) (s : State) : Prop where
  owned : Owned sb s []
  typed : ∀ k i, s.Open k i → (s.itable k).copy.type ≠ 0
  synced : ∀ k i, s.Open k i → (s.itable k).copy = sb.dinode s.disk i
  full : ∀ i < sb.ninodes, (s.ino sb i).type ≠ 0 → s.Full sb i (s.ino sb i).size

structure Busy (sb : Superblock) (ip : Fin ninode) (i : Nat) (s : State) : Prop where
  owned : Owned sb s []
  isOpen : s.Open ip i
  typed : ∀ k i, s.Open k i → (s.itable k).copy.type ≠ 0
  synced : ∀ k j, s.Open k j → k ≠ ip → (s.itable k).copy = sb.dinode s.disk j
  full : ∀ j < sb.ninodes, j ≠ i → (s.ino sb j).type ≠ 0 → s.Full sb j (s.ino sb j).size

lemma Good.busy (h : Good sb s) (hip : s.Open ip i) : Busy sb ip i s :=
  ⟨h.owned, hip, h.typed, fun k j hk _ => h.synced k j hk, fun j hj _ => h.full j hj⟩

lemma Busy.put (ok : sb.Ok) (h : Busy sb ip i s) (hx : x.Fits)
    (haddrs : x.addrs = (s.itable ip).copy.addrs) (htype : x.type ≠ 0)
    (hfull : s.Full sb i x.size) : Good sb (s.put sb ip x) := by
  have hiff : x.type = 0 ↔ (s.itable ip).copy.type = 0 :=
    iff_of_false htype (h.typed ip i h.isOpen)
  have hslot := slot_put ok h.owned h.isOpen hx haddrs hiff
  refine ⟨h.owned.put ok h.isOpen hx haddrs hiff, fun k j hk => ?_, fun k j hk => ?_,
    fun j hj ht o ho => ?_⟩
  · have hk := sameRefs_put.open_iff.mp hk
    rw [copy_put h.owned.table h.isOpen hk]
    split
    · exact htype
    exact h.typed k j hk
  · have hk := sameRefs_put.open_iff.mp hk
    rw [copy_put h.owned.table h.isOpen hk, dinode_put h.isOpen hx]
    split
    · rfl
    rename_i hji
    exact h.synced k j hk fun e => hji (by rw [e] at hk; exact hk.2.2.symm.trans h.isOpen.2.2)
  rw [hslot]
  rw [ino_put h.owned.table h.isOpen hx] at ht ho
  by_cases hji : j = i
  · rw [if_pos hji] at ho
    rw [hji]
    exact hfull o ho
  rw [if_neg hji] at ht ho
  exact h.full j hj hji ht o ho
end Xv6.Fs
