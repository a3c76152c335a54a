import Xv6.Fs.Write

namespace Xv6.Fs
open State Lib List
variable {sb : Superblock} {s t t' : State} {ip : Fin ninode} {i off n k b : Nat}
  {src : Nat → Option UInt8} {E : Panic → Prop}

lemma Grow.log (ok : sb.Ok) (h : Owned sb t []) (hip : t.Open ip i)
    (ht : (t.itable ip).copy.type ≠ 0) (hg : Grow sb ip t k t') :
    ∃ b < sb.size, sb.bit t.disk b = false ∧
      (∀ c < sb.size, sb.bit t'.disk c = (decide (c = b) || sb.bit t.disk c)) ∧
      b ∈ t'.logged ∧ t.logged ⊆ t'.logged ∧ (∀ c, t'.disk c ≠ t.disk c → c ∈ t'.logged) ∧
      ∀ c ∈ t'.logged, c ∈ t.logged ∨ c = b ∨ c = sb.bblock b ∨
        c = (t.ino sb i).addr ndirect ∧ c ≠ 0 ∧ ndirect < k := by
  cases hg with
  | addr k b hk h0 hb hfree =>
    have hdata := h.inData_of_free hb hfree
    have hlogged : ((t.alloc sb b).setCopy ip ((t.itable ip).copy.setAddr k b)).logged =
        b :: sb.bblock b :: t.logged := rfl
    refine ⟨b, hb, hfree, fun c hc => bit_alloc ok hdata hc, ?_, ?_, fun c hc => ?_, fun c hc => ?_⟩
    · rw [hlogged]
      exact .head _
    · rw [hlogged]
      exact fun c hc => .tail _ (.tail _ hc)
    · rw [hlogged]
      by_contra hno
      simp only [mem_cons, not_or] at hno
      exact hc ((disk_logWrite_of_ne hno.1).trans (disk_logWrite_of_ne hno.2.1))
    rw [hlogged] at hc
    simp only [mem_cons] at hc
    tauto
  | word j b hj ha h0 hb hfree =>
    have hdata := h.inData_of_free hb hfree
    have hind : sb.InData ((t.itable ip).copy.addr ndirect) := by
      rw [← ino_of_open h.table hip] at ha ⊢
      exact h.indirect_data (h.table.lt ip i hip) (h.type_ino hip ht) ha
    have hlogged : ((t.alloc sb b).logWrite ((t.itable ip).copy.addr ndirect)
        ((t.disk ((t.itable ip).copy.addr ndirect)).setWord j b)).logged =
        (t.itable ip).copy.addr ndirect :: b :: sb.bblock b :: t.logged := rfl
    refine ⟨b, hb, hfree, fun c hc => ?_, ?_, ?_, fun c hc => ?_, fun c hc => ?_⟩
    · rw [bit_logWrite_data ok hind hc, bit_alloc ok hdata hc]
    · rw [hlogged]
      simp
    · rw [hlogged]
      exact fun c hc => by simp [hc]
    · rw [hlogged]
      by_contra hno
      simp only [mem_cons, not_or] at hno
      exact hc ((disk_logWrite_of_ne hno.1).trans
        ((disk_logWrite_of_ne hno.2.1).trans (disk_logWrite_of_ne hno.2.2.1)))
    rw [hlogged] at hc
    simp only [mem_cons] at hc
    rw [ino_of_open h.table hip]
    rcases hc with rfl | hc
    · exact .inr (.inr (.inr ⟨rfl, ha, by omega⟩))
    tauto

lemma Grew.slot_eq (hg : Grew sb ip i k t t') (h : Owned sb t [])
    (hbits : ∀ c < sb.size, sb.bit t'.disk c = (decide (c = b) || sb.bit t.disk c)) :
    t'.slot sb (i, k) = b := by
  have hslot := hg.owned.ledger.slot_area (i, k) hg.filled
  have hbit := (hg.owned.ledger.taken_iff _ hslot).mpr (.inr ⟨(i, k), rfl⟩)
  by_contra hne
  have hold : sb.bit t.disk (t'.slot sb (i, k)) := by
    rw [hbits _ hslot.2] at hbit
    simpa [hne] using hbit
  rcases (h.ledger.taken_iff _ hslot).mp hold with hspare | ⟨p, hp⟩
  · exact absurd hspare not_mem_nil
  have hp0 : t.slot sb p ≠ 0 := by
    rw [hp]
    exact hg.filled
  have hpair := hg.owned.ledger.inj (i, k) p hg.filled (by rw [hg.slot p (.inl hp0), hp])
  rw [← hpair] at hp0
  exact hp0 hg.empty

lemma logged_put {x : Dinode} (h : t.Open ip i) :
    (t.put sb ip x).logged = sb.iblock i :: t.logged := by
  rw [← h.2.2, ← inum_setCopy]
  rfl

def Touches (sb : Superblock) (i off n : Nat) (s t : State) : Prop :=
  ∀ b ∈ t.logged, b ∈ s.logged ∨ (b ≠ 0 ∧ ∃ k ∈ span off n, t.slot sb (i, k) = b) ∨
    ∃ c < sb.size, b = sb.bblock c

lemma ndirect_mem_span (hk : k ∈ span off n) (hlt : ndirect < k) : ndirect ∈ span off n := by
  rw [span, Finset.mem_union] at hk ⊢
  rcases hk with hk | hk
  · obtain ⟨bn, hbn, rfl⟩ := Finset.mem_image.mp hk
    have hge : ndirect ≤ bn := by
      rw [fileSlot] at hlt
      split at hlt <;> omega
    rw [if_pos ⟨bn, hbn, hge⟩]
    exact .inr (Finset.mem_singleton_self _)
  · split at hk
    · rw [Finset.mem_singleton] at hk
      omega
    exact absurd hk (Finset.notMem_empty k)

lemma Touches.grow (ok : sb.Ok) (h : Owned sb t []) (hopen : t.Open ip i)
    (htype : (t.itable ip).copy.type ≠ 0) (hk : k ∈ span off n) (hl : Touches sb i off n s t)
    (hg : Grow sb ip t k t') (hgrew : Grew sb ip i k t t') : Touches sb i off n s t' := by
  obtain ⟨b, hb, -, hbits, -, -, -, hnew⟩ := hg.log ok h hopen htype
  intro c hc
  rcases hnew c hc with hc | rfl | rfl | ⟨rfl, h0, hlt⟩
  · rcases hl c hc with hs | ⟨h0, j, hj, rfl⟩ | hmap
    · exact .inl hs
    · exact .inr (.inl ⟨h0, j, hj, hgrew.slot _ (.inl h0)⟩)
    exact .inr (.inr hmap)
  · have heq := hgrew.slot_eq h hbits
    exact .inr (.inl ⟨heq ▸ hgrew.filled, k, hk, heq⟩)
  · exact .inr (.inr ⟨b, hb, rfl⟩)
  have hslot : t.slot sb (i, ndirect) = (t.ino sb i).addr ndirect := by
    rw [slot_of_lt (h.table.lt ip i hopen) (by decide) (h.type_ino hopen htype)]
    exact Dinode.slot_direct le_rfl
  refine .inr (.inl ⟨h0, ndirect, ndirect_mem_span hk hlt, ?_⟩)
  rw [hgrew.slot _ (.inl (by rwa [hslot])), hslot]

lemma Touches.length_le (h : Touches sb i off n s t) :
    t.logged.dedup.length ≤ s.logged.dedup.length + (span off n).card + (sb.size / bpb + 1) := by
  have hsub : t.logged.toFinset ⊆ s.logged.toFinset ∪
      (span off n).image (fun k => t.slot sb (i, k)) ∪
      (Finset.range (sb.size / bpb + 1)).image (· + sb.bmapstart) := by
    intro b hb
    rw [Finset.mem_union, Finset.mem_union, mem_toFinset, Finset.mem_image, Finset.mem_image]
    rcases h b (mem_toFinset.mp hb) with hs | ⟨-, hk⟩ | ⟨c, hc, rfl⟩
    · exact .inl (.inl hs)
    · exact .inl (.inr hk)
    exact .inr ⟨c / bpb, Finset.mem_range.mpr
      (Nat.lt_succ_of_le (Nat.div_le_div_right (le_of_lt hc))), rfl⟩
  rw [← card_toFinset, ← card_toFinset]
  refine (Finset.card_le_card hsub).trans ((Finset.card_union_le _ _).trans (Nat.add_le_add
    ((Finset.card_union_le _ _).trans (Nat.add_le_add_left Finset.card_image_le _)) ?_))
  exact Finset.card_image_le.trans (le_of_eq (Finset.card_range _))

end Xv6.Fs
