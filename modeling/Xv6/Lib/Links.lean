import Mathlib.Data.List.Iterate
import Mathlib.Data.List.Nodup
import Mathlib.Data.Option.Basic
import Mathlib.Logic.Function.Basic

namespace Xv6.Lib
open List Option

structure Links (ν : Type*) where
  next : Option ν → Option ν
  prev : Option ν → Option ν

namespace Links
variable {ν : Type*} {r r' : Links ν} {x y z a : Option ν} {l l1 l2 : List ν} {b : ν} {p : ν → Bool}
  {n : Nat}

def empty (ν : Type*) : Links ν := ⟨fun _ => none, fun _ => none⟩

def scan (step : Option ν → Option ν) (p : ν → Bool) : Nat → Option ν → Option ν
  | 0, _ => none
  | _ + 1, none => none
  | n + 1, some b => if p b then some b else scan step p n (step (some b))

def Seg (r : Links ν) : Option ν → List ν → Option ν → Prop
  | x, [], y => r.next x = y ∧ r.prev y = x
  | x, b :: l, y => r.next x = some b ∧ r.prev (some b) = x ∧ Seg r (some b) l y

structure Reps (r : Links ν) (l : List ν) : Prop where
  seg : r.Seg none l none
  nodup : l.Nodup

lemma none_notMem (l : List ν) : (none : Option ν) ∉ l.map some := by simp

lemma some_mem : some b ∈ l.map some ↔ b ∈ l :=
  mem_map_of_injective (some_injective ν)

lemma Seg.congr (hnext : ∀ a, a = x ∨ a ∈ l.map some → r'.next a = r.next a)
    (hprev : ∀ a, a = y ∨ a ∈ l.map some → r'.prev a = r.prev a) (h : r.Seg x l y) :
    r'.Seg x l y := by
  induction l generalizing x with
  | nil => exact ⟨(hnext x (.inl rfl)).trans h.1, (hprev y (.inl rfl)).trans h.2⟩
  | cons b l ih =>
    have hb : some b ∈ (b :: l).map some := mem_map_of_mem mem_cons_self
    refine ⟨(hnext x (.inl rfl)).trans h.1, (hprev _ (.inr hb)).trans h.2.1, ih ?_ ?_ h.2.2⟩
    · rintro a (rfl | ha)
      · exact hnext _ (.inr hb)
      exact hnext a (.inr (.tail _ ha))
    rintro a (rfl | ha)
    · exact hprev _ (.inl rfl)
    exact hprev a (.inr (.tail _ ha))

lemma seg_append : r.Seg x (l1 ++ b :: l2) y ↔ r.Seg x l1 (some b) ∧ r.Seg (some b) l2 y := by
  induction l1 generalizing x with
  | nil => exact ⟨fun h => ⟨⟨h.1, h.2.1⟩, h.2.2⟩, fun h => ⟨h.1.1, h.1.2, h.2⟩⟩
  | cons c l1 ih =>
    show _ ∧ _ ∧ r.Seg (some c) (l1 ++ b :: l2) y ↔ _
    rw [ih]
    exact ⟨fun h => ⟨⟨h.1, h.2.1, h.2.2.1⟩, h.2.2.2⟩, fun h => ⟨h.1.1, h.1.2.1, h.1.2.2, h.2⟩⟩

lemma Seg.prev_end (h : r.Seg x l y) : r.prev y = x ∨ r.prev y ∈ l.map some := by
  induction l generalizing x with
  | nil => exact .inl h.2
  | cons b l ih =>
    right
    rcases ih h.2.2 with hb | hl
    · rw [hb]
      exact mem_map_of_mem mem_cons_self
    exact .tail _ hl

lemma Seg.swap (h : r.Seg x l y) : Seg ⟨r.prev, r.next⟩ y l.reverse x := by
  induction l generalizing x with
  | nil => exact ⟨h.2, h.1⟩
  | cons b l ih =>
    rw [reverse_cons, seg_append]
    exact ⟨ih h.2.2, h.2.1, h.1⟩

lemma reps_empty : (empty ν).Reps [] := ⟨⟨rfl, rfl⟩, nodup_nil⟩

lemma Seg.scan_next (h : r.Seg x l none) (hn : l.length < n) :
    scan r.next p n (r.next x) = l.find? p := by
  induction l generalizing x n with
  | nil =>
    cases n with
    | zero => exact absurd hn (Nat.not_lt_zero _)
    | succ n => rw [h.1]; rfl
  | cons b l ih =>
    cases n with
    | zero => exact absurd hn (Nat.not_lt_zero _)
    | succ n =>
      rw [h.1, scan]
      by_cases hp : p b
      · rw [if_pos hp, find?_cons_of_pos hp]
      rw [if_neg hp, find?_cons_of_neg hp, ih h.2.2 (Nat.lt_of_succ_lt_succ hn)]

lemma Reps.scan_next (h : r.Reps l) (hn : l.length < n) :
    scan r.next p n (r.next none) = l.find? p := h.seg.scan_next hn

lemma Reps.scan_prev (h : r.Reps l) (hn : l.length < n) :
    scan r.prev p n (r.prev none) = l.reverse.find? p :=
  h.seg.swap.scan_next (by rwa [length_reverse])

lemma Seg.iterate (h : r.Seg x l y) : iterate r.next (r.next x) l.length = l.map some ∧
    r.next^[l.length + 1] x = y := by
  induction l generalizing x with
  | nil => exact ⟨rfl, h.1⟩
  | cons b l ih =>
    obtain ⟨hseq, hend⟩ := ih h.2.2
    refine ⟨?_, ?_⟩
    · rw [length_cons, iterate, h.1, hseq]
      rfl
    rwa [length_cons, Function.iterate_succ_apply, h.1]

lemma Seg.prev_next (h : r.Seg x l y) (ha : a = x ∨ a ∈ l.map some) : r.prev (r.next a) = a := by
  induction l generalizing x with
  | nil =>
    rcases ha with rfl | ha
    · rw [h.1, h.2]
    cases ha
  | cons b l ih =>
    rcases ha with rfl | ha
    · rw [h.1, h.2.1]
    exact ih h.2.2 (mem_cons.mp ha)

lemma Reps.inverse (h : r.Reps l) (hall : ∀ b, b ∈ l) (a : Option ν) :
    r.prev (r.next a) = a ∧ r.next (r.prev a) = a := by
  have ha : ∀ {l : List ν}, (∀ b, b ∈ l) → a = none ∨ a ∈ l.map some := fun hl => by
    cases a with
    | none => exact .inl rfl
    | some b => exact .inr (some_mem.mpr (hl b))
  exact ⟨h.seg.prev_next (ha hall), h.seg.swap.prev_next (ha fun b => mem_reverse.mpr (hall b))⟩

section Change
variable [DecidableEq ν]

def setNext (r : Links ν) (a v : Option ν) : Links ν := { r with next := Function.update r.next a v
    }

def setPrev (r : Links ν) (a v : Option ν) : Links ν := { r with prev := Function.update r.prev a v
    }

def unlink (r : Links ν) (b : ν) : Links ν :=
  let r := r.setPrev (r.next (some b)) (r.prev (some b))
  r.setNext (r.prev (some b)) (r.next (some b))

def pushFront (r : Links ν) (b : ν) : Links ν :=
  let r := r.setNext (some b) (r.next none)
  let r := r.setPrev (some b) none
  let r := r.setPrev (r.next none) (some b)
  r.setNext none (some b)

lemma next_setNext_self : (r.setNext a x).next a = x := by simp [setNext]
lemma next_setNext_of_ne (h : y ≠ a) : (r.setNext a x).next y = r.next y := by simp [setNext, h]
lemma prev_setPrev_self : (r.setPrev a x).prev a = x := by simp [setPrev]
lemma prev_setPrev_of_ne (h : y ≠ a) : (r.setPrev a x).prev y = r.prev y := by simp [setPrev, h]
lemma next_setPrev : (r.setPrev a x).next = r.next := rfl
lemma prev_setNext : (r.setNext a x).prev = r.prev := rfl

lemma Seg.redirect (h : r.Seg x l y) (hx : x ∉ l.map some) (hl : l.Nodup) (hz : z ∉ l.map some) :
    ((r.setPrev z (r.prev y)).setNext (r.prev y) z).Seg x l z := by
  induction l generalizing x with
  | nil =>
    rw [h.2]
    exact ⟨next_setNext_self, prev_setPrev_self⟩
  | cons b l ih =>
    obtain ⟨hb, hl⟩ := nodup_cons.mp hl
    have hxb : x ≠ some b := fun e => hx (e ▸ mem_map_of_mem mem_cons_self)
    have hzb : some b ≠ z := fun e => hz (e ▸ mem_map_of_mem mem_cons_self)
    have hlast : r.prev y ≠ x := by
      rcases h.2.2.prev_end with he | he
      · rw [he]
        exact hxb.symm
      exact fun e => hx (.tail _ (e ▸ he))
    exact ⟨(next_setNext_of_ne hlast.symm).trans h.1, (prev_setPrev_of_ne hzb).trans h.2.1,
      ih h.2.2 (fun he => hb (some_mem.mp he)) hl (fun he => hz (.tail _ he))⟩

lemma Reps.unlink (h : r.Reps l) (hb : b ∈ l) : (r.unlink b).Reps (l.erase b) := by
  obtain ⟨l1, l2, rfl⟩ := append_of_mem hb
  obtain ⟨hl1, hl2, hdisj⟩ := nodup_append.mp h.nodup
  obtain ⟨hb2, hl2⟩ := nodup_cons.mp hl2
  have hb1 : b ∉ l1 := fun hm => hdisj b hm b mem_cons_self rfl
  rw [erase_append_right _ hb1, erase_cons_head]
  obtain ⟨hs1, hs2⟩ := seg_append.mp h.seg
  refine ⟨?_, nodup_append.mpr ⟨hl1, hl2, fun a ha c hc => hdisj a ha c (mem_cons_of_mem b hc)⟩⟩
  have hbefore := hs1.prev_end
  cases l2 with
  | nil =>
    have hr : r.unlink b = (r.setPrev none (r.prev (some b))).setNext (r.prev (some b)) none := by
      show ((r.setPrev (r.next (some b)) _).setNext _ (r.next (some b))) = _
      rw [hs2.1]
      rfl
    rw [hr, append_nil]
    exact hs1.redirect (none_notMem l1) hl1 (none_notMem l1)
  | cons c l2 =>
    have hcb : some b ≠ some c := fun e => hb2 (by rw [some.inj e]; exact .head _)
    have hc1 : c ∉ l1 := fun hm => hdisj c hm c (mem_cons_of_mem b mem_cons_self) rfl
    obtain ⟨hc2, -⟩ := nodup_cons.mp hl2
    have hr : r.unlink b =
        (r.setPrev (some c) (r.prev (some b))).setNext (r.prev (some b)) (some c) := by
      have hprev : (r.setPrev (some c) (r.prev (some b))).prev (some b) = r.prev (some b) :=
        prev_setPrev_of_ne hcb
      show (r.setPrev (r.next (some b)) _).setNext ((r.setPrev (r.next (some b)) _).prev _)
        (r.next (some b)) = _
      rw [hs2.1, hprev]
    rw [hr, seg_append]
    refine ⟨hs1.redirect (none_notMem l1) hl1 (fun hm => hc1 (some_mem.mp hm)),
      hs2.2.2.congr (fun a ha => ?_) (fun a ha => ?_)⟩
    · refine next_setNext_of_ne fun e => ?_
      have ha' : a ∈ (c :: l2).map some := by
        rcases ha with rfl | ha
        · exact .head _
        exact .tail _ ha
      rw [e] at ha'
      rcases hbefore with he | he
      · rw [he] at ha'
        exact none_notMem _ ha'
      obtain ⟨d, hd, hd'⟩ := mem_map.mp he
      rw [← hd'] at ha'
      exact hdisj d hd d (mem_cons_of_mem b (some_mem.mp ha')) rfl
    refine prev_setPrev_of_ne fun e => ?_
    rcases ha with rfl | ha
    · cases e
    rw [e] at ha
    exact hc2 (some_mem.mp ha)

lemma Reps.pushFront (h : r.Reps l) (hb : b ∉ l) : (r.pushFront b).Reps (b :: l) := by
  refine ⟨?_, nodup_cons.mpr ⟨hb, h.nodup⟩⟩
  have hr : r.pushFront b = (((r.setNext (some b) (r.next none)).setPrev (some b) none).setPrev
      (r.next none) (some b)).setNext none (some b) := by
    rw [Links.pushFront, next_setPrev, next_setNext_of_ne (some_ne_none b).symm]
  have hnext : ∀ a ≠ none, a ≠ some b → (r.pushFront b).next a = r.next a := fun a h0 hab => by
    rw [hr, next_setNext_of_ne h0, next_setPrev, next_setPrev, next_setNext_of_ne hab]
  have hprev : ∀ a ≠ r.next none, a ≠ some b → (r.pushFront b).prev a = r.prev a :=
    fun a h0 hab => by
      rw [hr, prev_setNext, prev_setPrev_of_ne h0, prev_setPrev_of_ne hab, prev_setNext]
  have hnextb : (r.pushFront b).next (some b) = r.next none := by
    rw [hr, next_setNext_of_ne (some_ne_none b), next_setPrev, next_setPrev, next_setNext_self]
  have hprevf : (r.pushFront b).prev (r.next none) = some b := by
    rw [hr, prev_setNext, prev_setPrev_self]
  have hnb : some b ≠ r.next none := fun e => by
    cases l with
    | nil =>
      rw [h.seg.1] at e
      cases e
    | cons c l =>
      rw [h.seg.1] at e
      exact hb (by rw [some.inj e]; exact .head _)
  refine ⟨?_, ?_, ?_⟩
  · rw [hr, next_setNext_self]
  · rw [hr, prev_setNext, prev_setPrev_of_ne hnb, prev_setPrev_self]
  cases l with
  | nil =>
    have h0 := h.seg.1
    rw [h0] at hnextb hprevf
    exact ⟨hnextb, hprevf⟩
  | cons c l =>
    obtain ⟨hc, -, hseg⟩ := h.seg
    rw [hc] at hnextb hprevf
    obtain ⟨hcl, -⟩ := nodup_cons.mp h.nodup
    have hbl : ∀ a ∈ l.map some, a ≠ some b := fun a ha e =>
      hb (mem_cons_of_mem c (some_mem.mp (e ▸ ha)))
    refine ⟨hnextb, hprevf, hseg.congr (fun a ha => ?_) (fun a ha => ?_)⟩
    · rcases ha with rfl | ha
      · exact hnext _ (some_ne_none c) fun e => hb (by rw [← some.inj e]; exact .head _)
      exact hnext a (fun e => none_notMem l (e ▸ ha)) (hbl a ha)
    rw [hc] at hprev
    rcases ha with rfl | ha
    · exact hprev _ (some_ne_none c).symm (some_ne_none b).symm
    exact hprev a (fun e => hcl (some_mem.mp (e ▸ ha))) (hbl a ha)
end Change
end Links
end Xv6.Lib
