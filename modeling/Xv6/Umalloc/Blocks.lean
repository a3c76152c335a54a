import Xv6.Umalloc.Alloc

namespace Xv6.Umalloc
namespace Block
def stop (b : Block) : Nat := b.addr + 16 * b.size
def Has (b : Block) (x : Nat) : Prop := b.addr ≤ x ∧ x < b.stop
def Disjoint (b c : Block) : Prop := b.stop ≤ c.addr ∨ c.stop ≤ b.addr
def Before (b c : Block) : Prop := b.stop < c.addr
end Block

open Xv6.Umalloc.Block List
variable {b c u : Block} {l r bs : List Block} {x n : Nat}

def Sorted (bs : List Block) : Prop := bs.Pairwise Before

def join (b : Block) : List Block → List Block
  | [] => [b]
  | c :: r => if b.stop = c.addr then ⟨b.addr, b.size + c.size⟩ :: r else b :: c :: r

lemma stop_merged (h : b.stop = c.addr) : (⟨b.addr, b.size + c.size⟩ : Block).stop = c.stop := by
  unfold stop at *
  dsimp only
  omega

lemma join_eq_cons (b : Block) (r : List Block) :
    ∃ d r', join b r = d :: r' ∧ d.addr = b.addr ∧ b.size ≤ d.size ∧ r' <:+ r := by
  cases r with
  | nil => exact ⟨b, [], rfl, rfl, le_rfl, suffix_refl _⟩
  | cons c r =>
    rw [join]
    split
    · exact ⟨_, r, rfl, rfl, Nat.le_add_right _ _, suffix_cons c r⟩
    exact ⟨b, c :: r, rfl, rfl, le_rfl, suffix_refl _⟩

lemma sorted_join (hr : Sorted r) (hb : ∀ c ∈ r, b.stop ≤ c.addr) : Sorted (join b r) := by
  cases r with
  | nil => exact pairwise_singleton _ _
  | cons c r =>
    obtain ⟨hc, hr'⟩ := pairwise_cons.mp hr
    rw [join]
    split
    · rename_i hmeet
      refine pairwise_cons.mpr ⟨fun d hd => ?_, hr'⟩
      show (⟨b.addr, b.size + c.size⟩ : Block).stop < d.addr
      rw [stop_merged hmeet]
      exact hc d hd
    rename_i hgap
    have hlt : b.stop < c.addr := Nat.lt_of_le_of_ne (hb c mem_cons_self) hgap
    refine pairwise_cons.mpr ⟨fun d hd => ?_, hr⟩
    rcases mem_cons.mp hd with rfl | hd
    · exact hlt
    have h1 : c.stop < d.addr := hc d hd
    have h2 : c.addr ≤ c.stop := Nat.le_add_right _ _
    exact lt_trans (lt_of_lt_of_le hlt h2) h1

lemma mem_join (h : c ∈ join b r) : c ∈ r ∨ c = b ∨
    ∃ d ∈ r, b.stop = d.addr ∧ c = ⟨b.addr, b.size + d.size⟩ := by
  cases r with
  | nil => exact .inr (.inl (mem_singleton.mp h))
  | cons d r =>
    rw [join] at h
    split at h
    · rename_i hmeet
      rcases mem_cons.mp h with h | h
      · exact .inr (.inr ⟨d, (.head _), hmeet, h⟩)
      exact .inl (mem_cons_of_mem d h)
    rcases mem_cons.mp h with h | h
    · exact .inr (.inl h)
    exact .inl h

lemma has_join : (∃ c ∈ join b r, c.Has x) ↔ b.Has x ∨ ∃ c ∈ r, c.Has x := by
  cases r with
  | nil => simp [join]
  | cons d r =>
    rw [join]
    split
    · rename_i hmeet
      have hmerged : (⟨b.addr, b.size + d.size⟩ : Block).Has x ↔ b.Has x ∨ d.Has x := by
        unfold Has
        rw [stop_merged hmeet]
        unfold stop at *
        dsimp only
        omega
      simp [hmerged, or_assoc]
    simp

lemma forall_join {P : Block → Prop}
    (hjoin : ∀ {d e}, d.stop = e.addr → P d → P e → P ⟨d.addr, d.size + e.size⟩)
    (hb : P b) (hr : ∀ c ∈ r, P c) (h : c ∈ join b r) : P c := by
  rcases mem_join h with h | rfl | ⟨d, hd, hmeet, rfl⟩
  · exact hr c h
  · exact hb
  exact hjoin hmeet hb (hr d hd)

lemma addr_join {P : Nat → Prop} (hb : P b.addr) (hr : ∀ c ∈ r, P c.addr) (h : c ∈ join b r) :
    P c.addr :=
  forall_join (fun _ hd _ => hd) hb hr h

lemma disjoint_merged (hu : 0 < u.size) (h : b.stop = c.addr) (hb : b.Disjoint u)
    (hc : c.Disjoint u) : (⟨b.addr, b.size + c.size⟩ : Block).Disjoint u := by
  unfold Block.Disjoint at *
  rw [stop_merged h]
  unfold stop at *
  dsimp only
  omega

def units (bs : List Block) : Nat := (bs.map Block.size).sum
@[simp] lemma units_nil : units [] = 0 := rfl
@[simp] lemma units_cons : units (b :: bs) = b.size + units bs := rfl
@[simp] lemma units_append : units (l ++ r) = units l + units r := by simp [units]

lemma size_le_units (h : b ∈ bs) : b.size ≤ units bs :=
  le_sum_of_mem (mem_map_of_mem h)

@[simp] lemma units_join : units (join b r) = b.size + units r := by
  cases r with
  | nil => rfl
  | cons c r =>
    rw [join]
    split
    · exact add_assoc _ _ _
    rfl

lemma has_split (hn : n ≤ b.size) : b.Has x ↔
    (⟨b.addr, b.size - n⟩ : Block).Has x ∨ (⟨b.addr + 16 * (b.size - n), n⟩ : Block).Has x := by
  unfold Has stop
  dsimp only
  omega
end Xv6.Umalloc
