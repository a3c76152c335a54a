import Mathlib

namespace Xv6.Memmove
open Function

section Loop
variable {A : Type} [AddCommGroup A] [DecidableEq A]

def copyBy (δ : A) : Nat → A → A → (A → UInt8) → A → UInt8
  | 0, _, _, m => m
  | n + 1, d, s, m => copyBy δ n (d + δ) (s + δ) (update m d (m s))

lemma copyBy_outside (δ : A) : ∀ n (d s : A) m a, (∀ i < n, a ≠ d + i • δ) →
    copyBy δ n d s m a = m a := by
  intro n
  induction n with
  | zero => exact fun _ _ _ _ _ => rfl
  | succ n ih =>
    intro d s m a h
    rw [copyBy, ih _ _ _ _ fun i hi => ?_]
    · exact update_of_ne (by simpa using h 0 (Nat.succ_pos n)) ..
    rw [add_assoc, ← succ_nsmul']
    exact h (i + 1) (Nat.succ_lt_succ hi)

lemma copyBy_inside (δ : A) : ∀ n (d s : A) m,
    (∀ i j, i < j → j < n → s + j • δ ≠ d + i • δ ∧ d + j • δ ≠ d + i • δ) →
    ∀ i < n, copyBy δ n d s m (d + i • δ) = m (s + i • δ) := by
  intro n
  induction n with
  | zero => exact fun _ _ _ _ _ hi => absurd hi (Nat.not_lt_zero _)
  | succ n ih =>
    intro d s m h i hi
    have hshift : ∀ (x : A) k, x + δ + k • δ = x + (k + 1) • δ := fun x k => by
      rw [add_assoc, succ_nsmul']
    rw [copyBy]
    cases i with
    | zero =>
      rw [copyBy_outside]
      · simp
      intro k hk
      rw [hshift, zero_nsmul]
      simpa using ((h 0 (k + 1) (Nat.succ_pos k) (Nat.succ_lt_succ hk)).2).symm
    | succ i =>
      rw [← hshift, ih _ _ _ (fun k j hkj hj => ?_) i (Nat.lt_of_succ_lt_succ hi), hshift]
      · refine update_of_ne ?_ ..
        simpa using (h 0 (i + 1) (Nat.succ_pos i) hi).1
      rw [hshift, hshift, hshift]
      exact h (k + 1) (j + 1) (Nat.succ_lt_succ hkj) (Nat.succ_lt_succ hj)
end Loop

abbrev Addr := BitVec 64
abbrev Mem := Addr → UInt8
def copyUp (n : Nat) (d s : Addr) (m : Mem) : Mem := copyBy 1 n d s m
def copyDown (n : Nat) (d s : Addr) (m : Mem) : Mem := copyBy (-1) n (d - 1) (s - 1) m

def memmove (dst src : Addr) (n : BitVec 32) (m : Mem) : Addr × Mem :=
  if n = 0 then (dst, m)
  else if src < dst ∧ src + n.setWidth 64 > dst then
    (dst, copyDown n.toNat (dst + n.setWidth 64) (src + n.setWidth 64) m)
  else (dst, copyUp n.toNat dst src m)

def ulibMemmove (vdst vsrc : Addr) (n : BitVec 32) (m : Mem) : Addr × Mem :=
  if vsrc > vdst then (vdst, copyUp n.toInt.toNat vdst vsrc m)
  else
    (vdst, copyDown n.toInt.toNat (vdst + n.signExtend 64) (vsrc + n.signExtend 64) m)

structure Moved (dst src : Addr) (n : Nat) (m m' : Mem) : Prop where
  inside : ∀ i < n, m' (dst + BitVec.ofNat 64 i) = m (src + BitVec.ofNat 64 i)
  outside : ∀ a : Addr, a.toNat < dst.toNat ∨ dst.toNat + n ≤ a.toNat → m' a = m a

variable {dst src : Addr} {n : Nat} {m : Mem}

lemma nsmul_one_eq (i : Nat) : i • (1 : Addr) = BitVec.ofNat 64 i := nsmul_one i

lemma moved_copyUp (hs : src.toNat + n ≤ 2 ^ 64) (hd : dst.toNat + n ≤ 2 ^ 64)
    (h : dst.toNat ≤ src.toNat ∨ src.toNat + n ≤ dst.toNat) :
    Moved dst src n m (copyUp n dst src m) := by
  constructor
  · intro i hi
    have hin := copyBy_inside 1 n dst src m (fun i j hij hj => ?_) i hi
    · rwa [nsmul_one_eq] at hin
    rw [nsmul_one_eq, nsmul_one_eq]
    bv_omega
  refine fun a ha => copyBy_outside _ n dst src m a fun i hi => ?_
  rw [nsmul_one_eq]
  bv_omega

lemma sub_eq_add_ofNat (p : Addr) {i : Nat} (hi : i < n) :
    p + BitVec.ofNat 64 n - 1 + i • (-1 : Addr) = p + BitVec.ofNat 64 (n - 1 - i) := by
  rw [smul_neg, nsmul_one_eq]
  bv_omega

lemma moved_copyDown (hs : src.toNat + n ≤ 2 ^ 64) (hd : dst.toNat + n ≤ 2 ^ 64)
    (h : src.toNat ≤ dst.toNat) :
    Moved dst src n m (copyDown n (dst + BitVec.ofNat 64 n) (src + BitVec.ofNat 64 n) m) := by
  constructor
  · intro i hi
    have hi' : n - 1 - i < n := by omega
    have hin := copyBy_inside (-1) n (dst + BitVec.ofNat 64 n - 1)
      (src + BitVec.ofNat 64 n - 1) m (fun i j hij hj => ?_) (n - 1 - i) hi'
    · rwa [sub_eq_add_ofNat _ hi', sub_eq_add_ofNat _ hi', show n - 1 - (n - 1 - i) =
        i by omega] at hin
    rw [sub_eq_add_ofNat _ hj, sub_eq_add_ofNat _ hj, sub_eq_add_ofNat _ (hij.trans hj)]
    bv_omega
  refine fun a ha => copyBy_outside _ n _ _ m a fun i hi => ?_
  rw [sub_eq_add_ofNat _ hi]
  bv_omega

theorem memmove_moves (m : Mem) (dst src : Addr) (n : BitVec 32) (hn : n.toNat < 2 ^ 31)
    (hs : src.toNat + n.toNat ≤ 2 ^ 64) (hd : dst.toNat + n.toNat ≤ 2 ^ 64) :
    (memmove dst src n m).1 = dst ∧ Moved dst src n.toNat m (memmove dst src n m).2 ∧
      (ulibMemmove dst src n m).1 = dst ∧ Moved dst src n.toNat m (ulibMemmove dst src n m).2 := by
  have hwidth : n.setWidth 64 = BitVec.ofNat 64 n.toNat := (BitVec.ofNat_toNat 64 n).symm
  have hmsb : n.msb = false := by
    rw [BitVec.msb_eq_false_iff_two_mul_lt]
    omega
  have hsign : n.signExtend 64 = BitVec.ofNat 64 n.toNat :=
    (BitVec.signExtend_eq_setWidth_of_msb_false hmsb).trans hwidth
  have hint : n.toInt.toNat = n.toNat := by
    rw [BitVec.toInt_eq_toNat_of_msb hmsb, Int.toNat_natCast]
  refine ⟨?_, ?_, ?_, ?_⟩
  · unfold memmove
    split_ifs <;> rfl
  · unfold memmove
    rw [hwidth]
    split_ifs with h0 htest
    · exact h0 ▸ ⟨fun i hi => absurd hi (Nat.not_lt_zero i), fun _ _ => rfl⟩
    · exact moved_copyDown hs hd (BitVec.lt_def.mp htest.1).le
    refine moved_copyUp hs hd ?_
    rw [gt_iff_lt, BitVec.lt_def, BitVec.lt_def, BitVec.toNat_add, BitVec.toNat_ofNat] at htest
    omega
  · unfold ulibMemmove
    split_ifs <;> rfl
  unfold ulibMemmove
  rw [hsign, hint]
  split_ifs with htest
  · exact moved_copyUp hs hd (.inl (BitVec.lt_def.mp htest).le)
  exact moved_copyDown hs hd (not_lt.mp fun h => htest (BitVec.lt_def.mpr h))

theorem memmove_moves_overlapping : Moved 0x1002 0x1000 4 (fun a => UInt8.ofNat a.toNat)
      (memmove 0x1002 0x1000 4 fun a => UInt8.ofNat a.toNat).2 :=
  (memmove_moves _ 0x1002 0x1000 4 (by decide) (by decide) (by decide)).2.1
end Xv6.Memmove
