import Mathlib.Algebra.Order.Group.Nat
import Mathlib.Tactic.Ring

namespace Xv6.Lib
def getLE (m : Nat → UInt8) : Nat → Nat → Nat
  | _, 0 => 0
  | off, k + 1 => (m off).toNat + 256 * getLE m (off + 1) k

def setLE (m : Nat → UInt8) (off k v : Nat) : Nat → UInt8 :=
  fun i => if off ≤ i ∧ i < off + k then UInt8.ofNat (v / 256 ^ (i - off)) else m i

variable {m : Nat → UInt8} {off : Nat}

lemma setLE_outside {k v i : Nat} (h : i < off ∨ off + k ≤ i) : setLE m off k v i = m i := by
  have hn : ¬(off ≤ i ∧ i < off + k) := by omega
  rw [setLE, if_neg hn]

lemma setLE_inside {k v i : Nat} (h1 : off ≤ i) (h2 : i < off + k) :
    setLE m off k v i = UInt8.ofNat (v / 256 ^ (i - off)) := by
  rw [setLE, if_pos ⟨h1, h2⟩]

lemma getLE_congr {m m' : Nat → UInt8} {k : Nat}
    (h : ∀ i, off ≤ i → i < off + k → m i = m' i) : getLE m off k = getLE m' off k := by
  induction k generalizing off with
  | zero => rfl
  | succ k ih =>
    rw [getLE, getLE, h off le_rfl (by omega),
      ih (fun i h1 h2 => h i (by omega) (by omega))]

lemma getLE_lt (m : Nat → UInt8) (off k : Nat) : getLE m off k < 256 ^ k := by
  induction k generalizing off with
  | zero => exact Nat.one_pos
  | succ k ih =>
    have hb : (m off).toNat < 256 := (m off).toNat_lt
    have hr := ih (off + 1)
    rw [getLE, Nat.pow_succ]
    omega

lemma getLE_setLE_aux (m : Nat → UInt8) (base off k v : Nat) (h : base ≤ off) :
    getLE (setLE m base (off - base + k) v) off k = v / 256 ^ (off - base) % 256 ^ k := by
  induction k generalizing off with
  | zero => simp [getLE, Nat.mod_one]
  | succ k ih =>
    have hlen : off - base + (k + 1) = off + 1 - base + k := by omega
    rw [getLE, setLE_inside h (by omega), hlen, ih (off + 1) (by omega)]
    have hsub : off + 1 - base = off - base + 1 := by omega
    rw [hsub, Nat.pow_succ, ← Nat.div_div_eq_div_mul, Nat.pow_succ', Nat.mod_mul]
    simp

lemma getLE_setLE {k v : Nat} (hv : v < 256 ^ k) : getLE (setLE m off k v) off k = v := by
  have h := getLE_setLE_aux m off off k v le_rfl
  simpa [Nat.mod_eq_of_lt hv] using h

lemma getLE_setLE_of_disjoint {k v off' k' : Nat} (h : off' + k' ≤ off ∨ off + k ≤ off') :
    getLE (setLE m off k v) off' k' = getLE m off' k' :=
  getLE_congr fun _ h1 h2 => setLE_outside (by omega)

structure Field where
  off : Nat
  width : Nat
  val : Nat

namespace Field
def Fits (f : Field) : Prop := f.val < 256 ^ f.width
def Disjoint (f g : Field) : Prop := f.off + f.width ≤ g.off ∨ g.off + g.width ≤ f.off

instance (f g : Field) : Decidable (f.Disjoint g) := inferInstanceAs (Decidable (_ ∨ _))
end Field

def setFields (m : Nat → UInt8) (base : Nat) : List Field → Nat → UInt8
  | [] => m
  | f :: fs => setFields (setLE m (base + f.off) f.width f.val) base fs

lemma setFields_outside {base i : Nat} {fs : List Field}
    (h : ∀ f ∈ fs, i < base + f.off ∨ base + f.off + f.width ≤ i) : setFields m base fs i = m i :=
      by
  induction fs generalizing m with
  | nil => rfl
  | cons f fs ih =>
    rw [setFields, ih (fun g hg => h g (List.mem_cons_of_mem f hg)),
      setLE_outside (h f List.mem_cons_self)]

lemma getLE_setFields {base : Nat} {fs : List Field} {f : Field}
    (hdisj : fs.Pairwise Field.Disjoint) (hf : f ∈ fs) (hfit : f.Fits) :
    getLE (setFields m base fs) (base + f.off) f.width = f.val := by
  induction fs generalizing m with
  | nil => cases hf
  | cons g fs ih =>
    obtain ⟨hg, hrest⟩ := List.pairwise_cons.mp hdisj
    rcases List.mem_cons.mp hf with rfl | hmem
    · -- the fields that follow leave this one alone
      have hlater : getLE (setFields (setLE m (base + f.off) f.width f.val) base fs) (base + f.off)
          f.width = getLE (setLE m (base + f.off) f.width f.val) (base + f.off) f.width := by
        refine getLE_congr fun i h1 h2 => setFields_outside fun g hgm => ?_
        have hd := hg g hgm
        unfold Field.Disjoint at hd
        omega
      rw [setFields, hlater, getLE_setLE hfit]
    rw [setFields]
    exact ih hrest hmem
end Xv6.Lib
