import Xv6.Fs.Contents
import Xv6.Fs.Link
import Xv6.Fs.Unlink

namespace Xv6.Fs
open State Lib
variable {sb : Superblock} {s t : State} {cwd : Fin ninode} {E : Panic → Prop}

inductive NameCall where
  | mkdir (path : Nat → Option UInt8)
  | mknod (path : Nat → Option UInt8) (major minor : Int)
  | link (old new : Nat → Option UInt8)
  | unlink (path : Nat → Option UInt8)

def NameCall.exec (sb : Superblock) (cwd : Fin ninode) : NameCall → FsM Int
  | .mkdir path => sysMkdir sb cwd path
  | .mknod path major minor => sysMknod sb cwd path major minor
  | .link old new => sysLink sb cwd old new
  | .unlink path => sysUnlink sb cwd path

def Unchanged (sb : Superblock) (s t : State) : Prop :=
  ∀ i < sb.ninodes, (t.ino sb i).type = (s.ino sb i).type ∧
    ((s.ino sb i).type ≠ 0 → (t.ino sb i).nlink = (s.ino sb i).nlink ∧
      (t.ino sb i).size = (s.ino sb i).size ∧ t.contents sb i = s.contents sb i)

lemma SameData.unchanged (h : SameData sb s t) : Unchanged sb s t := by
  intro i hi
  by_cases h0 : (s.ino sb i).type = 0
  · exact ⟨by rw [h.free i hi h0, h0], fun hne => absurd h0 hne⟩
  have hino := h.ino i hi h0
  have hsize : (t.ino sb i).size = (s.ino sb i).size := by rw [hino]
  refine ⟨by rw [hino], fun _ => ⟨by rw [hino], hsize, ?_⟩⟩
  rw [State.contents, State.contents, hsize]
  exact List.map_congr_left fun o _ => h.content i hi h0 o

lemma wp_sysCreate {path : Nat → Option UInt8} {type major minor : Nat} (ok : sb.Ok)
    (hs : Consistent sb s) (hE : ∀ e ≠ .unlinkNlink, E e) (hcwd : 0 < (s.itable cwd).ref)
    (htype : type < 2 ^ 16) (hmajor : major < 2 ^ 16) (hminor : minor < 2 ^ 16) :
    wp (sysCreate sb cwd path type major minor) s (fun r t => r = -1 → SameData sb s t) E := by
  unfold sysCreate iunlockput
  split
  · exact wp_pure.mpr fun _ => SameFiles.refl.data
  refine wp_bind_of (wp_create ok hs hE hcwd htype hmajor hminor) fun r t ht => ?_
  cases r with
  | none => exact wp_pure.mpr fun _ => ht.2
  | some ip =>
    obtain ⟨d, name, i, -, ht, -⟩ := ht
    refine wp_bind_of (ht.wp_iput_any ok) fun _ u hu => ?_
    exact wp_pure.mpr fun h => absurd h (by decide)

theorem failed_unchanged (ok : sb.Ok) (hs : Consistent sb s) (hcwd : 0 < (s.itable cwd).ref)
    (call : NameCall) (hrun : call.exec sb cwd s = .ok (-1, t)) : Unchanged sb s t := by
  have hwp : wp (call.exec sb cwd) s (fun r t => r = -1 → SameData sb s t) (fun _ => True) := by
    cases call with
    | mkdir path =>
      exact wp_sysCreate ok hs (fun _ _ => trivial) hcwd (by decide) (by decide) (by decide)
    | mknod path major minor =>
      have hshort : ∀ n : Int, (n % 2 ^ 16).toNat < 2 ^ 16 := fun n => by omega
      exact wp_sysCreate ok hs (fun _ _ => trivial) hcwd (by decide) (hshort major) (hshort minor)
    | link old new =>
      refine wp_imp (wp_sysLink ok hs (fun _ _ => trivial) hcwd) fun r t ht hr => ?_
      rcases ht.2 with ⟨-, hsame⟩ | ⟨h0, -⟩
      · exact hsame
      omega
    | unlink path =>
      refine wp_imp (wp_sysUnlink ok hs (fun _ _ => trivial) hcwd
        (fun _ _ _ _ _ _ _ _ _ => trivial))
        fun r t ht hr => ?_
      rcases ht.2 with ⟨-, hsame⟩ | ⟨h0, -⟩
      · exact hsame
      omega
  exact (wp_ok hwp hrun rfl).unchanged

def cstr (bs : List UInt8) : Nat → Option UInt8 := fun k => some (bs.getD k 0)

def makeRoot : List Op :=
  [.ialloc tDir, .ilock entry0, .update entry0 0 0 1, .dirlink entry0 dot 1,
    .dirlink entry0 dotdot 1]

def Checked (sb : Superblock) (s : State) : Prop :=
  (∀ k, 0 < (s.itable k).ref → (s.itable k).inum < sb.ninodes ∧
    (s.ino sb (s.itable k).inum).type ≠ 0) ∧
  (∀ i < sb.ninodes, (s.ino sb i).type ≠ 0 → (s.ino sb i).nlink = 0 →
    ∃ k, 0 < (s.itable k).ref ∧ (s.itable k).inum = i) ∧
  ∀ i < sb.ninodes, (s.ino sb i).type = tDir → ∀ k, k < (s.ino sb i).size / 16 →
    (s.dirent sb i (16 * k)).inum < sb.ninodes

instance (sb : Superblock) (s : State) : Decidable (Checked sb s) :=
  inferInstanceAs (Decidable (_ ∧ _ ∧ _))

lemma Checked.consistent (h : Checked sb s) (hgood : Good sb s) (hroot : rootino < sb.ninodes) :
    Consistent sb s := by
  refine ⟨hgood, hroot, h.1, h.2.1, fun i hi ht off name hn => ?_⟩
  obtain ⟨k, rfl, hk, -⟩ := names_iff.mp hn
  exact h.2.2 i hi ht k hk

theorem failed_unchanged_tiny : ∃ s t, run (next tiny) (boot (tinyDisk .zero)) makeRoot = some s ∧
    Consistent tiny s ∧ (NameCall.mkdir (cstr [97])).exec tiny entry0 s = .ok (-1, t) ∧
    Unchanged tiny s t := by
  obtain ⟨s, hs, hchecked, hcwd, hfail⟩ : ∃ s,
      run (next tiny) (boot (tinyDisk .zero)) makeRoot = some s ∧ Checked tiny s ∧
      0 < (s.itable entry0).ref ∧
      ((NameCall.mkdir (cstr [97])).exec tiny entry0 s).map Prod.fst = .ok (-1) :=
    exists_of_any (by decide +kernel)
  have hcons := hchecked.consistent (image_tiny.good_of_run hs) (by decide)
  cases hm : (NameCall.mkdir (cstr [97])).exec tiny entry0 s with
  | error e =>
    rw [hm] at hfail
    cases hfail
  | ok r =>
    rw [hm] at hfail
    obtain ⟨r, t⟩ := r
    cases hfail
    exact ⟨s, t, hs, hcons, hm, failed_unchanged tiny_ok hcons hcwd _ hm⟩
end Xv6.Fs
