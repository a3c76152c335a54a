import Xv6.Vm.Exec

namespace Xv6.Vm
open Lib List

def File.ofBytes (content : List UInt8) : File := ⟨fun off n => (content.drop off).take n⟩

structure Segment where
  vaddr : Nat
  memsz : Nat
  filesz : Nat
  off : Nat
  flags : Nat
  deriving DecidableEq

def Segment.ofHeader (ph : List UInt8) : Segment where
  vaddr := field ph 16 8
  memsz := field ph 40 8
  filesz := field ph 32 8
  off := field ph 8 8
  flags := field ph 4 4

def headers (content : List UInt8) : Nat → Nat → List (List UInt8)
  | 0, _ => []
  | n + 1, off => (content.drop off).take proghdrSize :: headers content n (off + proghdrSize)

def elfhdr (content : List UInt8) : List UInt8 := content.take elfhdrSize
def phoff (content : List UInt8) : Nat := field (elfhdr content) 32 8
def phnum (content : List UInt8) : Nat := field (elfhdr content) 56 2

def segmentsOf (phs : List (List UInt8)) : List Segment :=
  (phs.filter fun ph => field ph 0 4 = 1).map Segment.ofHeader

def segments (content : List UInt8) : List Segment :=
  segmentsOf (headers content (phnum content) (phoff content))

def Segment.Covers (s : Segment) (x : Nat) : Prop := s.vaddr ≤ x ∧ x < s.vaddr + s.memsz

structure Ordered (len : Nat) (ss : List Segment) : Prop where
  data : ∀ s ∈ ss, s.off + s.filesz ≤ len
  aligned : ∀ s ∈ ss, s.vaddr % pgsize = 0
  fits : ∀ s ∈ ss, s.filesz ≤ s.memsz
  apart : ss.Pairwise fun s t => s.vaddr ≤ t.vaddr ∧ ∀ x, Page x → ¬(s.Covers x ∧ t.Covers x)

structure WellFormed (content : List UInt8) : Prop where
  size : content.length < 2 ^ 32
  table : phoff content + phnum content * proghdrSize ≤ content.length
  order : Ordered content.length (segments content)

def Segment.byte (s : Segment) (content : List UInt8) (i : Nat) : UInt8 :=
  if i < s.filesz then content.getD (s.off + i) 0 else 0

def Segment.perm (s : Segment) : Nat := pteR ||| pteU ||| flags2perm s.flags ||| pteV

def Segment.InPlace (s : Segment) (content : List UInt8) (v : View) : Prop :=
  ∀ x, Page x → s.Covers x → v x = some (s.perm, fun o => s.byte content (x + o.val - s.vaddr))

variable {content : List UInt8} {im : Image} {s t : Segment} {x i off n : Nat} {v : View} {q : Proc}
  {ss : List Segment}

def Image.place (im : Image) (f : File) (s : Segment) : Image where
  view := (im.view.zeroed im.size (s.vaddr + s.memsz) s.perm).loaded f s.vaddr (s.off % 2 ^ 32)
    s.filesz s.filesz
  size := max im.size (s.vaddr + s.memsz)

lemma Image.foldl_add (f : File) (phs : List (List UInt8)) (im : Image) :
    phs.foldl (fun im ph => im.add f ph) im =
      (segmentsOf phs).foldl (fun im s => im.place f s) im := by
  induction phs generalizing im with
  | nil => rfl
  | cons ph phs ih =>
    rw [foldl_cons, ih, segmentsOf, segmentsOf, filter_cons]
    by_cases h : field ph 0 4 = 1
    · rw [if_pos (by simpa using h), Image.add, if_neg (not_not.mpr h), map_cons, foldl_cons]
      rfl
    rw [if_neg (by simpa using h), Image.add, if_pos h]

lemma readi_ofBytes : (File.ofBytes content).readi off n = (content.drop off).take n := by
  rw [File.readi, File.ofBytes, take_take, Nat.min_self]

lemma addAll_eq_foldl (hlen : content.length < 2 ^ 32) : ∀ n off im,
    off + n * proghdrSize ≤ content.length →
    Image.addAll (File.ofBytes content) n off im =
      (headers content n off).foldl (fun im ph => im.add (File.ofBytes content) ph) im := by
  intro n
  induction n with
  | zero => exact fun _ _ _ => rfl
  | succ n ih =>
    intro off im hfit
    rw [Nat.succ_mul] at hfit
    rw [Image.addAll, headers, foldl_cons, readi_ofBytes, Nat.mod_eq_of_lt (by omega)]
    exact ih _ _ (by omega)

lemma WellFormed.image_eq (h : WellFormed content) : (File.ofBytes content).image =
    (segments content).foldl (fun im s => im.place (File.ofBytes content) s)
      ⟨fun _ => none, 0⟩ := by
  have hhdr : (File.ofBytes content).readi 0 elfhdrSize = elfhdr content := readi_ofBytes
  have htable := h.table
  have hlen := h.size
  rw [File.image, hhdr]
  show Image.addAll _ (phnum content) (phoff content % 2 ^ 32) _ = _
  rw [Nat.mod_eq_of_lt (by omega), addAll_eq_foldl hlen _ _ _ htable, Image.foldl_add]
  rfl

lemma getD_readi (h : off + n ≤ content.length) (hi : i < n) :
    ((File.ofBytes content).readi off n).length = n ∧
      ((File.ofBytes content).readi off n).getD i 0 = content.getD (off + i) 0 := by
  rw [readi_ofBytes]
  refine ⟨by rw [length_take, length_drop]; omega, ?_⟩
  rw [getD_eq_getElem?_getD, getD_eq_getElem?_getD, getElem?_take_of_lt hi, getElem?_drop]

lemma Segment.loaded_eq (hlen : content.length < 2 ^ 32)
    (hdata : s.off + s.filesz ≤ content.length) (hx : s.vaddr ≤ x)
    (hv : v x = some (s.perm, fun _ => 0)) :
    v.loaded (File.ofBytes content) s.vaddr (s.off % 2 ^ 32) s.filesz s.filesz x =
      some (s.perm, fun o => s.byte content (x + o.val - s.vaddr)) := by
  rw [View.loaded]
  by_cases hin : s.vaddr ≤ x ∧ x < s.vaddr + s.filesz
  · have hoff : (s.off % 2 ^ 32 + (x - s.vaddr)) % 2 ^ 32 = s.off + (x - s.vaddr) := by omega
    rw [if_pos hin, hv, hoff]
    show some (s.perm, _) = some (s.perm, _)
    congr 2
    funext o
    have ho := o.isLt
    generalize hn : min (s.filesz - (x - s.vaddr)) pgsize = n
    have hfit : s.off + (x - s.vaddr) + n ≤ content.length := by omega
    have hpos : 0 < n := by
      have : 0 < pgsize := by decide
      omega
    have hlen' := (getD_readi hfit hpos).1
    unfold setBytes Segment.byte
    rw [hlen']
    by_cases hon : o.val < n
    · rw [if_pos (by omega), if_pos (by omega), Nat.sub_zero, (getD_readi hfit hon).2,
        show s.off + (x + o.val - s.vaddr) = s.off + (x - s.vaddr) + o.val by omega]
    rw [if_neg (by omega), if_neg (by omega)]
  rw [if_neg hin, hv]
  congr 2
  funext o
  rw [Segment.byte, if_neg (by omega)]

structure Placed (content : List UInt8) (ss : List Segment) (im : Image) : Prop where
  placed : ∀ s ∈ ss, s.InPlace content im.view
  ends : ∀ s ∈ ss, s.vaddr + s.memsz ≤ im.size
  least : ∀ b, (∀ s ∈ ss, s.vaddr + s.memsz ≤ b) → im.size ≤ b

lemma Ordered.before (h : Ordered content.length (ss ++ [t])) (hs : s ∈ ss)
    (hx : Page x) (hcov : t.Covers x) : s.vaddr + s.memsz ≤ t.vaddr := by
  obtain ⟨hle, hdisj⟩ := (pairwise_append.mp h.apart).2.2 s hs t mem_cons_self
  have hal := h.aligned t (by simp)
  have hbelow := hx.below
  obtain ⟨h1, h2⟩ := hcov
  by_contra hgt
  refine hdisj t.vaddr ⟨hal, by omega⟩ ⟨⟨hle, by omega⟩, le_rfl, ?_⟩
  omega

lemma Placed.place (h : Placed content ss im)
    (ho : Ordered content.length (ss ++ [t])) (hlen : content.length < 2 ^ 32) :
    Placed content (ss ++ [t]) (im.place (File.ofBytes content) t) := by
  have hfits := ho.fits t (by simp)
  have hends : ∀ s ∈ ss ++ [t], s.vaddr + s.memsz ≤ max im.size (t.vaddr + t.memsz) := by
    intro s hs
    rcases mem_append.mp hs with hs | hs
    · exact (h.ends s hs).trans (le_max_left _ _)
    rw [mem_singleton.mp hs]
    exact le_max_right _ _
  refine ⟨fun s hs x hx hcov => ?_, hends, fun b hb => ?_⟩
  · rcases mem_append.mp hs with hs | hs
    · -- a segment from before is not touched
      have hend := h.ends s hs
      have hdisj := ((pairwise_append.mp ho.apart).2.2 s hs t mem_cons_self).2 x hx
      have hout : ¬(t.vaddr ≤ x ∧ x < t.vaddr + t.filesz) := fun hin =>
        hdisj ⟨hcov, hin.1, by omega⟩
      have hlow : ¬(im.size ≤ x ∧ x < t.vaddr + t.memsz) := fun hin => by
        have := hcov.2
        omega
      show View.loaded _ _ _ _ _ _ x = _
      rw [View.loaded, if_neg hout, View.zeroed, if_neg hlow]
      exact h.placed s hs x hx hcov
    · rw [mem_singleton.mp hs] at hcov ⊢
      have hstart := h.least t.vaddr fun s hs => ho.before hs hx hcov
      refine Segment.loaded_eq hlen (ho.data t (by simp)) hcov.1 ?_
      rw [View.zeroed, if_pos ⟨hstart.trans hcov.1, hcov.2⟩]
  exact max_le (h.least b (fun s hs => hb s (by simp [hs]))) (hb t (by simp))

lemma Ordered.left {len : Nat} {ts : List Segment} (h : Ordered len (ss ++ ts)) :
    Ordered len ss where
  data s hs := h.data s (by simp [hs])
  aligned s hs := h.aligned s (by simp [hs])
  fits s hs := h.fits s (by simp [hs])
  apart := (pairwise_append.mp h.apart).1

lemma Ordered.placed (hlen : content.length < 2 ^ 32) : ∀ (ss ts : List Segment) (im : Image),
    Ordered content.length (ts ++ ss) → Placed content ts im →
    Placed content (ts ++ ss) (ss.foldl (fun im s => im.place (File.ofBytes content) s) im) := by
  intro ss
  induction ss with
  | nil =>
    intro ts im _ h
    rwa [append_nil]
  | cons s ss ih =>
    intro ts im ho h
    rw [append_cons] at ho ⊢
    exact ih _ _ ho (h.place ho.left hlen)

lemma WellFormed.placed (h : WellFormed content) :
    Placed content (segments content) (File.ofBytes content).image := by
  have hnil : Placed content [] ⟨fun _ => none, 0⟩ :=
    ⟨fun s hs => absurd hs not_mem_nil, fun s hs => absurd hs not_mem_nil, fun b _ => Nat.zero_le b⟩
  rw [h.image_eq]
  exact Ordered.placed h.size (segments content) [] _ h.order hnil

def Mem.At (m : Mem) (root a flags : Nat) (b : UInt8) : Prop :=
  ∃ pa, m.map root (pgrounddown a) = some (pa, flags) ∧ m.byte (pa + a % pgsize) = b

lemma at_of_view {m : Mem} {root a flags : Nat} {b : Fin pgsize → UInt8}
    (h : m.view root (pgrounddown a) = some (flags, b)) :
    m.At root a flags (b ⟨a % pgsize, mod_pgsize_lt a⟩) := by
  rw [Mem.view] at h
  obtain ⟨⟨pa, fl⟩, hm, he⟩ := Option.map_eq_some_iff.mp h
  have hflags : fl = flags := congrArg Prod.fst he
  have hb : (fun o : Fin pgsize => m.byte (pa + o.val)) = b := congrArg Prod.snd he
  refine ⟨pa, by rw [hm, hflags], ?_⟩
  rw [← hb]

lemma testBit_flags2perm (flags : Nat) : (flags2perm flags).testBit 2 = flags.testBit 1 ∧
      (flags2perm flags).testBit 3 = flags.testBit 0 := by
  unfold flags2perm
  cases flags.testBit 0 <;> cases flags.testBit 1 <;> decide

lemma Segment.testBit_perm (s : Segment) : s.perm.testBit 2 = s.flags.testBit 1 ∧
    s.perm.testBit 3 = s.flags.testBit 0 ∧ s.perm.testBit 4 := by
  obtain ⟨h2, h3⟩ := testBit_flags2perm s.flags
  unfold Segment.perm
  refine ⟨?_, ?_, testBit_user _⟩
  · rw [Nat.testBit_or, Nat.testBit_or, Nat.testBit_or, h2]
    simp [pteR, pteU, pteV, Nat.testBit_succ]
  rw [Nat.testBit_or, Nat.testBit_or, Nat.testBit_or, h3]
  simp [pteR, pteU, pteV, Nat.testBit_succ]

variable {kend tramp : Nat} {m : Mem} {p : Proc}

lemma Installed.le_pgroundup (h : Installed m q im) : im.size ≤ pgroundup im.size := by
  have := h.fits
  rw [phystop_eq] at this
  exact Vm.le_pgroundup (by omega)

lemma Installed.segment_at {a : Nat} (h : Installed m q im)
    (hs : s.InPlace content im.view) (hend : s.vaddr + s.memsz ≤ im.size)
    (hal : s.vaddr % pgsize = 0) (ha : s.vaddr ≤ a) (hlt : a < pgroundup (s.vaddr + s.memsz)) :
    m.At q.pagetable a s.perm (s.byte content (a - s.vaddr)) := by
  have hfits := h.fits
  have hle := h.le_pgroundup
  have hround := pgrounddown_le a
  have hmod : pgrounddown a + a % pgsize = a := by
    rw [pgrounddown]
    exact Nat.div_add_mod' a pgsize
  have hbase : s.vaddr ≤ pgrounddown a := by
    rw [pgrounddown, pgsize_eq] at *
    omega
  have hup : pgroundup (s.vaddr + s.memsz) ≤ 2 ^ 38 := by
    rw [phystop_eq] at hfits
    rw [pgroundup_of_lt (by omega)]
    omega
  have hpage : Page (pgrounddown a) := ⟨pgrounddown_aligned a, by omega⟩
  have hcov : pgrounddown a < s.vaddr + s.memsz := by
    rw [phystop_eq] at hfits
    exact (hpage.lt_pgroundup_iff (by omega)).mp (by omega)
  have hview := h.pages _ hpage (by omega)
  rw [hs _ hpage ⟨hbase, hcov⟩] at hview
  have hat := at_of_view hview
  rwa [hmod] at hat

theorem exec_loads (hk : 0 < kend) (hcode : IsCode kend tramp) (hp : Space kend tramp m p)
    (hw : WellFormed content) (argv : List Arg) :
    ∃ r q m', kexec kend tramp p (some (File.ofBytes content)) argv m = .ok ((r, q), m') ∧
      (r = -1 ∨ (∀ s ∈ segments content,
        ∃ flags, flags.testBit 2 = s.flags.testBit 1 ∧ flags.testBit 3 = s.flags.testBit 0 ∧
          flags.testBit 4 ∧ s.vaddr + s.memsz ≤ q.sz - 2 * pgsize ∧
          (∀ i < s.filesz, m'.At q.pagetable (s.vaddr + i) flags (content.getD (s.off + i) 0)) ∧
          (∀ a, s.vaddr + s.filesz ≤ a → a < pgroundup (s.vaddr + s.memsz) →
            m'.At q.pagetable a flags 0)) ∧
        2 * pgsize ≤ q.sz ∧ q.sz % pgsize = 0 ∧
        (∃ pa flags, m'.map q.pagetable (q.sz - 2 * pgsize) = some (pa, flags) ∧
          flags.testBit 4 = false) ∧
        (∃ pa flags, m'.map q.pagetable (q.sz - pgsize) = some (pa, flags) ∧
          flags.testBit 4 ∧ flags.testBit 2) ∧
        ∀ x, Page x → x < trapframe → q.sz ≤ x → m'.map q.pagetable x = none) := by
  have hwp : wp (kexec kend tramp p (some (File.ofBytes content)) argv) m _ (fun _ => False) :=
    wp_kexec_execed hk hcode hp
  obtain ⟨⟨r, q⟩, m', hrun, hr⟩ := wp_total hwp
  refine ⟨r, q, m', hrun, ?_⟩
  rcases hr with ⟨he, -⟩ | ⟨f, hf, ⟨he, -⟩ | ⟨-, ⟨hspace, -⟩, -, hin⟩⟩
  · exact .inl (congrArg Prod.fst he)
  · exact .inl (congrArg Prod.fst he)
  obtain rfl := Option.some.inj hf
  dsimp only at hspace hin
  have hpl := hw.placed
  have hsz := hin.size
  have htop := hspace.size
  have hus : (userstack + 1) * pgsize = 2 * pgsize := rfl
  have hal := pgroundup_aligned (File.ofBytes content).image.size
  have hle := hin.le_pgroundup
  have hbase : q.sz - 2 * pgsize = pgroundup (File.ofBytes content).image.size := by omega
  have hstack : q.sz - pgsize = pgroundup (File.ofBytes content).image.size + pgsize := by omega
  refine .inr ⟨fun s hs => ?_, by omega, ?_, ?_, ?_, fun x hx hlt hge => ?_⟩
  · have hend := hpl.ends s hs
    have hfits := hw.order.fits s hs
    have hat := fun a => hin.segment_at (hpl.placed s hs) hend (hw.order.aligned s hs) (a := a)
    have h63 : s.vaddr + s.memsz < 2 ^ 63 := by
      have := hin.fits
      rw [phystop_eq] at this
      omega
    have hlast := le_pgroundup h63
    obtain ⟨h2, h3, h4⟩ := s.testBit_perm
    refine ⟨s.perm, h2, h3, h4, by omega, fun i hi => ?_, fun a ha hlt => ?_⟩
    · have hb := hat (s.vaddr + i) (Nat.le_add_right _ _) (by omega)
      rwa [Nat.add_sub_cancel_left, Segment.byte, if_pos hi] at hb
    have hb := hat a (by omega) hlt
    rwa [Segment.byte, if_neg (by omega)] at hb
  · rw [hsz, hus]
    rw [pgsize_eq] at hal ⊢
    omega
  · obtain ⟨flags, b, hg, hu⟩ := hin.guard
    obtain ⟨pa, hm⟩ := map_of_view hg
    exact ⟨pa, flags, by rw [hbase, hm], hu⟩
  · obtain ⟨pa, flags, hm, hu, hwr⟩ := hin.stack
    exact ⟨pa, flags, by rw [hstack, hm], hu, hwr⟩
  by_contra hne
  exact absurd (hspace.below x hx hlt hne) (not_lt.mpr hge)

def reaches (kend tramp : Nat) (p : Proc) (f : File) (argv : List Arg) (m : Mem) : Bool :=
  let elf := f.readi 0 elfhdrSize
  elf.length = elfhdrSize && field elf 0 4 = elfMagic &&
    match procPagetable kend tramp p.trapframe m with
    | .ok (some root, m₁) =>
      match loadSegments kend f root (field elf 56 2) (field elf 32 8 % 2 ^ 32) 0 m₁ with
      | .ok ((true, sz), m₂) =>
        match uvmalloc kend root (pgroundup sz)
            ((pgroundup sz + (userstack + 1) * pgsize) % 2 ^ 64) pteW m₂ with
        | .ok (sz1, m₃) => sz1 ≠ 0 &&
          match uvmclear root (sz1 - (userstack + 1) * pgsize) m₃ with
          | .ok (_, m₄) =>
            match pushStack kend p root sz1 argv m₄ with
            | .ok (some _, _) => true
            | _ => false
          | _ => false
        | _ => false
      | _ => false
    | _ => false

lemma kexec_ne_of_reaches {f : File} {argv : List Arg} {r : Int} {m' : Mem}
    (h : reaches kend tramp p f argv m)
    (hrun : kexec kend tramp p (some f) argv m = .ok ((r, q), m')) : r ≠ -1 := by
  unfold reaches at h
  dsimp only at h
  rw [Bool.and_eq_true, Bool.and_eq_true, decide_eq_true_eq, decide_eq_true_eq] at h
  obtain ⟨⟨h1, h2⟩, h⟩ := h
  unfold kexec at hrun
  dsimp only at hrun
  rw [if_neg (not_not.mpr h1), if_neg (not_not.mpr h2)] at hrun
  split at h
  case h_2 => cases h
  rename_i root m1 hroot
  rw [bind_of_ok hroot] at hrun
  dsimp only at hrun
  split at h
  case h_2 => cases h
  rename_i sz m2 hload
  rw [bind_of_ok hload, if_neg (by simp), kexecCommit] at hrun
  dsimp only at hrun
  split at h
  case h_2 => cases h
  rename_i sz1 m3 halloc
  rw [Bool.and_eq_true, decide_eq_true_eq] at h
  obtain ⟨h0, h⟩ := h
  rw [bind_of_ok halloc, if_neg h0] at hrun
  split at h
  case h_2 => cases h
  rename_i m4 hclear
  rw [bind_of_ok hclear] at hrun
  split at h
  case h_2 => cases h
  rename_i e m5 hpush
  obtain ⟨sp, argc⟩ := e
  rw [bind_of_ok hpush] at hrun
  refine wp_ok (Q := fun a _ => a.1 ≠ -1) (E := fun _ => True) ?_ hrun
  have hany : ∀ {α : Type} (c : VmM α) m, wp c m (fun a m' => c m = .ok (a, m')) fun _ => True :=
    fun c m => wp_self fun _ => trivial
  refine wp_bind_of (hany _ _) fun _ _ _ => wp_bind_of (hany _ _) (fun _ _ _ =>
    wp_bind_of (hany _ _) (fun _ _ _ => wp_bind_of (hany _ _) (fun _ _ _ => wp_pure.mpr ?_)))
  show (argc : Int) ≠ -1
  omega

def progHeader (flags off vaddr filesz memsz : Nat) : List UInt8 :=
  leBytes 4 1 ++ leBytes 4 flags ++ leBytes 8 off ++ leBytes 8 vaddr ++ leBytes 8 vaddr ++
    leBytes 8 filesz ++ leBytes 8 memsz ++ leBytes 8 pgsize

def twoSegments : List UInt8 :=
  leBytes 4 elfMagic ++ replicate 20 0 ++ leBytes 8 0 ++ leBytes 8 64 ++ replicate 16 0 ++
    leBytes 2 2 ++ replicate 6 0 ++ progHeader 5 176 0 3 3 ++ progHeader 6 179 0x1000 1 100 ++
    [1, 2, 3, 4]

lemma segments_twoSegments :
    segments twoSegments = [⟨0, 3, 3, 176, 5⟩, ⟨0x1000, 100, 1, 179, 6⟩] := by
  decide +kernel

lemma length_twoSegments : twoSegments.length = 180 := by decide +kernel

lemma wellFormed_twoSegments : WellFormed twoSegments where
  size := by
    rw [length_twoSegments]
    decide
  table := by
    rw [length_twoSegments]
    decide +kernel
  order := by
    rw [length_twoSegments, segments_twoSegments]
    refine ⟨by simp, by simp; decide, by simp, ?_⟩
    simp only [pairwise_cons, mem_singleton, forall_eq, Segment.Covers]
    refine ⟨⟨by decide, fun x _ h => ?_⟩, by simp, .nil⟩
    omega

lemma reaches_twoSegments : reaches 0x80100000 0x80007000 firstProc (File.ofBytes twoSegments) []
    firstMem := by
  decide +kernel

theorem exec_loads_twoSegments : ∃ r q m',
    kexec 0x80100000 0x80007000 firstProc (some (File.ofBytes twoSegments)) [] firstMem =
      .ok ((r, q), m') ∧ r ≠ -1 ∧
    (∃ flags, m'.At q.pagetable 2 flags 3 ∧ flags.testBit 2 = false) ∧
    ∃ flags, m'.At q.pagetable 0x1000 flags 4 ∧ m'.At q.pagetable 0x1001 flags 0 ∧
      flags.testBit 2 := by
  obtain ⟨r, q, m', hrun, hr⟩ := exec_loads (by decide) isCode_low space_firstProc
    wellFormed_twoSegments []
  have hne := kexec_ne_of_reaches reaches_twoSegments hrun
  obtain ⟨hsegs, -⟩ := hr.resolve_left hne
  rw [segments_twoSegments] at hsegs
  obtain ⟨f1, hw1, -, -, -, hdata1, -⟩ := hsegs ⟨0, 3, 3, 176, 5⟩ (by simp)
  obtain ⟨f2, hw2, -, -, -, hdata2, hzero2⟩ := hsegs ⟨0x1000, 100, 1, 179, 6⟩ (by simp)
  refine ⟨r, q, m', hrun, hne, ⟨f1, ?_, hw1⟩, f2, ?_, hzero2 0x1001 (by decide) (by decide), hw2⟩
  · exact hdata1 2 (by decide)
  exact hdata2 0 (by decide)
end Xv6.Vm
