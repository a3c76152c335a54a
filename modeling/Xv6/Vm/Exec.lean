import Xv6.Vm.Spawn

namespace Xv6.Vm
open Lib List
variable {kend tramp : Nat} {m m' m0 : Mem} {p : Proc}
  {root va pa a x t sz newsz i off flags : Nat} {src : List UInt8} {E : Panic → Prop} {H K : Nat →
    Prop} {v : View}
  {offset fsz : Nat} {f : File} {argv : List Arg} {dst : Nat} {w : View}

lemma Sound.dense_le (h : Sound kend m root) (ha : a % pgsize = 0) (hlt : a ≤ trapframe)
    (hdense : ∀ x, Page x → x < a → m.map root x ≠ none) : a ≤ phystop := by
  have hpg : pgsize = 4096 := pgsize_eq
  have hae : a / pgsize * pgsize = a := Nat.div_mul_cancel (Nat.dvd_of_mod_eq_zero ha)
  have hmap : ∀ k < a / pgsize, ∃ t flags, m.map root (k * pgsize) = some (t, flags) ∧
      Page (k * pgsize) ∧ k * pgsize < trapframe := by
    intro k hk
    have hlt' : k * pgsize < a := by
      rw [← hae]
      exact Nat.mul_lt_mul_of_pos_right hk (by decide)
    have hpage := page_of_lt (Nat.mul_mod_left k pgsize) (by omega : k * pgsize < trapframe)
    obtain ⟨e, he⟩ := Option.ne_none_iff_exists'.mp (hdense _ hpage hlt')
    exact ⟨e.1, e.2, he, hpage, by omega⟩
  have hcard : (Finset.range (a / pgsize)).card ≤ (Finset.range (phystop / pgsize)).card := by
    refine Finset.card_le_card_of_injOn
      (fun k => ((m.map root (k * pgsize)).map Prod.fst).getD 0 / pgsize) (fun k hk => ?_)
      (fun k hk j hj he => ?_)
    · obtain ⟨t, flags, hm, hpage, hlt'⟩ := hmap k (Finset.mem_range.mp hk)
      have hram := (h.ram _ t flags hpage hlt' hm).below
      rw [Finset.coe_range, Set.mem_Iio]
      show ((m.map root (k * pgsize)).map Prod.fst).getD 0 / pgsize < _
      rw [hm]
      show t / pgsize < phystop / pgsize
      rw [phystop_eq] at *
      rw [hpg]
      omega
    obtain ⟨t, flags, hm, hpage, hlt'⟩ := hmap k (by simpa using hk)
    obtain ⟨t', flags', hm', hpage', hlt''⟩ := hmap j (by simpa using hj)
    have he : ((m.map root (k * pgsize)).map Prod.fst).getD 0 / pgsize =
      ((m.map root (j * pgsize)).map Prod.fst).getD 0 / pgsize := he
    rw [hm, hm'] at he
    have h1 := (h.ram _ t flags hpage hlt' hm).aligned
    have h2 := (h.ram _ t' flags' hpage' hlt'' hm').aligned
    have htt : t = t' := by
      have he : t / pgsize = t' / pgsize := he
      rw [hpg] at *
      omega
    rw [← htt] at hm'
    have hkj := h.once _ _ t flags flags' hpage hpage' hlt' hlt'' hm hm'
    exact Nat.eq_of_mul_eq_mul_right (by decide) hkj
  rw [Finset.card_range, Finset.card_range] at hcard
  rw [phystop_eq, hpg] at *
  omega

structure Loading (kend tramp : Nat) (m0 m : Mem) (p : Proc) (root sz : Nat) : Prop where
  trade : Trade (fun _ => False) (Owns m root) m0 m
  image : Space kend tramp m { pagetable := root, sz := sz, trapframe := p.trapframe }
  dense : ∀ x, Page x → x < sz → ∃ t flags, m.map root x = some (t, flags) ∧ flags.testBit 4

lemma map_of_view {b : Fin pgsize → UInt8} (h : m.view root x = some (flags, b)) :
    ∃ t, m.map root x = some (t, flags) := by
  cases hm : m.map root x with
  | none =>
    rw [view_eq_none.mpr hm] at h
    cases h
  | some e =>
    rw [Mem.view, hm] at h
    have hflags : e.2 = flags := congrArg Prod.fst (Option.some.inj h)
    exact ⟨e.1, by rw [← hflags]⟩

section
variable (h : Loading kend tramp m0 m p root sz)
include h

lemma Loading.evolves (he : Evolves kend root m m' v) (hsz : newsz ≤ trapframe)
    (hv : ∀ x, Page x → x < trapframe → v x ≠ none → x < newsz)
    (hdense : ∀ x, Page x → x < newsz → ∃ flags b, v x = some (flags, b) ∧ flags.testBit 4) :
    Loading kend tramp m0 m' p root newsz where
  trade := h.trade.trans he.trade
  image := h.image.resize he hsz hv
  dense x hx hlt := by
    obtain ⟨flags, b, hvx, hu⟩ := hdense x hx hlt
    have hview := he.view x hx (by omega)
    rw [hvx] at hview
    obtain ⟨t, hm⟩ := map_of_view hview
    exact ⟨t, flags, hm, hu⟩

lemma Loading.dense_view (hx : Page x) (hlt : x < sz) :
    ∃ flags b, m.view root x = some (flags, b) ∧ flags.testBit 4 := by
  obtain ⟨t, flags, hm, hu⟩ := h.dense x hx hlt
  exact ⟨flags, m.bytes t, by rw [Mem.view, hm]; rfl, hu⟩

lemma Loading.keep (he : Evolves kend root m m' (m.view root)) :
    Loading kend tramp m0 m' p root sz :=
  h.evolves he h.image.size (fun _ hx hlt hv => h.image.view_ne_none hx hlt hv)
    (fun _ hx hlt => h.dense_view hx hlt)
end

lemma Space.beside (hp : Space kend tramp m0 p) (ht : Trade (fun _ => False) H m0 m) :
    Same kend m0 m p.pagetable ∧ Space kend tramp m p ∧ ∀ t, Has m p t → ¬H t := by
  obtain ⟨hsame, hp'⟩ := hp.trade ht (fun _ hf => hf.elim) fun _ _ hf => hf
  refine ⟨hsame, hp', fun t ht' ho => ?_⟩
  have hfree := ((ht.pages t).mp (.inl ho)).resolve_left id
  exact hp.not_free (hsame.has.mp ht') hfree

lemma testBit_user (xperm : Nat) : (pteR ||| pteU ||| xperm ||| pteV).testBit 4 := by
  rw [Nat.testBit_or, Nat.testBit_or, Nat.testBit_or]
  rfl

lemma Loading.size_le (h : Loading kend tramp m0 m p root sz) : sz ≤ phystop := by
  have hsz : sz ≤ trapframe := h.image.size
  have h63 := lt_of_le_trapframe hsz
  refine (le_pgroundup h63).trans (h.image.sound.dense_le (pgroundup_aligned sz)
    (pgroundup_le_trapframe hsz) (fun x hx hlt => ?_))
  obtain ⟨t, flags, hm, -⟩ := h.dense x hx ((hx.lt_pgroundup_iff h63).mp hlt)
  rw [hm]
  simp

def Shows (m : Mem) (root : Nat) (v : View) : Prop :=
  ∀ x, Page x → x < trapframe → m.view root x = v x

lemma Loading.wp_uvmalloc {xperm : Nat} (h : Loading kend tramp m0 m p root sz)
    (hperm : pteR ||| pteU ||| xperm < 2 ^ 10) :
    wp (uvmalloc kend root sz newsz xperm) m (fun r m' =>
      r = max sz newsz ∧ Loading kend tramp m0 m' p root (max sz newsz) ∧
        Shows m' root ((m.view root).zeroed sz newsz (pteR ||| pteU ||| xperm ||| pteV)) ∨
      r = 0 ∧ Loading kend tramp m0 m' p root sz) E := by
  have hsz : sz ≤ trapframe := h.image.size
  have h63 := lt_of_le_trapframe hsz
  refine wp_imp (Vm.wp_uvmalloc h.image.sound hsz hperm (fun x hx hle hlt => ?_)
    (fun m1 a he ha hle hlt _ => ?_)) (fun r m' hr => ?_)
  · by_contra hne
    exact absurd (h.image.below x hx hlt hne) (not_lt.mpr hle)
  · -- all pages below `a` are mapped
    have hphys := he.sound.dense_le ha hlt (fun x hx hxa => ?_)
    · rw [phystop_eq] at hphys
      rw [trapframe_eq]
      omega
    rw [ne_eq, ← view_eq_none, he.view x hx (by omega), View.zeroed]
    by_cases hin : pgroundup sz ≤ x ∧ x < a
    · rw [if_pos hin]
      simp
    rw [if_neg hin]
    have hiff := hx.lt_pgroundup_iff h63
    obtain ⟨fl, b, hv, -⟩ := h.dense_view hx (by omega : x < sz)
    rw [hv]
    simp
  rcases hr with ⟨hlt, rfl, rfl⟩ | ⟨hle, rfl, htop, hm⟩ | ⟨-, rfl, hm⟩
  · rw [max_eq_left hlt.le]
    refine .inl ⟨rfl, h, fun x _ _ => ?_⟩
    rw [View.zeroed, if_neg (by omega)]
  · rw [max_eq_right hle]
    refine .inl ⟨rfl, h.evolves hm.toEvolves htop (fun x hx hlt hv => ?_)
      (fun x hx hlt => ?_), hm.view⟩
    · rw [View.zeroed] at hv
      by_cases hin : sz ≤ x ∧ x < r
      · exact hin.2
      rw [if_neg hin] at hv
      have : x < sz := h.image.view_ne_none hx hlt hv
      omega
    rw [View.zeroed]
    by_cases hin : sz ≤ x ∧ x < r
    · rw [if_pos hin]
      exact ⟨_, _, rfl, testBit_user xperm⟩
    rw [if_neg hin]
    exact h.dense_view hx (by omega)
  exact .inr ⟨rfl, h.keep hm.toEvolves⟩

lemma Loading.wp_poke (h : Loading kend tramp m0 m p root sz) (hx : Page x) (hlt : x < sz)
    (hm : m.map root x = some (pa, flags)) (hfit : off + src.length ≤ pgsize) :
    wp (poke (pa + off) src) m (fun _ m' => Loading kend tramp m0 m' p root sz ∧
      Shows m' root (fun y => if y = x then some (flags, setBytes (m.bytes pa) off src)
        else m.view root y)) E := by
  have hsz : sz ≤ trapframe := h.image.size
  refine Vm.wp_poke h.image.sound hx (by omega) hm hfit fun m' he _ _ _ => ⟨?_, he.view⟩
  refine h.evolves he hsz (fun y hy hylt hv => ?_) fun y hy hylt => ?_
  · by_cases hyx : y = x
    · omega
    rw [if_neg hyx] at hv
    exact h.image.view_ne_none hy hylt hv
  by_cases hyx : y = x
  · rw [if_pos hyx]
    obtain ⟨t, fl, hm', hu⟩ := h.dense y hy hylt
    rw [hyx, hm] at hm'
    cases hm'
    exact ⟨_, _, rfl, hu⟩
  rw [if_neg hyx]
  exact h.dense_view hy hylt

lemma length_readi_le (f : File) (off n : Nat) : (f.readi off n).length ≤ n := by
  rw [File.readi, length_take]
  omega

def View.loaded (v : View) (f : File) (va offset fsz i : Nat) : View := fun x =>
  if va ≤ x ∧ x < va + i then (v x).map fun e =>
    (e.1, setBytes e.2 0 (f.readi ((offset + (x - va)) % 2 ^ 32) (min (fsz - (x - va)) pgsize)))
  else v x

lemma View.loaded_succ (hva : va % pgsize = 0) (hi : i % pgsize = 0) (hx : Page x) :
    v.loaded f va offset fsz (i + pgsize) x = if x = va + i then
      (v x).map fun e =>
        (e.1, setBytes e.2 0 (f.readi ((offset + i) % 2 ^ 32) (min (fsz - i) pgsize)))
    else v.loaded f va offset fsz i x := by
  have hxa := hx.aligned
  rw [View.loaded, View.loaded]
  by_cases he : x = va + i
  · have hsub : x - va = i := by omega
    rw [if_pos he, if_pos (by rw [pgsize_eq]; omega), hsub]
  have hiff : va ≤ x ∧ x < va + (i + pgsize) ↔ va ≤ x ∧ x < va + i := by
    rw [pgsize_eq] at *
    omega
  rw [if_neg he]
  simp only [hiff]

lemma View.loaded_all (hva : va % pgsize = 0) (hi : i % pgsize = 0)
    (hge : fsz ≤ i) (hlt : i < fsz + pgsize) (hx : Page x) :
    v.loaded f va offset fsz fsz x = v.loaded f va offset fsz i x := by
  have hxa := hx.aligned
  have hiff : va ≤ x ∧ x < va + fsz ↔ va ≤ x ∧ x < va + i := by
    rw [pgsize_eq] at *
    omega
  rw [View.loaded, View.loaded]
  simp only [hiff]

lemma Loading.wp_loadsegLoop (hk : 0 < kend) (hva : va % pgsize = 0) (hfsz : va + fsz ≤ sz) :
    ∀ k m i, Loading kend tramp m0 m p root sz → i % pgsize = 0 → fsz ≤ i + k * pgsize →
      i < fsz + pgsize → Shows m root (v.loaded f va offset fsz i) →
      wp (loadsegLoop f root va offset fsz k i) m (fun r m' =>
        Loading kend tramp m0 m' p root sz ∧
          (r = 0 ∧ Shows m' root (v.loaded f va offset fsz fsz) ∨ r = -1)) E := by
  have hpg : pgsize = 4096 := pgsize_eq
  have hdone : ∀ m i, Loading kend tramp m0 m p root sz → i % pgsize = 0 → fsz ≤ i →
      i < fsz + pgsize → Shows m root (v.loaded f va offset fsz i) →
      Loading kend tramp m0 m p root sz ∧ ((0 : Int) = 0 ∧
        Shows m root (v.loaded f va offset fsz fsz) ∨ (0 : Int) = -1) :=
    fun m i h hi hge hlt hv => ⟨h, .inl ⟨rfl, fun x hx hxlt => by
      rw [hv x hx hxlt, View.loaded_all hva hi hge hlt hx]⟩⟩
  intro k
  induction k with
  | zero =>
    intro m i h hi hge hlt hv
    exact wp_pure.mpr (hdone m i h hi (by omega) hlt hv)
  | succ k ih =>
    intro m i h hi hge hlt hv
    rw [loadsegLoop]
    by_cases hmore : i < fsz
    · have hsz : sz ≤ trapframe := h.image.size
      have hphys := h.size_le
      rw [phystop_eq] at hphys
      have htf : trapframe = 274877898752 := trapframe_eq
      have hmx : maxva = 274877906944 := maxva_eq
      have hal : (va + i) % pgsize = 0 := by
        rw [Nat.add_mod, hva, hi]
        rfl
      have hpage := page_of_lt hal (by omega)
      obtain ⟨pa, flags, hm, hu⟩ := h.dense (va + i) hpage (by omega)
      have hram : Ram kend pa := h.image.sound.ram _ pa flags hpage (by omega) hm
      have habove := hram.above
      rw [if_pos hmore, Nat.mod_eq_of_lt (by omega), wp_bind, wp_walkaddr,
        walkaddr_of_some (by omega) hm, if_pos hu, if_neg (by omega)]
      have hlen := length_readi_le f ((offset + i) % 2 ^ 32) (min (fsz - i) pgsize)
      have hpoke : wp (poke (pa + 0) _) m _ E := h.wp_poke hpage (by omega) hm
        (by omega : 0 + (f.readi ((offset + i) % 2 ^ 32) (min (fsz - i) pgsize)).length ≤ pgsize)
      refine wp_bind_of hpoke (fun _ m1 ⟨hl1, hv1⟩ => ?_)
      by_cases hshort : (f.readi ((offset + i) % 2 ^ 32) (min (fsz - i) pgsize)).length ≠
          min (fsz - i) pgsize
      · rw [if_pos hshort, wp_pure]
        exact ⟨hl1, .inr rfl⟩
      rw [if_neg hshort, Nat.mod_eq_of_lt (by omega)]
      refine ih m1 _ hl1 (by rw [Nat.add_mod_right, hi]) (by rw [Nat.succ_mul] at hge; omega)
        (by omega) (fun x hx hxlt => ?_)
      rw [hv1 x hx hxlt, View.loaded_succ hva hi hx]
      dsimp only
      by_cases hxe : x = va + i
      · -- the page was not loaded yet
        have hvx := hv x hx hxlt
        rw [View.loaded, if_neg (by omega), hxe, Mem.view, hm] at hvx
        rw [if_pos hxe, if_pos hxe, hxe, ← hvx]
        rfl
      rw [if_neg hxe, if_neg hxe, hv x hx hxlt]
    rw [if_neg hmore, wp_pure]
    exact hdone m i h hi (not_lt.mp hmore) hlt hv

lemma View.loaded_zero : v.loaded f va offset fsz 0 = v := by
  funext x
  rw [View.loaded, if_neg (by omega)]

lemma flags2perm_lt (flags : Nat) : pteR ||| pteU ||| flags2perm flags < 2 ^ 10 := by
  unfold flags2perm
  by_cases h0 : flags.testBit 0
  · by_cases h1 : flags.testBit 1
    · rw [if_pos h0, if_pos h1]
      decide
    rw [if_pos h0, if_neg h1]
    decide
  by_cases h1 : flags.testBit 1
  · rw [if_neg h0, if_pos h1]
    decide
  rw [if_neg h0, if_neg h1]
  decide

lemma field_lt (bytes : List UInt8) (off n : Nat) : field bytes off n < 256 ^ n :=
  getLE_lt _ _ n

lemma Loading.wp_segment {offset fsz msz xperm : Nat} {k : Nat → VmM (Bool × Nat)}
    {Q : Bool × Nat → Mem → Prop} (h : Loading kend tramp m0 m p root sz) (hk : 0 < kend)
    (hva : va % pgsize = 0) (hle : fsz ≤ msz) (hperm : pteR ||| pteU ||| xperm < 2 ^ 10)
    (hbad : ∀ m' sz', Loading kend tramp m0 m' p root sz' → Q (false, sz') m')
    (hnext : ∀ m', Loading kend tramp m0 m' p root (max sz (va + msz)) →
      Shows m' root (((m.view root).zeroed sz (va + msz)
        (pteR ||| pteU ||| xperm ||| pteV)).loaded f va (offset % 2 ^ 32) fsz fsz) →
      wp (k (max sz (va + msz))) m' Q E) :
    wp (uvmalloc kend root sz (va + msz) xperm >>= fun sz1 =>
      if sz1 = 0 then pure (false, sz)
      else loadseg f root va offset fsz >>= fun e =>
        if e < 0 then pure (false, sz1) else k sz1) m Q E := by
  refine wp_bind_of (h.wp_uvmalloc hperm) fun sz1 m1 hr => ?_
  refine wp_ite (fun h0 => wp_pure.mpr ?_) fun h0 => ?_
  · rcases hr with ⟨hmax, hl, -⟩ | ⟨-, hl⟩
    · have hz : sz = max sz (va + msz) := by omega
      rw [hz]
      exact hbad _ _ hl
    exact hbad _ _ hl
  obtain ⟨rfl, hl, hv⟩ := hr.resolve_right fun hz => h0 hz.1
  have hphys := hl.size_le
  rw [phystop_eq] at hphys
  have hmod : fsz % 2 ^ 32 = fsz := Nat.mod_eq_of_lt (by omega)
  have hload : wp (loadseg f root va offset fsz) m1 (fun e m' =>
      Loading kend tramp m0 m' p root (max sz (va + msz)) ∧
        (e = 0 ∧ Shows m' root (((m.view root).zeroed sz (va + msz)
          (pteR ||| pteU ||| xperm ||| pteV)).loaded f va (offset % 2 ^ 32) fsz fsz) ∨
        e = -1)) E := by
    unfold loadseg
    rw [hmod]
    refine Loading.wp_loadsegLoop hk hva (by omega) _ m1 0 hl (by decide) ?_ ?_ ?_
    · rw [pgsize_eq]
      omega
    · rw [pgsize_eq]
      omega
    rwa [View.loaded_zero]
  refine wp_bind_of hload fun e m2 ⟨hl2, he⟩ => ?_
  rcases he with ⟨rfl, hv2⟩ | rfl
  · rw [if_neg (by decide)]
    exact hnext m2 hl2 hv2
  rw [if_pos (by decide), wp_pure]
  exact hbad _ _ hl2

structure Image where
  view : View
  size : Nat

def Image.add (im : Image) (f : File) (ph : List UInt8) : Image :=
  if field ph 0 4 ≠ 1 then im
  else {
    view := (im.view.zeroed im.size (field ph 16 8 + field ph 40 8)
      (pteR ||| pteU ||| flags2perm (field ph 4 4) ||| pteV)).loaded f (field ph 16 8)
        (field ph 8 8 % 2 ^ 32) (field ph 32 8) (field ph 32 8)
    size := max im.size (field ph 16 8 + field ph 40 8) }

def Image.addAll (f : File) : Nat → Nat → Image → Image
  | 0, _, im => im
  | n + 1, off, im => addAll f n ((off + proghdrSize) % 2 ^ 32) (im.add f (f.readi off proghdrSize))

def File.image (f : File) : Image :=
  Image.addAll f (field (f.readi 0 elfhdrSize) 56 2) (field (f.readi 0 elfhdrSize) 32 8 % 2 ^ 32)
    ⟨fun _ => none, 0⟩

lemma View.zeroed_congr {lo hi : Nat} (h : v x = w x) :
    v.zeroed lo hi flags x = w.zeroed lo hi flags x := by
  rw [View.zeroed, View.zeroed, h]

lemma View.loaded_congr (h : v x = w x) :
    v.loaded f va offset fsz i x = w.loaded f va offset fsz i x := by
  rw [View.loaded, View.loaded, h]

lemma Loading.wp_loadSegments (hk : 0 < kend) :
    ∀ n m off im, Loading kend tramp m0 m p root im.size → Shows m root im.view →
      wp (loadSegments kend f root n off im.size) m (fun r m' =>
        Loading kend tramp m0 m' p root r.2 ∧ (r.1 → r.2 = (Image.addAll f n off im).size ∧
            Shows m' root (Image.addAll f n off im).view)) E := by
  intro n
  induction n with
  | zero => exact fun m off im h hv => wp_pure.mpr ⟨h, fun _ => ⟨rfl, hv⟩⟩
  | succ n ih =>
    intro m off im h hv
    have hbad : ∀ m' sz', Loading kend tramp m0 m' p root sz' →
        Loading kend tramp m0 m' p root sz' ∧ (false → sz' = (Image.addAll f (n + 1) off im).size ∧
            Shows m' root (Image.addAll f (n + 1) off im).view) := fun _ _ h => ⟨h, nofun⟩
    rw [loadSegments]
    rw [Image.addAll] at hbad ⊢
    generalize hph : f.readi off proghdrSize = ph at hbad ⊢
    refine wp_ite (fun _ => wp_pure.mpr ?_) fun h1 => ?_
    · exact hbad _ _ h
    refine wp_ite (fun h2 => ?_) fun h2 => ?_
    · have hadd : im.add f ph = im := by rw [Image.add, if_pos h2]
      rw [hadd]
      exact ih m _ im h hv
    have hadd : im.add f ph = _ := if_neg h2
    have hva := field_lt ph 16 8
    have hmsz := field_lt ph 40 8
    have hperm := flags2perm_lt (field ph 4 4)
    refine wp_ite (fun _ => wp_pure.mpr ?_) fun h3 => ?_
    · exact hbad _ _ h
    refine wp_ite (fun _ => wp_pure.mpr ?_) fun h4 => ?_
    · exact hbad _ _ h
    refine wp_ite (fun _ => wp_pure.mpr ?_) fun h5 => ?_
    · exact hbad _ _ h
    have hend : (field ph 16 8 + field ph 40 8) % 2 ^ 64 = field ph 16 8 + field ph 40 8 := by
      rw [show (256 : Nat) ^ 8 = 2 ^ 64 by decide] at hva hmsz
      omega
    rw [hend]
    refine h.wp_segment hk (not_not.mp h5) (not_lt.mp h3) hperm hbad fun m' hl hv' => ?_
    have hsize : (im.add f ph).size = max im.size (field ph 16 8 + field ph 40 8) := by rw [hadd]
    rw [← hsize] at hl ⊢
    refine ih m' _ _ hl fun x hx hlt => ?_
    rw [hv' x hx hlt, hadd]
    rw [View.loaded_congr (View.zeroed_congr (hv x hx hlt))]

lemma clear_user {pte : Nat} (hlt : pte < 2 ^ 64) (hv : pte.testBit 0) (hr : pte.testBit 1) :
    pte - (pte &&& pteU) < 2 ^ 64 ∧ (pteFlags (pte - (pte &&& pteU))).testBit 1 ∧
      (pteFlags (pte - (pte &&& pteU))).testBit 4 = false ∧
      ofPte (pte - (pte &&& pteU)) = some (pte2pa pte, pteFlags (pte - (pte &&& pteU))) := by
  have hand : pte &&& pteU = if pte.testBit 4 then 16 else 0 := by
    rw [show pteU = 2 ^ 4 by rfl, Nat.and_two_pow]
    cases pte.testBit 4 <;> rfl
  cases hu : pte.testBit 4 with
  | false =>
    rw [hand, hu, if_neg (by simp), Nat.sub_zero, ofPte, if_pos hv, testBit_pteFlags (by decide),
      testBit_pteFlags (by decide)]
    exact ⟨hlt, hr, hu, rfl⟩
  | true =>
    rw [hand, hu, if_pos rfl]
    rw [Nat.testBit_eq_decide_div_mod_eq, decide_eq_true_eq] at hv hr hu
    have hv' : (pte - 16).testBit 0 := by
      rw [Nat.testBit_eq_decide_div_mod_eq, decide_eq_true_eq]
      omega
    have hr' : (pte - 16).testBit 1 := by
      rw [Nat.testBit_eq_decide_div_mod_eq, decide_eq_true_eq]
      omega
    have hu' : (pte - 16).testBit 4 = false := by
      rw [Nat.testBit_eq_decide_div_mod_eq, decide_eq_false_iff_not]
      omega
    have hpa : pte2pa (pte - 16) = pte2pa pte := by
      rw [pte2pa, pte2pa, Nat.shiftRight_eq_div_pow, Nat.shiftRight_eq_div_pow,
        show (pte - 16) / 2 ^ 10 = pte / 2 ^ 10 by omega]
    rw [ofPte, if_pos hv', testBit_pteFlags (by decide), testBit_pteFlags (by decide), hpa]
    exact ⟨by omega, hr', hu', rfl⟩

section
variable (h : Sound kend m root) (hva : Page va) (hlt : va < trapframe)
  (hm : m.map root va = some (pa, flags))
include h hva hlt hm

lemma Sound.reflag {g : Nat} (hread : g.testBit 1) (hb : Becomes kend root (fun _ => False) m m'
      (fun x => if x = va then some (pa, g) else m.map root x)) :
    Evolves kend root m m' (fun x => if x = va then some (g, m.bytes pa) else m.view root x) := by
  have hold : ∀ x t fl, Page x → m'.map root x = some (t, fl) →
      ∃ fl', m.map root x = some (t, fl') ∧ (x = va ∧ fl = g ∨ fl = fl') := by
    intro x t fl hx hm'
    rw [hb.map x hx] at hm'
    by_cases he : x = va
    · rw [if_pos he] at hm'
      cases hm'
      exact ⟨flags, by rw [he, hm], .inl ⟨he, rfl⟩⟩
    rw [if_neg he] at hm'
    exact ⟨fl, hm', .inr rfl⟩
  have hs : Sound kend m' root := by
    refine ⟨hb.paged, fun x t fl hx hlt hm => ?_, fun x t fl hx hlt hm => ?_,
      fun x y t fl fl' hx hy hlt hlt' hm hm' => ?_, fun x t fl hx hm => ?_, fun x hx hge => ?_⟩
    · obtain ⟨fl', hm', -⟩ := hold x t fl hx hm
      exact h.ram x t fl' hx hlt hm'
    · obtain ⟨fl', hm', -⟩ := hold x t fl hx hm
      exact hb.idle (h.idle x t fl' hx hlt hm') fun hf => hf
    · obtain ⟨e, he, -⟩ := hold x t fl hx hm
      obtain ⟨e', he', -⟩ := hold y t fl' hy hm'
      exact h.once x y t e e' hx hy hlt hlt' he he'
    · obtain ⟨fl', hm', hcase⟩ := hold x t fl hx hm
      rcases hcase with ⟨-, rfl⟩ | rfl
      · exact hread
      exact h.readable x t fl hx hm'
    rw [hb.map x hx, if_neg (fun he => ?_), h.half x hx hge]
    rw [he, maxva_eq] at hge
    rw [trapframe_eq] at hlt
    omega
  have hbyte : ∀ a, ¬Owns m root (pgrounddown a) → pgrounddown a ∉ m.freelist →
      m'.byte a = m.byte a := fun a h1 h2 => hb.byte a (fun hr => h1 (.inl hr)) h2 fun hf => hf
  refine ⟨hs, fun x hx hxlt => ?_, fun x hx hge => by rw [hb.map x hx, if_neg (by omega)],
    fun t => ?_, hbyte⟩
  · by_cases he : x = va
    · rw [if_pos he, Mem.view, hb.map x hx, if_pos he]
      show some (g, _) = some (g, _)
      congr 2
      funext o
      have hidle := h.idle va pa flags hva hlt hm
      have hround := pgrounddown_of_mem (h.ram va pa flags hva hlt hm).aligned
        (a := pa + o.val) (by omega) (by have := o.isLt; omega)
      exact hb.byte _ (by rw [hround]; exact hidle.notTable) (by rw [hround]; exact hidle.notFree)
        fun hf => hf
    rw [if_neg he]
    exact hb.view h hx hxlt (if_neg he) fun _ _ _ hf => hf
  have hiff : Owns m' root t ↔ Reached m'.next root 2 t ∨
      ∃ x flags, Page x ∧ x < trapframe ∧ m.map root x = some (t, flags) := by
    apply or_congr_right
    constructor <;> rintro ⟨x, fl, hx, hxlt, hmx⟩
    · obtain ⟨fl', hm', -⟩ := hold x t fl hx hmx
      exact ⟨x, fl', hx, hxlt, hm'⟩
    by_cases he : x = va
    · rw [he, hm] at hmx
      cases hmx
      exact ⟨va, g, hva, hlt, by rw [hb.map va hva, if_pos rfl]⟩
    exact ⟨x, fl, hx, hxlt, by rw [hb.map x hx, if_neg he, hmx]⟩
  have hpages := hb.pages t
  rw [hiff, or_right_comm, hpages, or_false, or_right_comm]
  rfl

lemma wp_uvmclear :
    wp (uvmclear root va) m (fun _ m' => ∃ g, g.testBit 4 = false ∧ Evolves kend root m m' (fun x =>
        if x = va then some (g, m.bytes pa) else m.view root x)) E := by
  have hmax : va < maxva := by
    rw [trapframe_eq] at hlt
    rw [maxva_eq]
    omega
  unfold uvmclear
  rw [wp_bind]
  refine wp_walk_mapped hmax hm fun t i hf hi hv hpa hflags => ?_
  have hread : (m.entry t i).testBit 1 := by
    rw [← testBit_pteFlags (by decide), hflags]
    exact h.readable va pa flags hva hm
  obtain ⟨h1, h2, hu, h3⟩ := clear_user Mem.entry_lt hv hread
  rw [wp_bind, wp_readPte, wp_writePte, hi]
  rw [hi] at h1 h2 hu h3 hpa
  have hb := h.paged.store hva hf h1
  rw [h3, hpa] at hb
  exact ⟨_, hu, h.reflag hva hlt hm h2 hb⟩
end

structure Staged (kend tramp : Nat) (m0 m : Mem) (p : Proc) (root sz : Nat) : Prop where
  trade : Trade (fun _ => False) (Owns m root) m0 m
  image : Space kend tramp m { pagetable := root, sz := sz, trapframe := p.trapframe }
  large : pgsize ≤ sz
  aligned : sz % pgsize = 0
  stack : ∃ pa flags, m.map root (sz - pgsize) = some (pa, flags) ∧ flags.testBit 4 ∧
    flags.testBit 2

def Alike (m m' : Mem) (root bound : Nat) : Prop :=
  ∀ x, Page x → x < bound → m'.view root x = m.view root x

lemma Alike.trans {m'' : Mem} {bound : Nat} (h : Alike m m' root bound)
    (h' : Alike m' m'' root bound) : Alike m m'' root bound :=
  fun x hx hlt => (h' x hx hlt).trans (h x hx hlt)

lemma Alike.refl (m : Mem) (root bound : Nat) : Alike m m root bound := fun _ _ _ => rfl

lemma Staged.page (h : Staged kend tramp m0 m p root sz) :
    Page (sz - pgsize) ∧ sz - pgsize < trapframe ∧ (sz - pgsize) % pgsize = 0 := by
  have hsz : sz ≤ trapframe := h.image.size
  have h1 := h.large
  have h2 := h.aligned
  have h3 : sz - pgsize < trapframe := by
    rw [pgsize_eq] at *
    omega
  have h4 : (sz - pgsize) % pgsize = 0 := by
    rw [pgsize_eq] at *
    omega
  exact ⟨page_of_lt h4 h3, h3, h4⟩

lemma trapframe_le_maxva : trapframe ≤ maxva := by
  rw [trapframe_eq, maxva_eq]
  decide

lemma Staged.wp_copyout (h : Staged kend tramp m0 m p root sz) (hk : 0 < kend)
    (hlo : sz - pgsize ≤ dst) (hhi : dst + src.length ≤ sz) :
    wp (copyout kend p root dst src) m (fun r m' => r = 0 ∧ Staged kend tramp m0 m' p root sz ∧
      Alike m m' root (sz - pgsize)) E := by
  have hnil : ∀ fuel m' dst, Staged kend tramp m0 m' p root sz → Alike m m' root (sz - pgsize) →
      wp (copyoutLoop kend p root fuel dst []) m' (fun r m' => r = 0 ∧
        Staged kend tramp m0 m' p root sz ∧ Alike m m' root (sz - pgsize)) E := by
    intro fuel m' dst h hal
    cases fuel with
    | zero => exact wp_pure.mpr ⟨rfl, h, hal⟩
    | succ fuel =>
      rw [copyoutLoop, if_pos rfl, wp_pure]
      exact ⟨rfl, h, hal⟩
  unfold copyout
  cases hsrc : src with
  | nil => exact hnil _ m dst h (Alike.refl m root _)
  | cons b bs =>
    rw [← hsrc]
    have hlen : src.length = bs.length + 1 := by rw [hsrc, length_cons]
    obtain ⟨hpage, hlt, hal⟩ := h.page
    obtain ⟨pa, flags, hm, hu, hw⟩ := h.stack
    have hlarge := h.large
    have hround : pgrounddown dst = sz - pgsize := pgrounddown_of_mem hal hlo (by omega)
    have hram : Ram kend pa := h.image.sound.ram _ pa flags hpage hlt hm
    have habove := hram.above
    have hmax := lt_of_lt_of_le hlt trapframe_le_maxva
    have hpa : pa ≠ 0 := by omega
    have hfit : dst - (sz - pgsize) + src.length ≤ pgsize := by
      generalize pgsize = n at *
      omega
    have hn : min (pgsize - (dst - (sz - pgsize))) src.length = src.length := by
      generalize pgsize = n at *
      omega
    rw [hlen, copyoutLoop, if_neg (by rw [hsrc]; simp), hround, if_neg (not_le.mpr hmax),
      wp_bind, userAddr, wp_bind, wp_walkaddr, walkaddr_of_some hlt hm, if_pos hu, if_neg hpa,
      wp_pure, if_neg hpa, wp_bind]
    refine wp_walk_mapped hmax hm fun t i _ _ _ _ hflags => ?_
    show wp (readPte t i >>= _) m _ _
    rw [wp_bind, wp_readPte, ← testBit_pteFlags (by decide), hflags, if_neg (by simp [hw]), hn]
    dsimp only
    rw [take_length, drop_length, wp_bind]
    refine wp_poke h.image.sound hpage hlt hm hfit fun m' he hmap _ _ => hnil _ m' _ ?_
      (fun y hy hylt => by rw [he.view y hy (by omega), if_neg (by omega)])
    refine ⟨h.trade.trans he.trade, h.image.resize he h.image.size (fun y hy hylt hv => ?_), hlarge,
      h.aligned, pa, flags, by rw [hmap, hm], hu, hw⟩
    by_cases hyx : y = sz - pgsize
    · rw [hyx]
      exact Nat.sub_lt (lt_of_lt_of_le (by decide) hlarge) (by decide)
    rw [if_neg hyx] at hv
    exact h.image.view_ne_none hy hylt hv

lemma wp_copyout_high {Q : Int → Mem → Prop} (hne : src ≠ [])
    (hdst : maxva ≤ pgrounddown dst) (hQ : Q (-1) m) : wp (copyout kend p root dst src) m Q E := by
  unfold copyout
  obtain ⟨k, hk⟩ := Nat.exists_eq_succ_of_ne_zero (mt length_eq_zero_iff.mp hne)
  rw [hk, copyoutLoop, if_neg hne]
  rwa [if_pos hdst, wp_pure]

lemma pushDown_cases {sp n : Nat} (hsp : sp ≤ trapframe) (hn : n ≤ pgsize) :
    pushDown sp n + n ≤ sp ∨ maxva ≤ pgrounddown (pushDown sp n) := by
  have htf : trapframe = 274877898752 := trapframe_eq
  have hmx : maxva = 274877906944 := maxva_eq
  have hpg : pgsize = 4096 := pgsize_eq
  rw [hpg] at hn
  rw [hmx]
  unfold pushDown pgrounddown
  dsimp only
  rw [hpg]
  omega

lemma Staged.wp_push {n : Nat} (h : Staged kend tramp m0 m p root sz) (hk : 0 < kend)
    (hsp : dst ≤ sz) (hsrc : src.length = n) (hpos : 0 < n) (hn : n ≤ pgsize)
    (hbase : ¬pushDown dst n < sz - pgsize) :
    wp (copyout kend p root (pushDown dst n) src) m (fun r m' =>
      Staged kend tramp m0 m' p root sz ∧ Alike m m' root (sz - pgsize) ∧
        (¬r < 0 → pushDown dst n ≤ sz)) E := by
  have hsz : sz ≤ trapframe := h.image.size
  rcases pushDown_cases (by omega : dst ≤ trapframe) hn with hle | hhigh
  · refine wp_imp (h.wp_copyout hk (by omega) (by omega)) fun r m' hr =>
      ⟨hr.2.1, hr.2.2, fun _ => by omega⟩
  refine wp_copyout_high (fun hnil => ?_) hhigh
    ⟨h, Alike.refl m root _, fun h0 => absurd (by decide) h0⟩
  rw [hnil] at hsrc
  simp at hsrc
  omega

lemma Staged.wp_pushArgs (hk : 0 < kend) : ∀ argv m sp ustack,
    Staged kend tramp m0 m p root sz → sp ≤ sz → ustack.length ≤ maxarg →
    wp (pushArgs kend p root (sz - userstack * pgsize) argv sp ustack) m (fun r m' =>
      Staged kend tramp m0 m' p root sz ∧ Alike m m' root (sz - pgsize) ∧
        ∀ e, r = some e → e.1 ≤ sz ∧ e.2.length ≤ maxarg ∧
          e.2.length = ustack.length + argv.length) E := by
  intro argv
  induction argv with
  | nil =>
    intro m sp ustack h hsp hlen
    refine wp_pure.mpr ⟨h, Alike.refl m root _, fun e he => ?_⟩
    cases he
    exact ⟨hsp, hlen, rfl⟩
  | cons s argv ih =>
    intro m sp ustack h hsp hlen
    have hs := s.property
    rw [pushArgs]
    refine wp_ite (fun _ => wp_pure.mpr ?_) fun h1 => ?_
    · exact ⟨h, Alike.refl m root _, fun e he => by cases he⟩
    refine wp_ite (fun _ => wp_pure.mpr ?_) fun h2 => ?_
    · exact ⟨h, Alike.refl m root _, fun e he => by cases he⟩
    refine wp_bind_of (h.wp_push hk hsp (by simp) (by omega) (by omega)
      (by rwa [userstack, one_mul] at h2)) fun r m1 hr => ?_
    obtain ⟨hm1, ha1, hle⟩ := hr
    refine wp_ite (fun _ => wp_pure.mpr ?_) fun h3 => ?_
    · exact ⟨hm1, ha1, fun e he => by cases he⟩
    refine wp_imp (ih m1 _ (ustack ++ [_]) hm1 (hle h3) ?_) fun r m2 ⟨hm2, ha2, hr⟩ =>
      ⟨hm2, ha1.trans ha2, fun e he => ?_⟩
    · rw [length_append, length_singleton]
      omega
    obtain ⟨hsp', hmax, hcount⟩ := hr e he
    rw [length_append, length_singleton] at hcount
    rw [length_cons]
    exact ⟨hsp', hmax, by omega⟩

lemma Staged.wp_pushStack (hk : 0 < kend) (h : Staged kend tramp m0 m p root sz) :
    wp (pushStack kend p root sz argv) m (fun r m' => Staged kend tramp m0 m' p root sz ∧
      Alike m m' root (sz - pgsize) ∧ ∀ e, r = some e → e.2 = argv.length) E := by
  unfold pushStack
  refine wp_bind_of (Staged.wp_pushArgs hk argv m sz [] h le_rfl zero_le) fun r m1 hr => ?_
  obtain ⟨hm1, ha1, hr⟩ := hr
  cases r with
  | none => exact wp_pure.mpr ⟨hm1, ha1, nofun⟩
  | some e =>
    obtain ⟨sp, ustack⟩ := e
    obtain ⟨hsp, hlen, hcount⟩ := hr _ rfl
    have hlen : ustack.length ≤ 32 := hlen
    have hbytes : ((ustack ++ [0]).flatMap (leBytes 8)).length = (ustack.length + 1) * 8 := by
      rw [length_flatMap]
      simp [length_leBytes, Nat.succ_mul]
    refine wp_ite (fun _ => wp_pure.mpr ?_) fun h2 => ?_
    · exact ⟨hm1, ha1, nofun⟩
    refine wp_bind_of (hm1.wp_push hk hsp hbytes (by omega) (by rw [pgsize_eq]; omega)
      (by rwa [userstack, one_mul] at h2)) fun r m2 hr => ?_
    obtain ⟨hm2, ha2, -⟩ := hr
    refine wp_ite (fun _ => wp_pure.mpr ?_) fun _ => ?_
    · exact ⟨hm2, ha1.trans ha2, nofun⟩
    rw [wp_pure]
    refine ⟨hm2, ha1.trans ha2, fun e he => ?_⟩
    cases he
    exact hcount.trans (zero_add _)

def Replaced (kend tramp : Nat) (m : Mem) (p : Proc) (m' : Mem) (q : Proc) : Prop :=
  Space kend tramp m' q ∧ q.trapframe = p.trapframe ∧ Trade (Has m p) (Has m' q) m m'

lemma Space.replaced_self (hp : Space kend tramp m p)
    (ht : Trade (fun _ => False) (fun _ => False) m m') : Replaced kend tramp m p m' p := by
  obtain ⟨hsame, hp', -⟩ := hp.beside ht
  refine ⟨hp', rfl, (ht.add (K := Has m p) (fun t h => ⟨id, hp.not_free h⟩)).congr (fun t => ?_)
    (fun t => ?_)⟩
  · rw [false_or]
  rw [false_or, hsame.has]

lemma wp_kexecBad (ht : Trade (fun _ => False) (Owns m root) m0 m)
    (himage : Space kend tramp m { pagetable := root, sz := sz, trapframe := p.trapframe }) :
    wp (kexecBad kend p root sz) m (fun r m' => r = (-1, p) ∧
      Trade (fun _ => False) (fun _ => False) m0 m') E := by
  unfold kexecBad
  exact wp_bind_of (wp_procFreepagetable himage.sound himage.size himage.below)
    fun _ m1 ht1 => wp_pure.mpr ⟨rfl, ht.trans ht1⟩

lemma Staged.replaced {q : Proc} (h : Staged kend tramp m0 m p root sz)
    (hp : Space kend tramp m0 p)
    (hq : q = { pagetable := root, sz := sz, trapframe := p.trapframe })
    (hs : Scratched p.trapframe m m') :
    wp (procFreepagetable kend p.pagetable p.sz) m' (fun _ m'' => Replaced kend tramp m0 p m'' q ∧
      (∀ t, Owns m0 p.pagetable t → t ∈ m''.freelist) ∧
      (∀ x, m''.map root x = m.map root x) ∧ Shows m'' root (m.view root)) E := by
  obtain ⟨hsame, hp1, hout⟩ := hp.beside h.trade
  have hqm : Space kend tramp m q := by
    rw [hq]
    exact h.image
  have hroot : q.pagetable = root := by rw [hq]
  have htf : q.trapframe = p.trapframe := by rw [hq]
  obtain ⟨hsame2, hp2⟩ := hp1.scratched hs hp1.hand.notOwned
  obtain ⟨hsame3, hq2⟩ := hqm.scratched hs (by rw [← htf]; exact hqm.hand.notOwned)
  have hdisj : ∀ t, Has m' q t → ¬Owns m' p.pagetable t := by
    intro t ht ho
    rcases hsame3.has.mp ht with hr | hr
    · exact hout t (.inl (hsame2.owns.mp ho)) (by rwa [hroot] at hr)
    rw [hr, htf] at ho
    exact hp2.hand.notOwned ho
  have hboth : ∀ t, Owns m' p.pagetable t ∨ Has m' q t ↔ Owns m root t ∨ Has m0 p t := by
    intro t
    rw [hsame3.has, Has, hroot, htf, hsame2.owns, hsame.owns, Has, or_left_comm]
  have ht1 : Trade (Has m0 p) (fun t => Owns m root t ∨ Has m0 p t) m0 m :=
    (h.trade.add (fun t ht => ⟨id, hp.not_free ht⟩)).congr
      (fun t => by rw [false_or]) fun _ => Iff.rfl
  have ht2 := hs.trade (.inr (.inr rfl)) ht1.apart
    ht1.nodup hboth
  refine wp_imp (wp_procFreepagetable hp2.sound hp2.size hp2.below) fun _ m2 ht3 => ?_
  obtain ⟨hsame4, hq4⟩ := hq2.trade ht3 (fun t ho => hp2.sound.owns_ram ho) hdisj
  refine ⟨⟨hq4, htf, (ht1.trans ht2).trans ?_⟩, fun t ho => ?_, fun x => ?_, fun x hx hlt => ?_⟩
  · refine (ht3.add (fun t ht => ⟨hdisj t ht, hq2.not_free ht⟩)).congr
      (fun _ => Iff.rfl) fun t => ?_
    rw [false_or, hsame4.has]
  · have hfree := (ht3.pages t).mpr (.inl (hsame2.owns.mpr (hsame.owns.mpr ho)))
    exact hfree.resolve_left id
  · rw [← hroot, hsame4.map, hsame3.map]
  rw [← hroot, hsame4.view x hx hlt, hsame3.view x hx hlt]

lemma Loading.round (h : Loading kend tramp m0 m p root sz) :
    Loading kend tramp m0 m p root (pgroundup sz) := by
  have hsz : sz ≤ trapframe := h.image.size
  have h63 := lt_of_le_trapframe hsz
  refine ⟨h.trade, ⟨h.image.sound, pgroundup_le_trapframe hsz, fun x hx hlt hne => ?_, h.image.code,
    h.image.frame, h.image.hand⟩, fun x hx hlt => h.dense x hx ((hx.lt_pgroundup_iff h63).mp hlt)⟩
  exact (hx.lt_pgroundup_iff h63).mpr (h.image.below x hx hlt hne)

def Guarded (m : Mem) (root x : Nat) : Prop :=
  ∃ flags b, m.view root x = some (flags, b) ∧ flags.testBit 4 = false

lemma Loading.wp_uvmclear (h : Loading kend tramp m0 m p root (sz + (userstack + 1) * pgsize))
    (hal : sz % pgsize = 0) (hstack : ∃ flags b, m.view root (sz + pgsize) = some (flags, b) ∧
      flags.testBit 4 ∧ flags.testBit 2) :
    wp (uvmclear root sz) m (fun _ m' => Staged kend tramp m0 m' p root
      (sz + (userstack + 1) * pgsize) ∧ Alike m m' root sz ∧ Guarded m' root sz) E := by
  have hpg : pgsize = 4096 := pgsize_eq
  have hsz : sz + (userstack + 1) * pgsize ≤ trapframe := h.image.size
  have hus : (userstack + 1) * pgsize = pgsize + pgsize := by decide
  rw [hus] at hsz h ⊢
  have hpage := page_of_lt hal (by omega : sz < trapframe)
  obtain ⟨pa, flags, hm, -⟩ := h.dense sz hpage (by omega)
  refine wp_imp (Vm.wp_uvmclear h.image.sound hpage (by omega) hm) fun _ m' hg => ?_
  obtain ⟨g, hgu, he⟩ := hg
  obtain ⟨flags', b, hview, hu, hw⟩ := hstack
  have hstack := page_of_lt (by rw [hpg] at hal ⊢; omega) (by omega : sz + pgsize < trapframe)
  rw [← if_neg (by omega : ¬sz + pgsize = sz) (c := sz + pgsize = sz)
    (t := some (g, m.bytes pa)) (e := m.view root (sz + pgsize)), ← he.view _ hstack (by omega)]
    at hview
  obtain ⟨pa', hm'⟩ := map_of_view hview
  refine ⟨⟨h.trade.trans he.trade, h.image.resize he hsz (fun x hx hlt hv => ?_), by omega,
    by rw [hpg] at hal ⊢; omega, pa', flags', ?_, hu, hw⟩, fun x hx hlt => ?_, g, m.bytes pa, ?_,
    hgu⟩
  · by_cases hxe : x = sz
    · omega
    rw [if_neg hxe] at hv
    exact h.image.view_ne_none hx hlt hv
  · rwa [show sz + (pgsize + pgsize) - pgsize = sz + pgsize by omega]
  · rw [he.view x hx (by omega), if_neg (by omega)]
  rw [he.view sz hpage (by omega), if_pos rfl]

structure Installed (m : Mem) (q : Proc) (im : Image) : Prop where
  fits : im.size ≤ phystop
  size : q.sz = pgroundup im.size + (userstack + 1) * pgsize
  pages : ∀ x, Page x → x < pgroundup im.size → m.view q.pagetable x = im.view x
  guard : Guarded m q.pagetable (pgroundup im.size)
  stack : ∃ pa flags, m.map q.pagetable (pgroundup im.size + pgsize) = some (pa, flags) ∧
    flags.testBit 4 ∧ flags.testBit 2

def Execed (kend tramp : Nat) (m : Mem) (p : Proc) (im : Image) (argc : Nat) (r : Int × Proc)
    (m' : Mem) : Prop :=
  r = (-1, p) ∧ Trade (fun _ => False) (fun _ => False) m m' ∨
  r.1 = argc ∧ Replaced kend tramp m p m' r.2 ∧ (∀ t, Owns m p.pagetable t → t ∈ m'.freelist) ∧
    Installed m' r.2 im

lemma Loading.wp_kexecCommit {entry : Nat} {im : Image} (hk : 0 < kend)
    (h : Loading kend tramp m0 m p root im.size) (hv : Shows m root im.view)
    (hp : Space kend tramp m0 p) :
    wp (kexecCommit kend p entry root im.size argv) m
      (fun r m' => Execed kend tramp m0 p im argv.length r m') E := by
  have hr := h.round
  unfold kexecCommit Execed
  dsimp only
  have hal := pgroundup_aligned im.size
  have hpages : ∀ m' : Mem, (∀ x, Page x → x < pgroundup im.size → m'.view root x = m.view root x) →
      ∀ x, Page x → x < pgroundup im.size → m'.view root x = im.view x := by
    intro m' hm' x hx hlt
    have hsz : pgroundup im.size ≤ trapframe := hr.image.size
    rw [hm' x hx hlt, hv x hx (by omega)]
  generalize hsize : pgroundup im.size = sz at hr hal hpages ⊢
  have hsz : sz ≤ trapframe := hr.image.size
  have htf : trapframe = 274877898752 := trapframe_eq
  have hpg : pgsize = 4096 := pgsize_eq
  have hus : (userstack + 1) * pgsize = 8192 := by decide
  have hpos : sz + (userstack + 1) * pgsize ≠ 0 := by omega
  have hmod : (sz + (userstack + 1) * pgsize) % 2 ^ 64 = sz + (userstack + 1) * pgsize := by omega
  have hstack : sz + pgsize < sz + (userstack + 1) * pgsize := by omega
  have hmax : max sz (sz + (userstack + 1) * pgsize) = sz + (userstack + 1) * pgsize := by omega
  rw [hmod]
  refine wp_bind_of (hr.wp_uvmalloc (by decide)) fun sz1 m1 hm1 => ?_
  rw [hmax] at hm1
  rcases hm1 with ⟨rfl, hl, hv1⟩ | ⟨rfl, hl⟩
  · rw [if_neg hpos]
    have htop : sz + (userstack + 1) * pgsize ≤ trapframe := hl.image.size
    have hpage : Page (sz + pgsize) := page_of_lt (by rw [hpg] at hal ⊢; omega) (by omega)
    have hnew := hv1 (sz + pgsize) hpage (by omega)
    rw [View.zeroed, if_pos ⟨Nat.le_add_right _ _, hstack⟩] at hnew
    rw [Nat.add_sub_cancel]
    refine wp_bind_of (hl.wp_uvmclear hal ⟨_, _, hnew, by decide, by decide⟩) fun _ m2 h2 => ?_
    obtain ⟨hs2, ha2, hg2⟩ := h2
    refine wp_bind_of (hs2.wp_pushStack hk) fun r m3 h3 => ?_
    obtain ⟨hs3, ha3, hargc⟩ := h3
    rw [show sz + (userstack + 1) * pgsize - pgsize = sz + pgsize by omega] at ha3
    cases r with
    | none => exact wp_imp (wp_kexecBad hs3.trade hs3.image) fun _ _ hr => .inl hr
    | some e =>
      obtain ⟨sp, argc⟩ := e
      have htfa := hp.hand.ram.aligned
      have hlen : ∀ v, (leBytes 8 v).length = 8 := length_leBytes 8
      refine wp_bind_of (wp_poke_scratched htfa (by rw [hlen]; decide)) fun _ m4 h4 => ?_
      refine wp_bind_of (wp_poke_scratched htfa (by rw [hlen]; decide)) fun _ m5 h5 => ?_
      refine wp_bind_of (wp_poke_scratched htfa (by rw [hlen]; decide)) fun _ m6 h6 => ?_
      refine wp_bind_of (hs3.replaced hp rfl ((h4.trans h5).trans h6)) fun _ m7 h7 => ?_
      obtain ⟨hrep, hfreed, hmap, hshow⟩ := h7
      have hargs : argc = argv.length := hargc _ rfl
      refine wp_pure.mpr (.inr ⟨by rw [hargs], hrep, hfreed, ?_⟩)
      have hview : ∀ x, Page x → x < sz + pgsize → m7.view root x = m2.view root x := by
        intro x hx hlt
        rw [hshow x hx (by omega), ha3 x hx hlt]
      refine ⟨h.size_le, by rw [hsize], ?_, ?_, ?_⟩
      · rw [hsize]
        refine hpages m7 fun x hx hlt => ?_
        rw [hview x hx (by omega), ha2 x hx hlt, hv1 x hx (by omega), View.zeroed,
          if_neg (by omega)]
      · obtain ⟨flags, b, hg, hu⟩ := hg2
        rw [hsize]
        exact ⟨flags, b, by rw [hview sz (page_of_lt hal (by omega)) (by omega), hg], hu⟩
      obtain ⟨pa, flags, hm, hu, hw⟩ := hs3.stack
      rw [show sz + (userstack + 1) * pgsize - pgsize = sz + pgsize by omega] at hm
      rw [hsize]
      exact ⟨pa, flags, by rw [hmap, hm], hu, hw⟩
  rw [if_pos rfl]
  exact wp_imp (wp_kexecBad hl.trade hl.image) fun _ _ hr => .inl hr

section
variable (hk : 0 < kend) (hcode : IsCode kend tramp) (hp : Space kend tramp m p)
  {file : Option File}
include hk hcode hp

lemma wp_kexec_execed : wp (kexec kend tramp p file argv) m (fun r m' =>
      r = (-1, p) ∧ Trade (fun _ => False) (fun _ => False) m m' ∨
      ∃ f, file = some f ∧ Execed kend tramp m p f.image argv.length r m') E := by
  have hself : Trade (fun _ => False) (fun _ => False) m m :=
    ⟨fun _ => Iff.rfl, fun _ hf => hf.elim, hp.sound.paged.nodup, fun _ _ _ => rfl⟩
  unfold kexec
  cases file with
  | none => exact wp_pure.mpr (.inl ⟨rfl, hself⟩)
  | some f =>
    refine wp_ite (fun _ => wp_pure.mpr ?_) fun h1 => ?_
    · exact .inl ⟨rfl, hself⟩
    refine wp_ite (fun _ => wp_pure.mpr ?_) fun h2 => ?_
    · exact .inl ⟨rfl, hself⟩
    refine wp_bind_of (wp_procPagetable hcode hp.sound.paged.freeRam hp.sound.paged.nodup
      hp.hand.ram) fun r m1 hr => ?_
    cases r with
    | none => exact wp_pure.mpr (.inl ⟨rfl, hr⟩)
    | some root =>
      obtain ⟨hs, ht, hmap⟩ := hr
      obtain ⟨-, hp1, hout⟩ := hp.beside ht
      have hl : Loading kend tramp m m1 p root 0 := ⟨ht, hs.space hmap
        ⟨hp.hand.ram, hout _ (.inr rfl), hp1.hand.notFree⟩,
        fun x _ hlt => absurd hlt (Nat.not_lt_zero x)⟩
      have hv : Shows m1 root (fun _ => none) := by
        intro x hx hlt
        rw [view_eq_none, hmap x hx, if_neg (by omega), if_neg]
        rintro rfl
        exact absurd hlt (by decide)
      refine wp_bind_of (Loading.wp_loadSegments hk _ m1 _ ⟨fun _ => none, 0⟩ hl hv)
        fun r m2 hl2 => ?_
      obtain ⟨hl2, hok⟩ := hl2
      refine wp_ite (fun _ => ?_) fun h3 => ?_
      · exact wp_imp (wp_kexecBad hl2.trade hl2.image) fun _ _ hr => .inl hr
      obtain ⟨hsize, hv2⟩ := hok (Bool.eq_true_of_not_eq_false h3)
      rw [hsize] at hl2 ⊢
      exact wp_imp (hl2.wp_kexecCommit hk hv2 hp) fun _ _ hr => .inr ⟨f, rfl, hr⟩

lemma wp_kexec :
    wp (kexec kend tramp p file argv) m (fun r m' => Replaced kend tramp m p m' r.2) E := by
  refine wp_imp (wp_kexec_execed hk hcode hp) fun r m' hr => ?_
  rcases hr with ⟨rfl, ht⟩ | ⟨f, -, ⟨rfl, ht⟩ | ⟨-, hrep, -⟩⟩
  · exact hp.replaced_self ht
  · exact hp.replaced_self ht
  exact hrep
end
end Xv6.Vm
