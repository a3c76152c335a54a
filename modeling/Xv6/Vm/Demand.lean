import Xv6.Vm.Supply

namespace Xv6.Vm
open Lib

def pteData : Nat := pteW ||| pteU ||| pteR ||| pteV

namespace View
def put (v : View) (x flags : Nat) (b : Fin pgsize → UInt8) : View := fun y =>
  if y = x then some (flags, b) else v y

def touch (v : View) (sz x : Nat) : View :=
  if x < sz ∧ (v x).isNone then v.faulted x else v

def copyout (sz : Nat) : Nat → Nat → List UInt8 → View → Int × View
  | 0, _, _, v => (0, v)
  | fuel + 1, dstva, src, v =>
    if src = [] then (0, v)
    else
      match v.touch sz (pgrounddown dstva) (pgrounddown dstva) with
      | none => (-1, v.touch sz (pgrounddown dstva))
      | some (flags, b) =>
        if flags.testBit 4 && flags.testBit 2 then
          let n := min (pgsize - (dstva - pgrounddown dstva)) src.length
          copyout sz fuel (pgrounddown dstva + pgsize) (src.drop n)
            ((v.touch sz (pgrounddown dstva)).put (pgrounddown dstva) flags
              (setBytes b (dstva - pgrounddown dstva) (src.take n)))
        else (-1, v.touch sz (pgrounddown dstva))

def copyin (sz : Nat) : Nat → Nat → Nat → List UInt8 → View → (Int × List UInt8) × View
  | 0, _, _, dst, v => ((0, dst), v)
  | fuel + 1, srcva, len, dst, v =>
    if len = 0 then ((0, dst), v)
    else
      match v.touch sz (pgrounddown srcva) (pgrounddown srcva) with
      | none => ((-1, dst), v.touch sz (pgrounddown srcva))
      | some (flags, b) =>
        if flags.testBit 4 then
          let n := min (pgsize - (srcva - pgrounddown srcva)) len
          copyin sz fuel (pgrounddown srcva + pgsize) (len - n)
            (dst ++ pageBytes b (srcva - pgrounddown srcva) n) (v.touch sz (pgrounddown srcva))
        else ((-1, dst), v.touch sz (pgrounddown srcva))

def copyinstr (v : View) : Nat → Nat → Nat → List UInt8 → Int × List UInt8
  | 0, _, _, dst => (-1, dst)
  | fuel + 1, srcva, max, dst =>
    if max = 0 then (-1, dst)
    else
      match v (pgrounddown srcva) with
      | none => (-1, dst)
      | some (flags, b) =>
        if flags.testBit 4 then
          let n := min (pgsize - (srcva - pgrounddown srcva)) max
          let bytes := pageBytes b (srcva - pgrounddown srcva) n
          if (0 : UInt8) ∈ bytes then (0, dst ++ bytes.takeWhile (· ≠ 0))
          else copyinstr v fuel (pgrounddown srcva + pgsize) (max - n) (dst ++ bytes)
        else (-1, dst)

def access (v : View) (sz va : Nat) (write : Bool) : View × Option (Nat × (Fin pgsize → UInt8)) :=
  match v (pgrounddown va) with
  | some (flags, b) =>
    (v, if flags.testBit 4 && flags.testBit (if write then 2 else 1) then some (flags, b) else none)
  | none => if va < sz then (v.faulted (pgrounddown va), some (pteData, fun _ => 0)) else (v, none)

def load (v : View) (sz va : Nat) : (Int × List UInt8) × View :=
  match v.access sz va false with
  | (v, none) => ((-1, []), v)
  | (v, some (_, b)) => ((0, pageBytes b (va % pgsize) 1), v)

def store (v : View) (sz va : Nat) (c : UInt8) : (Int × List UInt8) × View :=
  match v.access sz va true with
  | (v, none) => ((-1, []), v)
  | (v, some (flags, b)) => ((0, []), v.put (pgrounddown va) flags (setBytes b (va % pgsize) [c]))
end View

inductive UserOp where
  | copyout (dstva : Nat) (src : List UInt8)
  | copyin (srcva len : Nat)
  | copyinstr (srcva max : Nat)
  | load (va : Nat)
  | store (va : Nat) (c : UInt8)

def UserOp.exec (kend : Nat) (p : Proc) : UserOp → VmM (Int × List UInt8)
  | .copyout dstva src => do
    let r ← Vm.copyout kend p p.pagetable dstva src
    return (r, [])
  | .copyin srcva len => Vm.copyin kend p p.pagetable srcva len
  | .copyinstr srcva max => Vm.copyinstr p.pagetable srcva max
  | .load va => userLoad kend p va
  | .store va c => userStore kend p va c

def View.exec (v : View) (sz : Nat) : UserOp → (Int × List UInt8) × View
  | .copyout dstva src =>
    let r := View.copyout sz src.length dstva src v
    ((r.1, []), r.2)
  | .copyin srcva len => View.copyin sz len srcva len [] v
  | .copyinstr srcva max => (v.copyinstr max srcva max [], v)
  | .load va => v.load sz va
  | .store va c => v.store sz va c

structure Matches (kend tramp : Nat) (m : Mem) (p : Proc) (v : View) : Prop where
  space : Space kend tramp m p
  view : ∀ x, x % pgsize = 0 → v x = if x < trapframe then m.view p.pagetable x else none
  spare : Spare (3 * absent (m.map p.pagetable) p.sz) m

variable {kend tramp : Nat} {m m' : Mem} {p : Proc} {va x flags : Nat} {E : Panic → Prop}
  {v v' : View} {b : Fin pgsize → UInt8} {sz : Nat}

lemma view_eq_some (h : m.map p.pagetable x = some (va, flags)) :
    m.view p.pagetable x = some (flags, m.bytes va) := by
  rw [Mem.view, h]
  rfl

lemma Matches.map_of_some (h : Matches kend tramp m p v) (hx : x % pgsize = 0)
    (hv : v x = some (flags, b)) :
    x < trapframe ∧ ∃ pa, m.map p.pagetable x = some (pa, flags) ∧ m.bytes pa = b := by
  rw [h.view x hx] at hv
  by_cases hlt : x < trapframe
  · rw [if_pos hlt] at hv
    cases hm : m.map p.pagetable x with
    | none =>
      rw [view_eq_none.mpr hm] at hv
      cases hv
    | some e =>
      rw [view_eq_some hm] at hv
      cases hv
      exact ⟨hlt, e.1, rfl, rfl⟩
  rw [if_neg hlt] at hv
  cases hv

lemma Matches.none_iff (h : Matches kend tramp m p v) (hx : x % pgsize = 0)
    (hlt : x < trapframe) : v x = none ↔ m.map p.pagetable x = none := by
  rw [h.view x hx, if_pos hlt, view_eq_none]

lemma Space.not_user {pa : Nat} (h : Space kend tramp m p) (hx : x % pgsize = 0)
    (hge : trapframe ≤ x) (hlt : x < maxva) (hm : m.map p.pagetable x = some (pa, flags)) :
    flags.testBit 4 = false := by
  have htop : x = trapframe ∨ x = trampoline := by
    rw [pgsize_eq] at hx
    rw [trapframe_eq] at *
    rw [trampoline_eq, maxva_eq] at *
    omega
  rcases htop with rfl | rfl
  · rw [h.frame] at hm
    cases hm
    decide
  rw [h.code] at hm
  cases hm
  decide

lemma Matches.walkaddr_of_none (h : Matches kend tramp m p v) (hx : x % pgsize = 0)
    (hv : v x = none) : (if x < maxva then userPage (m.map p.pagetable x) else 0) = 0 := by
  by_cases hlt : x < trapframe
  · rw [(h.none_iff hx hlt).mp hv, userPage, ite_self]
  by_cases hmax : x < maxva
  · rw [if_pos hmax]
    cases hm : m.map p.pagetable x with
    | none => rfl
    | some e => rw [userPage, h.space.not_user hx (by omega) hmax hm, if_neg (by simp)]
  rw [if_neg hmax]

lemma absent_lt {f g : Nat → Option (Nat × Nat)} (hx : x % pgsize = 0) (hlt : x < sz)
    (hf : f x = none) (hg : g x ≠ none)
    (hfg : ∀ y, y % pgsize = 0 → y < sz → g y = none → f y = none) : absent g sz < absent f sz := by
  have hxe : x / pgsize * pgsize = x := Nat.div_mul_cancel (Nat.dvd_of_mod_eq_zero hx)
  refine count_lt_count ?_ (by rwa [hxe]) (by rwa [hxe])
    fun j hj hnone => hfg _ (Nat.mul_mod_left _ _) ?_ hnone
  · rw [pgsize_eq] at *
    omega
  rw [pgsize_eq] at *
  omega

lemma absent_congr {f g : Nat → Option (Nat × Nat)}
    (hfg : ∀ y, y % pgsize = 0 → y < sz → (g y = none ↔ f y = none)) : absent g sz = absent f sz :=
      by
  unfold absent
  rw [Nat.count_eq_card_filter_range, Nat.count_eq_card_filter_range]
  congr 1
  refine Finset.filter_congr fun j hj => hfg _ (Nat.mul_mod_left _ _) ?_
  have hj := Finset.mem_range.mp hj
  rw [pgsize_eq] at *
  omega

lemma wp_vmfault_matches (h : Matches kend tramp m p v) (hk : 0 < kend) :
    wp (vmfault kend p p.pagetable va) m (fun r m' =>
      r = 0 ∧ m' = m ∧ (va < p.sz → m.map p.pagetable (pgrounddown va) ≠ none) ∨
      va < p.sz ∧ m.map p.pagetable (pgrounddown va) = none ∧ 0 < r ∧
        Matches kend tramp m' p (v.faulted (pgrounddown va)) ∧
        m'.map p.pagetable (pgrounddown va) = some (r, pteData) ∧ m'.bytes r = fun _ => 0) E := by
  by_cases hmiss : va < p.sz ∧ m.map p.pagetable (pgrounddown va) = none
  · have hle := pgrounddown_le va
    have hsz := h.space.size
    have hal := pgrounddown_aligned va
    have hlt : pgrounddown va < trapframe := by omega
    have hpos : 0 < absent (m.map p.pagetable) p.sz := by
      refine lt_of_le_of_lt zero_le (absent_lt (g := fun _ => some (0, 0)) hal (by omega)
        hmiss.2 (by simp) (fun y _ _ hn => by cases hn))
    have hspare : Spare (3 * (absent (m.map p.pagetable) p.sz - 1) + 3) m :=
      h.spare.mono (by omega)
    refine wp_mono (wp_and (wp_vmfault (E := fun _ => False) h.space.sound hsz)
      (wp_vmfault_spare hspare)) (fun r m' hr => .inr ?_) (fun _ he => he.1.elim)
    obtain ⟨hr, hs⟩ := hr
    have hs : r ∈ m.freelist ∧ Spare (3 * (absent (m.map p.pagetable) p.sz - 1)) m' := by
      rcases hs with ⟨-, -, hn⟩ | hs
      · exact absurd hmiss.2 (hn hmiss.1)
      exact hs
    have hr0 : 0 < r := by
      have := (h.space.sound.paged.freeRam r hs.1).above
      omega
    rcases hr with ⟨rfl, -⟩ | ⟨-, -, -, hm, hmap⟩
    · omega
    have hview := hm.view _ (page_of_lt hal hlt) hlt
    rw [view_eq_some hmap, View.faulted, if_pos rfl] at hview
    refine ⟨hmiss.1, hmiss.2, hr0, ⟨h.space.resize hm hsz (fun x hx hxlt hv => ?_),
      fun x hx => ?_, hs.2.mono ?_⟩, hmap, congrArg Prod.snd (Option.some.inj hview)⟩
    · rw [View.faulted] at hv
      by_cases he : x = pgrounddown va
      · omega
      rw [if_neg he] at hv
      exact h.space.view_ne_none hx hxlt hv
    · by_cases hxlt : x < trapframe
      · rw [if_pos hxlt, hm.view x (page_of_lt hx hxlt) hxlt, View.faulted, View.faulted,
          h.view x hx,
          if_pos hxlt]
      rw [if_neg hxlt, View.faulted, if_neg (by omega), h.view x hx, if_neg hxlt]
    have hless := absent_lt (f := m.map p.pagetable) (g := m'.map p.pagetable) hal
      (by omega : pgrounddown va < p.sz) hmiss.2 (by rw [hmap]; simp) (fun y hy hylt hn => ?_)
    · omega
    have hyt : y < trapframe := by omega
    rw [← view_eq_none, hm.view y (page_of_lt hy hyt) hyt, View.faulted] at hn
    by_cases he : y = pgrounddown va
    · rw [if_pos he] at hn
      cases hn
    rw [if_neg he] at hn
    exact view_eq_none.mp hn
  unfold vmfault
  by_cases hge : p.sz ≤ va
  · rw [if_pos hge, wp_pure]
    exact .inl ⟨rfl, rfl, fun hlt => absurd hlt (not_lt.mpr hge)⟩
  have hne : m.map p.pagetable (pgrounddown va) ≠ none := fun hn => hmiss ⟨by omega, hn⟩
  have hle := pgrounddown_le va
  have hsz := h.space.size
  rw [if_neg hge]
  refine wp_bind_of (wp_ismapped ?_) fun r m1 hr => ?_
  · rw [maxva_eq]
    rw [trapframe_eq] at hsz
    omega
  obtain ⟨rfl, rfl⟩ := hr
  rw [if_pos (Option.isSome_iff_ne_none.mpr hne), wp_pure]
  exact .inl ⟨rfl, rfl, fun _ => hne⟩

lemma View.touch_of_some (hv : v x ≠ none) (sz : Nat) : v.touch sz x = v := by
  rw [View.touch, if_neg (fun h => hv (Option.isNone_iff_eq_none.mp h.2))]

lemma View.touch_of_le (h : sz ≤ x) : v.touch sz x = v := by
  rw [View.touch, if_neg (fun hc => absurd hc.1 (not_lt.mpr h))]

lemma View.touch_of_none (hv : v x = none) (hlt : x < sz) : v.touch sz x = v.faulted x := by
  rw [View.touch, if_pos ⟨hlt, Option.isNone_iff_eq_none.mpr hv⟩]

lemma pgrounddown_of_aligned (hx : x % pgsize = 0) : pgrounddown x = x :=
  Nat.div_mul_cancel (Nat.dvd_of_mod_eq_zero hx)

lemma wp_userAddr (h : Matches kend tramp m p v) (hk : 0 < kend) (hx : x % pgsize = 0) :
    wp (userAddr kend p p.pagetable x) m (fun pa m' => Matches kend tramp m' p (v.touch p.sz x) ∧
      match v.touch p.sz x x with
      | none => pa = 0
      | some (flags, b) => if flags.testBit 4 then
          0 < pa ∧ m'.map p.pagetable x = some (pa, flags) ∧ m'.bytes pa = b else pa = 0) E := by
  have hround := pgrounddown_of_aligned hx
  unfold userAddr
  rw [wp_bind, wp_walkaddr]
  cases hv : v x with
  | some e =>
    obtain ⟨flags, b⟩ := e
    obtain ⟨hlt, pa, hmap, hbytes⟩ := h.map_of_some hx hv
    have hram := h.space.sound.ram x pa flags (page_of_lt hx hlt) hlt hmap
    have hpa : 0 < pa := lt_of_lt_of_le hk hram.above
    rw [View.touch_of_some (by rw [hv]; simp), walkaddr_of_some hlt hmap, hv]
    by_cases hu : flags.testBit 4
    · rw [if_pos hu, if_neg (by omega), wp_pure]
      exact ⟨h, by simp only [hu, if_true]; exact ⟨hpa, hmap, hbytes⟩⟩
    rw [if_neg hu, if_pos rfl]
    refine wp_imp (wp_vmfault_matches h hk) fun r m' hr => ?_
    rw [hround, hmap] at hr
    rcases hr with ⟨rfl, rfl, -⟩ | ⟨-, hn, -⟩
    · refine ⟨h, ?_⟩
      dsimp only
      rw [if_neg hu]
    cases hn
  | none =>
    rw [h.walkaddr_of_none hx hv, if_pos rfl]
    have hsz := h.space.size
    refine wp_imp (wp_vmfault_matches h hk) fun r m' hr => ?_
    rw [hround] at hr
    rcases hr with ⟨rfl, rfl, hn⟩ | ⟨hlt, -, hr0, hm, hmap, hbytes⟩
    · have hge : p.sz ≤ x := by
        by_contra hlt
        exact hn (by omega) ((h.none_iff hx (by omega)).mp hv)
      rw [View.touch_of_le hge, hv]
      exact ⟨h, rfl⟩
    rw [View.touch_of_none hv hlt]
    refine ⟨hm, ?_⟩
    rw [View.faulted, if_pos rfl]
    exact ⟨hr0, hmap, hbytes⟩

lemma sub_pgrounddown_lt (a : Nat) : a - pgrounddown a < pgsize := by
  unfold pgrounddown
  rw [pgsize_eq]
  omega

lemma wp_poke_matches {pa off : Nat} {src : List UInt8} (h : Matches kend tramp m p v)
    (hx : x % pgsize = 0) (hlt : x < trapframe) (hmap : m.map p.pagetable x = some (pa, flags))
    (hfit : off + src.length ≤ pgsize) :
    wp (poke (pa + off) src) m (fun _ m' =>
      Matches kend tramp m' p (v.put x flags (setBytes (m.bytes pa) off src))) E := by
  refine wp_poke h.space.sound (page_of_lt hx hlt) hlt hmap hfit fun m' hm hsame hd hf => ?_
  refine ⟨h.space.resize hm h.space.size (fun y hy hylt hv => ?_), fun y hy => ?_, ?_⟩
  · by_cases he : y = x
    · rw [he]
      exact h.space.below x (page_of_lt hx hlt) hlt (by rw [hmap]; simp)
    rw [if_neg he] at hv
    exact h.space.view_ne_none hy hylt hv
  · by_cases hylt : y < trapframe
    · rw [if_pos hylt, hm.view y (page_of_lt hy hylt) hylt, View.put, h.view y hy, if_pos hylt]
    rw [if_neg hylt, View.put, if_neg (by omega), h.view y hy, if_neg hylt]
  rw [absent_congr (fun y _ _ => by rw [hsame y])]
  exact h.spare.of_eq hd hf

lemma wp_copyoutLoop (hk : 0 < kend) : ∀ fuel m v dstva src, Matches kend tramp m p v →
    wp (copyoutLoop kend p p.pagetable fuel dstva src) m (fun r m' =>
      Matches kend tramp m' p (View.copyout p.sz fuel dstva src v).2 ∧
        r = (View.copyout p.sz fuel dstva src v).1) E := by
  intro fuel
  induction fuel with
  | zero => exact fun m v dstva src h => wp_pure.mpr ⟨h, rfl⟩
  | succ fuel ih =>
    intro m v dstva src h
    rw [copyoutLoop, View.copyout]
    refine wp_ite (fun hnil => ?_) fun hnil => ?_
    · rw [if_pos hnil, wp_pure]
      exact ⟨h, rfl⟩
    rw [if_neg hnil]
    have hal := pgrounddown_aligned dstva
    have hoff := sub_pgrounddown_lt dstva
    have hsz := h.space.size
    have htf : trapframe = 274877898752 := trapframe_eq
    have hmx : maxva = 274877906944 := maxva_eq
    dsimp only
    by_cases hmax : maxva ≤ pgrounddown dstva
    · have hv : v (pgrounddown dstva) = none := by rw [h.view _ hal, if_neg (by omega)]
      rw [if_pos hmax, wp_pure, View.touch_of_le (by omega), hv]
      exact ⟨h, rfl⟩
    rw [if_neg hmax]
    refine wp_bind_of (wp_userAddr h hk hal) fun pa m1 hr => ?_
    obtain ⟨hm, hpa⟩ := hr
    cases hv : v.touch p.sz (pgrounddown dstva) (pgrounddown dstva) with
    | none =>
      rw [hv] at hpa
      rw [if_pos hpa, wp_pure]
      exact ⟨hm, rfl⟩
    | some e =>
      obtain ⟨flags, b⟩ := e
      rw [hv] at hpa
      dsimp only at hpa ⊢
      by_cases hu : flags.testBit 4
      · rw [if_pos hu] at hpa
        obtain ⟨hpos, hmap, hbytes⟩ := hpa
        rw [if_neg (by omega), wp_bind]
        refine wp_walk_mapped (by omega) hmap fun t i _ _ _ _ hflags => ?_
        dsimp only
        rw [wp_bind, wp_readPte, ← testBit_pteFlags (by decide), hflags]
        by_cases hw : flags.testBit 2
        · rw [if_neg (by simp [hw]), if_pos (by simp [hu, hw]), wp_bind]
          have hlt := (hm.map_of_some hal hv).1
          refine wp_imp (wp_poke_matches hm hal hlt hmap ?_) fun _ m2 hm2 => ?_
          · rw [List.length_take]
            omega
          rw [hbytes] at hm2
          exact ih m2 _ _ _ hm2
        rw [if_pos (by simpa using hw), if_neg (by simp [hw]), wp_pure]
        exact ⟨hm, rfl⟩
      rw [if_neg hu] at hpa
      rw [if_pos hpa, wp_pure, if_neg (by simp [hu])]
      exact ⟨hm, rfl⟩

lemma wp_copyinLoop (hk : 0 < kend) : ∀ fuel m v srcva len dst, Matches kend tramp m p v →
    wp (copyinLoop kend p p.pagetable fuel srcva len dst) m (fun r m' =>
      Matches kend tramp m' p (View.copyin p.sz fuel srcva len dst v).2 ∧
        r = (View.copyin p.sz fuel srcva len dst v).1) E := by
  intro fuel
  induction fuel with
  | zero => exact fun m v srcva len dst h => wp_pure.mpr ⟨h, rfl⟩
  | succ fuel ih =>
    intro m v srcva len dst h
    rw [copyinLoop, View.copyin]
    refine wp_ite (fun hnil => ?_) fun hnil => ?_
    · rw [if_pos hnil, wp_pure]
      exact ⟨h, rfl⟩
    rw [if_neg hnil]
    have hoff := sub_pgrounddown_lt srcva
    refine wp_bind_of (wp_userAddr h hk (pgrounddown_aligned srcva)) fun pa m1 hr => ?_
    obtain ⟨hm, hpa⟩ := hr
    cases hv : v.touch p.sz (pgrounddown srcva) (pgrounddown srcva) with
    | none =>
      rw [hv] at hpa
      rw [if_pos hpa, wp_pure]
      exact ⟨hm, rfl⟩
    | some e =>
      obtain ⟨flags, b⟩ := e
      rw [hv] at hpa
      dsimp only at hpa ⊢
      by_cases hu : flags.testBit 4
      · rw [if_pos hu] at hpa
        obtain ⟨hpos, hmap, hbytes⟩ := hpa
        rw [if_neg (by omega), if_pos hu, wp_bind, wp_peek (by omega), hbytes]
        exact ih m1 _ _ _ _ hm
      rw [if_neg hu] at hpa
      rw [if_pos hpa, wp_pure, if_neg hu]
      exact ⟨hm, rfl⟩

lemma wp_copyinstrLoop (h : Matches kend tramp m p v) (hk : 0 < kend) : ∀ fuel srcva max dst,
    wp (copyinstrLoop p.pagetable fuel srcva max dst) m (fun r m' =>
      m' = m ∧ r = v.copyinstr fuel srcva max dst) E := by
  intro fuel
  induction fuel with
  | zero => exact fun srcva max dst => wp_pure.mpr ⟨rfl, rfl⟩
  | succ fuel ih =>
    intro srcva max dst
    rw [copyinstrLoop, View.copyinstr]
    refine wp_ite (fun hnil => ?_) fun hnil => ?_
    · rw [if_pos hnil, wp_pure]
      exact ⟨rfl, rfl⟩
    rw [if_neg hnil]
    have hoff := sub_pgrounddown_lt srcva
    have hal := pgrounddown_aligned srcva
    dsimp only
    rw [wp_bind, wp_walkaddr]
    cases hv : v (pgrounddown srcva) with
    | none =>
      rw [if_pos (h.walkaddr_of_none hal hv), wp_pure]
      exact ⟨rfl, rfl⟩
    | some e =>
      obtain ⟨flags, b⟩ := e
      obtain ⟨hlt, pa, hmap, hbytes⟩ := h.map_of_some hal hv
      have hram := h.space.sound.ram _ pa flags (page_of_lt hal hlt) hlt hmap
      have habove := hram.above
      rw [walkaddr_of_some hlt hmap]
      by_cases hu : flags.testBit 4
      · rw [if_pos hu, if_neg (by omega), wp_bind, wp_peek (by omega), hbytes]
        dsimp only
        rw [if_pos hu]
        by_cases hz : (0 : UInt8) ∈ pageBytes b (srcva - pgrounddown srcva)
            (min (pgsize - (srcva - pgrounddown srcva)) max)
        · rw [if_pos hz, if_pos hz, wp_pure]
          exact ⟨rfl, rfl⟩
        rw [if_neg hz, if_neg hz]
        exact ih _ _ _
      rw [if_neg hu, if_pos rfl, wp_pure]
      dsimp only
      rw [if_neg hu]
      exact ⟨rfl, rfl⟩

lemma pgrounddown_lt_trapframe_iff : pgrounddown va < trapframe ↔ va < trapframe := by
  unfold pgrounddown
  rw [pgsize_eq, trapframe_eq]
  omega

lemma wp_userPte : wp (if maxva ≤ va then pure 0 else do
        let r ← walk p.pagetable va false
        match r with
        | none => return 0
        | some (t, i) => readPte t i) m (fun pte m' => m' = m ∧
      ofPte pte = if va < maxva then m.map p.pagetable (pgrounddown va) else none) E := by
  by_cases hmax : maxva ≤ va
  · rw [if_pos hmax, wp_pure, if_neg (by omega)]
    exact ⟨rfl, rfl⟩
  have hlt := not_le.mp hmax
  rw [if_neg hmax, if_pos hlt, wp_bind, wp_of_ok (walk_eq hlt), map_pgrounddown]
  cases hf : follow m.next p.pagetable (indices va 2) with
  | none => exact wp_pure.mpr ⟨rfl, by rw [Mem.map_of_none hf]; rfl⟩
  | some t => exact wp_readPte.mpr ⟨rfl, by rw [Mem.map_of_follow hf]⟩

lemma wp_userAccess {write : Bool} (h : Matches kend tramp m p v) (hk : 0 < kend) :
    wp (userAccess kend p va write) m (fun r m' =>
      Matches kend tramp m' p (v.access p.sz va write).1 ∧
      match (v.access p.sz va write).2 with
      | none => r = none
      | some (flags, b) => ∃ pa, r = some (pa + va % pgsize) ∧ pgrounddown va < trapframe ∧
          m'.map p.pagetable (pgrounddown va) = some (pa, flags) ∧ m'.bytes pa = b) E := by
  have hal := pgrounddown_aligned va
  have hsz := h.space.size
  have hiff : pgrounddown va < trapframe ↔ va < trapframe := pgrounddown_lt_trapframe_iff
  have htf : trapframe = 274877898752 := trapframe_eq
  have hmx : maxva = 274877906944 := maxva_eq
  unfold userAccess
  refine wp_bind_of wp_userPte fun pte m1 ⟨e, hpte⟩ => ?_
  subst e
  cases hv : v (pgrounddown va) with
  | some e =>
    obtain ⟨flags, b⟩ := e
    obtain ⟨hlt, pa, hmap, hbytes⟩ := h.map_of_some hal hv
    rw [if_pos (by omega), hmap, ofPte] at hpte
    have hv0 : pte.testBit 0 := by
      by_contra hn
      rw [if_neg hn] at hpte
      cases hpte
    rw [if_pos hv0] at hpte
    cases hpte
    rw [View.access, hv]
    dsimp only
    rw [hv0, Bool.true_and, testBit_pteFlags (by decide), testBit_pteFlags
      (by cases write <;> decide)]
    refine wp_ite (fun hc => ?_) fun hc => ?_
    · rw [if_pos hc, wp_pure]
      exact ⟨h, pte2pa pte, rfl, hlt, hmap, hbytes⟩
    rw [if_neg hc]
    refine wp_bind_of (wp_vmfault_matches h hk) fun r m' hr => ?_
    rcases hr with ⟨rfl, rfl, -⟩ | ⟨-, hn, -⟩
    · rw [if_pos rfl, wp_pure]
      exact ⟨h, rfl⟩
    rw [hmap] at hn
    cases hn
  | none =>
    have hc : ¬(pte.testBit 0 && pte.testBit 4 && pte.testBit (if write then 2 else 1)) =
        true := by
      have hu : pte.testBit 0 → pte.testBit 4 = false := by
        intro hv0
        rw [ofPte, if_pos hv0] at hpte
        by_cases hmax : va < maxva
        · have hle := pgrounddown_le va
          rw [if_pos hmax] at hpte
          by_cases hlt : pgrounddown va < trapframe
          · rw [(h.none_iff hal hlt).mp hv] at hpte
            cases hpte
          rw [← testBit_pteFlags (by decide)]
          exact h.space.not_user hal (by omega) (by omega) hpte.symm
        rw [if_neg hmax] at hpte
        cases hpte
      cases hv0 : pte.testBit 0 with
      | false => simp
      | true => simp [hu hv0]
    rw [if_neg hc, View.access, hv]
    dsimp only
    refine wp_bind_of (wp_vmfault_matches h hk) fun r m' hr => ?_
    rcases hr with ⟨rfl, rfl, hn⟩ | ⟨hlt, -, hr0, hm, hmap, hbytes⟩
    · have hge : ¬va < p.sz := fun hlt => hn hlt ((h.none_iff hal (by omega)).mp hv)
      rw [if_pos rfl, wp_pure, if_neg hge]
      exact ⟨h, rfl⟩
    rw [if_neg (by omega), wp_pure, if_pos hlt]
    exact ⟨hm, r, rfl, by omega, hmap, hbytes⟩

lemma Matches.wp_exec (op : UserOp) (h : Matches kend tramp m p v) (hk : 0 < kend) :
    wp (op.exec kend p) m (fun r m' =>
      Matches kend tramp m' p (v.exec p.sz op).2 ∧ r = (v.exec p.sz op).1) E := by
  have hoff : ∀ va, va % pgsize + 1 ≤ pgsize := mod_pgsize_lt
  cases op with
  | copyout dstva src =>
    refine wp_bind_of (wp_copyoutLoop hk src.length m v dstva src h) fun r m' hr => wp_pure.mpr ?_
    exact ⟨hr.1, by rw [hr.2]; rfl⟩
  | copyin srcva len => exact wp_copyinLoop hk len m v srcva len [] h
  | copyinstr srcva max =>
    refine wp_imp (wp_copyinstrLoop h hk max srcva max []) fun r m' hr => ?_
    rw [hr.1]
    exact ⟨h, hr.2⟩
  | load va =>
    refine wp_bind_of (wp_userAccess h hk) (fun r m' ⟨hm, hr⟩ => ?_)
    show wp _ m' (fun r m' => Matches kend tramp m' p (v.load p.sz va).2 ∧ r = (v.load p.sz va).1) E
    unfold View.load
    generalize v.access p.sz va false = acc at hm hr ⊢
    obtain ⟨v', e⟩ := acc
    cases e with
    | none =>
      rw [show r = none from hr]
      exact wp_pure.mpr ⟨hm, rfl⟩
    | some e =>
      obtain ⟨pa, rfl, -, -, hbytes⟩ := hr
      show wp (peek (pa + va % pgsize) 1 >>= _) m' _ _
      rw [wp_bind, wp_peek (hoff va), wp_pure, hbytes]
      exact ⟨hm, rfl⟩
  | store va c =>
    refine wp_bind_of (wp_userAccess h hk) (fun r m' ⟨hm, hr⟩ => ?_)
    show wp _ m' (fun r m' => Matches kend tramp m' p (v.store p.sz va c).2 ∧
      r = (v.store p.sz va c).1) E
    unfold View.store
    generalize v.access p.sz va true = acc at hm hr ⊢
    obtain ⟨v', e⟩ := acc
    cases e with
    | none =>
      rw [show r = none from hr]
      exact wp_pure.mpr ⟨hm, rfl⟩
    | some e =>
      obtain ⟨pa, rfl, hlt, hmap, hbytes⟩ := hr
      show wp (poke (pa + va % pgsize) [c] >>= _) m' _ _
      refine wp_bind_of (wp_poke_matches hm (pgrounddown_aligned va) hlt hmap (hoff va))
        (fun _ m'' hm' => wp_pure.mpr ⟨?_, rfl⟩)
      rw [hbytes] at hm'
      exact hm'
end Xv6.Vm
