import Xv6.Vm.Demand
import Xv6.Vm.Spawn

namespace Xv6.Vm
open Lib
variable {kend tramp : Nat} {m m' : Mem} {p : Proc} {va x k lo sz : Nat} {n : Int}
  {E : Panic → Prop} {v v1 v2 : View} {f : Nat → Option (Nat × Nat)} {oldsz newsz : Nat}
  {b : Fin pgsize → UInt8}

def View.byte (v : View) (a : Nat) : Option UInt8 :=
  (v (pgrounddown a)).map fun e => e.2 ⟨a % pgsize, mod_pgsize_lt a⟩

def Apart (lo sz : Nat) (v1 v2 : View) : Prop :=
  ∀ x, x % pgsize = 0 → v1 x = v2 x ∨
    lo ≤ x ∧ x < sz ∧ v2 x = none ∧ v1 x = some (pteData, fun _ => 0)

lemma Apart.eq_of_ne_none (h : Apart lo sz v1 v2) (hx : x % pgsize = 0)
    (hne : lo ≤ x → x < sz → v2 x ≠ none) : v1 x = v2 x := by
  rcases h x hx with he | ⟨hlo, hlt, hnone, -⟩
  · exact he
  exact absurd hnone (hne hlo hlt)

lemma faulted_self : v.faulted x x = some (pteData, fun _ => 0) := by
  rw [View.faulted, if_pos rfl]
  rfl

lemma faulted_of_ne {y : Nat} (h : y ≠ x) : v.faulted x y = v y := by rw [View.faulted, if_neg h]

lemma Apart.touch (h : Apart lo sz v1 v2) (hx : x % pgsize = 0) :
    Apart lo sz (v1.touch sz x) (v2.touch sz x) ∧ v1.touch sz x x = v2.touch sz x x := by
  rcases h x hx with he | ⟨hlo, hlt, hnone, hzero⟩
  · by_cases hmiss : x < sz ∧ v2 x = none
    · rw [View.touch_of_none (by rw [he, hmiss.2]) hmiss.1, View.touch_of_none hmiss.2 hmiss.1]
      refine ⟨fun y hy => ?_, by rw [faulted_self, faulted_self]⟩
      by_cases hyx : y = x
      · rw [hyx, faulted_self, faulted_self]
        exact .inl rfl
      rw [faulted_of_ne hyx, faulted_of_ne hyx]
      exact h y hy
    · have hsame : ∀ v : View, v x = v2 x → v.touch sz x = v := by
        intro v hv
        by_cases hlt : x < sz
        · exact View.touch_of_some (by rw [hv]; exact fun hn => hmiss ⟨hlt, hn⟩) sz
        exact View.touch_of_le (by omega)
      rw [hsame v1 he, hsame v2 rfl]
      exact ⟨h, he⟩
  rw [View.touch_of_some (by rw [hzero]; simp), View.touch_of_none hnone hlt]
  refine ⟨fun y hy => ?_, by rw [hzero, faulted_self]⟩
  by_cases hyx : y = x
  · rw [hyx, hzero, faulted_self]
    exact .inl rfl
  rw [faulted_of_ne hyx]
  exact h y hy

lemma Apart.put {flags : Nat} (h : Apart lo sz v1 v2) :
    Apart lo sz (v1.put x flags b) (v2.put x flags b) := by
  intro y hy
  unfold View.put
  by_cases hyx : y = x
  · rw [if_pos hyx, if_pos hyx]
    exact .inl rfl
  rw [if_neg hyx, if_neg hyx]
  exact h y hy

lemma Apart.copyout : ∀ fuel dstva src v1 v2, Apart lo sz v1 v2 →
    (View.copyout sz fuel dstva src v1).1 = (View.copyout sz fuel dstva src v2).1 ∧
      Apart lo sz (View.copyout sz fuel dstva src v1).2 (View.copyout sz fuel dstva src v2).2 := by
  intro fuel
  induction fuel with
  | zero => exact fun dstva src v1 v2 h => ⟨rfl, h⟩
  | succ fuel ih =>
    intro dstva src v1 v2 h
    obtain ⟨ht, he⟩ := h.touch (pgrounddown_aligned dstva)
    rw [View.copyout, View.copyout]
    by_cases hnil : src = []
    · rw [if_pos hnil, if_pos hnil]
      exact ⟨rfl, h⟩
    rw [if_neg hnil, if_neg hnil, he]
    cases v2.touch sz (pgrounddown dstva) (pgrounddown dstva) with
    | none => exact ⟨rfl, ht⟩
    | some e =>
      dsimp only
      by_cases hc : (e.1.testBit 4 && e.1.testBit 2)
      · rw [if_pos hc, if_pos hc]
        exact ih _ _ _ _ ht.put
      rw [if_neg hc, if_neg hc]
      exact ⟨rfl, ht⟩

lemma Apart.copyin : ∀ fuel srcva len dst v1 v2, Apart lo sz v1 v2 →
    (View.copyin sz fuel srcva len dst v1).1 = (View.copyin sz fuel srcva len dst v2).1 ∧
      Apart lo sz (View.copyin sz fuel srcva len dst v1).2
        (View.copyin sz fuel srcva len dst v2).2 := by
  intro fuel
  induction fuel with
  | zero => exact fun srcva len dst v1 v2 h => ⟨rfl, h⟩
  | succ fuel ih =>
    intro srcva len dst v1 v2 h
    obtain ⟨ht, he⟩ := h.touch (pgrounddown_aligned srcva)
    rw [View.copyin, View.copyin]
    by_cases hnil : len = 0
    · rw [if_pos hnil, if_pos hnil]
      exact ⟨rfl, h⟩
    rw [if_neg hnil, if_neg hnil, he]
    cases v2.touch sz (pgrounddown srcva) (pgrounddown srcva) with
    | none => exact ⟨rfl, ht⟩
    | some e =>
      dsimp only
      by_cases hc : e.1.testBit 4
      · rw [if_pos hc, if_pos hc]
        exact ih _ _ _ _ _ ht
      rw [if_neg hc, if_neg hc]
      exact ⟨rfl, ht⟩

def View.Passes (v : View) (a : Nat) : Prop :=
  v.byte a ≠ some 0 ∧ ∃ e, v (pgrounddown a) = some e ∧ e.1.testBit 4

def View.Reaches (v : View) (srcva max x : Nat) : Prop :=
  0 < max ∧ pgrounddown srcva ≤ x ∧ x < srcva + max ∧ ∀ a, srcva ≤ a → a < x → v.Passes a

lemma passes_of_page {srcva max a flags : Nat}
    (hv : v (pgrounddown srcva) = some (flags, b)) (hu : flags.testBit 4)
    (hz : (0 : UInt8) ∉ pageBytes b (srcva - pgrounddown srcva)
      (min (pgsize - (srcva - pgrounddown srcva)) max))
    (h1 : srcva ≤ a) (h2 : a < srcva + max) (h3 : a < pgrounddown srcva + pgsize) :
    v.Passes a := by
  have hle := pgrounddown_le srcva
  have hround : pgrounddown a = pgrounddown srcva :=
    pgrounddown_of_mem (pgrounddown_aligned srcva) (by omega) h3
  have hmod : a % pgsize = a - pgrounddown a := by rw [pgrounddown, Nat.mod_eq_sub_div_mul]
  rw [View.Passes, View.byte, hround, hv]
  refine ⟨fun he => ?_, _, rfl, hu⟩
  refine hz (List.mem_map.mpr ⟨a - srcva, List.mem_range.mpr (by omega), ?_⟩)
  have hidx : (srcva - pgrounddown srcva + (a - srcva)) % pgsize = a % pgsize := by
    rw [hmod, hround, Nat.mod_eq_of_lt (by omega)]
    omega
  rw [← Option.some.inj he]
  exact congrArg b (Fin.ext hidx)

lemma Apart.copyinstr (h : Apart lo sz v1 v2) : ∀ fuel srcva max dst,
    (∀ x, x % pgsize = 0 → v2.Reaches srcva max x → lo ≤ x → x < sz → v2 x ≠ none) →
    v1.copyinstr fuel srcva max dst = v2.copyinstr fuel srcva max dst := by
  intro fuel
  induction fuel with
  | zero => exact fun _ _ _ _ => rfl
  | succ fuel ih =>
    intro srcva max dst hres
    have hal := pgrounddown_aligned srcva
    have hle := pgrounddown_le srcva
    have hoff := sub_pgrounddown_lt srcva
    rw [View.copyinstr, View.copyinstr]
    by_cases hnil : max = 0
    · rw [if_pos hnil, if_pos hnil]
    rw [if_neg hnil, if_neg hnil, h.eq_of_ne_none hal
      (hres _ hal ⟨by omega, le_rfl, by omega, fun a h1 h2 => absurd h2 (by omega)⟩)]
    cases hv : v2 (pgrounddown srcva) with
    | none => rfl
    | some e =>
      obtain ⟨flags, b⟩ := e
      dsimp only
      by_cases hu : flags.testBit 4
      · rw [if_pos hu, if_pos hu]
        by_cases hz : (0 : UInt8) ∈ pageBytes b (srcva - pgrounddown srcva)
            (min (pgsize - (srcva - pgrounddown srcva)) max)
        · rw [if_pos hz, if_pos hz]
        rw [if_neg hz, if_neg hz]
        refine ih _ _ _ fun x hx h => hres x hx ?_
        obtain ⟨h0, h1, h2, h3⟩ := h
        have hup : pgrounddown (pgrounddown srcva + pgsize) = pgrounddown srcva + pgsize :=
          pgrounddown_of_aligned (by rw [Nat.add_mod_right, hal])
        rw [hup] at h1
        refine ⟨by omega, by omega, by omega, fun a ha1 ha2 => ?_⟩
        by_cases hin : a < pgrounddown srcva + pgsize
        · exact passes_of_page hv hu hz ha1 (by omega) hin
        exact h3 a (by omega) ha2
      rw [if_neg hu, if_neg hu]

lemma Apart.access (h : Apart lo sz v1 v2) (write : Bool)
    (hres : sz ≤ va → lo ≤ pgrounddown va → pgrounddown va < sz → v2 (pgrounddown va) ≠ none) :
    Apart lo sz (v1.access sz va write).1 (v2.access sz va write).1 ∧
      (v1.access sz va write).2 = (v2.access sz va write).2 := by
  have hal := pgrounddown_aligned va
  have hle := pgrounddown_le va
  unfold View.access
  rcases h _ hal with he | ⟨hlo, hlt, hnone, hzero⟩
  · rw [he]
    cases hv : v2 (pgrounddown va) with
    | some e => exact ⟨h, rfl⟩
    | none =>
      by_cases hva : va < sz
      · have ht := (h.touch hal).1
        rw [View.touch_of_none (by rw [he, hv]) (by omega), View.touch_of_none hv (by omega)] at ht
        rw [if_pos hva, if_pos hva]
        exact ⟨ht, rfl⟩
      rw [if_neg hva, if_neg hva]
      exact ⟨h, rfl⟩
  have hva : va < sz := by
    by_contra hge
    exact hres (by omega) hlo hlt hnone
  have ht := (h.touch hal).1
  rw [View.touch_of_some (by rw [hzero]; simp), View.touch_of_none hnone hlt] at ht
  rw [hzero, hnone]
  dsimp only
  rw [if_pos hva]
  refine ⟨ht, ?_⟩
  cases write <;> rfl

def UserOp.Needs (v : View) (sz : Nat) : UserOp → Nat → Prop
  | .copyout _ _, _ => False
  | .copyin _ _, _ => False
  | .copyinstr srcva max, x => v.Reaches srcva max x
  | .load va, x => sz ≤ va ∧ x = pgrounddown va
  | .store va _, x => sz ≤ va ∧ x = pgrounddown va

lemma Apart.exec (h : Apart lo sz v1 v2) (op : UserOp)
    (hres : ∀ x, x % pgsize = 0 → op.Needs v2 sz x → lo ≤ x → x < sz → v2 x ≠ none) :
    (v1.exec sz op).1 = (v2.exec sz op).1 ∧ Apart lo sz (v1.exec sz op).2 (v2.exec sz op).2 := by
  cases op with
  | copyout dstva src =>
    obtain ⟨he, ht⟩ := Apart.copyout src.length dstva src v1 v2 h
    exact ⟨Prod.ext he rfl, ht⟩
  | copyin srcva len => exact Apart.copyin len srcva len [] v1 v2 h
  | copyinstr srcva max => exact ⟨h.copyinstr max srcva max [] hres, h⟩
  | load va =>
    obtain ⟨ht, he⟩ := h.access false fun hge => hres _ (pgrounddown_aligned va) ⟨hge, rfl⟩
    show (v1.load sz va).1 = (v2.load sz va).1 ∧ Apart lo sz (v1.load sz va).2 (v2.load sz va).2
    unfold View.load
    generalize v1.access sz va false = a1 at *
    generalize v2.access sz va false = a2 at *
    obtain ⟨w1, e1⟩ := a1
    obtain ⟨w2, e2⟩ := a2
    cases (he : e1 = e2)
    cases e1 with
    | none
    | some e => exact ⟨rfl, ht⟩
  | store va c =>
    obtain ⟨ht, he⟩ := h.access true fun hge => hres _ (pgrounddown_aligned va) ⟨hge, rfl⟩
    show (v1.store sz va c).1 = (v2.store sz va c).1 ∧
      Apart lo sz (v1.store sz va c).2 (v2.store sz va c).2
    unfold View.store
    generalize v1.access sz va true = a1 at *
    generalize v2.access sz va true = a2 at *
    obtain ⟨w1, e1⟩ := a1
    obtain ⟨w2, e2⟩ := a2
    cases (he : e1 = e2)
    cases e1 with
    | none => exact ⟨rfl, ht⟩
    | some e => exact ⟨rfl, ht.put⟩

def calls (kend : Nat) (p : Proc) : List UserOp → VmM (List (Int × List UInt8))
  | [] => return []
  | op :: ops => do
    let r ← op.exec kend p
    let rs ← calls kend p ops
    return r :: rs

def userNext (kend : Nat) (p : Proc) (m : Mem) (op : UserOp) : Option Mem :=
  match op.exec kend p m with
  | .ok (_, m') => some m'
  | .error _ => none

def Resident (lo : Nat) (p : Proc) (m : Mem) (op : UserOp) : Prop :=
  ∀ x, x % pgsize = 0 → op.Needs (m.view p.pagetable) p.sz x → lo ≤ x → x < p.sz →
    m.map p.pagetable x ≠ none

lemma Matches.resident {op : UserOp} (h : Matches kend tramp m p v) (hr : Resident lo p m op) :
    ∀ x, x % pgsize = 0 → op.Needs v p.sz x → lo ≤ x → x < p.sz → v x ≠ none := by
  intro x hx hn hlo hlt
  have hsz := h.space.size
  rw [ne_eq, h.none_iff hx (by omega)]
  refine hr x hx ?_ hlo hlt
  cases op with
  | copyout dstva src => exact hn
  | copyin srcva len => exact hn
  | copyinstr srcva max =>
    obtain ⟨h0, h1, h2, h3⟩ := hn
    refine ⟨h0, h1, h2, fun a ha1 ha2 => ?_⟩
    have hle := pgrounddown_le a
    have hpass := h3 a ha1 ha2
    rwa [View.Passes, View.byte, h.view _ (pgrounddown_aligned a), if_pos (by omega)] at hpass
  | load va => exact hn
  | store va c => exact hn

lemma calls_eq {p1 p2 : Proc} (hk : 0 < kend) (hsz : p1.sz = p2.sz) : ∀ ops m1 m2 v1 v2,
    Matches kend tramp m1 p1 v1 → Matches kend tramp m2 p2 v2 → Apart lo p2.sz v1 v2 →
    Along (userNext kend p2) (Resident lo p2) m2 ops →
    ∃ rs m1' m2', calls kend p1 ops m1 = .ok (rs, m1') ∧ calls kend p2 ops m2 = .ok (rs, m2') := by
  intro ops
  induction ops with
  | nil => exact fun m1 m2 _ _ _ _ _ _ => ⟨[], m1, m2, rfl, rfl⟩
  | cons op ops ih =>
    intro m1 m2 v1 v2 h1 h2 ha hres
    obtain ⟨r1, m1', hr1, hm1, e1⟩ := wp_total (h1.wp_exec op hk)
    obtain ⟨r2, m2', hr2, hm2, e2⟩ := wp_total (h2.wp_exec op hk)
    obtain ⟨hop, hres⟩ := (along_cons (by rw [userNext, hr2])).mp hres
    obtain ⟨he, ha'⟩ := ha.exec op (h2.resident hop)
    rw [hsz] at e1 hm1
    rw [e1] at hr1
    rw [e2, ← he] at hr2
    obtain ⟨rs, n1, n2, hc1, hc2⟩ := ih m1' m2' _ _ hm1 hm2 ha' hres
    have hcons : ∀ (p : Proc) (m m' m'' : Mem) r, op.exec kend p m = .ok (r, m') →
        calls kend p ops m' = .ok (rs, m'') → calls kend p (op :: ops) m = .ok (r :: rs, m'') := by
      intro p m m' m'' r hop hc
      show (op.exec kend p m).bind (fun s => (calls kend p ops s.2).bind fun s' =>
        .ok (s.1 :: s'.1, s'.2)) = _
      rw [hop]
      show (calls kend p ops m').bind (fun s' => .ok (r :: s'.1, s'.2)) = _
      rw [hc]
      rfl
    exact ⟨_, n1, n2, hcons _ _ _ _ _ hr1 hc1, hcons _ _ _ _ _ hr2 hc2⟩

lemma absent_add (hle : oldsz ≤ newsz) : absent f newsz = absent f oldsz + Nat.count
      (fun k => f (((oldsz + (pgsize - 1)) / pgsize + k) * pgsize) = none)
      ((newsz + (pgsize - 1)) / pgsize - (oldsz + (pgsize - 1)) / pgsize) := by
  unfold absent
  rw [← Nat.count_add, Nat.add_sub_cancel' (Nat.div_le_div_right (by omega))]

lemma absent_of_none (hle : oldsz ≤ newsz)
    (hf : ∀ x, x % pgsize = 0 → oldsz ≤ x → x < newsz → f x = none) :
    absent f newsz = absent f oldsz +
      ((newsz + (pgsize - 1)) / pgsize - (oldsz + (pgsize - 1)) / pgsize) := by
  rw [absent_add hle, Nat.count_of_forall (fun k hk => hf _ (Nat.mul_mod_left _ _) ?_ ?_)]
  · rw [pgsize_eq] at *
    omega
  rw [pgsize_eq] at *
  omega

lemma absent_of_some (hle : oldsz ≤ newsz)
    (hf : ∀ x, x % pgsize = 0 → oldsz ≤ x → x < newsz → f x ≠ none) :
    absent f newsz = absent f oldsz := by
  rw [absent_add hle, Nat.count_of_forall_not (fun k hk => hf _ (Nat.mul_mod_left _ _) ?_ ?_),
    Nat.add_zero]
  · rw [pgsize_eq] at *
    omega
  rw [pgsize_eq] at *
  omega

lemma wp_growproc_spare (hpos : 0 < n) (hle : p.sz < addInt p.sz n)
    (h : Spare (k + 3 * ((addInt p.sz n - pgroundup p.sz + (pgsize - 1)) / pgsize)) m)
    (htop : addInt p.sz n ≤ trapframe) :
    wp (growproc kend p n) m (fun r m' => r.1 = 0 ∧ Spare k m') (fun _ => True) := by
  unfold growproc
  rw [if_pos hpos, if_neg (by omega), uvmalloc, if_neg (by omega)]
  refine wp_bind_of (wp_uvmallocLoop_spare _ m _ h) fun r m' ⟨hr, hs⟩ => ?_
  rw [if_neg (by omega), wp_pure]
  exact ⟨rfl, hs⟩

section
variable (h : Space kend tramp m p) (hn : IsInt n) (h0 : 0 ≤ n) (htop : addInt p.sz n ≤ trapframe)
  (hs : Spare (3 * absent (m.map p.pagetable) (addInt p.sz n)) m)
include h hn h0 htop hs

lemma wp_sysSbrk_eager : wp (sysSbrk kend p n sbrkEager) m (fun r m' =>
      r = ((p.sz : Int), { p with sz := addInt p.sz n }) ∧
      Matches kend tramp m' { p with sz := addInt p.sz n } (fun x => if x < trapframe then
        (m.view p.pagetable).zeroed p.sz (addInt p.sz n) pteData x else none)) E := by
  have hadd := addInt_of_nonneg h.size hn (by omega)
  have hmiss : ∀ x, x % pgsize = 0 → p.sz ≤ x → x < addInt p.sz n →
      m.map p.pagetable x = none := by
    intro x hx hle hlt
    by_contra hne
    have := h.below x (page_of_lt hx (by omega)) (by omega) hne
    omega
  unfold sysSbrk
  rw [if_pos (.inl rfl)]
  by_cases hpos : 0 < n
  · have hup := le_pgroundup (lt_of_le_trapframe h.size)
    have hpages := absent_of_none (by omega) hmiss
    have hrounds : (addInt p.sz n - pgroundup p.sz + (pgsize - 1)) / pgsize =
        (addInt p.sz n + (pgsize - 1)) / pgsize - (p.sz + (pgsize - 1)) / pgsize := by
      rw [pgroundup_of_lt (lt_of_le_trapframe h.size), pgsize_eq]
      omega
    have hspare : Spare (3 * absent (m.map p.pagetable) p.sz +
        3 * ((addInt p.sz n - pgroundup p.sz + (pgsize - 1)) / pgsize)) m :=
      hs.mono (by rw [hpages, hrounds]; omega)
    rw [wp_bind]
    refine wp_mono (wp_and (wp_growproc_pos (E := fun _ => False) h hn hpos)
      (wp_growproc_spare hpos (by omega) hspare htop)) (fun r m' hr => ?_) fun _ he => he.1.elim
    obtain ⟨hr, hr0, hs'⟩ := hr
    rcases hr with ⟨hlt, -⟩ | ⟨-, rfl, hm⟩ | ⟨-, rfl, -⟩
    · omega
    · rw [if_neg (by simp), wp_pure]
      have hview : ∀ x, Page x → x < trapframe → m'.map p.pagetable x = none →
          m.map p.pagetable x = none ∧ ¬(p.sz ≤ x ∧ x < addInt p.sz n) := by
        intro x hx hlt hnone
        rw [← view_eq_none, hm.view x hx hlt, View.zeroed] at hnone
        by_cases hin : p.sz ≤ x ∧ x < addInt p.sz n
        · rw [if_pos hin] at hnone
          cases hnone
        rw [if_neg hin] at hnone
        exact ⟨view_eq_none.mp hnone, hin⟩
      have habsent : absent (m'.map p.pagetable) (addInt p.sz n) =
          absent (m.map p.pagetable) p.sz := by
        rw [absent_of_some (by omega : p.sz ≤ addInt p.sz n) (fun x hx hle hlt hnone =>
          (hview x (page_of_lt hx (by omega)) (by omega) hnone).2 ⟨hle, hlt⟩)]
        refine absent_congr fun x hx hlt => ?_
        have hsz := h.size
        have hx' := page_of_lt hx (by omega : x < trapframe)
        rw [← view_eq_none, hm.view x hx' (by omega), View.zeroed, if_neg (by omega), view_eq_none]
      refine ⟨rfl, h.resize hm.toEvolves htop (fun x hx hlt hv => ?_), fun x hx => ?_, ?_⟩
      · rw [View.zeroed] at hv
        by_cases hin : p.sz ≤ x ∧ x < addInt p.sz n
        · exact hin.2
        rw [if_neg hin] at hv
        have := h.view_ne_none hx hlt hv
        omega
      · by_cases hlt : x < trapframe
        · rw [if_pos hlt, if_pos hlt, hm.view x (page_of_lt hx hlt) hlt]
          rfl
        rw [if_neg hlt, if_neg hlt]
      rwa [habsent]
    cases hr0
  have hnn : n = 0 := by omega
  have hsame : addInt p.sz n = p.sz := by omega
  rw [wp_bind, growproc, if_neg hpos, if_neg (by omega), wp_pure, if_neg (by simp), wp_pure]
  rw [hsame] at hs ⊢
  refine ⟨rfl, h, fun x _ => ?_, hs⟩
  have hz : (m.view p.pagetable).zeroed p.sz p.sz pteData x = m.view p.pagetable x := by
    rw [View.zeroed, if_neg (by omega)]
  rw [hz]

lemma wp_sysSbrk_lazy : wp (sysSbrk kend p n sbrkLazy) m (fun r m' =>
      r = ((p.sz : Int), { p with sz := addInt p.sz n }) ∧
      Matches kend tramp m' { p with sz := addInt p.sz n } (fun x => if x < trapframe then
        m.view p.pagetable x else none)) E := by
  have hadd := addInt_of_nonneg h.size hn (by omega)
  unfold sysSbrk
  rw [if_neg (by rintro (hc | hc); exacts [absurd hc (by decide), by omega]), if_neg (by omega),
    if_neg (by omega), wp_pure]
  refine ⟨rfl, h.resize h.sound.evolves htop (fun x hx hlt hv => ?_), fun x _ => rfl, hs⟩
  have := h.view_ne_none hx hlt hv
  omega
end

lemma wp_sysSbrk_top {t : Int} (h : Space kend tramp m p) (hn : IsInt n) (h0 : 0 ≤ n)
    (htop : trapframe < addInt p.sz n) :
    wp (sysSbrk kend p n t) m (fun r m' => r = (-1, p) ∧ m' = m) E := by
  have hadd := addInt_of_nonneg h.size hn (by omega)
  have hsz := h.size
  unfold sysSbrk
  by_cases hc : t = sbrkEager ∨ n < 0
  · rw [if_pos hc, wp_bind, growproc, if_pos (by omega), if_pos htop, wp_pure, if_pos (by simp),
      wp_pure]
    exact ⟨rfl, rfl⟩
  rw [if_neg hc, if_neg (by omega), if_pos htop, wp_pure]
  exact ⟨rfl, rfl⟩

theorem sbrk_indistinguishable {m₁ m₂ : Mem} {p₁ p₂ : Proc} (hk : 0 < kend)
    (h₁ : Space kend tramp m₁ p₁) (h₂ : Space kend tramp m₂ p₂) (hsz : p₁.sz = p₂.sz)
    (hview : ∀ x, x % pgsize = 0 → x < trapframe → m₁.view p₁.pagetable x = m₂.view p₂.pagetable x)
    (h0 : 0 ≤ n) (hn : n < 2 ^ 31)
    (hs1 : Spare (3 * absent (m₁.map p₁.pagetable) (addInt p₁.sz n)) m₁)
    (hs2 : Spare (3 * absent (m₂.map p₂.pagetable) (addInt p₂.sz n)) m₂) :
    ∃ r p₁' m₁' p₂' m₂', sysSbrk kend p₁ n sbrkEager m₁ = .ok ((r, p₁'), m₁') ∧
      sysSbrk kend p₂ n sbrkLazy m₂ = .ok ((r, p₂'), m₂') ∧
      ∀ ops, Along (userNext kend p₂') (Resident p₂.sz p₂') m₂' ops →
        ∃ rs m₁'' m₂'', calls kend p₁' ops m₁' = .ok (rs, m₁'') ∧
          calls kend p₂' ops m₂' = .ok (rs, m₂'') := by
  have hint : IsInt n := ⟨by omega, hn⟩
  have hadd := addInt_of_nonneg h₂.size hint (by omega)
  by_cases htop : addInt p₂.sz n ≤ trapframe
  · obtain ⟨_, m₁', hr1, rfl, hm1⟩ :=
      wp_total (wp_sysSbrk_eager h₁ hint h0 (by rwa [hsz]) hs1)
    obtain ⟨_, m₂', hr2, rfl, hm2⟩ := wp_total (wp_sysSbrk_lazy h₂ hint h0 htop hs2)
    have hcast : (p₁.sz : Int) = p₂.sz := by rw [hsz]
    refine ⟨p₂.sz, _, m₁', _, m₂', hr1.trans (by rw [hcast]), hr2, fun ops hres => ?_⟩
    refine calls_eq hk (congrArg (addInt · n) hsz) ops m₁' m₂' _ _ hm1 hm2 (fun x hx => ?_) hres
    by_cases hlt : x < trapframe
    · rw [if_pos hlt, if_pos hlt, View.zeroed, hview x hx hlt, hsz]
      by_cases hin : p₂.sz ≤ x ∧ x < addInt p₂.sz n
      · refine .inr ⟨hin.1, hin.2, ?_, if_pos hin⟩
        by_contra hne
        have := h₂.view_ne_none (page_of_lt hx hlt) hlt hne
        omega
      exact .inl (if_neg hin)
    rw [if_neg hlt, if_neg hlt]
    exact .inl rfl
  obtain ⟨_, _, hr1, rfl, rfl⟩ :=
    wp_total (wp_sysSbrk_top h₁ hint h0 (by rw [hsz]; omega))
  obtain ⟨_, _, hr2, rfl, rfl⟩ :=
    wp_total (wp_sysSbrk_top h₂ hint h0 (by omega))
  have hspare : ∀ {m : Mem} {p : Proc}, p.sz ≤ addInt p.sz n →
      Spare (3 * absent (m.map p.pagetable) (addInt p.sz n)) m →
      Spare (3 * absent (m.map p.pagetable) p.sz) m :=
    fun hle hs => hs.mono (by rw [absent_add hle]; omega)
  refine ⟨-1, _, _, _, _, hr1, hr2, fun ops hres => ?_⟩
  exact calls_eq hk hsz ops _ _
    (fun x => if x < trapframe then _ else none) (fun x => if x < trapframe then _ else none)
    ⟨h₁, fun _ _ => rfl, hspare (by rw [hsz]; omega) hs1⟩
    ⟨h₂, fun _ _ => rfl, hspare (by omega) hs2⟩ (fun x hx => .inl (by
      dsimp only
      by_cases hlt : x < trapframe
      · rw [if_pos hlt, if_pos hlt, hview x hx hlt]
      rw [if_neg hlt, if_neg hlt])) hres

lemma spare_firstMem :
    Spare (3 * absent (firstMem.map firstProc.pagetable) (addInt firstProc.sz 0x1000)) firstMem :=
  ⟨rfl, by decide +kernel⟩

theorem sbrk_indistinguishable_first : ∃ r p₁ m₁ p₂ m₂ rs m₁' m₂',
    sysSbrk 0x80100000 firstProc 0x1000 sbrkEager firstMem = .ok ((r, p₁), m₁) ∧
    sysSbrk 0x80100000 firstProc 0x1000 sbrkLazy firstMem = .ok ((r, p₂), m₂) ∧
    calls 0x80100000 p₁ [.copyout 0 [65, 66, 0], .copyinstr 0 10] m₁ = .ok (rs, m₁') ∧
    calls 0x80100000 p₂ [.copyout 0 [65, 66, 0], .copyinstr 0 10] m₂ = .ok (rs, m₂') := by
  obtain ⟨r, p₁, m₁, p₂, m₂, h1, h2, h⟩ := sbrk_indistinguishable (by decide) space_firstProc
    space_firstProc rfl (fun _ _ _ => rfl) (by decide) (by decide) spare_firstMem spare_firstMem
  have hthere : (match sysSbrk 0x80100000 firstProc 0x1000 sbrkLazy firstMem with
      | .ok ((_, p), m) => (userNext 0x80100000 p m (.copyout 0 [65, 66, 0])).all fun m' =>
          decide (p.sz = 0x1000 ∧ m'.map p.pagetable 0 ≠ none)
      | .error _ => false) = true := by
    decide +kernel
  rw [h2] at hthere
  dsimp only at hthere
  obtain ⟨rs, m₁', m₂', hc1, hc2⟩ := h [.copyout 0 [65, 66, 0], .copyinstr 0 10] (by
    refine ⟨fun x _ hn => hn.elim, ?_⟩
    cases hm : userNext 0x80100000 p₂ m₂ (.copyout 0 [65, 66, 0]) with
    | none => trivial
    | some m' =>
      rw [hm] at hthere
      obtain ⟨hsz, hmap⟩ := of_decide_eq_true (Option.all_some ▸ hthere)
      refine ⟨fun x hx _ _ hlt => ?_, ?_⟩
      · rw [hsz] at hlt
        rw [pgsize_eq] at hx
        rwa [show x = 0 by omega]
      cases userNext 0x80100000 p₂ m' (.copyinstr 0 10) <;> trivial)
  exact ⟨r, p₁, m₁, p₂, m₂, rs, m₁', m₂', h1, h2, hc1, hc2⟩

def afterSbrk (n t : Int) (ops : List UserOp) : Except Panic (Int × List (Int × List UInt8)) :=
  match sysSbrk 0x80100000 firstProc n t firstMem with
  | .ok ((r, p), m) => (calls 0x80100000 p ops m).map fun e => (r, e.1)
  | .error e => .error e

theorem sbrk_distinguished : afterSbrk 0x1000 sbrkEager [.copyinstr 0 10] = .ok (0, [(0, [])]) ∧
    afterSbrk 0x1000 sbrkLazy [.copyinstr 0 10] = .ok (0, [(-1, [])]) ∧
    afterSbrk 1 sbrkEager [.load 5] = .ok (0, [(0, [0])]) ∧
    afterSbrk 1 sbrkLazy [.load 5] = .ok (0, [(-1, [])]) :=
  ⟨by decide +kernel, by decide +kernel, by decide +kernel, by decide +kernel⟩
end Xv6.Vm
