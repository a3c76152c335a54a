import Xv6.Vm.Copy

namespace Xv6.Vm
open Lib Function List

abbrev Buf := Nat → UInt8

def copyStr (m : Mem) : Nat → Nat → Nat → Buf → Bool × Buf
  | 0, _, _, buf => (false, buf)
  | n + 1, pa, d, buf =>
    if m.byte pa = 0 then (true, update buf d 0)
    else copyStr m n (pa + 1) (d + 1) (update buf d (m.byte pa))

def copyinstrInto (pagetable : Nat) : Nat → Nat → Nat → Nat → Buf → VmM (Int × Buf)
  | 0, _, _, _, buf => return (-1, buf)
  | fuel + 1, srcva, max, d, buf => do
    if max = 0 then return (-1, buf)
    else
      let va0 := pgrounddown srcva
      let pa0 ← walkaddr pagetable va0
      if pa0 = 0 then return (-1, buf)
      else
        let n := min (pgsize - (srcva - va0)) max
        let m ← get
        let r := copyStr m n (pa0 + (srcva - va0)) d buf
        if r.1 then return (0, r.2)
        else copyinstrInto pagetable fuel (va0 + pgsize) (max - n) (d + n) r.2

def strlen (buf : Buf) : Nat → Nat → Option Nat
  | 0, _ => none
  | max + 1, n => if buf n = 0 then some n else strlen buf max (n + 1)

def fetchstr (pagetable addr max : Nat) (buf : Buf) : VmM (Option Int × Buf) := do
  let (r, buf) ← copyinstrInto pagetable max addr max 0 buf
  if r < 0 then return (some (-1), buf)
  else return ((strlen buf max 0).map Int.ofNat, buf)

def argstr (args : Fin 6 → Nat) (pagetable : Nat) (n : Fin 6) (max : Nat) (buf : Buf) :
    VmM (Option Int × Buf) :=
  fetchstr pagetable (args n) max buf

def Mem.userByte (m : Mem) (root a : Nat) : Option UInt8 :=
  match m.map root (pgrounddown a) with
  | some (pa, flags) =>
    if a < maxva ∧ flags.testBit 4 ∧ pa ≠ 0 then some (m.byte (pa + a % pgsize)) else none
  | none => none

structure IsString (m : Mem) (root srcva k : Nat) : Prop where
  nul : m.userByte root (srcva + k) = some 0
  body : ∀ j < k, ∃ b, m.userByte root (srcva + j) = some b ∧ b ≠ 0

variable {m : Mem} {root va x pa off n max : Nat} {buf : Buf} {s : List UInt8} {r : Int}

section
variable (buf : Buf) (d : Nat)

def Buf.put (bs : List UInt8) : Buf := fun i =>
  if d ≤ i ∧ i < d + bs.length then bs.getD (i - d) 0 else buf i

lemma Buf.put_nil : buf.put d [] = buf := by
  funext i
  rw [Buf.put, if_neg (by simp)]

lemma Buf.put_cons (b : UInt8) (bs : List UInt8) :
    Buf.put (update buf d b) (d + 1) bs = buf.put d (b :: bs) := by
  funext i
  unfold Buf.put
  rw [length_cons]
  by_cases hd : i = d
  · rw [hd, if_neg (by omega), update_self, if_pos (by omega), Nat.sub_self]
    rfl
  rw [update_of_ne hd]
  by_cases hin : d + 1 ≤ i ∧ i < d + 1 + bs.length
  · rw [if_pos hin, if_pos (by omega), show i - d = i - (d + 1) + 1 by omega]
    rfl
  rw [if_neg hin, if_neg (by omega)]

lemma Buf.put_put (s1 s2 : List UInt8) :
    (buf.put d s1).put (d + s1.length) s2 = buf.put d (s1 ++ s2) := by
  induction s1 generalizing buf d with
  | nil => rw [Buf.put_nil, length_nil, add_zero, nil_append]
  | cons b s1 ih =>
    rw [← Buf.put_cons, cons_append, ← Buf.put_cons, ← ih, length_cons, add_right_comm, add_assoc]
end

lemma copyStr_eq (m : Mem) (n pa d : Nat) (buf : Buf) :
    copyStr m n pa d buf = (let bytes := (List.range n).map fun i => m.byte (pa + i)
      if (0 : UInt8) ∈ bytes then (true, buf.put d (bytes.takeWhile (· ≠ 0) ++ [0]))
      else (false, buf.put d bytes)) := by
  induction n generalizing pa d buf with
  | zero => simp [copyStr, Buf.put_nil]
  | succ n ih =>
    have hbytes : ((List.range (n + 1)).map fun i => m.byte (pa + i)) =
        m.byte pa :: (List.range n).map fun i => m.byte (pa + 1 + i) := by
      rw [range_succ_eq_map, map_cons, map_map]
      simp [Function.comp_def, add_assoc, add_comm 1]
    rw [copyStr, hbytes]
    by_cases hz : m.byte pa = 0
    · rw [if_pos hz, hz]
      simp [← Buf.put_cons, Buf.put_nil]
    have hne : ¬(0 : UInt8) = m.byte pa := fun e => hz e.symm
    rw [if_neg hz, ih]
    simp only [mem_cons, hne, false_or, takeWhile_cons, hz, ne_eq, not_false_eq_true,
      decide_true, if_true, Buf.put_cons, cons_append]

structure Fetched (m : Mem) (root va max : Nat) (r : Int) (s : List UInt8) : Prop where
  body : ∀ i b, s[i]? = some b → m.userByte root (va + i) = some b ∧ b ≠ 0
  result : r = 0 ∧ s.length < max ∧ m.userByte root (va + s.length) = some 0 ∨
    r = -1 ∧ s.length ≤ max ∧ (s.length = max ∨ m.userByte root (va + s.length) = none)

lemma Mem.userByte_of_page (hx : x % pgsize = 0) (hoff : off < pgsize) :
    m.userByte root (x + off) =
      if (if x < maxva then userPage (m.map root x) else 0) = 0 then none
      else some (m.byte ((if x < maxva then userPage (m.map root x) else 0) + off)) := by
  have hround : pgrounddown (x + off) = x := by
    rw [pgrounddown, pgsize_eq] at *
    omega
  have hmod : (x + off) % pgsize = off := by
    rw [pgsize_eq] at *
    omega
  have hmax : x + off < maxva ↔ x < maxva := by
    rw [maxva_eq, pgsize_eq] at *
    omega
  rw [Mem.userByte, hround, hmod]
  simp only [hmax]
  cases hm : m.map root x with
  | none => simp [userPage]
  | some e =>
    by_cases hlt : x < maxva
    · by_cases hu : e.2.testBit 4 <;> by_cases hpa : e.1 = 0 <;>
        simp [userPage, hlt, hu, hpa]
    simp [hlt]

lemma exists_takeWhile {l : List UInt8} (h : (0 : UInt8) ∈ l) :
    ∃ t, l = l.takeWhile (· ≠ 0) ++ 0 :: t := by
  induction l with
  | nil => cases h
  | cons b l ih =>
    by_cases hb : b = 0
    · exact ⟨l, by simp [hb]⟩
    obtain ⟨t, ht⟩ := ih ((mem_cons.mp h).resolve_left fun e => hb e.symm)
    refine ⟨t, ?_⟩
    rw [takeWhile_cons, if_pos (by simpa using hb), cons_append, ← ht]

lemma Fetched.found {bytes : List UInt8}
    (hbytes : ∀ i b, bytes[i]? = some b → m.userByte root (va + i) = some b)
    (hlen : bytes.length ≤ max) (hz : (0 : UInt8) ∈ bytes) :
    Fetched m root va max 0 (bytes.takeWhile (· ≠ 0)) := by
  obtain ⟨t, ht⟩ := exists_takeWhile hz
  have hlt : (bytes.takeWhile (· ≠ 0)).length < bytes.length := by
    have := congrArg List.length ht
    rw [length_append, length_cons] at this
    omega
  refine ⟨fun i b hi => ⟨hbytes i b ?_, ?_⟩, .inl ⟨rfl, by omega, hbytes _ 0 ?_⟩⟩
  · rwa [ht, List.getElem?_append_left (List.getElem?_eq_some_iff.mp hi).1]
  · simpa using mem_takeWhile_imp (mem_of_getElem? hi)
  nth_rw 1 [ht]
  rw [List.getElem?_append_right le_rfl, Nat.sub_self]
  rfl

lemma Fetched.append {bytes s : List UInt8}
    (hbytes : ∀ i b, bytes[i]? = some b → m.userByte root (va + i) = some b)
    (hlen : bytes.length ≤ max) (hz : (0 : UInt8) ∉ bytes)
    (h : Fetched m root (va + bytes.length) (max - bytes.length) r s) :
    Fetched m root va max r (bytes ++ s) := by
  have hres := h.result
  rw [add_assoc, ← length_append] at hres
  have hsum : (bytes ++ s).length = bytes.length + s.length := length_append
  refine ⟨fun i b hi => ?_, ?_⟩
  · by_cases hin : i < bytes.length
    · rw [List.getElem?_append_left hin] at hi
      exact ⟨hbytes i b hi, fun e => hz (e ▸ mem_of_getElem? hi)⟩
    · rw [List.getElem?_append_right (not_lt.mp hin)] at hi
      have hb := h.body _ b hi
      rwa [add_assoc, Nat.add_sub_cancel' (not_lt.mp hin)] at hb
  rcases hres with ⟨hr, hlt, hnul⟩ | ⟨hr, hle, hend⟩
  · exact .inl ⟨hr, by omega, hnul⟩
  exact .inr ⟨hr, by omega, hend.imp (fun e => by omega) id⟩

lemma copyinstrInto_eq : ∀ fuel va max d buf dst, max ≤ fuel → ∃ r s,
    copyinstrLoop root fuel va max dst m = .ok ((r, dst ++ s), m) ∧
    copyinstrInto root fuel va max d buf m =
      .ok ((r, buf.put d (s ++ if r = 0 then [0] else [])), m) ∧
    Fetched m root va max r s := by
  have hnone : ∀ va max, max = 0 ∨ m.userByte root va = none → Fetched m root va max (-1) [] := by
    intro va max hend
    exact ⟨nofun, .inr ⟨rfl, Nat.zero_le _, hend.imp (fun e => e.symm) id⟩⟩
  have hsame : ∀ buf : Buf, ∀ d, buf.put d ([] ++ if (-1 : Int) = 0 then [0] else []) = buf := by
    intro buf d
    rw [if_neg (by decide), append_nil, Buf.put_nil]
  intro fuel
  induction fuel with
  | zero =>
    intro va max d buf dst hfuel
    refine ⟨-1, [], ?_, ?_, hnone va max (.inl (by omega))⟩
    · rw [append_nil]
      rfl
    rw [hsame]
    rfl
  | succ fuel ih =>
    intro va max d buf dst hfuel
    have hle := pgrounddown_le va
    have hal := pgrounddown_aligned va
    have hoff : va - pgrounddown va < pgsize := by
      rw [pgrounddown, pgsize_eq]
      omega
    rw [copyinstrLoop, copyinstrInto]
    by_cases hmax : max = 0
    · rw [if_pos hmax, if_pos hmax]
      refine ⟨-1, [], ?_, ?_, hnone va max (.inl hmax)⟩
      · rw [append_nil]
        rfl
      rw [hsame]
      rfl
    rw [if_neg hmax, if_neg hmax]
    dsimp only
    rw [bind_of_ok walkaddr_eq, bind_of_ok walkaddr_eq]
    have hpage := fun off (hlt : off < pgsize) => @Mem.userByte_of_page m root _ off hal hlt
    generalize (if pgrounddown va < maxva then userPage (m.map root (pgrounddown va)) else 0) = pa
      at hpage ⊢
    by_cases hpa : pa = 0
    · rw [if_pos hpa, if_pos hpa]
      refine ⟨-1, [], ?_, ?_, hnone va max (.inr ?_)⟩
      · rw [append_nil]
        rfl
      · rw [hsame]
        rfl
      have hfirst := hpage _ hoff
      rwa [Nat.add_sub_cancel' hle, if_pos hpa] at hfirst
    rw [if_neg hpa, if_neg hpa]
    generalize hn : min (pgsize - (va - pgrounddown va)) max = n
    have hpeek : peek (pa + (va - pgrounddown va)) n m =
        .ok ((List.range n).map fun i => m.byte (pa + (va - pgrounddown va) + i), m) := rfl
    have hget : (get : VmM Mem) m = .ok (m, m) := rfl
    rw [bind_of_ok hpeek, bind_of_ok hget, copyStr_eq]
    dsimp only
    generalize hbytes : ((List.range n).map fun i => m.byte (pa + (va - pgrounddown va) + i)) =
      bytes
    have hlen : bytes.length = n := by rw [← hbytes, length_map, length_range]
    have hfound : ∀ i b, bytes[i]? = some b → m.userByte root (va + i) = some b := by
      intro i b hi
      have hlt : i < n := hlen ▸ (List.getElem?_eq_some_iff.mp hi).1
      have hb := hpage (va - pgrounddown va + i) (by omega)
      rw [if_neg hpa, ← add_assoc, Nat.add_sub_cancel' hle, ← add_assoc] at hb
      rw [hb, ← hi, ← hbytes, List.getElem?_map, List.getElem?_range hlt]
      rfl
    by_cases hz : (0 : UInt8) ∈ bytes
    · rw [if_pos hz, if_pos hz]
      exact ⟨0, _, rfl, rfl, Fetched.found hfound (by omega) hz⟩
    rw [if_neg hz, if_neg hz]
    obtain ⟨r, s, hlist, hbuf, hf⟩ := ih (pgrounddown va + pgsize) (max - n) (d + n)
      (buf.put d bytes) (dst ++ bytes) (by omega)
    have hf' : Fetched m root (va + bytes.length) (max - bytes.length) r s := by
      rw [hlen]
      by_cases hlast : max - n = 0
      · -- the buffer is full, so nothing follows
        rw [hlast] at hf ⊢
        rcases hf.result with ⟨-, hlt, -⟩ | ⟨rfl, hs, -⟩
        · exact absurd hlt (Nat.not_lt_zero _)
        rw [length_eq_zero_iff.mp (Nat.le_zero.mp hs)]
        exact hnone _ _ (.inl rfl)
      rwa [show pgrounddown va + pgsize = va + n by omega] at hf
    refine ⟨r, bytes ++ s, ?_, ?_, Fetched.append hfound (by omega) hz hf'⟩
    · rw [hlist, append_assoc]
    show copyinstrInto root fuel _ _ _ _ m = _
    rw [hbuf, ← hlen, Buf.put_put, append_assoc]

lemma Fetched.isString (h : Fetched m root va max r s) (hr : r = 0) :
    s.length < max ∧ IsString m root va s.length := by
  rcases h.result with ⟨-, hlt, hnul⟩ | ⟨rfl, -⟩
  · refine ⟨hlt, hnul, fun j hj => ?_⟩
    exact ⟨s[j], h.body j s[j] (List.getElem?_eq_getElem hj)⟩
  cases hr

lemma Fetched.of_isString {k : Nat} (h : Fetched m root va max r s)
    (hk : k < max) (hs : IsString m root va k) : r = 0 ∧ s.length = k := by
  have hle : s.length ≤ k := by
    by_contra hlt
    have hbody := h.body k s[k] (List.getElem?_eq_getElem (by omega))
    rw [hs.nul] at hbody
    exact hbody.2 (Option.some.inj hbody.1).symm
  rcases h.result with ⟨hr, -, hnul⟩ | ⟨-, -, hend⟩
  · refine ⟨hr, le_antisymm hle (not_lt.mp fun hlt => ?_)⟩
    obtain ⟨b, hb, hne⟩ := hs.body _ hlt
    rw [hnul] at hb
    exact hne (Option.some.inj hb).symm
  rcases hend with hend | hend
  · omega
  rcases Nat.lt_or_eq_of_le hle with hlt | heq
  · obtain ⟨b, hb, -⟩ := hs.body _ hlt
    rw [hend] at hb
    cases hb
  rw [heq, hs.nul] at hend
  cases hend

lemma strlen_eq {k : Nat} (hnul : buf k = 0) (hne : ∀ j < k, buf j ≠ 0) :
    ∀ n fuel, n ≤ k → k < n + fuel → strlen buf fuel n = some k := by
  intro n fuel
  induction fuel generalizing n with
  | zero => omega
  | succ fuel ih =>
    intro hle hlt
    rw [strlen]
    by_cases hn : n = k
    · rw [if_pos (by rw [hn, hnul]), hn]
    rw [if_neg (hne n (by omega))]
    exact ih (n + 1) (by omega) (by omega)

lemma Fetched.holds (h : Fetched m root va max 0 s) (buf : Buf) (j : Nat)
    (hj : j ≤ s.length) : m.userByte root (va + j) = some (buf.put 0 (s ++ [0]) j) := by
  have hin : 0 ≤ j ∧ j < 0 + (s ++ [0]).length := by
    rw [length_append, length_singleton]
    omega
  rw [Buf.put, if_pos hin, Nat.sub_zero]
  rcases Nat.lt_or_eq_of_le hj with hlt | rfl
  · rw [getD_append _ _ _ _ hlt, getD_eq_getElem _ _ hlt]
    exact (h.body j _ (List.getElem?_eq_getElem hlt)).1
  rw [getD_append_right _ _ _ _ le_rfl, Nat.sub_self]
  rcases h.result with ⟨-, -, hnul⟩ | ⟨hr, -⟩
  · exact hnul
  cases hr

lemma Fetched.length_le (h : Fetched m root va max r s) :
    (s ++ if r = 0 then [0] else []).length ≤ max := by
  rw [length_append]
  rcases h.result with ⟨rfl, hlt, -⟩ | ⟨rfl, hle, -⟩
  · exact hlt
  exact hle

lemma Fetched.strlen (h : Fetched m root va max 0 s) (buf : Buf) :
    Vm.strlen (buf.put 0 (s ++ [0])) max 0 = some s.length := by
  obtain ⟨hlt, hnul, hbody⟩ := h.isString rfl
  refine strlen_eq ?_ (fun j hj => ?_) 0 max zero_le (by omega)
  · exact Option.some.inj ((h.holds buf s.length le_rfl).symm.trans hnul)
  obtain ⟨b, hb, hne⟩ := hbody j hj
  rwa [Option.some.inj ((h.holds buf j hj.le).symm.trans hb)]

lemma fetchstr_eq (m : Mem) (root srcva max : Nat) (buf : Buf) : ∃ r s,
    copyinstrInto root max srcva max 0 buf m =
      .ok ((r, buf.put 0 (s ++ if r = 0 then [0] else [])), m) ∧
    Fetched m root srcva max r s ∧
    fetchstr root srcva max buf m = .ok ((some (if r = 0 then (s.length : Int) else -1),
      buf.put 0 (s ++ if r = 0 then [0] else [])), m) := by
  obtain ⟨r, s, -, hrun, hf⟩ := @copyinstrInto_eq m root max srcva max 0 buf [] le_rfl
  refine ⟨r, s, hrun, hf, ?_⟩
  rw [fetchstr, bind_of_ok hrun]
  rcases hf.result with ⟨rfl, -⟩ | ⟨rfl, -⟩
  · dsimp only
    rw [if_neg (by decide), if_pos rfl, if_pos rfl, hf.strlen]
    rfl
  rfl

theorem copyinstr_exact (m : Mem) (root srcva max : Nat) (buf : Buf) : ∃ r buf',
    copyinstrInto root max srcva max 0 buf m = .ok ((r, buf'), m) ∧ (r = 0 ∨ r = -1) ∧
    (r = 0 ↔ ∃ k < max, IsString m root srcva k) ∧
    (∀ k < max, IsString m root srcva k → (∀ j ≤ k, m.userByte root (srcva + j) = some (buf' j)) ∧
      fetchstr root srcva max buf m = .ok ((some k, buf'), m)) ∧
    (r = -1 → fetchstr root srcva max buf m = .ok ((some (-1), buf'), m)) ∧
    (∀ j, max ≤ j → buf' j = buf j) ∧
    ∀ args n, args n = srcva → ∃ len, argstr args root n max buf m = .ok ((some len, buf'), m) := by
  obtain ⟨r, s, hrun, hf, hfetch⟩ := fetchstr_eq m root srcva max buf
  have hcases : r = 0 ∨ r = -1 := hf.result.imp (·.1) (·.1)
  refine ⟨r, _, hrun, hcases, ⟨fun hr => ⟨s.length, hf.isString hr⟩, ?_⟩, fun k hk hs => ?_,
    fun hr => ?_, fun j hj => ?_, ?_⟩
  · rintro ⟨k, hk, hs⟩
    exact (hf.of_isString hk hs).1
  · obtain ⟨rfl, rfl⟩ := hf.of_isString hk hs
    exact ⟨hf.holds buf, hfetch⟩
  · rwa [if_neg (by omega : ¬r = 0)] at hfetch
  · have hlen := hf.length_le
    rw [Buf.put, if_neg (by omega)]
  rintro args n rfl
  exact ⟨_, hfetch⟩
end Xv6.Vm
