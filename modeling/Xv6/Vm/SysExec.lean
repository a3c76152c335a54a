import Xv6.Param
import Xv6.Vm.Elf
import Xv6.Vm.Fetch
import Xv6.Vm.Transfer

namespace Xv6.Vm
open Lib List

structure Caller where
  proc : Proc
  name : Buf
  cwd : Nat

variable (kend tramp : Nat)

def fetchaddr (p : Proc) (addr : Nat) : VmM (Int × Nat) := do
  if p.sz ≤ addr ∨ p.sz < (addr + 8) % 2 ^ 64 then return (-1, 0)
  else
    let (r, bytes) ← copyin kend p p.pagetable addr 8
    if r ≠ 0 then return (-1, 0) else return (0, field bytes 0 8)

def fetchArg (p : Proc) (uarg page : Nat) : VmM Int := do
  let m ← get
  let (r, buf) ← fetchstr p.pagetable uarg pgsize fun i => m.byte (page + i)
  poke page ((range pgsize).map buf)
  match r with
  | some r => return r
  | none => throw .kerneltrap

def fetchArgs (p : Proc) (uargv : Nat) : Nat → Nat → List Nat → VmM (Bool × List Nat)
  | 0, _, pages => return (false, pages)
  | n + 1, i, pages => do
    let (e, uarg) ← fetchaddr kend p ((uargv + 8 * i) % 2 ^ 64)
    if e < 0 then return (false, pages)
    else if uarg = 0 then return (true, pages)
    else
      let r ← kalloc
      match r with
      | none => return (false, pages)
      | some page =>
        let e ← fetchArg p uarg page
        if e < 0 then return (false, pages ++ [page])
        else fetchArgs p uargv n (i + 1) (pages ++ [page])

def freeArgs : List Nat → VmM Unit
  | [] => return ()
  | page :: pages => do
    kfree kend page
    freeArgs pages

def readArg (page : Nat) : VmM Arg := do
  let m ← get
  let s := ((range pgsize).map fun i => m.byte (page + i)).takeWhile (· ≠ 0)
  if h : s.length < pgsize then return ⟨s, h⟩ else throw .kerneltrap

def readArgs : List Nat → VmM (List Arg)
  | [] => return []
  | page :: pages => do
    let s ← readArg page
    let argv ← readArgs pages
    return s :: argv

def lastName : List UInt8 → List UInt8 → List UInt8
  | [], last => last
  | c :: s, last => lastName s (if c = 47 then s else last)

def safestrcpyLoop : Nat → Nat → List UInt8 → Buf → Buf
  | 0, i, _, s => Function.update s i 0
  | n + 1, i, t, s =>
    let c := t.headD 0
    if c ≠ 0 then safestrcpyLoop n (i + 1) t.tail (Function.update s i c)
    else Function.update (Function.update s i c) (i + 1) 0

def saveName (name : Buf) (path : List UInt8) : Buf :=
  safestrcpyLoop 15 0 (lastName path path) name

def kexecNamed (c : Caller) (path : List UInt8) (file : Option File) (argv : List Arg) :
    VmM (Int × Caller) := do
  let (r, q) ← kexec kend tramp c.proc file argv
  if r < 0 then return (r, { c with proc := q })
  else return (r, { c with proc := q, name := saveName c.name path })

def Buf.string (buf : Buf) (max : Nat) : List UInt8 :=
  ((range max).map buf).takeWhile (· ≠ 0)

def sysExec (c : Caller) (namei : List UInt8 → Option File) (args : Fin 6 → Nat) (buf : Buf) :
    VmM (Int × Caller) := do
  let (r, path) ← argstr args c.proc.pagetable 0 maxpath buf
  match r with
  | none => throw .kerneltrap
  | some r =>
    if r < 0 then return (-1, c)
    else
      let (ok, pages) ← fetchArgs kend c.proc (args 1) maxarg 0 []
      if ok = false then
        freeArgs kend pages
        return (-1, c)
      else
        let argv ← readArgs pages
        let path := path.string maxpath
        let (ret, c) ← kexecNamed kend tramp c path (namei path) argv
        freeArgs kend pages
        return (ret, c)

variable {kend tramp} {m m' m'' m0 : Mem} {p : Proc} {x va t : Nat} {E : Panic → Prop}
  {pages : List Nat} {H : Nat → Prop} {c : Caller} {f : File} {mem : Nat}

def Full (m : Mem) (p : Proc) : Prop :=
  ∀ x, Page x → x < p.sz → m.map p.pagetable x ≠ none

lemma wp_vmfault_extends (h : Space kend tramp m p) : wp (vmfault kend p p.pagetable va) m
      (fun _ m' => Extends p.pagetable m m' ∧ (Full m p → m' = m)) E := by
  have hsz := h.size
  have hle := pgrounddown_le va
  unfold vmfault
  by_cases hge : p.sz ≤ va
  · rw [if_pos hge, wp_pure]
    exact ⟨Extends.refl _ m, fun _ => rfl⟩
  have hlt : pgrounddown va < trapframe := by omega
  have hmax := lt_of_lt_of_le hlt trapframe_le_maxva
  have hpage := page_of_lt (pgrounddown_aligned va) hlt
  rw [if_neg hge]
  refine wp_bind_of (wp_ismapped hmax) fun b m1 hb => ?_
  obtain ⟨rfl, rfl⟩ := hb
  cases hmap : m1.map p.pagetable (pgrounddown va) with
  | some e =>
    rw [if_pos Option.isSome_some, wp_pure]
    exact ⟨Extends.refl _ m1, fun _ => rfl⟩
  | none =>
    have hfull : Full m1 p → ∀ m', m' = m1 := fun hf => absurd hmap (hf _ hpage (by omega))
    rw [if_neg (by simp), wp_bind]
    refine wp_kalloc (fun _ => wp_pure.mpr ⟨⟨fun _ _ _ => rfl, fun _ => id⟩, fun hf => hfull hf _⟩)
      (fun mem rest hf => ?_)
    have hram := h.sound.paged.freeRam mem (by rw [hf]; exact .head _)
    rw [wp_bind, wp_memset, wp_bind]
    refine wp_mappages_new h.sound (taken_zero hf hram.aligned) hpage hlt hmap (by decide)
      (by decide) (fun m'' _ _ hext => ?_) (fun m'' _ _ hext => ?_)
    · rw [if_neg (by decide), wp_pure]
      exact ⟨hext, fun hf => hfull hf _⟩
    rw [if_pos (by decide), wp_bind, wp_kfree hram, wp_pure]
    exact ⟨hext, fun hf => hfull hf _⟩

lemma wp_userAddr_extends (h : Space kend tramp m p) : wp (userAddr kend p p.pagetable va) m
      (fun _ m' => Extends p.pagetable m m' ∧ (Full m p → m' = m)) E := by
  unfold userAddr
  rw [wp_bind, wp_walkaddr]
  refine wp_ite (fun _ => ?_) fun _ => ?_
  · exact wp_vmfault_extends h
  rw [wp_pure]
  exact ⟨Extends.refl _ m, fun _ => rfl⟩

lemma wp_peek_any (pa n : Nat) : wp (peek pa n) m (fun _ m' => m' = m) E := by
  unfold peek
  rw [wp_bind, wp_get, wp_pure]

lemma wp_copyinLoop_extends (hk : 0 < kend) : ∀ fuel m va len dst, Space kend tramp m p →
    wp (copyinLoop kend p p.pagetable fuel va len dst) m
      (fun _ m' => Extends p.pagetable m m' ∧ (Full m p → m' = m)) E := by
  intro fuel
  induction fuel with
  | zero => exact fun m va len dst _ => wp_pure.mpr ⟨Extends.refl _ m, fun _ => rfl⟩
  | succ fuel ih =>
    intro m va len dst h
    rw [copyinLoop]
    refine wp_ite (fun _ => wp_pure.mpr ?_) fun _ => ?_
    · exact ⟨Extends.refl _ m, fun _ => rfl⟩
    refine wp_bind_of (wp_both (wp_userAddr_faulted h hk (pgrounddown_aligned va))
      (wp_userAddr_extends h)) fun pa m1 h1 => ?_
    obtain ⟨⟨hf, _⟩, hext, hsame⟩ := h1
    refine wp_ite (fun _ => wp_pure.mpr ?_) fun _ => ?_
    · exact ⟨hext, hsame⟩
    refine wp_bind_of (wp_peek_any _ _) fun _ m2 hm2 => ?_
    obtain rfl := hm2
    refine wp_imp (ih m2 _ _ _ hf.resized.space) fun _ m3 h3 => ?_
    obtain ⟨hext', hsame'⟩ := h3
    refine ⟨hext.trans hext', fun hfull => ?_⟩
    obtain rfl := hsame hfull
    exact hsame' hfull

lemma wp_fetchaddr (hk : 0 < kend) (h : Space kend tramp m p) {addr : Nat} :
    wp (fetchaddr kend p addr) m (fun _ m' => Faulted kend tramp m m' p ∧
      Extends p.pagetable m m' ∧ (Full m p → m' = m)) E := by
  unfold fetchaddr
  refine wp_ite (fun _ => wp_pure.mpr ?_) fun _ => ?_
  · exact ⟨h.faulted, Extends.refl _ m, fun _ => rfl⟩
  refine wp_bind_of (wp_both (wp_copyinLoop_faulted hk 8 m addr 8 [] le_rfl h)
    (wp_copyinLoop_extends hk 8 m addr 8 [] h)) fun r m' ⟨⟨hf, _⟩, hext⟩ => ?_
  obtain ⟨e, bytes⟩ := r
  refine wp_ite (fun _ => wp_pure.mpr ?_) fun _ => ?_
  · exact ⟨hf, hext⟩
  rw [wp_pure]
  exact ⟨hf, hext⟩

structure Gathered (kend tramp : Nat) (m0 m : Mem) (p : Proc) (pages : List Nat) : Prop where
  space : Space kend tramp m p
  trade : Trade (Owns m0 p.pagetable) (fun t => Owns m p.pagetable t ∨ t ∈ pages) m0 m
  seen : m.seen p = m0.seen p
  ext : Extends p.pagetable m0 m
  full : Full m0 p → Trade (fun _ => False) (· ∈ pages) m0 m
  ram : ∀ t ∈ pages, Ram kend t
  nodup : pages.Nodup
  apart : ∀ t ∈ pages, ¬Has m p t

def Terminated (m : Mem) (t : Nat) : Prop := ∃ k < pgsize, m.byte (t + k) = 0

lemma Trade.refl (hapart : ∀ t, H t → t ∉ m.freelist)
    (hnodup : m.freelist.Nodup) (hlist : m'.freelist = m.freelist) (hbyte : m'.byte = m.byte) :
    Trade H H m m' where
  pages t := by rw [hlist]
  apart t ht := by
    rw [hlist]
    exact hapart t ht
  nodup := by rwa [hlist]
  byte _ _ _ := by rw [hbyte]

lemma taken_of_kalloc {rest : List Nat} (hf : m.freelist = mem :: rest)
    (hmem : mem % pgsize = 0) : Taken m (m.taken mem rest) mem where
  list := hf
  byte _ ha := Mem.byte_fill (outside_of_pgrounddown_ne hmem ha)

lemma Taken.trade (h : Taken m m' mem)
    (hapart : ∀ t, H t → t ∉ m.freelist) (hnodup : m.freelist.Nodup) :
    Trade H (fun t => H t ∨ t = mem) m m' where
  pages t := by rw [h.list, mem_cons, or_assoc]
  apart t ht := by
    rw [h.list, nodup_cons] at hnodup
    rcases ht with ht | rfl
    · exact fun hf => hapart t ht (h.mem_of_mem hf)
    exact hnodup.1
  nodup := by
    rw [h.list, nodup_cons] at hnodup
    exact hnodup.2
  byte a _ hf := h.byte a fun e => hf (by rw [e]; exact h.mem_freelist)

lemma Full.extends (h : Full m p) (he : Extends p.pagetable m m') :
    Full m' p := fun x hx hlt => by
  rw [he.map x hx (h x hx hlt)]
  exact h x hx hlt

section
variable (h : Gathered kend tramp m0 m p pages)
include h

lemma Gathered.step {pages' : List Nat} (hspace : Space kend tramp m' p)
    (ht : Trade (fun t => Owns m p.pagetable t ∨ t ∈ pages)
      (fun t => Owns m' p.pagetable t ∨ t ∈ pages') m m') (hseen : m'.seen p = m.seen p)
    (hext : Extends p.pagetable m m') (hfull : Full m p → Trade (· ∈ pages) (· ∈ pages') m m')
    (hram : ∀ t ∈ pages', Ram kend t) (hnodup : pages'.Nodup) (hapart : ∀ t ∈ pages', ¬Has m' p t) :
    Gathered kend tramp m0 m' p pages' where
  space := hspace
  trade := h.trade.trans ht
  seen := hseen.trans h.seen
  ext := h.ext.trans hext
  full hf := (h.full hf).trans (hfull (hf.extends h.ext))
  ram := hram
  nodup := hnodup
  apart := hapart

lemma Gathered.notFree (ht : t ∈ pages) : t ∉ m.freelist := h.trade.apart t (.inr ht)

lemma pgrounddown_arg {k : Nat} (ht : t ∈ pages) (hlt : k < pgsize) : pgrounddown (t + k) = t :=
  pgrounddown_of_mem (h.ram t ht).aligned (Nat.le_add_right _ _) (by omega)

lemma Gathered.faulted (hf : Faulted kend tramp m m' p) (hext : Extends p.pagetable m m')
    (hsame : Full m p → m' = m) :
    Gathered kend tramp m0 m' p pages ∧ ∀ t ∈ pages, Terminated m t → Terminated m' t := by
  obtain ⟨v, he⟩ := hf.resized.evolves
  have hout : ∀ t ∈ pages, ¬Owns m p.pagetable t ∧ t ∉ m.freelist := fun t ht =>
    ⟨fun ho => h.apart t ht (.inl ho), h.notFree ht⟩
  refine ⟨h.step hf.resized.space (he.trade.add hout) hf.seen hext (fun hfull => ?_) h.ram h.nodup
    (fun t ht => ?_), fun t ht ⟨k, hk, hb⟩ => ⟨k, hk, ?_⟩⟩
  · obtain rfl := hsame hfull
    exact Trade.refl (fun t ht => h.notFree ht) h.trade.nodup rfl rfl
  · rintro (ho | rfl)
    · exact ((he.owns t).mp (.inl ho)).elim (hout t ht).1 (hout t ht).2
    exact h.apart _ ht (.inr rfl)
  have hround := pgrounddown_arg h ht hk
  rw [he.byte _ (by rw [hround]; exact (hout t ht).1) (by rw [hround]; exact (hout t ht).2), hb]

lemma Gathered.taken {mem : Nat} (ht : Taken m m' mem) :
    Gathered kend tramp m0 m' p (pages ++ [mem]) ∧
      ∀ t ∈ pages, Terminated m t → Terminated m' t := by
  have hs := ht.same h.space.sound
  have hspace : Space kend tramp m' p := hs.space h.space (fun hf =>
    h.space.hand.notFree (ht.mem_of_mem hf))
  have hmem : ∀ {t}, t ∈ pages ++ [mem] ↔ t ∈ pages ∨ t = mem := by
    intro t
    rw [mem_append, mem_singleton]
  have hnew : ∀ t ∈ pages, t ≠ mem := fun t hp e => h.notFree hp (by rw [e]; exact ht.mem_freelist)
  refine ⟨h.step hspace ?_ (View.seen_congr hs.view) ⟨fun x _ _ => hs.map x,
    fun t hr => (hs.reached t).mpr hr⟩ (fun _ => ?_) (fun t hp => ?_) ?_ (fun t hp hh => ?_),
    fun t hp ⟨k, hk, hb⟩ => ⟨k, hk, ?_⟩⟩
  · refine (ht.trade h.trade.apart h.trade.nodup).congr (fun _ => Iff.rfl) fun t => ?_
    rw [hmem, hs.owns, or_assoc]
  · exact (ht.trade (fun t hp => h.notFree hp) h.trade.nodup).congr (fun _ => Iff.rfl)
      (fun _ => hmem)
  · rcases hmem.mp hp with hp | rfl
    · exact h.ram t hp
    exact h.space.sound.paged.freeRam t ht.mem_freelist
  · exact nodup_append.mpr ⟨h.nodup, nodup_singleton _, fun a ha b hb => by
      rw [mem_singleton.mp hb]
      exact hnew a ha⟩
  · rcases hmem.mp hp with hp | rfl
    · exact h.apart t hp (hs.has.mp hh)
    exact h.space.not_free (hs.has.mp hh) ht.mem_freelist
  rw [ht.byte _ (by rw [pgrounddown_arg h hp hk]; exact hnew t hp), hb]

lemma Gathered.scratched {page : Nat} (hp : page ∈ pages) (hs : Scratched page m m') :
    Gathered kend tramp m0 m' p pages ∧
      ∀ t ∈ pages, t ≠ page → Terminated m t → Terminated m' t := by
  obtain ⟨hsame, hspace⟩ := h.space.scratched hs fun ho => h.apart page hp (.inl ho)
  refine ⟨h.step hspace ?_ (View.seen_congr hsame.view) ⟨fun x _ _ => hsame.map x,
    fun t hr => (hsame.reached t).mpr hr⟩ (fun _ => ?_) h.ram h.nodup
    (fun t ht hh => h.apart t ht (hsame.has.mp hh)), fun t ht hne ⟨k, hk, hb⟩ => ⟨k, hk, ?_⟩⟩
  · exact hs.trade (.inr hp) h.trade.apart h.trade.nodup fun t => by rw [hsame.owns]
  · exact hs.trade hp (fun t ht => h.notFree ht) h.trade.nodup fun _ => Iff.rfl
  rw [hs.byte _ (by rwa [pgrounddown_arg h ht hk]), hb]
end

lemma wp_pokePage {page : Nat} (hal : page % pgsize = 0) (buf : Buf) :
    wp (poke page ((range pgsize).map buf)) m (fun _ m' => Scratched page m m' ∧
      ∀ k < pgsize, m'.byte (page + k) = buf k) E := by
  unfold poke
  rw [wp_modify]
  dsimp only
  rw [length_map, length_range]
  refine ⟨⟨fun a ha => ?_, rfl⟩, fun k hk => ?_⟩
  · have hout := outside_of_pgrounddown_ne hal ha
    exact if_neg (by omega)
  rw [if_pos (by omega), Nat.add_sub_cancel_left, getD_eq_getElem?_getD, getElem?_map,
    getElem?_range hk]
  rfl

lemma wp_fetchArg {uarg page : Nat} (h : Gathered kend tramp m0 m p pages) (hp : page ∈ pages) :
    wp (fetchArg p uarg page) m (fun r m' => Gathered kend tramp m0 m' p pages ∧
      (∀ t ∈ pages, t ≠ page → Terminated m t → Terminated m' t) ∧
      (¬r < 0 → Terminated m' page)) E := by
  obtain ⟨r, s, -, hf, hfetch⟩ :=
    fetchstr_eq m p.pagetable uarg pgsize fun i => m.byte (page + i)
  have hfetch' : wp (fetchstr p.pagetable uarg pgsize fun i => m.byte (page + i)) m
      (fun a m' => a = _ ∧ m' = m) E := (wp_of_ok hfetch).mpr ⟨rfl, rfl⟩
  unfold fetchArg
  rw [wp_bind, wp_get]
  refine wp_bind_of hfetch' fun a m' ha => ?_
  obtain ⟨rfl, rfl⟩ := ha
  refine wp_bind_of (wp_pokePage (h.ram page hp).aligned _) fun _ m1 ⟨hs, hbyte⟩ => ?_
  obtain ⟨hg, hrest⟩ := h.scratched hp hs
  refine wp_pure.mpr ⟨hg, hrest, fun hr => ?_⟩
  rcases hf.result with ⟨rfl, hlt, -⟩ | ⟨rfl, -⟩
  · refine ⟨s.length, hlt, ?_⟩
    rw [hbyte _ hlt, if_pos rfl, Buf.put, if_pos (by simp), Nat.sub_zero]
    simp
  rw [if_neg (by decide)] at hr
  omega

lemma wp_fetchArgs {uargv : Nat} (hk : 0 < kend) : ∀ n i m pages,
    Gathered kend tramp m0 m p pages → (∀ t ∈ pages, Terminated m t) →
    wp (fetchArgs kend p uargv n i pages) m (fun r m' => Gathered kend tramp m0 m' p r.2 ∧
      (r.1 → (∀ t ∈ r.2, Terminated m' t) ∧ r.2.length < pages.length + n)) E := by
  intro n
  induction n with
  | zero => exact fun i m pages h _ => wp_pure.mpr ⟨h, nofun⟩
  | succ n ih =>
    intro i m pages h hterm
    rw [fetchArgs]
    refine wp_bind_of (wp_fetchaddr hk h.space) fun r m1 ⟨hf, hext, hsame⟩ => ?_
    obtain ⟨h1, hterm1⟩ := h.faulted hf hext hsame
    obtain ⟨e, uarg⟩ := r
    refine wp_ite (fun _ => wp_pure.mpr ?_) fun he => ?_
    · exact ⟨h1, nofun⟩
    refine wp_ite (fun h0 => wp_pure.mpr ?_) fun h0 => ?_
    · exact ⟨h1, fun _ => ⟨fun t ht => hterm1 t ht (hterm t ht), Nat.lt_add_of_pos_right
        (by omega)⟩⟩
    rw [wp_bind]
    refine wp_kalloc (fun _ => wp_pure.mpr ⟨?_, nofun⟩) fun page rest hfree => ?_
    · exact h1.step (h1.space.keep h1.space.sound.asked)
        (Trade.refl h1.trade.apart h1.trade.nodup rfl rfl) rfl ⟨fun _ _ _ => rfl, fun _ => id⟩
        (fun _ => Trade.refl (fun t ht => h1.notFree ht) h1.trade.nodup rfl rfl) h1.ram h1.nodup
        h1.apart
    have hram := h1.space.sound.paged.freeRam page (by rw [hfree]; exact .head _)
    obtain ⟨h2, hterm2⟩ := h1.taken (taken_of_kalloc hfree hram.aligned)
    have hpage : page ∈ pages ++ [page] := by simp
    refine wp_bind_of (wp_fetchArg h2 hpage) fun e m3 ⟨h3, hterm3, hnew⟩ => ?_
    refine wp_ite (fun _ => wp_pure.mpr ?_) fun he => ?_
    · exact ⟨h3, nofun⟩
    refine wp_imp (ih (i + 1) m3 (pages ++ [page]) h3 (fun t ht => ?_)) fun r m' ⟨hg, hr⟩ =>
      ⟨hg, fun hok => ?_⟩
    · by_cases hne : t = page
      · rw [hne]
        exact hnew he
      have hold : t ∈ pages := by simpa [hne] using ht
      exact hterm3 t ht hne (hterm2 t hold (hterm1 t hold (hterm t hold)))
    obtain ⟨hall, hlen⟩ := hr hok
    rw [length_append, length_singleton] at hlen
    exact ⟨hall, by omega⟩

lemma wp_readArg (h : Terminated m t) : wp (readArg t) m (fun _ m' => m' = m) E := by
  obtain ⟨k, hk, hb⟩ := h
  unfold readArg
  rw [wp_bind, wp_get]
  have hlt : (((range pgsize).map fun i => m.byte (t + i)).takeWhile (· ≠ 0)).length <
      pgsize := by
    have hprefix := takeWhile_prefix (p := fun b : UInt8 => decide (b ≠ 0))
      (l := (range pgsize).map fun i => m.byte (t + i))
    have hle := hprefix.length_le
    rw [length_map, length_range] at hle
    refine lt_of_le_of_ne hle fun heq => ?_
    have hall := hprefix.eq_of_length (by rw [heq, length_map, length_range])
    have hmem : (0 : UInt8) ∈ (range pgsize).map fun i => m.byte (t + i) :=
      mem_map.mpr ⟨k, mem_range.mpr hk, hb⟩
    rw [← hall] at hmem
    simpa using mem_takeWhile_imp hmem
  dsimp only
  rw [dif_pos hlt, wp_pure]

lemma wp_readArgs (h : ∀ t ∈ pages, Terminated m t) :
    wp (readArgs pages) m (fun argv m' => m' = m ∧ argv.length = pages.length) E := by
  induction pages with
  | nil => exact wp_pure.mpr ⟨rfl, rfl⟩
  | cons t pages ih =>
    rw [readArgs]
    refine wp_bind_of (wp_readArg (h t mem_cons_self)) fun s m1 hm1 => ?_
    obtain rfl := hm1
    refine wp_bind_of (ih (fun u hu => h u (mem_cons_of_mem t hu))) fun argv m2 hm2 => ?_
    obtain ⟨rfl, hlen⟩ := hm2
    rw [wp_pure, length_cons, length_cons, hlen]
    exact ⟨rfl, rfl⟩

lemma wp_freeArgs : ∀ pages m, (∀ t ∈ pages, Ram kend t) → pages.Nodup →
    (∀ t ∈ pages, t ∉ m.freelist) → m.freelist.Nodup →
    wp (freeArgs kend pages) m (fun _ m' => Trade (· ∈ pages) (fun _ => False) m m') E := by
  intro pages
  induction pages with
  | nil =>
    intro m _ _ _ hn
    exact wp_pure.mpr ⟨fun t => by simp, fun _ => False.elim, hn, fun _ _ _ => rfl⟩
  | cons page pages ih =>
    intro m hram hnodup hout hn
    have hpage := hram page mem_cons_self
    have hfree := hout page mem_cons_self
    rw [nodup_cons] at hnodup
    rw [freeArgs, wp_bind, wp_kfree hpage]
    refine wp_imp (ih (m.freed page) (fun t ht => hram t (.tail _ ht)) hnodup.2
      (fun t ht hf => ?_) (nodup_cons.mpr ⟨hfree, hn⟩)) fun _ m' ht => ?_
    · rcases mem_cons.mp hf with rfl | hf
      · exact hnodup.1 ht
      exact hout t (.tail _ ht) hf
    refine ⟨fun t => ?_, ht.apart, ht.nodup, fun a h1 h2 => ?_⟩
    · rw [ht.pages, mem_cons]
      show t ∈ pages ∨ t ∈ page :: m.freelist ↔ _
      rw [mem_cons]
      tauto
    rw [mem_cons, not_or] at h1
    have hlist : pgrounddown a ∉ (m.freed page).freelist := fun hf => (mem_cons.mp hf).elim h1.1 h2
    rw [ht.byte a h1.2 hlist]
    exact Mem.byte_fill (outside_of_pgrounddown_ne hpage.aligned h1.1)

abbrev Untouched (m m' : Mem) : Prop := Trade (fun _ => False) (fun _ => False) m m'

structure Swapped (kend tramp : Nat) (m m' : Mem) (c c' : Caller) : Prop where
  replaced : Replaced kend tramp m c.proc m' c'.proc
  freed : ∀ t, Owns m c.proc.pagetable t → t ∈ m'.freelist
  cwd : c'.cwd = c.cwd

structure Failed (kend tramp : Nat) (m m' : Mem) (p : Proc) : Prop where
  space : Space kend tramp m' p
  seen : m'.seen p = m.seen p
  ext : Extends p.pagetable m m'
  trade : Trade (Owns m p.pagetable) (Owns m' p.pagetable) m m'
  frame : ∀ a, pgrounddown a = p.trapframe → m'.byte a = m.byte a
  full : Full m p → Untouched m m'

lemma Space.gathered (h : Space kend tramp m p) : Gathered kend tramp m m p [] where
  space := h
  trade := ⟨fun t => by simp, fun t ht hf => h.sound.not_owns hf (by simpa using ht),
    h.sound.paged.nodup, fun _ _ _ => rfl⟩
  seen := rfl
  ext := Extends.refl _ m
  full _ := ⟨fun t => by simp, fun t ht => by simp at ht, h.sound.paged.nodup, fun _ _ _ => rfl⟩
  ram t ht := absurd ht not_mem_nil
  nodup := nodup_nil
  apart t ht := absurd ht not_mem_nil

lemma Gathered.failed (h : Gathered kend tramp m0 m p pages)
    (ht : Trade (· ∈ pages) (fun _ => False) m m') (hp : Space kend tramp m0 p) :
    Failed kend tramp m0 m' p := by
  obtain ⟨hsame, hspace⟩ := h.space.trade ht h.ram fun t hh hmem => h.apart t hmem hh
  have htrade : Trade (Owns m0 p.pagetable) (Owns m' p.pagetable) m0 m' := by
    have hrest := ht.add fun t ho =>
      ⟨fun hmem => h.apart t hmem (.inl ho), h.space.not_free (.inl ho)⟩
    refine (h.trade.congr (fun _ => Iff.rfl) (fun t => or_comm)).trans
      (hrest.congr (fun _ => Iff.rfl) (fun t => ?_))
    rw [false_or, hsame.owns]
  refine ⟨hspace, ?_, ?_, htrade, fun a ha => ?_, fun hf => (h.full hf).trans ht⟩
  · exact (View.seen_congr hsame.view).trans h.seen
  · exact h.ext.trans ⟨fun x _ _ => hsame.map x, fun t hr => (hsame.reached t).mpr hr⟩
  exact htrade.byte a (by rw [ha]; exact hp.hand.notOwned) (by rw [ha]; exact hp.hand.notFree)

lemma wp_kexecNamed {path : List UInt8} {file : Option File} {argv : List Arg}
    (hk : 0 < kend) (hcode : IsCode kend tramp) (hp : Space kend tramp m c.proc) :
    wp (kexecNamed kend tramp c path file argv) m (fun r m' =>
      r = (-1, c) ∧ Untouched m m' ∨
      r.1 = argv.length ∧ Swapped kend tramp m m' c r.2) E := by
  unfold kexecNamed
  refine wp_bind_of (wp_kexec_execed hk hcode hp) fun r m' hr => ?_
  obtain ⟨e, q⟩ := r
  have hcases : (e, q) = (-1, c.proc) ∧ Untouched m m' ∨ e = argv.length ∧
      Replaced kend tramp m c.proc m' q ∧ ∀ t, Owns m c.proc.pagetable t → t ∈ m'.freelist := by
    rcases hr with hr | ⟨f, -, hr | ⟨he, hrep, hfreed, -⟩⟩
    · exact .inl hr
    · exact .inl hr
    exact .inr ⟨he, hrep, hfreed⟩
  dsimp only
  rcases hcases with ⟨he, ht⟩ | ⟨he, hrep, hfreed⟩
  · cases he
    rw [if_pos (by decide), wp_pure]
    exact .inl ⟨rfl, ht⟩
  rw [if_neg (by omega), wp_pure]
  exact .inr ⟨he, hrep, hfreed, rfl⟩

lemma Gathered.swapped {c' : Caller} (h : Gathered kend tramp m0 m c.proc pages)
    (hp : Space kend tramp m0 c.proc) (hs : Swapped kend tramp m m' c c')
    (ht : Trade (· ∈ pages) (fun _ => False) m' m'') : Swapped kend tramp m0 m'' c c' := by
  obtain ⟨hspace, htf, htrade⟩ := hs.replaced
  have hout : ∀ t, Has m' c'.proc t → t ∉ pages := by
    intro t hh hmem
    exact ((htrade.pages t).mp (.inl hh)).elim (h.apart t hmem) (h.notFree hmem)
  obtain ⟨hsame, hspace'⟩ := hspace.trade ht h.ram hout
  have ht1 := h.trade.add (K := (· = c.proc.trapframe)) (fun t e =>
    ⟨fun ho => hp.hand.notOwned (e ▸ ho), e ▸ hp.hand.notFree⟩)
  have ht2 := htrade.add (K := (· ∈ pages)) (fun t hmem => ⟨h.apart t hmem, h.notFree hmem⟩)
  have ht3 := ht.add (K := Has m' c'.proc) (fun t hh => ⟨hout t hh, hspace.not_free hh⟩)
  refine ⟨⟨hspace', htf, ?_⟩, fun t ho => ?_, hs.cwd⟩
  · refine ((ht1.congr (fun _ => Iff.rfl) (fun t => ?_)).trans ht2).trans
      (ht3.congr (fun t => or_comm) (fun t => ?_))
    · rw [Has, or_right_comm]
    rw [false_or, hsame.has]
  have hfree := (ht.pages t).mpr (.inr (hs.freed t (h.ext.owns ho)))
  exact hfree.resolve_left id

lemma wp_sysExec {namei : List UInt8 → Option File} {args : Fin 6 → Nat} {buf : Buf}
    (hk : 0 < kend) (hcode : IsCode kend tramp) (hp : Space kend tramp m c.proc) :
    wp (sysExec kend tramp c namei args buf) m (fun r m' =>
      r = (-1, c) ∧ Failed kend tramp m m' c.proc ∨
      ∃ argc < maxarg, r.1 = (argc : Nat) ∧ Swapped kend tramp m m' c r.2) E := by
  obtain ⟨r, s, -, hf, hfetch⟩ := fetchstr_eq m c.proc.pagetable (args 0) maxpath buf
  have hfetch' : wp (argstr args c.proc.pagetable 0 maxpath buf) m
      (fun a m' => a = _ ∧ m' = m) E := (wp_of_ok hfetch).mpr ⟨rfl, rfl⟩
  have hself := hp.gathered
  have hnone : Trade (· ∈ []) (fun _ => False) m m :=
    ⟨fun t => by simp, fun _ => False.elim, hp.sound.paged.nodup, fun _ _ _ => rfl⟩
  unfold sysExec
  refine wp_bind_of hfetch' fun a m' ha => ?_
  obtain ⟨rfl, rfl⟩ := ha
  dsimp only
  refine wp_ite (fun _ => wp_pure.mpr ?_) fun hneg => ?_
  · exact .inl ⟨rfl, hself.failed hnone hp⟩
  refine wp_bind_of (wp_fetchArgs hk maxarg 0 m' [] hself (fun t ht => absurd ht not_mem_nil))
    (fun a m1 ⟨hg, hok⟩ => ?_)
  obtain ⟨ok, pages⟩ := a
  dsimp only at hg hok ⊢
  refine wp_ite (fun _ => ?_) fun hfail => ?_
  · exact wp_bind_of (wp_freeArgs pages m1 hg.ram hg.nodup (fun t ht => hg.notFree ht)
      hg.trade.nodup) (fun _ m2 ht => wp_pure.mpr (.inl ⟨rfl, hg.failed ht hp⟩))
  obtain ⟨hterm, hlen⟩ := hok (Bool.eq_true_of_not_eq_false hfail)
  rw [length_nil, zero_add] at hlen
  refine wp_bind_of (wp_readArgs hterm) fun argv m2 hargv => ?_
  obtain ⟨rfl, hcount⟩ := hargv
  refine wp_bind_of (wp_kexecNamed hk hcode hg.space) fun a m3 hr => ?_
  obtain ⟨ret, c'⟩ := a
  dsimp only at hr ⊢
  rcases hr with ⟨he, hun⟩ | ⟨he, hswap⟩
  · cases he
    have hpages := (hun.add (K := (· ∈ pages)) (fun t ht => ⟨id, hg.notFree ht⟩)).congr
      (fun t => (false_or _).to_iff.symm) (fun t => (false_or _).to_iff.symm)
    exact wp_bind_of (wp_freeArgs pages m3 hg.ram hg.nodup hpages.apart hpages.nodup)
      (fun _ m4 ht => wp_pure.mpr (.inl ⟨rfl, hg.failed (hpages.trans ht) hp⟩))
  obtain ⟨hspace, htf, htrade⟩ := hswap.replaced
  have hpages := htrade.add (K := (· ∈ pages)) (fun t hmem => ⟨hg.apart t hmem, hg.notFree hmem⟩)
  exact wp_bind_of (wp_freeArgs pages m3 hg.ram hg.nodup (fun t ht => hpages.apart t (.inr ht))
    hpages.nodup) (fun _ m4 ht => wp_pure.mpr (.inr ⟨argv.length, by omega, he,
      hg.swapped hp hswap ht⟩))

lemma loadsegLoop_rounds {pagetable va offset sz j : Nat} : ∀ k i d, i + d * pgsize < 2 ^ 32 →
    (d ≤ k ∧ sz ≤ i + d * pgsize ∨ d < k ∧ ∀ n, 0 < n →
      (f.readi ((offset + (i + d * pgsize)) % 2 ^ 32) n).length ≠ n) →
    loadsegLoop f pagetable va offset sz (k + j) i = loadsegLoop f pagetable va offset sz k i := by
  intro k
  induction k with
  | zero =>
    intro i d _ hd
    rcases hd with ⟨hd, hsz⟩ | ⟨hd, -⟩
    · obtain rfl := Nat.le_zero.mp hd
      cases j with
      | zero => rfl
      | succ j =>
        rw [zero_mul, add_zero] at hsz
        rw [zero_add, loadsegLoop, loadsegLoop, if_neg (not_lt.mpr hsz)]
    exact absurd hd (Nat.not_lt_zero d)
  | succ k ih =>
    intro i d hwrap hd
    rw [add_right_comm, loadsegLoop, loadsegLoop]
    by_cases hi : i < sz
    · rw [if_pos hi, if_pos hi]
      have hn : 0 < min (sz - i) pgsize := by
        rw [Nat.lt_min]
        exact ⟨by omega, by decide⟩
      by_cases hshort : (f.readi ((offset + i) % 2 ^ 32) (min (sz - i) pgsize)).length ≠
          min (sz - i) pgsize
      · simp only [if_pos hshort]
      have hd0 : d ≠ 0 := by
        rintro rfl
        rw [zero_mul, add_zero] at hd
        exact hd.elim (fun h => by omega) fun h => hshort (h.2 _ hn)
      have hnext : (i + pgsize) % 2 ^ 32 + (d - 1) * pgsize = i + d * pgsize := by
        obtain ⟨d, rfl⟩ := Nat.exists_eq_succ_of_ne_zero hd0
        unfold pgsize at hwrap ⊢
        omega
      have hrest := ih ((i + pgsize) % 2 ^ 32) (d - 1) (by rwa [hnext]) (by
        rw [hnext]
        exact hd.imp (fun h => ⟨by omega, h.2⟩) (fun h => ⟨by omega, h.2⟩))
      simp only [if_neg hshort, hrest]
    rw [if_neg hi, if_neg hi]

lemma loadseg_rounds (hf : ∀ off n, 2 ^ 31 ≤ off → f.readi off n = [])
    (pagetable va offset sz j : Nat) :
    loadsegLoop f pagetable va (offset % 2 ^ 32) (sz % 2 ^ 32) (sz % 2 ^ 32 / pgsize + 1 + j) 0 =
      loadseg f pagetable va offset sz := by
  have hsz : sz % 2 ^ 32 < 2 ^ 32 := Nat.mod_lt _ (by decide)
  have hoff : offset % 2 ^ 32 < 2 ^ 32 := Nat.mod_lt _ (by decide)
  unfold loadseg
  generalize sz % 2 ^ 32 = sz at hsz ⊢
  generalize offset % 2 ^ 32 = offset at hoff ⊢
  have hshort : ∀ d, 2 ^ 31 ≤ (offset + (0 + d * pgsize)) % 2 ^ 32 → ∀ n, 0 < n →
      (f.readi ((offset + (0 + d * pgsize)) % 2 ^ 32) n).length ≠ n := by
    intro d hd n hn
    rw [hf _ _ hd, length_nil]
    omega
  by_cases hwrap : sz + pgsize < 2 ^ 32
  · refine loadsegLoop_rounds _ 0 (sz / pgsize + 1) ?_ (.inl ⟨le_rfl, ?_⟩)
    · unfold pgsize at hwrap ⊢
      omega
    unfold pgsize
    omega
  by_cases hlow : offset < 2 ^ 31
  · refine loadsegLoop_rounds _ 0 (2 ^ 19) (by decide) (.inr ⟨?_, hshort _ ?_⟩)
    · unfold pgsize at hwrap ⊢
      omega
    unfold pgsize
    omega
  refine loadsegLoop_rounds _ 0 0 (by decide) (.inr ⟨Nat.succ_pos _, hshort _ ?_⟩)
  omega

theorem exec_atomic {c : Caller} (hk : 0 < kend) (hcode : IsCode kend tramp)
    (hp : Space kend tramp m c.proc) :
    (∀ path file (argv : List Arg), argv.length ≠ maxarg → ∃ r c' m',
      kexecNamed kend tramp c path file argv m = .ok ((r, c'), m') ∧
      (r = -1 ∧ c' = c ∧ Untouched m m' ∨ r = argv.length ∧ Swapped kend tramp m m' c c')) ∧
    (∀ namei args buf, ∃ r c' m', sysExec kend tramp c namei args buf m = .ok ((r, c'), m') ∧
      (r = -1 ∧ c' = c ∧ Failed kend tramp m m' c.proc ∨
        (∃ argc < maxarg, r = (argc : Nat)) ∧ Swapped kend tramp m m' c c')) ∧
    ∀ f : File, (∀ off n, 2 ^ 31 ≤ off → f.readi off n = []) → ∀ pagetable va offset sz j,
      loadsegLoop f pagetable va (offset % 2 ^ 32) (sz % 2 ^ 32) (sz % 2 ^ 32 / pgsize + 1 + j) 0 =
        loadseg f pagetable va offset sz := by
  refine ⟨fun path file argv _ => ?_, fun namei args buf => ?_, fun f hf => loadseg_rounds hf⟩
  · obtain ⟨⟨r, c'⟩, m', hrun, hr⟩ := wp_total
      (wp_kexecNamed hk hcode hp : wp (kexecNamed kend tramp c path file argv) m _ _)
    refine ⟨r, c', m', hrun, hr.imp_left fun ⟨he, hun⟩ => ?_⟩
    cases he
    exact ⟨rfl, rfl, hun⟩
  obtain ⟨⟨r, c'⟩, m', hrun, hr⟩ := wp_total (wp_sysExec hk hcode hp)
  refine ⟨r, c', m', hrun, ?_⟩
  rcases hr with ⟨he, hf⟩ | ⟨argc, hlt, he, hs⟩
  · cases he
    exact .inl ⟨rfl, rfl, hf⟩
  exact .inr ⟨⟨argc, hlt, he⟩, hs⟩

def lazyCaller : Caller := { proc := lazyProc, name := fun _ => 0, cwd := 0 }
def lazyArgs (i : Fin 6) : Nat := if i = 1 then 4096 else 0

lemma sysExec_lazyCaller :
    (match copyout 0x80100000 lazyProc lazyProc.pagetable 0 [120, 0] firstMem with
      | .ok (_, m) =>
        match sysExec 0x80100000 0x80007000 lazyCaller (fun _ => none) lazyArgs (fun _ => 0) m with
        | .ok ((r, _), m') => decide (r = -1 ∧ ∃ t ∈ m.freelist, t ∉ m'.freelist)
        | .error _ => false
      | .error _ => false) = true := by
  decide +kernel

theorem exec_takes_page : ∃ m m', Space 0x80100000 0x80007000 m lazyProc ∧
    sysExec 0x80100000 0x80007000 lazyCaller (fun _ => none) lazyArgs (fun _ => 0) m =
      .ok ((-1, lazyCaller), m') ∧ ∃ t ∈ m.freelist, t ∉ m'.freelist := by
  obtain ⟨r, m, hrun, k, hsent, -⟩ := wp_total
    (wp_copyoutLoop_sent (by decide) 2 firstMem 0 [120, 0] (le_refl 2) space_lazyProc)
  have hout : copyout 0x80100000 lazyProc lazyProc.pagetable 0 [120, 0] firstMem = .ok (r, m) :=
    hrun
  have hspace : Space 0x80100000 0x80007000 m lazyProc := hsent.resized.space
  obtain ⟨⟨e, c'⟩, m', hexec, hr⟩ := wp_total
    (wp_sysExec (by decide) isCode_low hspace : wp (sysExec 0x80100000 0x80007000 lazyCaller
      (fun _ => none) lazyArgs (fun _ => 0)) m _ _)
  have h := sysExec_lazyCaller
  rw [hout] at h
  dsimp only at h
  rw [hexec] at h
  obtain ⟨rfl, ht⟩ := of_decide_eq_true h
  rcases hr with ⟨he, -⟩ | ⟨argc, -, he, -⟩
  · cases he
    exact ⟨m, m', hspace, hexec, ht⟩
  omega

theorem exec_atomic_twoSegments : ∃ c' m',
    kexecNamed 0x80100000 0x80007000 { proc := firstProc, name := fun _ => 0, cwd := 0 } []
      (some (File.ofBytes twoSegments)) [] firstMem = .ok ((0, c'), m') ∧
    Swapped 0x80100000 0x80007000 firstMem m' { proc := firstProc, name := fun _ => 0, cwd := 0 }
      c' := by
  obtain ⟨r, c', m', hrun, hr⟩ := (exec_atomic
    (c := { proc := firstProc, name := fun _ => 0, cwd := 0 }) (by decide) isCode_low
    space_firstProc).1 [] (some (File.ofBytes twoSegments)) [] (by decide)
  obtain ⟨⟨e, q⟩, m1, hkexec, -⟩ := wp_total
    (wp_kexec_execed (by decide) isCode_low space_firstProc :
      wp (kexec 0x80100000 0x80007000 firstProc (some (File.ofBytes twoSegments)) []) firstMem _ _)
  have hne := kexec_ne_of_reaches reaches_twoSegments hkexec
  rcases hr with ⟨rfl, -⟩ | ⟨rfl, hs⟩
  · rw [kexecNamed, bind_of_ok hkexec] at hrun
    dsimp only at hrun
    split at hrun
    · cases hrun
      exact absurd rfl hne
    cases hrun
    exact absurd rfl hne
  exact ⟨c', m', hrun, hs⟩
end Xv6.Vm
