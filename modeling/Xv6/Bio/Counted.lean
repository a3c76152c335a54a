import Xv6.Bio.Cache

namespace Xv6.Bio
open Multiset Cache

inductive Stage where
  | wait
  | fill
  | hold (dirty : Bool)
  | drop
  deriving DecidableEq

namespace Stage
def locked : Stage → Bool
  | wait | drop => false
  | fill | hold _ => true

def holds : Stage → Bool
  | hold _ => true
  | _ => false
end Stage

structure Ref (P : Type) where
  proc : P
  buf : Fin nbuf
  dev : Nat
  blockno : Nat
  stage : Stage
  deriving DecidableEq

variable {P : Type} {R : Multiset (Ref P)}

instance [DecidableEq P] : LawfulBEq (Ref P) := inferInstance

def refsTo (R : Multiset (Ref P)) (i : Fin nbuf) : Multiset (Ref P) := R.filter (·.buf = i)

lemma refsTo_cons_self (R : Multiset (Ref P)) (r : Ref P) :
    refsTo (r ::ₘ R) r.buf = r ::ₘ refsTo R r.buf :=
  filter_cons_of_pos R rfl

lemma refsTo_cons_of_ne {r : Ref P} {i : Fin nbuf} (h : i ≠ r.buf) :
    refsTo (r ::ₘ R) i = refsTo R i :=
  filter_cons_of_neg R fun hr => h hr.symm

def lockers (R : Multiset (Ref P)) : Nat := R.countP fun r => r.stage.locked
@[simp] lemma lockers_zero : lockers (0 : Multiset (Ref P)) = 0 := rfl

lemma lockers_cons (R : Multiset (Ref P)) (r : Ref P) :
    lockers (r ::ₘ R) = lockers R + r.stage.locked.toNat := by
  rw [lockers, countP_cons]
  cases r.stage.locked <;> rfl

lemma lockers_eq_zero : lockers R = 0 ↔ ∀ r ∈ R, r.stage.locked = false := by
  simp [lockers, countP_eq_zero]

structure BufOk (b : Buf P) (R : Multiset (Ref P)) (pin : Bool) : Prop where
  refcnt : b.refcnt = R.card + pin.toNat
  lock : lockers R = b.lock.toList.length
  owner : ∀ r ∈ R, r.stage.locked → b.lock = some r.proc
  dev : ∀ r ∈ R, b.dev = r.dev ∧ r.dev = rootdev
  blockno : ∀ r ∈ R, b.blockno = r.blockno
  valid : ∀ r ∈ R, r.stage.holds → b.valid

def pinned (c : Cache P) (pins : List Nat) (i : Fin nbuf) : Bool :=
  decide ((c.buf i).dev = rootdev ∧ (c.buf i).blockno ∈ pins)

/-- `refcnt` counts references and pins. -/
structure Counted (c : Cache P) (R : Multiset (Ref P)) (pins : List Nat) : Prop where
  nodup : c.lru.Nodup
  lru : ∀ i, i ∈ c.lru
  buf : ∀ i, BufOk (c.buf i) (refsTo R i) (pinned c pins i)
  unique : ∀ i j, (c.buf i).dev = rootdev → (c.buf j).dev = rootdev →
    (c.buf i).blockno = (c.buf j).blockno → i = j
  cached : ∀ b ∈ pins, ∃ i, (c.buf i).dev = rootdev ∧ (c.buf i).blockno = b ∧ (c.buf i).valid

section
variable {c : Cache P} {R R' : Multiset (Ref P)} {pins : List Nat} {i : Fin nbuf} {r : Ref P}
  {pin : Bool}

lemma mem_refsTo (hr : r ∈ R) : r ∈ refsTo R r.buf :=
  mem_filter.mpr ⟨hr, rfl⟩

section
variable (h : Counted c R pins) (hr : r ∈ R)
include h hr

lemma Counted.dev_eq : (c.buf r.buf).dev = rootdev := by
  obtain ⟨h1, h2⟩ := (h.buf r.buf).dev r (mem_refsTo hr)
  exact h1.trans h2

lemma Counted.blockno_eq : (c.buf r.buf).blockno = r.blockno :=
  (h.buf r.buf).blockno r (mem_refsTo hr)

lemma Counted.buf_eq {r' : Ref P} (hr' : r' ∈ R) (hb : r.blockno = r'.blockno) :
    r.buf = r'.buf := by
  apply h.unique _ _ (h.dev_eq hr) (h.dev_eq hr')
  rw [h.blockno_eq hr, h.blockno_eq hr', hb]
end

lemma BufOk.lockers_le {b : Buf P} (h : BufOk b R pin) : lockers R ≤ 1 := by
  rw [h.lock]
  cases b.lock <;> simp

lemma Counted.not_locked (h : Counted c (r ::ₘ R) pins) (hl : r.stage.locked)
    {r' : Ref P} (hr' : r' ∈ R) (hb : r'.blockno = r.blockno) : r'.stage.locked = false := by
  have hbuf : r'.buf = r.buf :=
    h.buf_eq (mem_cons_of_mem hr') (mem_cons_self r R) hb
  have hle := (h.buf r.buf).lockers_le
  rw [refsTo_cons_self, lockers_cons, hl] at hle
  have hzero : lockers (refsTo R r.buf) = 0 := by simpa using hle
  exact lockers_eq_zero.mp hzero r' (hbuf ▸ mem_refsTo hr')

lemma Counted.set (h : Counted c R pins) {b : Buf P} (hdev : b.dev = (c.buf i).dev)
    (hno : b.blockno = (c.buf i).blockno) (hvalid : (c.buf i).valid → b.valid)
    (hoff : ∀ j ≠ i, refsTo R' j = refsTo R j)
    (hok : BufOk b (refsTo R' i) (pinned c pins i)) : Counted (c.set i b) R' pins := by
  have hname : ∀ j, ((c.set i b).buf j).dev = (c.buf j).dev ∧
      ((c.set i b).buf j).blockno = (c.buf j).blockno ∧
      ((c.buf j).valid → ((c.set i b).buf j).valid) := by
    intro j
    by_cases hj : j = i
    · subst hj
      simpa [hdev, hno] using hvalid
    simp [set_buf_of_ne c b hj]
  have hpin : ∀ j, pinned (c.set i b) pins j = pinned c pins j := by
    intro j
    simp only [pinned, (hname j).1, (hname j).2.1]
  refine ⟨h.nodup, h.lru, fun j => ?_, fun j k hj hk hjk => ?_, fun n hn => ?_⟩
  · rw [hpin]
    by_cases hj : j = i
    · subst hj
      simpa using hok
    rw [hoff j hj, set_buf_of_ne c b hj]
    exact h.buf j
  · rw [(hname j).1] at hj
    rw [(hname k).1] at hk
    rw [(hname j).2.1, (hname k).2.1] at hjk
    exact h.unique j k hj hk hjk
  obtain ⟨j, h1, h2, h3⟩ := h.cached n hn
  exact ⟨j, by rw [(hname j).1, h1], by rw [(hname j).2.1, h2], (hname j).2.2 h3⟩

def LockMove (b b' : Buf P) (r : Ref P) (st : Stage) : Prop :=
  (b'.lock = b.lock ∧ st.locked = r.stage.locked) ∨
  (b.lock = none ∧ b'.lock = some r.proc ∧ st.locked) ∨
  (r.stage.locked ∧ b'.lock = none ∧ st.locked = false)

lemma BufOk.move {b b' : Buf P} {st : Stage} (h : BufOk b (r ::ₘ R) pin)
    (hcnt : b'.refcnt = b.refcnt) (hdev : b'.dev = b.dev) (hno : b'.blockno = b.blockno)
    (hlock : LockMove b b' r st) (hvalid : b.valid → b'.valid) (hst : st.holds → b'.valid) :
    BufOk b' ({ r with stage := st } ::ₘ R) pin := by
  have hl := h.lock
  rw [lockers_cons] at hl
  have hR : ∀ r' ∈ R, r' ∈ r ::ₘ R := fun r' => mem_cons_of_mem
  refine ⟨?_, ?_, ?_, ?_, ?_, ?_⟩
  · simpa [hcnt] using h.refcnt
  · rw [lockers_cons]
    obtain ⟨hb', hs⟩ | ⟨hb, hb', hs⟩ | ⟨hr, hb', hs⟩ := hlock
    · rw [hb', ← hl, hs]
    · rw [hb] at hl
      have h0 : lockers R = 0 := by simp at hl; omega
      simp [hb', hs, h0]
    have hle := h.lockers_le
    rw [lockers_cons, hr] at hle
    have h0 : lockers R = 0 := by simpa using hle
    simp [hb', hs, h0]
  · obtain ⟨hb', hs⟩ | ⟨hb, hb', hs⟩ | ⟨hr, hb', hs⟩ := hlock
    · intro r' hr' hl'
      rw [hb']
      rcases mem_cons.mp hr' with rfl | hr'
      · exact h.owner r (mem_cons_self r R) (hs ▸ hl')
      exact h.owner r' (hR r' hr') hl'
    · intro r' hr' hl'
      rcases mem_cons.mp hr' with rfl | hr'
      · exact hb'
      have := h.owner r' (hR r' hr') hl'
      rw [hb] at this
      cases this
    · have hle := h.lockers_le
      rw [lockers_cons, hr] at hle
      have h0 : lockers R = 0 := by simpa using hle
      intro r' hr' hl'
      rcases mem_cons.mp hr' with rfl | hr'
      · rw [hs] at hl'
        cases hl'
      rw [lockers_eq_zero.mp h0 r' hr'] at hl'
      cases hl'
  · intro r' hr'
    rw [hdev]
    rcases mem_cons.mp hr' with rfl | hr'
    · exact h.dev r (mem_cons_self r R)
    exact h.dev r' (hR r' hr')
  · intro r' hr'
    rw [hno]
    rcases mem_cons.mp hr' with rfl | hr'
    · exact h.blockno r (mem_cons_self r R)
    exact h.blockno r' (hR r' hr')
  intro r' hr' hh
  rcases mem_cons.mp hr' with rfl | hr'
  · exact hst hh
  exact hvalid (h.valid r' (hR r' hr') hh)

section
variable (h : Counted c (r ::ₘ R) pins)
include h

lemma Counted.move {b : Buf P} {st : Stage} (hcnt : b.refcnt = (c.buf r.buf).refcnt)
    (hdev : b.dev = (c.buf r.buf).dev) (hno : b.blockno = (c.buf r.buf).blockno)
    (hlock : LockMove (c.buf r.buf) b r st) (hvalid : (c.buf r.buf).valid → b.valid)
    (hst : st.holds → b.valid) :
    Counted (c.set r.buf b) ({ r with stage := st } ::ₘ R) pins := by
  apply h.set hdev hno hvalid
  · intro j hj
    rw [refsTo_cons_of_ne hj]
    exact refsTo_cons_of_ne hj
  have hok := h.buf r.buf
  rw [refsTo_cons_self] at hok
  have := hok.move hcnt hdev hno hlock hvalid hst
  rwa [← refsTo_cons_self R { r with stage := st }] at this

lemma Counted.acquiresleep (hl : (c.buf r.buf).lock = none) :
    Counted (c.acquiresleep r.proc r.buf) ({ r with stage := .fill } ::ₘ R) pins :=
  h.move rfl rfl rfl (.inr (.inl ⟨hl, rfl, rfl⟩)) id (by simp [Stage.holds])

lemma Counted.fill (hr : r.stage = .fill) (d : Disk) :
    Counted (c.fill d r.buf) ({ r with stage := .hold false } ::ₘ R) pins := by
  have hlock : ∀ b : Buf P, b.lock = (c.buf r.buf).lock →
      LockMove (c.buf r.buf) b r (.hold false) := fun b hb => .inl ⟨hb, by rw [hr]; rfl⟩
  rw [Cache.fill]
  split
  · rename_i hv
    have := h.move rfl rfl rfl (hlock _ rfl) id fun _ => hv
    rwa [set_self] at this
  exact h.move rfl rfl rfl (hlock _ rfl) (fun _ => rfl) fun _ => rfl
end

lemma Counted.setData (h : Counted c R pins) (i : Fin nbuf) (v : Block) :
    Counted (c.setData i v) R pins := by
  refine h.set rfl rfl id (fun _ _ => rfl) ?_
  exact ⟨(h.buf i).refcnt, (h.buf i).lock, (h.buf i).owner, (h.buf i).dev, (h.buf i).blockno,
    (h.buf i).valid⟩

section
variable (h : Counted c (r ::ₘ R) pins) {x : Bool}
include h

lemma Counted.mark (hr : r.stage = .hold x) (y : Bool) :
    Counted c ({ r with stage := .hold y } ::ₘ R) pins := by
  have hv : (c.buf r.buf).valid :=
    (h.buf r.buf).valid r (mem_refsTo (mem_cons_self r R)) (by rw [hr]; rfl)
  have hm : Counted (c.set r.buf (c.buf r.buf)) ({ r with stage := .hold y } ::ₘ R) pins :=
    h.move rfl rfl rfl (.inl ⟨rfl, by rw [hr]; rfl⟩) id fun _ => hv
  rwa [set_self] at hm

lemma Counted.releasesleep (hr : r.stage = .hold x) :
    Counted (c.releasesleep r.buf) ({ r with stage := .drop } ::ₘ R) pins :=
  h.move rfl rfl rfl (.inr (.inr ⟨by rw [hr]; rfl, rfl, rfl⟩)) id (by simp [Stage.holds])

lemma Counted.unref (hr : r.stage = .drop) : Counted (c.unref r.buf) R pins := by
  have hok := h.buf r.buf
  rw [refsTo_cons_self] at hok
  have hset : Counted (c.set r.buf { c.buf r.buf with refcnt := (c.buf r.buf).refcnt - 1 })
      R pins := by
    refine h.set rfl rfl id
      (fun j hj => (refsTo_cons_of_ne hj).symm) ?_
    have hmem : ∀ r' ∈ refsTo R r.buf, r' ∈ r ::ₘ refsTo R r.buf :=
      fun r' => mem_cons_of_mem
    refine ⟨?_, ?_, fun r' hr' => hok.owner r' (hmem r' hr'), fun r' hr' => hok.dev r'
      (hmem r' hr'),
      fun r' hr' => hok.blockno r' (hmem r' hr'), fun r' hr' => hok.valid r' (hmem r' hr')⟩
    · have := hok.refcnt
      rw [card_cons] at this
      show (c.buf r.buf).refcnt - 1 = _
      omega
    have := hok.lock
    rwa [lockers_cons, hr] at this
  rw [Cache.unref]
  split
  · -- moving a buffer to the front keeps the list a list of all buffers
    have hperm : (r.buf :: c.lru.erase r.buf).Perm c.lru :=
      (List.perm_cons_erase (h.lru r.buf)).symm
    exact ⟨hperm.nodup_iff.mpr h.nodup, fun i => hperm.mem_iff.mpr (h.lru i), hset.buf,
      hset.unique, hset.cached⟩
  exact hset
end

lemma Cache.find_some {dev b : Nat} (h : c.find dev b = some i) :
    (c.buf i).dev = dev ∧ (c.buf i).blockno = b := by
  simpa using List.find?_some h

lemma Counted.find_none {b : Nat} (h : Counted c R pins) (hf : c.find rootdev b = none)
    (i : Fin nbuf) (hi : (c.buf i).dev = rootdev) : (c.buf i).blockno ≠ b := by
  intro hb
  have := List.find?_eq_none.mp hf i (h.lru i)
  simp [hi, hb] at this

lemma Counted.find_pinned {b : Nat} (h : Counted c R pins) (hb : b ∈ pins) :
    ∃ i, c.find rootdev b = some i ∧ (c.buf i).valid := by
  obtain ⟨j, h1, h2, h3⟩ := h.cached b hb
  cases hf : c.find rootdev b with
  | none => exact absurd h2 (h.find_none hf j h1)
  | some i =>
    obtain ⟨hd, hn⟩ := find_some hf
    obtain rfl : i = j := h.unique i j hd h1 (hn.trans h2.symm)
    exact ⟨i, rfl, h3⟩

lemma BufOk.cons_wait {b : Buf P} (h : BufOk b R pin) (hdev : b.dev = rootdev)
    (p : P) : BufOk { b with refcnt := b.refcnt + 1 }
      (⟨p, i, rootdev, b.blockno, .wait⟩ ::ₘ R) pin := by
  refine ⟨?_, ?_, ?_, ?_, ?_, ?_⟩
  · have := h.refcnt
    rw [card_cons]
    show b.refcnt + 1 = _
    omega
  · rw [lockers_cons]
    exact h.lock
  · intro r' hr' hl'
    rcases mem_cons.mp hr' with rfl | hr'
    · cases hl'
    exact h.owner r' hr' hl'
  · intro r' hr'
    rcases mem_cons.mp hr' with rfl | hr'
    · exact ⟨hdev, rfl⟩
    exact h.dev r' hr'
  · intro r' hr'
    rcases mem_cons.mp hr' with rfl | hr'
    · rfl
    exact h.blockno r' hr'
  intro r' hr' hh
  rcases mem_cons.mp hr' with rfl | hr'
  · cases hh
  exact h.valid r' hr' hh

lemma Counted.hit {b : Nat} (h : Counted c R pins) (hf : c.find rootdev b = some i) (p : P) :
    Counted (c.set i { c.buf i with refcnt := (c.buf i).refcnt + 1 })
      (⟨p, i, rootdev, b, .wait⟩ ::ₘ R) pins := by
  obtain ⟨hd, rfl⟩ := find_some hf
  refine h.set rfl rfl id ?_ ?_
  · intro j hj
    exact refsTo_cons_of_ne hj
  have := (h.buf i).cons_wait (i := i) hd p
  rwa [← refsTo_cons_self R ⟨p, i, rootdev, (c.buf i).blockno, .wait⟩] at this

lemma BufOk.idle {b : Buf P} (h : BufOk b R pin) (h0 : b.refcnt = 0) : R = 0 ∧ pin = false := by
  have := h.refcnt
  have hR : R.card = 0 := by omega
  have hp : pin.toNat = 0 := by omega
  exact ⟨card_eq_zero.mp hR, by simpa using hp⟩

section
variable (h : Counted c R pins) {b : Nat}
include h

lemma Counted.recycle (hf : c.find rootdev b = none) (h0 : (c.buf i).refcnt = 0) (p : P)
    : Counted (c.set i { c.buf i with dev := rootdev, blockno := b, valid := false, refcnt := 1 })
      (⟨p, i, rootdev, b, .wait⟩ ::ₘ R) pins := by
  have hfree := h.find_none hf
  obtain ⟨hR, hpin⟩ := (h.buf i).idle h0
  have hlock : (c.buf i).lock = none := by
    have := (h.buf i).lock
    rw [hR] at this
    cases hl : (c.buf i).lock with
    | none => rfl
    | some q => simp [hl] at this
  have hb : b ∉ pins := by
    intro hb
    obtain ⟨j, hj, hjb, -⟩ := h.cached b hb
    exact hfree j hj hjb
  refine ⟨h.nodup, h.lru, fun j => ?_, fun j k hj hk hjk => ?_, fun n hn => ?_⟩
  · by_cases hj : j = i
    · subst hj
      have hrefs : refsTo (⟨p, j, rootdev, b, .wait⟩ ::ₘ R) j =
          {⟨p, j, rootdev, b, .wait⟩} := by
        have := refsTo_cons_self R ⟨p, j, rootdev, b, .wait⟩
        rwa [hR] at this
      rw [hrefs]
      have hp : pinned (c.set j { c.buf j with
          dev := rootdev, blockno := b, valid := false, refcnt := 1 }) pins j = false := by
        simp [pinned, hb]
      rw [hp, set_buf_self]
      refine ⟨by simp, ?_, ?_, ?_, ?_, ?_⟩
      · show lockers (_ ::ₘ 0) = _
        rw [lockers_cons]
        simp [hlock, Stage.locked]
      all_goals simp [Stage.locked, Stage.holds]
    · have hne := set_buf_of_ne c
        { c.buf i with dev := rootdev, blockno := b, valid := false, refcnt := 1 } hj
      rw [refsTo_cons_of_ne hj, hne]
      simpa [pinned, hne] using h.buf j
  · by_cases hji : j = i <;> by_cases hki : k = i
    · rw [hji, hki]
    · subst hji
      rw [set_buf_self, set_buf_of_ne c _ hki] at hjk
      rw [set_buf_of_ne c _ hki] at hk
      exact absurd hjk.symm (hfree k hk)
    · subst hki
      rw [set_buf_self, set_buf_of_ne c _ hji] at hjk
      rw [set_buf_of_ne c _ hji] at hj
      exact absurd hjk (hfree j hj)
    · rw [set_buf_of_ne c _ hji] at hj hjk
      rw [set_buf_of_ne c _ hki] at hk hjk
      exact h.unique j k hj hk hjk
  obtain ⟨j, h1, h2, h3⟩ := h.cached n hn
  have hji : j ≠ i := by
    rintro rfl
    simp [pinned, h1, h2, hn] at hpin
  refine ⟨j, ?_⟩
  rw [set_buf_of_ne c _ hji]
  exact ⟨h1, h2, h3⟩

lemma Counted.bget {c' : Cache P} (hg : c.bget rootdev b = some (c', i)) (p : P) :
    Counted c' (⟨p, i, rootdev, b, .wait⟩ ::ₘ R) pins := by
  rw [Cache.bget] at hg
  split at hg
  · rename_i j hf
    cases hg
    exact h.hit hf p
  rename_i hf
  split at hg
  · rename_i j hu
    cases hg
    have h0 : (c.buf i).refcnt = 0 := by simpa using List.find?_some hu
    exact h.recycle hf h0 p
  cases hg

lemma Counted.repin {pins' : List Nat} {x : Int} (hdev : (c.buf i).dev = rootdev)
    (hx : x = (refsTo R i).card + (decide ((c.buf i).blockno ∈ pins')).toNat)
    (hother : ∀ b ≠ (c.buf i).blockno, (b ∈ pins' ↔ b ∈ pins))
    (hcached : (c.buf i).blockno ∈ pins' → (c.buf i).valid) :
    Counted (c.set i { c.buf i with refcnt := x }) R pins' := by
  have hname : ∀ j, ((c.set i { c.buf i with refcnt := x }).buf j).dev = (c.buf j).dev ∧
      ((c.set i { c.buf i with refcnt := x }).buf j).blockno = (c.buf j).blockno ∧
      ((c.set i { c.buf i with refcnt := x }).buf j).valid = (c.buf j).valid := by
    intro j
    by_cases hj : j = i
    · subst hj
      simp
    simp [set_buf_of_ne c _ hj]
  refine ⟨h.nodup, h.lru, fun j => ?_, fun j k hj hk hjk => ?_, fun b hb => ?_⟩
  · by_cases hj : j = i
    · subst hj
      have hok := h.buf j
      have hp : pinned (c.set j { c.buf j with refcnt := x }) pins' j =
          decide ((c.buf j).blockno ∈ pins') := by
        simp [pinned, hdev]
      rw [hp, set_buf_self]
      exact ⟨hx, hok.lock, hok.owner, hok.dev, hok.blockno, hok.valid⟩
    · have hp : pinned (c.set i { c.buf i with refcnt := x }) pins' j = pinned c pins j := by
        simp only [pinned, (hname j).1, (hname j).2.1, decide_eq_decide]
        apply and_congr_right
        intro hjd
        exact hother _ fun hb => hj (h.unique j i hjd hdev hb)
      rw [hp, set_buf_of_ne c _ hj]
      exact h.buf j
  · rw [(hname j).1] at hj
    rw [(hname k).1] at hk
    rw [(hname j).2.1, (hname k).2.1] at hjk
    exact h.unique j k hj hk hjk
  by_cases hbi : b = (c.buf i).blockno
  · subst hbi
    exact ⟨i, (hname i).1.trans hdev, (hname i).2.1, (hname i).2.2.trans (hcached hb)⟩
  obtain ⟨j, h1, h2, h3⟩ := h.cached b ((hother b hbi).mp hb)
  exact ⟨j, (hname j).1.trans h1, (hname j).2.1.trans h2, (hname j).2.2.trans h3⟩

lemma Counted.bpin {x : Bool} (hr : r ∈ R) (hst : r.stage = .hold x) (hb : r.blockno ∉ pins) :
    Counted (c.bpin r.buf) R (pins ++ [r.blockno]) := by
  have hno := h.blockno_eq hr
  have hcnt := (h.buf r.buf).refcnt
  have hp : pinned c pins r.buf = false := by simp [pinned, hno, hb]
  rw [hp] at hcnt
  refine h.repin (h.dev_eq hr) ?_ ?_ ?_
  · simp [hno, hcnt]
  · intro b hne
    rw [hno] at hne
    simp [hne]
  exact fun _ => (h.buf r.buf).valid r (mem_refsTo hr) (by rw [hst]; rfl)
end

lemma Counted.bunpin {b : Nat} (h : Counted c R (b :: pins)) (hr : r ∈ R)
    (hb : r.blockno = b) (hpins : b ∉ pins) : Counted (c.bunpin r.buf) R pins := by
  have hno : (c.buf r.buf).blockno = b := (h.blockno_eq hr).trans hb
  have hcnt := (h.buf r.buf).refcnt
  have hp : pinned c (b :: pins) r.buf := by simp [pinned, hno, h.dev_eq hr]
  rw [hp] at hcnt
  refine h.repin (h.dev_eq hr) ?_ ?_ ?_
  · simp [hno, hcnt, hpins]
  · intro b' hne
    rw [hno] at hne
    simp [hne]
  intro hmem
  exact absurd (hno ▸ hmem) hpins
end
end Xv6.Bio
