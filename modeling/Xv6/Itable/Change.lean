import Xv6.Itable.View

namespace Xv6.Itable.View
open Fs Function
variable {P : Type} [Fintype P] {v : View P} {p q : P}

namespace Ok
lemma setDisk (h : v.Ok) (h0 : v.e.ref = 0) (x : Dinode) : Ok { v with disk := x } := by
  refine ⟨h.count, h.lock, h.owner, h.read, h.dirty, fun _ hpos => ?_, fun q hq => ?_, h.early⟩
  · exact absurd h0 (Nat.ne_of_gt hpos)
  exact absurd h0 (Nat.ne_of_gt (h.pos_of_held hq))

lemma claim (h : v.Ok) (h0 : v.disk.type = 0) (x : Dinode) : Ok { v with disk := x } := by
  refine ⟨h.count, h.lock, h.owner, h.read, h.dirty, fun hv hpos hr => ?_, fun q hq => ?_, h.early⟩
  · exact absurd h0 (h.fresh hv hpos hr).2.1
  exact absurd h0 (h.typed q hq)

variable {x : Dinode}

section
variable (h : v.Ok) (hl : v.e.lock = some p)
include h hl

lemma change (hout : v.stage p = .out) (hx : x.type ≠ 0) :
    Ok { v with e := { v.e with copy := x, dirty := true } } := by
  refine ⟨h.count, h.lock, h.owner, h.read, fun _ => ⟨p, hl, hout⟩, fun hv hpos hr => ?_, h.typed,
    fun q hq => ?_⟩
  · exact ⟨hx, (h.fresh hv hpos hr).2.1, nofun⟩
  have hqp := h.stage_of_lock hl (Stage.locks_of_early hq)
  change (v.stage q).early at hq
  rw [hqp, hout] at hq
  cases hq

lemma not_release_of_lock (hp : v.stage p ≠ .release) (q : P) : v.stage q ≠ .release := by
  intro hq
  have hqp := h.stage_of_lock hl (by rw [hq]; rfl)
  exact hp (hqp ▸ hq)

lemma copy_type (hout : v.stage p = .out) : v.e.copy.type ≠ 0 := by
  have hvalid := h.read p hl (by rw [hout]; exact nofun)
  have hheld : 0 < v.held p := by
    refine (h.lock p hl).resolve_left ?_
    rw [hout]
    exact nofun
  exact (h.fresh hvalid (h.pos_of_held hheld)
    (h.not_release_of_lock hl (by rw [hout]; exact nofun))).1

lemma iupdate (hout : v.stage p = .out) :
    Ok { v with e := { v.e with dirty := false }, disk := v.e.copy } := by
  have htype := h.copy_type hl hout
  exact ⟨h.count, h.lock, h.owner, h.read, nofun, fun _ _ _ => ⟨htype, htype, fun _ => rfl⟩,
    fun _ _ => htype, h.early⟩

lemma iunlock (hout : v.stage p = .out) (hdirty : v.e.dirty = false) :
    Ok { v with e := { v.e with lock := none } } := by
  refine ⟨h.count, nofun, fun q hq => ?_, nofun, fun hd => ?_, h.fresh, h.typed, h.early⟩
  · have hqp := h.stage_of_lock hl hq
    change (v.stage q).locks at hq
    rw [hqp, hout] at hq
    cases hq
  exact nomatch hdirty.symm.trans hd
end

lemma fresh_of_locks (h : v.Ok) (hp : (v.stage p).locks) (hr : v.stage p ≠ .release)
    (hv : v.e.valid) (hpos : 0 < v.e.ref) :
    v.e.copy.type ≠ 0 ∧ v.disk.type ≠ 0 ∧ v.e.copy = v.disk := by
  have hfresh := h.fresh hv hpos (h.not_release_of_lock (h.owner p hp) hr)
  exact ⟨hfresh.1, hfresh.2.1, hfresh.2.2 (h.dirty_of_locks hp)⟩

lemma held_of_load (h : v.Ok) (hp : v.stage p = .load) : 0 < v.held p := by
  have hl := h.owner p (by rw [hp]; rfl)
  refine (h.lock p hl).resolve_left ?_
  rw [hp]
  exact nofun

lemma valid_of_frees (h : v.Ok) (hp : (v.stage p).frees) : v.e.valid := by
  refine h.read p (h.owner p (Stage.locks_of_frees hp)) fun e => ?_
  rw [e] at hp
  cases hp

lemma fresh_of_early (h : v.Ok) (hp : (v.stage p).early) :
    v.e.copy.type ≠ 0 ∧ v.disk.type ≠ 0 ∧ v.e.copy = v.disk := by
  have hearly := h.early p hp
  exact h.fresh_of_locks (Stage.locks_of_early hp) (Stage.ne_release_of_early hp)
    (h.valid_of_frees (Stage.frees_of_early hp)) (by omega)

lemma disk_of_early (h : v.Ok) (hp : (v.stage p).early) : v.disk.type ≠ 0 ∧ v.disk.nlink = 0 := by
  obtain ⟨-, htype, heq⟩ := h.fresh_of_early hp
  refine ⟨htype, ?_⟩
  rw [← heq]
  exact (h.early p hp).2

variable [DecidableEq P]

section
variable (h : v.Ok)
include h

lemma take (hpos : 0 < v.e.ref) (ht : v.disk.type ≠ 0) (hearly : ∀ q, (v.stage q).early = false) :
    Ok { v with e := { v.e with ref := v.e.ref + 1 },
                held := update v.held p (v.held p + 1) } := by
  refine ⟨h.count_of (p := p) (fun q hq => ?_) ?_, fun q hq => ?_, h.owner, h.read, h.dirty,
    fun hv _ hr => h.fresh hv hpos hr, fun _ _ => ht, fun q hq => ?_⟩
  · simp only [refs, update_of_ne hq]
  · simp only [refs, update_self]
    omega
  · refine (h.lock q hq).imp_right fun hheld => ?_
    show 0 < update v.held p (v.held p + 1) q
    by_cases hqp : q = p
    · rw [hqp, update_self]
      omega
    rwa [update_of_ne hqp]
  change (v.stage q).early at hq
  rw [hearly q] at hq
  cases hq

lemma recycle (h0 : v.e.ref = 0) {dev inum : Nat} (ht : x.type ≠ 0) :
    Ok { v with e := { v.e with dev := dev, inum := inum, ref := 1, valid := false },
                disk := x, held := update v.held p (v.held p + 1) } := by
  have hrefs := h.refs_of_zero h0
  have hlock := h.lock_none hrefs
  refine ⟨h.count_of (p := p) (fun q hq => ?_) ?_, fun q hq => ?_, h.owner, fun q hq => ?_,
    h.dirty, by simp, fun _ _ => ht, fun q hq => ?_⟩
  · simp only [refs, update_of_ne hq]
  · simp only [refs, update_self]
    omega
  · cases hlock.symm.trans hq
  · cases hlock.symm.trans hq
  cases (h.not_locks hlock q).symm.trans (Stage.locks_of_early hq)

lemma put (hp : 0 < v.held p) (hl : v.e.lock ≠ some p) :
    Ok { v with e := { v.e with ref := v.e.ref - 1 },
                held := update v.held p (v.held p - 1) } := by
  have hpos := h.pos_of_held hp
  refine ⟨h.count_of (p := p) (fun q hq => ?_) ?_, fun q hq => ?_, h.owner, h.read, h.dirty,
    fun hv _ hr => h.fresh hv hpos hr, fun q hq => ?_, fun q hq => ?_⟩
  · simp only [refs, update_of_ne hq]
  · simp only [refs, update_self]
    omega
  · have hqp : q ≠ p := fun e => hl (e ▸ hq)
    show _ ∨ 0 < update v.held p (v.held p - 1) q
    rw [update_of_ne hqp]
    exact h.lock q hq
  · exact h.typed p hp
  exact absurd (h.held_of_early hq p) (Nat.ne_of_gt hp)

lemma ilock (hl : v.e.lock = none) (hp : 0 < v.held p) (hout : v.stage p = .out) :
    Ok { v with e := { v.e with lock := some p }, stage := update v.stage p .load } := by
  have hlocks := h.not_locks hl
  refine ⟨h.count_of (p := p) (fun q hq => ?_) ?_, fun q hq => ?_, fun q hq => ?_,
    fun q hq hload => ?_, fun hd => ?_, fun hv hpos _ => h.fresh hv hpos (h.not_release hl),
    h.typed, fun q hq => ?_⟩
  · simp only [refs, update_of_ne hq]
  · simp only [refs, update_self, hout]
    rfl
  · cases hq
    exact .inr hp
  · change (update v.stage p .load q).locks at hq
    by_cases hqp : q = p
    · rw [hqp]
    rw [update_of_ne hqp, hlocks q] at hq
    cases hq
  · cases hq
    exact absurd (update_self _ _ _) hload
  · cases (h.dirty_of_lock_none hl).symm.trans hd
  change (update v.stage p .load q).early at hq
  by_cases hqp : q = p
  · rw [hqp, update_self] at hq
    cases hq
  rw [update_of_ne hqp] at hq
  cases (hlocks q).symm.trans (Stage.locks_of_early hq)

lemma advance {c : Stage} {e : Entry P} (hp : (v.stage p).locks) (href : e.ref = v.e.ref)
    (hputs : c.puts = (v.stage p).puts)
    (hlock : e.lock = some p ∧ (c.frees ∨ 0 < v.held p) ∧ e.valid ∨
      e.lock = none ∧ c.locks = false) (hdirty : e.dirty = false)
    (hfresh : e.valid → c ≠ .release → e.copy.type ≠ 0 ∧ x.type ≠ 0 ∧ e.copy = x)
    (htyped : ∀ q, 0 < v.held q → x.type ≠ 0) (hearly : c.early → v.e.ref = 1 ∧ e.copy.nlink = 0) :
    Ok { v with e := e, disk := x, stage := update v.stage p c } := by
  have hown := h.owner p hp
  have hother : ∀ q ≠ p, (v.stage q).locks = false := fun q hq =>
    Bool.eq_false_iff.mpr fun hl => hq (h.stage_of_lock hown hl)
  have hself : ∀ q, e.lock = some q → q = p ∧ (c.frees ∨ 0 < v.held p) ∧ e.valid := by
    intro q hq
    rcases hlock with ⟨hl, hc⟩ | ⟨hl, -⟩
    · exact ⟨Option.some.inj (hq.symm.trans hl), hc⟩
    cases hl.symm.trans hq
  refine ⟨h.count_of (p := p) (fun q hq => ?_) ?_, fun q hq => ?_, fun q hq => ?_,
    fun q hq _ => (hself q hq).2.2, fun hd => ?_, fun hv _ hr => ?_, htyped, fun q hq => ?_⟩
  · simp only [refs, update_of_ne hq]
  · simp only [refs, update_self, hputs, href]
  · obtain ⟨rfl, hc, -⟩ := hself q hq
    show (update v.stage q c q).frees ∨ _
    rwa [update_self]
  · change (update v.stage p c q).locks at hq
    by_cases hqp : q = p
    · rw [hqp, update_self] at hq
      rcases hlock with ⟨hl, -⟩ | ⟨-, hc⟩
      · rwa [hqp]
      cases hc.symm.trans hq
    rw [update_of_ne hqp] at hq
    cases (hother q hqp).symm.trans hq
  · cases hdirty.symm.trans hd
  · have hc : c ≠ .release := by
      have hr := hr p
      change update v.stage p c p ≠ _ at hr
      rwa [update_self] at hr
    obtain ⟨hcopy, hdisk, heq⟩ := hfresh hv hc
    exact ⟨hcopy, hdisk, fun _ => heq⟩
  change (update v.stage p c q).early at hq
  rw [href]
  by_cases hqp : q = p
  · rw [hqp, update_self] at hq
    exact hearly hq
  rw [update_of_ne hqp] at hq
  cases (hother q hqp).symm.trans (Stage.locks_of_early hq)

lemma loaded (hp : v.stage p = .load) (hv : v.e.valid) :
    Ok { v with stage := update v.stage p .out } := by
  have hlocks : (v.stage p).locks := by rw [hp]; rfl
  have hheld := h.held_of_load hp
  refine h.advance hlocks rfl (by rw [hp]; rfl) (.inl ⟨h.owner p hlocks, .inr hheld, hv⟩)
    (h.dirty_of_locks hlocks) (fun _ _ => ?_) h.typed (by rintro ⟨⟩)
  exact h.fresh_of_locks hlocks (by rw [hp]; simp) hv (h.pos_of_held hheld)

lemma load (hp : v.stage p = .load) :
    Ok { v with e := { v.e with copy := v.disk, valid := true },
                stage := update v.stage p .out } := by
  have hlocks : (v.stage p).locks := by rw [hp]; rfl
  have hheld := h.held_of_load hp
  have htype := h.typed p hheld
  exact h.advance hlocks rfl (by rw [hp]; rfl) (.inl ⟨h.owner p hlocks, .inr hheld, rfl⟩)
    (h.dirty_of_locks hlocks) (fun _ _ => ⟨htype, htype, rfl⟩) h.typed (by rintro ⟨⟩)

lemma putFree (hp : 0 < v.held p) (hl : v.e.lock = none) (hout : v.stage p = .out)
    (href : v.e.ref = 1) (hv : v.e.valid) (hlink : v.e.copy.nlink = 0) :
    Ok { v with e := { v.e with lock := some p }, held := update v.held p (v.held p - 1),
                stage := update v.stage p .trunc } := by
  have hlocks := h.not_locks hl
  refine ⟨h.count_of (p := p) (fun q hq => ?_) ?_, fun q hq => ?_, fun q hq => ?_, fun _ _ _ => hv,
    fun hd => ?_, fun hv hpos _ => h.fresh hv hpos (h.not_release hl), fun _ _ => h.typed p hp,
    fun _ _ => ⟨href, hlink⟩⟩
  · simp only [refs, update_of_ne hq]
  · show v.e.ref + v.refs p = v.e.ref + refs _ p
    rw [refs_of_not_puts (by rw [hout]; rfl), refs_of_puts (by simp [Stage.puts])]
    show _ = v.e.ref + (update v.held p (v.held p - 1) p + 1)
    rw [update_self]
    omega
  · cases hq
    left
    show (update v.stage p .trunc p).frees
    rw [update_self]
    rfl
  · change (update v.stage p .trunc q).locks at hq
    by_cases hqp : q = p
    · rw [hqp]
    rw [update_of_ne hqp, hlocks q] at hq
    cases hq
  cases (h.dirty_of_lock_none hl).symm.trans hd

lemma trunc (hp : v.stage p = .trunc) (htype : x.type = v.e.copy.type)
    (hlink : x.nlink = v.e.copy.nlink) :
    Ok { v with e := { v.e with copy := x }, disk := x,
                stage := update v.stage p .clear } := by
  have hlocks : (v.stage p).locks := by rw [hp]; rfl
  have hearly := h.early p (by rw [hp]; rfl)
  have hv := h.valid_of_frees (by rw [hp]; rfl)
  have hx : x.type ≠ 0 := by
    rw [htype]
    exact (h.fresh_of_early (by rw [hp]; rfl)).1
  refine h.advance hlocks rfl (by rw [hp]; rfl) (.inl ⟨h.owner p hlocks, .inl rfl, hv⟩)
    (h.dirty_of_locks hlocks) (fun _ _ => ⟨hx, hx, rfl⟩) (fun _ _ => hx) fun _ => ⟨hearly.1, ?_⟩
  rw [hlink]
  exact hearly.2

lemma clear (hp : v.stage p = .clear) :
    Ok { v with e := { v.e with copy := x }, disk := x,
                stage := update v.stage p .release } := by
  have hlocks : (v.stage p).locks := by rw [hp]; rfl
  have hv := h.valid_of_frees (by rw [hp]; rfl)
  refine h.advance hlocks rfl (by rw [hp]; rfl) (.inl ⟨h.owner p hlocks, .inl rfl, hv⟩)
    (h.dirty_of_locks hlocks) (fun _ hne => absurd rfl hne) (fun q hq => ?_) (by rintro ⟨⟩)
  exact absurd (h.held_of_early (by rw [hp]; rfl) q) (Nat.ne_of_gt hq)

lemma unlockFreed (hp : v.stage p = .release) :
    Ok { v with e := { v.e with valid := false, lock := none },
                stage := update v.stage p .drop } := by
  have hlocks : (v.stage p).locks := by rw [hp]; rfl
  exact h.advance hlocks rfl (by rw [hp]; rfl) (.inr ⟨rfl, rfl⟩) (h.dirty_of_locks hlocks) (by simp)
    h.typed (by rintro ⟨⟩)

lemma drop (hp : v.stage p = .drop) :
    Ok { v with e := { v.e with ref := v.e.ref - 1 },
                stage := update v.stage p .out } := by
  have hpos := h.pos_of_puts (by rw [hp]; rfl)
  have hself : update v.stage p .out p = .out := update_self _ _ _
  have hother : ∀ q ≠ p, update v.stage p .out q = v.stage q := fun q hq => update_of_ne hq _ _
  refine ⟨h.count_of (p := p) (fun q hq => ?_) ?_, fun q hq => ?_, fun q hq => ?_,
    fun q hq hload => ?_, fun hd => ?_, fun hv _ hr => ?_, h.typed, fun q hq => ?_⟩
  · simp only [refs, hother q hq]
  · simp only [refs, hself, hp, Stage.puts]
    simp only [if_true, Bool.false_eq_true, if_false]
    omega
  · refine (h.lock q hq).imp_left fun hf => ?_
    have hqp : q ≠ p := by
      rintro rfl
      rw [hp] at hf
      cases hf
    show (update v.stage p .out q).frees
    rwa [hother q hqp]
  · change (update v.stage p .out q).locks at hq
    by_cases hqp : q = p
    · rw [hqp, hself] at hq
      cases hq
    rw [hother q hqp] at hq
    exact h.owner q hq
  · by_cases hqp : q = p
    · rw [hqp] at hq
      exact h.read p hq (by rw [hp]; simp)
    · change update v.stage p .out q ≠ _ at hload
      rw [hother q hqp] at hload
      exact h.read q hq hload
  · obtain ⟨q, hq, hout⟩ := h.dirty hd
    have hqp : q ≠ p := by
      rintro rfl
      cases hp.symm.trans hout
    exact ⟨q, hq, (hother q hqp).trans hout⟩
  · refine h.fresh hv hpos fun q hq => hr q ?_
    have hqp : q ≠ p := by
      rintro rfl
      cases hp.symm.trans hq
    exact (hother q hqp).trans hq
  change (update v.stage p .out q).early at hq
  by_cases hqp : q = p
  · rw [hqp, hself] at hq
    cases hq
  rw [hother q hqp] at hq
  have htwo := h.two hqp (by rw [refs_of_puts (Stage.puts_of_early hq)]; omega)
    (by rw [refs_of_puts (by rw [hp]; rfl)]; omega)
  have hone := (h.early q hq).1
  omega
end
end Ok
end Xv6.Itable.View
