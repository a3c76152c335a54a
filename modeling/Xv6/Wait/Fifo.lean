import Xv6.Wait.Pipe

namespace Xv6.Wait.Pipe
open Lib Monitor Program List
variable {nproc : Nat} {d : Pipe} {f : Answer → Pipe → Pipe × Loc} {k : Loc}

structure Fifo (d : Pipe) : Prop where
  nread : d.nread = d.got.length % 2 ^ 32
  nwrite : d.nwrite = d.taken.length % 2 ^ 32
  le : d.got.length ≤ d.taken.length
  room : d.taken.length ≤ d.got.length + pipeSize
  got : d.got = d.taken.take d.got.length
  data : ∀ j, d.got.length ≤ j → j < d.taken.length → d.taken[j]? = some (d.data (j % pipeSize))

def used (d : Pipe) : Nat := (d.nwrite + 2 ^ 32 - d.nread) % 2 ^ 32

def buffer (d : Pipe) : List UInt8 :=
  (range d.used).map fun j => d.data ((d.nread + j) % pipeSize)

namespace Fifo
lemma pipealloc {data : Nat → UInt8} : Fifo (pipealloc data) :=
  ⟨rfl, rfl, le_rfl, Nat.zero_le _, rfl, nofun⟩

section
variable (h : Fifo d)
include h

lemma used_eq : d.used = d.taken.length - d.got.length := by
  have hle := h.le
  have hroom := h.room
  rw [pipeSize] at hroom
  rw [used, h.nread, h.nwrite]
  omega

lemma empty_iff : d.Empty ↔ d.got.length = d.taken.length := by
  have hle := h.le
  have hroom := h.room
  rw [pipeSize] at hroom
  rw [Empty, h.nread, h.nwrite]
  omega

lemma full_iff : d.Full ↔ d.taken.length = d.got.length + pipeSize := by
  have hle := h.le
  have hroom := h.room
  rw [Full, h.nread, h.nwrite]
  rw [pipeSize] at hroom ⊢
  omega

lemma got_eq_taken (hempty : d.Empty) : d.got = d.taken := by
  rw [h.got, h.empty_iff.mp hempty, take_length]

lemma store (hfull : ¬d.Full) (ch : UInt8) : Fifo (d.store ch) := by
  have hle := h.le
  have hroom : d.taken.length < d.got.length + pipeSize :=
    Nat.lt_of_le_of_ne h.room (fun e => hfull (h.full_iff.mpr e))
  refine ⟨h.nread, ?_, ?_, ?_, ?_, fun j hj hlt => ?_⟩
  · show (d.nwrite + 1) % 2 ^ 32 = (d.taken ++ [ch]).length % 2 ^ 32
    rw [h.nwrite, length_append, length_singleton]
    omega
  · show d.got.length ≤ (d.taken ++ [ch]).length
    rw [length_append]
    omega
  · show (d.taken ++ [ch]).length ≤ d.got.length + pipeSize
    rw [length_append, length_singleton]
    omega
  · show d.got = (d.taken ++ [ch]).take d.got.length
    rw [take_append_of_le_length hle]
    exact h.got
  show (d.taken ++ [ch])[j]? = some (Function.update d.data (d.nwrite % pipeSize) ch _)
  have hslot : d.nwrite % pipeSize = d.taken.length % pipeSize := by
    rw [h.nwrite, pipeSize]
    omega
  have hlen : j < d.taken.length + 1 := by simpa [Pipe.store] using hlt
  have hgot : d.got.length ≤ j := hj
  rw [hslot]
  by_cases hlast : j = d.taken.length
  · rw [hlast, Function.update_self]
    simp
  have hslot' : j % pipeSize ≠ d.taken.length % pipeSize := by
    rw [pipeSize] at hroom ⊢
    omega
  rw [Function.update_of_ne hslot', getElem?_append_left (by omega)]
  exact h.data j hgot (by omega)

lemma fetch (hempty : ¬d.Empty) : Fifo d.fetch := by
  have hlt : d.got.length < d.taken.length :=
    Nat.lt_of_le_of_ne h.le fun e => hempty (h.empty_iff.mpr e)
  have hroom := h.room
  have hlen : d.fetch.got.length = d.got.length + 1 := by simp [Pipe.fetch]
  have hslot : d.nread % pipeSize = d.got.length % pipeSize := by
    rw [h.nread, pipeSize]
    omega
  refine ⟨?_, h.nwrite, ?_, ?_, ?_, fun j hj hj' => h.data j (by omega) hj'⟩
  · rw [hlen]
    show (d.nread + 1) % 2 ^ 32 = _
    rw [h.nread]
    omega
  · rwa [hlen]
  · rw [hlen]
    show d.taken.length ≤ _
    omega
  rw [hlen]
  show d.got ++ [d.data (d.nread % pipeSize)] = d.taken.take (d.got.length + 1)
  rw [take_add_one, ← h.got, h.data _ le_rfl hlt, hslot]
  rfl

lemma close (w : Bool) : Fifo (d.close w) := by
  unfold Pipe.close
  split
  · exact ⟨h.nread, h.nwrite, h.le, h.room, h.got, h.data⟩
  exact ⟨h.nread, h.nwrite, h.le, h.room, h.got, h.data⟩

lemma taken_eq : d.taken = d.got ++ d.buffer := by
  have hle := h.le
  apply ext_getElem?
  intro j
  by_cases hj : j < d.got.length
  · rw [getElem?_append_left hj]
    calc d.taken[j]? = (d.taken.take d.got.length)[j]? := (getElem?_take_of_lt hj).symm
      _ = d.got[j]? := by rw [← h.got]
  rw [getElem?_append_right (by omega), buffer, getElem?_map, h.used_eq]
  by_cases hlt : j < d.taken.length
  · have hslot : (d.nread + (j - d.got.length)) % pipeSize = j % pipeSize := by
      rw [h.nread, pipeSize]
      omega
    rw [getElem?_range (by omega), h.data j (by omega) hlt, Option.map_some, hslot]
  rw [getElem?_eq_none (by omega), getElem?_eq_none (by simp; omega)]
  rfl
end
end Fifo

def Ann (k : Loc) (d : Pipe) : Prop :=
  match k with
  | .writeTest _ _ stored => stored → d.readopen
  | .writeKilled _ _ _ | .writeRoom _ _ _ => d.readopen
  | .writeFull _ _ _ | .writeSleep _ _ => d.Full ∧ d.readopen
  | .readKilled _ | .readSleep _ => d.Empty ∧ d.writeopen
  | .readCopy _ i => i = 0 → ¬(d.Empty ∧ d.writeopen)
  | .readEnd n v | .readRet n v => 0 < n → v = 0 → d.writeopen = false ∧ d.Empty
  | _ => True

lemma ann_of_entry (h : entry k) : Ann k d := by
  unfold entry at h
  split at h
  · exact nofun
  · trivial
  · trivial
  cases h

lemma ann_of_sleep {k' : Loc} {c : Chan} (h : code k = .sleep c k') : Ann k' d := by
  cases k <;> cases h
  · exact nofun
  trivial

lemma fifo_of_act (e : Answer) (hc : code k = .act f) (h : Fifo d) : Fifo (f e d).1 := by
  cases k <;> cases hc
  case writeTest n i t => exact h
  case writeRoom n i t =>
    dsimp only
    split
    · exact h
    rename_i hfull
    split
    · exact h
    exact h.store hfull _
  case readTest n => exact h
  case readCopy n i =>
    dsimp only
    split
    · split
      · exact h
      · rename_i hempty
        split
        · exact h.fetch hempty
        exact h
    exact h
  case closeSet w => exact h.close w

lemma ann_of_act (e : Answer)
    (hc : code k = .act f) (ha : Ann k d) : Ann (f e d).2 (f e d).1 := by
  cases k <;> cases hc
  case writeTest n i t =>
    dsimp only
    split
    · split
      · rename_i hopen
        exact hopen
      trivial
    trivial
  case writeRoom n i t =>
    dsimp only
    split
    · rename_i hfull
      exact ⟨hfull, ha⟩
    split
    · trivial
    exact fun _ => ha
  case readTest n =>
    dsimp only
    split
    · rename_i hc
      exact hc
    rename_i hc
    exact fun _ => hc
  case readCopy n i =>
    dsimp only
    split
    · split
      · rename_i hempty
        intro _ hi
        have hopen := ha (by omega)
        exact ⟨by simpa [hempty] using hopen, hempty⟩
      · split
        · exact nofun
        · intro _ hi
          split at hi
          · cases hi
          omega
    rename_i hi
    intro hn hv
    omega
  case closeSet w => trivial

lemma outline : (program nproc).Outline Fifo (fun _ => Ann) where
  enter := by
    intro p k d h _
    rcases h with h | ⟨k0, c, h⟩
    · exact ann_of_entry h
    exact ann_of_sleep h
  act := fun p k f e d hc h ha => ⟨fifo_of_act e hc h, ann_of_act e hc ha⟩
  killed := by
    intro p k yes no d hc ha
    cases k <;> cases hc
    · exact ⟨trivial, ha⟩
    exact ⟨trivial, ha⟩
  wakeup := by
    intro p k c k' d hc ha
    cases k <;> cases hc
    · exact ha
    · trivial
    · exact ha
    trivial
  stable := fun p k q k' f e d _ hlock => absurd rfl hlock

lemma holds_of_run {data : Nat → UInt8} {as : List (Label (Fin nproc) Loc Answer)}
    {s : State (Fin nproc) Pipe Loc Chan Unit}
    (hr : run (program nproc).next (.start (pipealloc data)) as = some s) :
    (program nproc).Holds Fifo (fun _ => Ann) s :=
  run_invariant (fun _ _ _ h hn => h.step program_wellLocked outline (step_of_next hn))
    (.start .pipealloc) hr

theorem fifo_of_run {data : Nat → UInt8} {as : List (Label (Fin nproc) Loc Answer)}
    {s : State (Fin nproc) Pipe Loc Chan Unit}
    (hr : run (program nproc).next (.start (pipealloc data)) as = some s) :
    s.data.used ≤ pipeSize ∧ s.data.got <+: s.data.taken ∧
      s.data.taken = s.data.got ++ s.data.buffer ∧
      ∀ p n, s.status p = .on (.readRet n 0) → 0 < n →
        s.data.writeopen = false ∧ s.data.got = s.data.taken := by
  have h := holds_of_run hr
  have hfifo := h.inv
  refine ⟨?_, ⟨_, hfifo.taken_eq.symm⟩, hfifo.taken_eq, fun p n hst hn => ?_⟩
  · have hroom := hfifo.room
    rw [hfifo.used_eq]
    omega
  obtain ⟨hclosed, hempty⟩ := h.on hst hn rfl
  exact ⟨hclosed, hfifo.got_eq_taken hempty⟩

abbrev Trace := List (Label (Fin 2) Loc Answer)

def fifoTrace : Trace :=
  ([.call 0 (.writeTest 1 0 false), .acquire 0, .step 0 {}, .step 0 {},
    .step 0 { copyin := some 7 }] : Trace) ++ (replicate 6 (.step 0 {}) : Trace) ++
  ([.call 0 (.closeSet true), .acquire 0] : Trace) ++ (replicate 6 (.step 0 {}) : Trace) ++
  ([.call 1 (.readTest 4), .acquire 1, .step 1 {}, .step 1 { copyout := true }] : Trace) ++
    (replicate 6 (.step 1 {}) : Trace) ++
  ([.call 1 (.readTest 4), .acquire 1] : Trace) ++ (replicate 6 (.step 1 {}) : Trace)

theorem fifo_of_run_trace :
    ∃ s, run (program 2).next (.start (pipealloc fun _ => 0)) fifoTrace = some s ∧
      s.status 1 = .on (.readRet 4 0) ∧ s.data.taken = [7] ∧ s.data.writeopen = false ∧
      s.data.got = s.data.taken := by
  have hrun : (run (program 2).next (.start (pipealloc fun _ => 0)) fifoTrace).map
      (fun s => (s.status 1, s.data.taken)) = some (.on (.readRet 4 0), [7]) := by
    decide +kernel
  obtain ⟨s, hs, heq⟩ := Option.map_eq_some_iff.mp hrun
  obtain ⟨hst, htaken⟩ := Prod.mk.inj heq
  exact ⟨s, hs, hst, htaken, (fifo_of_run hs).2.2.2 1 4 hst (by decide)⟩
end Xv6.Wait.Pipe
