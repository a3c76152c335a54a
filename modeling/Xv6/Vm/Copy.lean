import Xv6.Vm.Process

namespace Xv6.Vm
open Lib
variable {kend : Nat} {m m' : Mem} {root va pa a x off n flags : Nat}
  {src : List UInt8} {E : Panic → Prop}

lemma Sound.touch (h : Sound kend m root) (hva : Page va) (hlt : va < trapframe)
    (hm : m.map root va = some (pa, flags)) (hbyte : ∀ a, pgrounddown a ≠ pa → m'.byte a = m.byte a)
    (hfree : m'.freelist = m.freelist) :
    Evolves kend root m m' (fun x => if x = va then some (flags, m'.bytes pa) else m.view root x) ∧
      ∀ x, m'.map root x = m.map root x := by
  have hidle := h.idle va pa flags hva hlt hm
  have hent : ∀ t i, Reached m.next root 2 t → m'.entry t i = m.entry t i := by
    intro t i hr
    refine Mem.entry_congr (fun a h1 h2 => hbyte a (fun e => hidle.notTable ?_))
    rwa [← e, pgrounddown_of_mem (h.paged.page t hr).aligned h1 h2]
  obtain ⟨-, hreach, hmap, htree⟩ := h.paged.frame hent
  have hpaged : Paged kend m' root := ⟨htree, h.paged.inner_congr hent,
    fun t hr => h.paged.page t ((hreach t).mp hr),
    fun t hr => by rw [hfree]; exact h.paged.used t ((hreach t).mp hr),
    fun t hf => h.paged.freeRam t (by rwa [← hfree]), by rw [hfree]; exact h.paged.nodup⟩
  have howns : ∀ t, Owns m' root t ↔ Owns m root t := by
    intro t
    unfold Owns
    rw [hreach]
    simp only [hmap]
  refine ⟨⟨h.subset hpaged (fun x t flags _ hm => by rwa [hmap] at hm)
    (fun x t flags hx hlt hm => ?_), fun x hx hx' => ?_, fun x _ _ => hmap x,
    fun t => by rw [howns, hfree], fun a ho _ => hbyte a (fun e => ho ?_)⟩, hmap⟩
  · rw [hmap] at hm
    have hold := h.idle x t flags hx hlt hm
    exact ⟨by rw [hfree]; exact hold.notFree, fun hr => hold.notTable ((hreach t).mp hr)⟩
  · by_cases he : x = va
    · rw [if_pos he, he, Mem.view, hmap, hm]
      rfl
    · rw [if_neg he]
      refine view_congr (hmap x) (fun t flags' hm' _ a ha => hbyte a (fun e => he ?_))
        (fun t flags' hm' => (h.ram x t flags' hx hx' hm').aligned)
      rw [← ha, e] at hm'
      exact h.once x va pa flags' flags hx hva hx' hlt hm' hm
  rw [e]
  exact .inr ⟨va, flags, hva, hlt, hm⟩

def setBytes (b : Fin pgsize → UInt8) (off : Nat) (src : List UInt8) : Fin pgsize → UInt8 :=
  fun o => if off ≤ o.val ∧ o.val < off + src.length then src.getD (o.val - off) 0 else b o

def pageBytes (b : Fin pgsize → UInt8) (off n : Nat) : List UInt8 :=
  (List.range n).map fun i => b ⟨(off + i) % pgsize, Nat.mod_lt _ (by decide)⟩

lemma wp_poke {Q : Unit → Mem → Prop} (h : Sound kend m root) (hva : Page va)
    (hlt : va < trapframe) (hm : m.map root va = some (pa, flags))
    (hfit : off + src.length ≤ pgsize) (hok : ∀ m', Evolves kend root m m' (fun x =>
        if x = va then some (flags, setBytes (m.bytes pa) off src) else m.view root x) →
      (∀ x, m'.map root x = m.map root x) → m'.deny = m.deny → m'.freelist = m.freelist →
      Q () m') :
    wp (poke (pa + off) src) m Q E := by
  unfold poke
  rw [wp_modify]
  have hpa := (h.ram va pa flags hva hlt hm).aligned
  have htouch := @Sound.touch _ _ { m with byte := fun a =>
    if pa + off ≤ a ∧ a < pa + off + src.length then src.getD (a - (pa + off)) 0 else m.byte a }
    _ _ _ _ h hva hlt hm (fun a ha => ?_) rfl
  · refine hok _ (htouch.1.congr (fun x _ _ => ?_)) htouch.2 rfl rfl
    congr 3
    funext o
    show setBytes (m.bytes pa) off src o = if pa + off ≤ pa + o.val ∧ pa + o.val <
      pa + off + src.length then src.getD (pa + o.val - (pa + off)) 0 else m.byte (pa + o.val)
    have hiff : pa + off ≤ pa + o.val ∧ pa + o.val < pa + off + src.length ↔
        off ≤ o.val ∧ o.val < off + src.length := by omega
    rw [setBytes, show pa + o.val - (pa + off) = o.val - off by omega]
    simp only [hiff]
    rfl
  have hout := outside_of_pgrounddown_ne hpa ha
  show (if pa + off ≤ a ∧ a < pa + off + src.length then _ else m.byte a) = m.byte a
  rw [if_neg (by omega)]

lemma wp_peek {Q : List UInt8 → Mem → Prop} (hfit : off + n ≤ pgsize) :
    wp (peek (pa + off) n) m Q E ↔ Q (pageBytes (m.bytes pa) off n) m := by
  have hbytes : (List.range n).map (fun i => m.byte (pa + off + i)) =
      pageBytes (m.bytes pa) off n := by
    refine List.map_congr_left fun i hi => ?_
    have hi := List.mem_range.mp hi
    show m.byte (pa + off + i) = m.byte (pa + (off + i) % pgsize)
    rw [Nat.mod_eq_of_lt (by omega), add_assoc]
  unfold peek
  rw [wp_bind, wp_get, wp_pure, hbytes]

lemma wp_walkaddr {Q : Nat → Mem → Prop} :
    wp (walkaddr root va) m Q E ↔ Q (if va < maxva then userPage (m.map root va) else 0) m :=
  wp_of_ok walkaddr_eq

lemma walkaddr_of_some (hlt : x < trapframe) (hm : m.map root x = some (pa, flags)) :
    (if x < maxva then userPage (m.map root x) else 0) = if flags.testBit 4 then pa else 0 := by
  rw [if_pos (by rw [maxva_eq]; rw [trapframe_eq] at hlt; omega), hm, userPage]

lemma wp_walk_mapped {Q : Option (Nat × Fin 512) → Mem → Prop} (hva : va < maxva)
    (hm : m.map root va = some (pa, flags))
    (hok : ∀ t i, follow m.next root (indices va 2) = some t → i = px 0 va →
      (m.entry t i).testBit 0 → pte2pa (m.entry t i) = pa →
      pteFlags (m.entry t i) = flags → Q (some (t, i)) m) :
    wp (walk root va false) m Q E := by
  rw [wp_of_ok (walk_eq hva)]
  cases hf : follow m.next root (indices va 2) with
  | none =>
    rw [Mem.map_of_none hf] at hm
    cases hm
  | some t =>
    rw [Mem.map_of_follow hf, ofPte] at hm
    cases hv : (m.entry t (px 0 va)).testBit 0 with
    | false =>
      rw [hv] at hm
      cases hm
    | true =>
      rw [hv, if_pos rfl] at hm
      cases hm
      exact hok t (px 0 va) hf rfl hv rfl rfl
end Xv6.Vm
