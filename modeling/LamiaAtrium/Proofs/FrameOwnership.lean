import LamiaAtrium.Libmem
import LamiaAtrium.Library.Ownership

/-! Who owns which frame. Two pools are shared by all processes: the frames of
`mram`, named by the resident entries, and those of the active swap device, named by
the swapped ones. A frame that a function has taken off a free list and not yet put
into an entry is loose. -/

namespace LamiaAtrium
open Ownership
variable {Proc : Type}

def Pte.ramFrame (pte : Pte) : Option Addr := if pte.resident then some ((pagingFpn pte).setWidth 64) else none

def Pte.swapFrame (pte : Pte) : Option Addr := if pagingPageSwapped pte then some ((pagingSwp pte).setWidth 64) else none

/-- Neither in RAM nor on the swap device. -/
def Pte.unmapped (pte : Pte) : Prop := pte.resident = false ∧ pagingPageSwapped pte = false

instance (pte : Pte) : Decidable pte.unmapped := inferInstanceAs (Decidable (_ ∧ _))

def Memphy.pool (mp : Memphy) : Set Addr := {fpn | fpn.toNat < mp.frames}

def Krnl.pte (k : Krnl Proc) (place : Proc × Page) : Pte := (k.mms place.1).pgd.pteAt place.2

/-- The frame invariant while the RAM frames `loose` are in flight. Two page numbers
that the table walk does not distinguish are one page, so the FIFO is free of
duplicates as a list of pages. -/
structure Owned (loose : List Addr) (k : Krnl Proc) : Prop where
  ram : Exclusive k.mram.pool (loose ++ k.mram.freeFpList) (Pte.ramFrame ∘ k.pte)
  swap : Exclusive k.activeMswp.pool k.activeMswp.freeFpList (Pte.swapFrame ∘ k.pte)
  fifoNodup : ∀ p, ((k.mms p).fifoPgn.map pageOf).Nodup
  fifoResident : ∀ p, ∀ pgn ∈ (k.mms p).fifoPgn, (k.pte (p, pageOf pgn)).resident = true
  ramSmall : k.mram.frames ≤ 2 ^ 13
  swapSmall : k.activeMswp.frames ≤ 2 ^ 21

/-- The good states: every frame of both devices has exactly one owner, and each FIFO
lists resident pages once. -/
abbrev Good (k : Krnl Proc) : Prop := Owned [] k

def RandomAccess (k : Krnl Proc) : Prop := k.mram.rdmflg = true ∧ k.activeMswp.rdmflg = true

structure SameDevices (before after : Krnl Proc) : Prop where
  ramSize : after.mram.maxsz = before.mram.maxsz
  ramMode : after.mram.rdmflg = before.mram.rdmflg
  swapSize : after.activeMswp.maxsz = before.activeMswp.maxsz
  swapMode : after.activeMswp.rdmflg = before.activeMswp.rdmflg

theorem SameDevices.refl (k : Krnl Proc) : SameDevices k k := ⟨rfl, rfl, rfl, rfl⟩

theorem SameDevices.trans {first second third : Krnl Proc} (left : SameDevices first second) (right : SameDevices second third) :
    SameDevices first third :=
  ⟨right.ramSize.trans left.ramSize, right.ramMode.trans left.ramMode, right.swapSize.trans left.swapSize,
    right.swapMode.trans left.swapMode⟩

theorem SameDevices.random {before after : Krnl Proc} (same : SameDevices before after) (random : RandomAccess before) :
    RandomAccess after :=
  ⟨same.ramMode.trans random.1, same.swapMode.trans random.2⟩

section Entries
variable {pte : Pte}

@[simp] theorem Pte.swapFrame_setFpn (fpn : Addr) : (pte.setFpn fpn).swapFrame = none := by simp [Pte.swapFrame]

@[simp] theorem Pte.ramFrame_setSwap (swptyp : CInt) (swpoff : Addr) : (pte.setSwap swptyp swpoff).ramFrame = none := by
  simp [Pte.ramFrame]

theorem Pte.ramFrame_setFpn {fpn : Addr} (small : fpn.toNat < 2 ^ 13) : (pte.setFpn fpn).ramFrame = some fpn := by
  rw [Pte.ramFrame, setFpn_resident, if_pos rfl, pagingFpn_setFpn_of_lt pte fpn small]

theorem Pte.swapFrame_setSwap {swpoff : Addr} (swptyp : CInt) (small : swpoff.toNat < 2 ^ 21) :
    (pte.setSwap swptyp swpoff).swapFrame = some swpoff := by
  rw [Pte.swapFrame, setSwap_swapped, if_pos rfl, pagingSwp_setSwap_of_lt pte swpoff swptyp small]

theorem Pte.ramFrame_of_resident (resident : pte.resident = true) : pte.ramFrame = some ((pagingFpn pte).setWidth 64) := by
  rw [Pte.ramFrame, if_pos resident]

theorem Pte.swapFrame_of_swapped (swapped : pagingPageSwapped pte = true) :
    pte.swapFrame = some ((pagingSwp pte).setWidth 64) := by
  rw [Pte.swapFrame, if_pos swapped]

theorem Pte.ramFrame_of_not_resident (absent : pte.resident = false) : pte.ramFrame = none := by simp [Pte.ramFrame, absent]

theorem Pte.not_resident_of_swapped (swapped : pagingPageSwapped pte = true) : pte.resident = false := by
  simp [Pte.resident, swapped]

theorem Pte.swapFrame_of_resident (resident : pte.resident = true) : pte.swapFrame = none := by
  have kept : pagingPageSwapped pte = false := by
    cases swapped : pagingPageSwapped pte with
    | false => rfl
    | true => rw [Pte.not_resident_of_swapped swapped] at resident; cases resident
  simp [Pte.swapFrame, kept]

/-- An entry holds 13 bits of a RAM frame's number. -/
theorem Pte.ramFrame_lt {fpn : Addr} (holds : pte.ramFrame = some fpn) : fpn.toNat < 2 ^ 13 := by
  unfold Pte.ramFrame at holds
  split at holds
  · cases holds
    rw [BitVec.toNat_setWidth_of_le (by decide)]
    exact pagingFpn_lt pte
  · cases holds

theorem Pte.mapped_of_ramFrame {fpn : Addr} (holds : pte.ramFrame = some fpn) : ¬pte.unmapped := by
  intro unmapped
  rw [Pte.ramFrame_of_not_resident unmapped.1] at holds
  cases holds

theorem Pte.swapFrame_of_unmapped (unmapped : pte.unmapped) : pte.swapFrame = none := by simp [Pte.swapFrame, unmapped.2]

theorem Pte.mapped_of_swapFrame {fpn : Addr} (holds : pte.swapFrame = some fpn) : ¬pte.unmapped := by
  intro unmapped
  rw [Pte.swapFrame_of_unmapped unmapped] at holds
  cases holds

end Entries

section Places
variable (k : Krnl Proc) (caller : Proc)

theorem getEntry_eq_pte (pgn : Addr) : (k.mms caller).getEntry pgn = k.pte (caller, pageOf pgn) :=
  pteGetEntry_eq_pteAt _ pgn

variable [DecidableEq Proc]

/-- Rewriting one entry of one process changes one place of the joint map. -/
theorem pte_setMm {mm : Mm} {page : Page} {pte : Pte} (rewritten : mm.pgd.pteAt = Function.update (k.mms caller).pgd.pteAt page pte) :
    (k.setMm caller mm).pte = Function.update k.pte (caller, page) pte := by
  funext ⟨p, other⟩
  by_cases same : p = caller
  · subst same
    simp only [Krnl.pte, Krnl.setMm_same, rewritten, Function.update_apply, Prod.mk.injEq, true_and]
  · have apart : (p, other) ≠ (caller, page) := fun equal => same (Prod.mk.inj equal).1
    rw [Function.update_of_ne apart]
    simp only [Krnl.pte, Krnl.setMm_mms, if_neg same]

theorem pte_setMm_of_pgd {mm : Mm} (same : mm.pgd = (k.mms caller).pgd) : (k.setMm caller mm).pte = k.pte := by
  funext ⟨p, page⟩
  simp only [Krnl.pte, Krnl.setMm_mms]
  split
  · next equal => rw [same, equal]
  · rfl

end Places

/-- A device with every frame free, of which no place holds one. -/
theorem Memphy.fresh {mp : Memphy} {held : Proc × Page → Option Addr} (free : mp.freeFpList = (List.range mp.frames).map (BitVec.ofNat 64))
    (size : mp.frames < 2 ^ 64) (empty : ∀ place, held place = none) : Exclusive mp.pool mp.freeFpList held := by
  rw [free]
  refine .fresh ?_ (fun fpn => ⟨fun inside => ?_, fun member => ?_⟩) empty
  · apply List.Nodup.map_on _ List.nodup_range
    intro first inside second insideToo same
    have numbers := congrArg BitVec.toNat same
    simp only [List.mem_range, BitVec.toNat_ofNat] at *
    omega
  · exact List.mem_map.mpr ⟨fpn.toNat, List.mem_range.mpr inside, by simp⟩
  · obtain ⟨number, inside, same⟩ := List.mem_map.mp member
    change fpn.toNat < mp.frames
    rw [← same, BitVec.toNat_ofNat]
    have := List.mem_range.mp inside
    omega

/-- Two devices with every frame free, and processes that have mapped nothing. -/
theorem Owned.fresh {k : Krnl Proc} (ramFree : k.mram.freeFpList = (List.range k.mram.frames).map (BitVec.ofNat 64))
    (swapFree : k.activeMswp.freeFpList = (List.range k.activeMswp.frames).map (BitVec.ofNat 64))
    (unmapped : ∀ place, (k.pte place).unmapped) (unlisted : ∀ p, (k.mms p).fifoPgn = [])
    (ramSmall : k.mram.frames ≤ 2 ^ 13) (swapSmall : k.activeMswp.frames ≤ 2 ^ 21) : Good k := by
  constructor
  · exact Memphy.fresh ramFree (by omega) fun place => Pte.ramFrame_of_not_resident (unmapped place).1
  · exact Memphy.fresh swapFree (by omega) fun place => Pte.swapFrame_of_unmapped (unmapped place)
  · intro p
    rw [unlisted p]
    exact List.nodup_nil
  · intro p pgn member
    rw [unlisted p] at member
    cases member
  · exact ramSmall
  · exact swapSmall

/-- One process that has mapped nothing, a RAM of one frame and a swap device of two. -/
def oneFrame (ramFree swapFree : List Addr) : Krnl Unit where
  mm := none
  mram := { storage := fun cell => BitVec.ofNat 8 cell, maxsz := 256, rdmflg := true, cursor := 0, freeFpList := ramFree }
  activeMswp := { storage := fun cell => BitVec.ofNat 8 (cell + 7), maxsz := 512, rdmflg := true, cursor := 0, freeFpList := swapFree }
  activeMswpId := 0
  mms := fun _ => initMm []

theorem oneFrame_good : Good (oneFrame [0] [0, 1]) := by
  apply Owned.fresh rfl rfl _ (fun _ => rfl) (by decide) (by decide)
  intro place
  constructor
  · simp [Krnl.pte, oneFrame, initMm, Pte.resident, pagingPagePresent]
  · simp [Krnl.pte, oneFrame, initMm, pagingPageSwapped]

namespace Owned
variable {k : Krnl Proc} {loose : List Addr} {caller : Proc} {fpn pgn : Addr}

/-- The invariant sees of a device its size and its free list, of a process its entries
and its FIFO. -/
theorem congr {after : Krnl Proc} (owned : Owned loose k) (ramSize : after.mram.maxsz = k.mram.maxsz)
    (ramFree : after.mram.freeFpList = k.mram.freeFpList) (swapSize : after.activeMswp.maxsz = k.activeMswp.maxsz)
    (swapFree : after.activeMswp.freeFpList = k.activeMswp.freeFpList) (entries : after.pte = k.pte)
    (fifo : ∀ p, (after.mms p).fifoPgn = (k.mms p).fifoPgn) : Owned loose after := by
  constructor
  · simpa only [Memphy.pool, Memphy.frames, ramSize, ramFree, entries] using owned.ram
  · simpa only [Memphy.pool, Memphy.frames, swapSize, swapFree, entries] using owned.swap
  · intro p
    rw [fifo p]
    exact owned.fifoNodup p
  · intro p pgn member
    rw [entries]
    exact owned.fifoResident p pgn (fifo p ▸ member)
  · simpa only [Memphy.frames, ramSize] using owned.ramSmall
  · simpa only [Memphy.frames, swapSize] using owned.swapSmall

theorem loose_lt (owned : Owned (fpn :: loose) k) : fpn.toNat < k.mram.frames :=
  owned.ram.free_mem (List.mem_append_left _ List.mem_cons_self)

theorem resident_lt (owned : Owned loose k) {place : Proc × Page} (resident : (k.pte place).resident = true) :
    (pagingFpn (k.pte place)).toNat < k.mram.frames := by
  have bound := owned.ram.held_mem place (Pte.ramFrame_of_resident resident)
  simp only [Memphy.pool, Set.mem_ofPred_eq, BitVec.toNat_setWidth] at bound
  have word := (pagingFpn (k.pte place)).isLt
  omega

theorem swapped_lt (owned : Owned loose k) {place : Proc × Page} (swapped : pagingPageSwapped (k.pte place) = true) :
    (pagingSwp (k.pte place)).toNat < k.activeMswp.frames := by
  have bound := owned.swap.held_mem place (Pte.swapFrame_of_swapped swapped)
  simp only [Memphy.pool, Set.mem_ofPred_eq, BitVec.toNat_setWidth] at bound
  have word := (pagingSwp (k.pte place)).isLt
  omega

/-- `MEMPHY_get_freefp` on `mram` makes the first free frame loose. -/
theorem getFreefp (owned : Owned loose k) {mram : Memphy} (taken : k.mram.getFreefp = some (fpn, mram)) :
    Owned (fpn :: loose) { k with mram } := by
  cases free : k.mram.freeFpList with
  | nil => rw [Memphy.getFreefp_nil free] at taken; cases taken
  | cons first rest =>
    rw [Memphy.getFreefp_cons free] at taken
    cases taken
    have ram := owned.ram
    rw [free] at ram
    exact { owned with ram := ram.perm List.perm_middle }

variable [DecidableEq Proc]

/-- The frame goes into an entry that names no RAM frame, and the page onto the FIFO.
An entry that was swapped leaves its swap frame to whatever `activeMswp` lists. -/
private theorem install (owned : Owned (fpn :: loose) k) (activeMswp : Memphy) (absent : (k.pte (caller, pageOf pgn)).resident = false)
    (swap : Exclusive activeMswp.pool activeMswp.freeFpList
      (Function.update (Pte.swapFrame ∘ k.pte) (caller, pageOf pgn) none))
    (small : activeMswp.frames ≤ 2 ^ 21) :
    Owned loose ({ k with activeMswp }.setMm caller (((k.mms caller).setFpn pgn fpn).enlistPgn pgn)) := by
  have entries : ({ k with activeMswp }.setMm caller (((k.mms caller).setFpn pgn fpn).enlistPgn pgn)).pte =
      Function.update k.pte (caller, pageOf pgn) ((k.pte (caller, pageOf pgn)).setFpn fpn) :=
    pte_setMm { k with activeMswp } caller (pteAt_pteSetFpn _ pgn fpn)
  have frame : Pte.ramFrame ((k.pte (caller, pageOf pgn)).setFpn fpn) = some fpn :=
    Pte.ramFrame_setFpn (Nat.lt_of_lt_of_le owned.loose_lt owned.ramSmall)
  constructor
  · rw [entries, Function.comp_update, frame]
    exact owned.ram.take (Pte.ramFrame_of_not_resident absent)
  · rw [entries, Function.comp_update, Pte.swapFrame_setFpn]
    exact swap
  · intro p
    rw [Krnl.setMm_mms]
    split
    · next same =>
      subst same
      refine List.nodup_cons.mpr ⟨?_, owned.fifoNodup p⟩
      intro member
      obtain ⟨listed, inFifo, page⟩ := List.mem_map.mp member
      have resident := owned.fifoResident p listed inFifo
      rw [page, absent] at resident
      cases resident
    · exact owned.fifoNodup p
  · intro p listed member
    rw [entries]
    by_cases here : (p, pageOf listed) = (caller, pageOf pgn)
    · rw [here, Function.update_self, setFpn_resident]
    · rw [Function.update_of_ne here]
      rw [Krnl.setMm_mms] at member
      split at member
      · next same =>
        subst same
        rcases List.mem_cons.mp member with same | member
        · exact absurd (congrArg (fun pgn => (p, pageOf pgn)) same) here
        · exact owned.fifoResident p listed member
      · exact owned.fifoResident p listed member
  · exact owned.ramSmall
  · exact small

/-- One round of `vmap_page_range` on an unmapped page. -/
theorem mapPage (owned : Owned (fpn :: loose) k) (unmapped : (k.pte (caller, pageOf pgn)).unmapped) :
    Owned loose (k.setMm caller (LamiaAtrium.mapPage (k.mms caller) pgn fpn)) := by
  have empty : (Pte.swapFrame ∘ k.pte) (caller, pageOf pgn) = none := by simp [Pte.swapFrame, unmapped.2]
  have unchanged := Function.update_eq_self (caller, pageOf pgn) (Pte.swapFrame ∘ k.pte)
  rw [empty] at unchanged
  exact owned.install k.activeMswp unmapped.1 (unchanged.symm ▸ owned.swap) owned.swapSmall

/-- The table side of the end of `pg_getpage`: the page takes the loose frame and its
swap frame becomes free. -/
theorem pageIn (owned : Owned (fpn :: loose) k) (swapped : pagingPageSwapped (k.pte (caller, pageOf pgn)) = true) :
    Owned loose ({ k with activeMswp := k.activeMswp.putFreefp ((pagingSwp (k.pte (caller, pageOf pgn))).setWidth 64) }.setMm
      caller (((k.mms caller).setFpn pgn fpn).enlistPgn pgn)) :=
  owned.install _ (Pte.not_resident_of_swapped swapped) (owned.swap.give (Pte.swapFrame_of_swapped swapped)) owned.swapSmall

/-- A page that `find_victim_page` popped and that nothing replaced stays resident; it
is only no longer listed. -/
theorem dropFifo (owned : Owned loose k) {fifoPgn : List Addr} (kept : fifoPgn.Sublist (k.mms caller).fifoPgn) :
    Owned loose (k.setMm caller { k.mms caller with fifoPgn }) := by
  have entries : (k.setMm caller { k.mms caller with fifoPgn }).pte = k.pte := pte_setMm_of_pgd k caller rfl
  constructor
  · rw [entries]; exact owned.ram
  · rw [entries]; exact owned.swap
  · intro p
    rw [Krnl.setMm_mms]
    split
    · next same => exact (kept.map pageOf).nodup (same ▸ owned.fifoNodup p)
    · exact owned.fifoNodup p
  · intro p listed member
    rw [entries]
    rw [Krnl.setMm_mms] at member
    split at member
    · next same => exact owned.fifoResident p listed (same ▸ kept.subset member)
    · exact owned.fifoResident p listed member
  · exact owned.ramSmall
  · exact owned.swapSmall

/-- The table side of the eviction: a resident page that is no longer listed moves to
the first free swap frame, and its RAM frame becomes loose. -/
theorem evict (owned : Owned loose k) {activeMswp : Memphy} (swptyp : CInt)
    (resident : (k.pte (caller, pageOf pgn)).resident = true)
    (unlisted : pageOf pgn ∉ (k.mms caller).fifoPgn.map pageOf)
    (taken : k.activeMswp.getFreefp = some (fpn, activeMswp)) :
    Owned ((pagingFpn (k.pte (caller, pageOf pgn))).setWidth 64 :: loose)
      ({ k with activeMswp }.setMm caller ((k.mms caller).setSwap pgn swptyp fpn)) := by
  have entries : ({ k with activeMswp }.setMm caller ((k.mms caller).setSwap pgn swptyp fpn)).pte =
      Function.update k.pte (caller, pageOf pgn) ((k.pte (caller, pageOf pgn)).setSwap swptyp fpn) :=
    pte_setMm { k with activeMswp } caller (pteAt_pteSetSwap _ pgn swptyp fpn)
  cases free : k.activeMswp.freeFpList with
  | nil => rw [Memphy.getFreefp_nil free] at taken; cases taken
  | cons first rest =>
    rw [Memphy.getFreefp_cons free] at taken
    cases taken
    have swap := owned.swap
    rw [free] at swap
    have small : fpn.toNat < 2 ^ 21 := Nat.lt_of_lt_of_le (swap.free_mem List.mem_cons_self) owned.swapSmall
    constructor
    · rw [entries, Function.comp_update, Pte.ramFrame_setSwap]
      exact owned.ram.give (Pte.ramFrame_of_resident resident)
    · rw [entries, Function.comp_update, Pte.swapFrame_setSwap swptyp small]
      exact swap.take (Pte.swapFrame_of_resident resident)
    · intro p
      rw [Krnl.setMm_mms]
      split
      · next same => exact same ▸ owned.fifoNodup p
      · exact owned.fifoNodup p
    · intro p listed member
      have listedBefore : listed ∈ (k.mms p).fifoPgn := by
        rw [Krnl.setMm_mms] at member
        split at member
        · next same => exact same ▸ member
        · exact member
      have apart : (p, pageOf listed) ≠ (caller, pageOf pgn) := by
        intro equal
        obtain ⟨sameProc, samePage⟩ := Prod.mk.inj equal
        subst sameProc
        exact unlisted (List.mem_map.mpr ⟨listed, listedBefore, samePage⟩)
      rw [entries, Function.update_of_ne apart]
      exact owned.fifoResident p listed listedBefore
    · exact owned.ramSmall
    · exact owned.swapSmall

end Owned
end LamiaAtrium
