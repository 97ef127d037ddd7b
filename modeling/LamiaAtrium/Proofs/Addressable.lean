import LamiaAtrium.Library.Run
import LamiaAtrium.Proofs.Instructions

/-! Frame numbers against the width of the fields that hold them. `read_config` accepts
any device size; an entry has 13 bits for a RAM frame and 21 for a swap frame. -/

namespace LamiaAtrium
open Run

section Fields
variable (pte : Pte) (fpn swpoff : Addr) (swptyp : CInt)

/-- A frame number comes back from the entry exactly if it fits the field. -/
theorem pagingFpn_setFpn_iff : (pagingFpn (pte.setFpn fpn)).setWidth 64 = fpn ↔ fpn.toNat < 2 ^ 13 := by
  constructor
  · intro back
    have bound := pagingFpn_lt (pte.setFpn fpn)
    rw [← back, BitVec.toNat_setWidth_of_le (by decide)]
    exact bound
  · exact pagingFpn_setFpn_of_lt pte fpn

theorem pagingSwp_setSwap_iff : (pagingSwp (pte.setSwap swptyp swpoff)).setWidth 64 = swpoff ↔ swpoff.toNat < 2 ^ 21 := by
  constructor
  · intro back
    have bound := pagingSwp_lt (pte.setSwap swptyp swpoff)
    rw [← back, BitVec.toNat_setWidth_of_le (by decide)]
    exact bound
  · exact pagingSwp_setSwap_of_lt pte swpoff swptyp

end Fields

section Device
variable {mp after : Memphy} {fpn : Addr}

inductive DeviceCall where
  | get (fpn : Addr)
  | put (fpn : Addr)

/-- The calls of `MEMPHY_get_freefp` that succeed and of `MEMPHY_put_freefp`; a number that is
put back is one that was handed out before. -/
inductive DeviceStep : Memphy × List Addr → DeviceCall → Memphy × List Addr → Prop where
  | get {mp after : Memphy} {taken : List Addr} {fpn : Addr} :
      mp.getFreefp = some (fpn, after) → DeviceStep (mp, taken) (.get fpn) (after, fpn :: taken)
  | put {mp : Memphy} {taken : List Addr} {fpn : Addr} :
      fpn ∈ taken → DeviceStep (mp, taken) (.put fpn) (mp.putFreefp fpn, taken)

/-- Some sequence of calls on the device hands out this frame. -/
def HandsOut (mp : Memphy) (fpn : Addr) : Prop :=
  ∃ calls after taken, Steps DeviceStep (mp, []) calls (after, taken) ∧ fpn ∈ taken

theorem DeviceStep.conserves {before after : Memphy × List Addr} {call : DeviceCall} (listed : Addr → Prop)
    (step : DeviceStep before call after) (all : ∀ fpn, fpn ∈ before.1.freeFpList ∨ fpn ∈ before.2 → listed fpn) :
    ∀ fpn, fpn ∈ after.1.freeFpList ∨ fpn ∈ after.2 → listed fpn := by
  intro other place
  apply all
  cases step with
  | @get mp rest taken fpn given =>
    obtain ⟨frames, list, rfl⟩ := getFreefp_some given
    rcases place with free | out
    · exact .inl (list ▸ List.mem_cons_of_mem _ free)
    · rcases List.mem_cons.mp out with rfl | out
      · exact .inl (list ▸ List.mem_cons_self)
      · exact .inr out
  | @put mp taken fpn had =>
    rcases place with free | out
    · rcases List.mem_cons.mp free with rfl | free
      · exact .inr had
      · exact .inl free
    · exact .inr out

private theorem takes_listed (before rest taken : List Addr) (listed : mp.freeFpList = before ++ fpn :: rest) :
    ∃ calls after others, Steps DeviceStep (mp, taken) calls (after, others) ∧ fpn ∈ others := by
  induction before generalizing mp taken with
  | nil => exact ⟨_, _, _, .single (.get (Memphy.getFreefp_cons listed)), List.mem_cons_self⟩
  | cons first before ih =>
    obtain ⟨calls, after, others, run, out⟩ := @ih { mp with freeFpList := before ++ fpn :: rest } (first :: taken) rfl
    exact ⟨_, after, others, .cons (.get (Memphy.getFreefp_cons listed)) run, out⟩

/-- A device hands out the numbers on its list and no others. -/
theorem handsOut_iff : HandsOut mp fpn ↔ fpn ∈ mp.freeFpList := by
  constructor
  · intro claimed
    obtain ⟨calls, after, taken, run, out⟩ := claimed
    have all := run.invariant (fun other place => place.resolve_right (List.not_mem_nil))
      fun _ _ _ kept step => step.conserves (fun other => other ∈ mp.freeFpList) kept
    exact all fpn (.inr out)
  · intro listed
    obtain ⟨before, rest, list⟩ := List.append_of_mem listed
    exact takes_listed before rest [] list

end Device

section Format

/-- The numbers on the list of a new device. -/
theorem mem_initMemphy_freeFpList {mp : Memphy} {maxSize : Nat} {randomflg : CInt} {next : List Addr} {fpn : Addr}
    (size : maxSize < 2 ^ 31) : fpn ∈ (mp.initMemphy maxSize randomflg next).freeFpList ↔
      fpn.toNat < maxSize / pagingPagesz ∨ fpn ∈ mp.staleFrames maxSize next := by
  have small : maxSize / pagingPagesz < 2 ^ 64 := by
    simp only [pagingPagesz]
    omega
  rw [Memphy.initMemphy_eq, List.mem_append, List.mem_map]
  apply or_congr_left
  constructor
  · intro numbered
    obtain ⟨number, below, rfl⟩ := numbered
    have inside := List.mem_range.mp below
    rw [BitVec.toNat_ofNat]
    omega
  · intro below
    exact ⟨fpn.toNat, List.mem_range.mpr below, by simp⟩

/-- A device whose size or leftover memory puts no number beyond `limit` on the list. -/
def FramesBelow (limit : Nat) (mp : Memphy) (maxSize : Nat) (next : List Addr) : Prop :=
  maxSize / pagingPagesz ≤ limit ∧ ∀ fpn ∈ mp.staleFrames maxSize next, fpn.toNat < limit

theorem framesBelow_iff {limit : Nat} {mp : Memphy} {maxSize : Nat} {randomflg : CInt} {next : List Addr} (size : maxSize < 2 ^ 31) :
    FramesBelow limit mp maxSize next ↔ ∀ fpn, HandsOut (mp.initMemphy maxSize randomflg next) fpn → fpn.toNat < limit := by
  simp only [handsOut_iff, mem_initMemphy_freeFpList size]
  constructor
  · intro both fpn place
    obtain ⟨frames, stale⟩ := both
    rcases place with below | old
    · omega
    · exact stale fpn old
  · intro all
    refine ⟨?_, fun fpn old => all fpn (.inr old)⟩
    apply Nat.le_of_not_lt
    intro many
    have width : limit < 2 ^ 64 := by
      simp only [pagingPagesz] at many
      omega
    have number : (BitVec.ofNat 64 limit).toNat = limit := by
      rw [BitVec.toNat_ofNat, Nat.mod_eq_of_lt width]
    have short := all (BitVec.ofNat 64 limit) (.inl (by omega))
    omega

end Format

section Law

/-- Every RAM frame that can be handed out comes back from any entry that names it, with the
physical address `pg_getval` and `pg_setval` compute, and no two frames share an encoding. -/
structure RamAddressable (mram : Memphy) : Prop where
  readBack : ∀ fpn, HandsOut mram fpn → ∀ pte : Pte, (pagingFpn (pte.setFpn fpn)).setWidth 64 = fpn
  address : ∀ fpn, HandsOut mram fpn → ∀ (pte : Pte) (addr : CInt),
    (addrParam (phyAddr (pagingFpn (pte.setFpn fpn)) (pagingOffst addr))).toNat = fpn.toNat * 256 + (pagingOffst addr).toNat
  apart : ∀ first second, HandsOut mram first → HandsOut mram second → ∀ pte other : Pte,
    pte.setFpn first = other.setFpn second → first = second

structure SwapAddressable (mswp : Memphy) : Prop where
  readBack : ∀ swpfpn, HandsOut mswp swpfpn → ∀ (pte : Pte) (swptyp : CInt),
    (pagingSwp (pte.setSwap swptyp swpfpn)).setWidth 64 = swpfpn
  apart : ∀ first second, HandsOut mswp first → HandsOut mswp second → ∀ (pte other : Pte) (swptyp otherTyp : CInt),
    pte.setSwap swptyp first = other.setSwap otherTyp second → first = second

variable {mram mswp : Memphy}

theorem ramAddressable_iff : RamAddressable mram ↔ ∀ fpn, HandsOut mram fpn → fpn.toNat < 2 ^ 13 := by
  constructor
  · intro law fpn out
    exact (pagingFpn_setFpn_iff 0 fpn).mp (law.readBack fpn out 0)
  · intro small
    have readBack fpn (out : HandsOut mram fpn) (pte : Pte) : (pagingFpn (pte.setFpn fpn)).setWidth 64 = fpn :=
      (pagingFpn_setFpn_iff pte fpn).mpr (small fpn out)
    constructor
    · exact readBack
    · intro fpn out pte addr
      have number : (pagingFpn (pte.setFpn fpn)).toNat = fpn.toNat := by
        rw [← BitVec.toNat_setWidth_of_le (show 32 ≤ 64 by decide), readBack fpn out pte]
      have offset : (pagingOffst addr).toNat < pagingPagesz := (offsetOf addr).isLt
      have width := pagingFpn_lt (pte.setFpn fpn)
      rw [addrParam_phyAddr_toNat (by omega) offset, number]
      rfl
    · intro first second outFirst outSecond pte other same
      rw [← readBack first outFirst pte, same, readBack second outSecond other]

theorem swapAddressable_iff : SwapAddressable mswp ↔ ∀ swpfpn, HandsOut mswp swpfpn → swpfpn.toNat < 2 ^ 21 := by
  constructor
  · intro law swpfpn out
    exact (pagingSwp_setSwap_iff 0 swpfpn 0).mp (law.readBack swpfpn out 0 0)
  · intro small
    have readBack swpfpn (out : HandsOut mswp swpfpn) (pte : Pte) (swptyp : CInt) :
        (pagingSwp (pte.setSwap swptyp swpfpn)).setWidth 64 = swpfpn :=
      (pagingSwp_setSwap_iff pte swpfpn swptyp).mpr (small swpfpn out)
    constructor
    · exact readBack
    · intro first second outFirst outSecond pte other swptyp otherTyp same
      rw [← readBack first outFirst pte swptyp, same, readBack second outSecond other otherTyp]

/-- The frames of the two devices are all addressable exactly if the sizes stay within the
fields: 2^13 frames of RAM and 2^21 of swap. -/
theorem every_frame_addressable_iff {mram mswp : Memphy} {ramsz swpsz : Nat} {randomflg : CInt} {next nextSwp : List Addr}
    (ram : ramsz < 2 ^ 31) (swap : swpsz < 2 ^ 31) :
    RamAddressable (mram.initMemphy ramsz randomflg next) ∧ SwapAddressable (mswp.initMemphy swpsz randomflg nextSwp) ↔
      FramesBelow (2 ^ 13) mram ramsz next ∧ FramesBelow (2 ^ 21) mswp swpsz nextSwp := by
  rw [ramAddressable_iff, swapAddressable_iff, framesBelow_iff ram, framesBelow_iff swap]

/-- A device in cleared memory. -/
def cleared : Memphy := { storage := fun _ => 0, maxsz := 0, rdmflg := false, cursor := 0, freeFpList := [] }

/-- The sizes of the paging configurations: 1 MB of RAM, 16 MB of swap. -/
theorem every_frame_addressable_iff_megabyte :
    RamAddressable (cleared.initMemphy 1048576 1 []) ∧ SwapAddressable (cleared.initMemphy 16777216 1 []) ↔
      FramesBelow (2 ^ 13) cleared 1048576 [] ∧ FramesBelow (2 ^ 21) cleared 16777216 [] :=
  every_frame_addressable_iff (by decide) (by decide)

/-- In 4 MB of RAM, frames 0 and 8192 are one frame to every entry that names them. -/
theorem four_megabytes_alias :
    HandsOut (cleared.initMemphy 4194304 1 []) 0 ∧ HandsOut (cleared.initMemphy 4194304 1 []) 8192 ∧
      (0 : Pte).setFpn 0 = (0 : Pte).setFpn 8192 ∧ pagingFpn ((0 : Pte).setFpn 8192) = 0 ∧
      ¬RamAddressable (cleared.initMemphy 4194304 1 []) := by
  have out {fpn : Addr} (below : fpn.toNat < 16384) : HandsOut (cleared.initMemphy 4194304 1 []) fpn := by
    apply handsOut_iff.mpr
    apply (mem_initMemphy_freeFpList (by decide)).mpr
    exact .inl below
  refine ⟨out (by decide), out (by decide), by decide, by decide, ?_⟩
  intro law
  exact absurd (ramAddressable_iff.mp law 8192 (out (by decide))) (by decide)

end Law
end LamiaAtrium
