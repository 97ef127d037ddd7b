import Mathlib.Data.List.Induction
import LamiaAtrium.Memphy

/-! The two access modes of a device against one memory of bytes. `MEMPHY_read` and
`MEMPHY_write` send a device that is not random-access to `MEMPHY_seq_read` and
`MEMPHY_seq_write`, and these refuse every device that is not random-access. -/

namespace LamiaAtrium

/-- The data of the last of these writes to an address, 0 if there is none. -/
def lastWritten (calls : List (Addr × Byte)) (addr : Addr) : Byte :=
  match calls.reverse.find? fun call => call.1 = addr with
  | some call => call.2
  | none => 0

/-- `MEMPHY_write` once for each pair of an address and its data. -/
def Memphy.writes : List (Addr × Byte) → Memphy → Outcome Memphy
  | [], mp => .ok mp
  | call :: calls, mp => do
    let (_, mp) ← mp.write call.1 call.2
    writes calls mp

/-- A call of `init_memphy`, and the writes at addresses of the device that came after it. -/
structure DeviceRun where
  found : Memphy
  maxSize : Addr
  randomflg : CInt
  next : List Addr
  calls : List (Addr × Byte)
  inside : ∀ call ∈ calls, call.1.toNat < maxSize.toNat

namespace DeviceRun

def device (run : DeviceRun) : Memphy := run.found.initMemphy run.maxSize.toNat run.randomflg run.next

/-- The address gives back what was last written there, and no write to another address
changes its byte. -/
structure ActsAsMemory (run : DeviceRun) (addr : Addr) : Prop where
  reads : ∃ after, run.device.writes run.calls = .ok after ∧
    ∀ value, after.read addr value = .ok (0, after, lastWritten run.calls addr)
  keeps : ∀ earlier call later, run.calls = earlier ++ call :: later → call.1 ≠ addr → ∃ before code after,
    run.device.writes earlier = .ok before ∧ before.write call.1 call.2 = .ok (code, after) ∧
      after.storage addr.toNat = before.storage addr.toNat

/-- After `__swap_cp_page` the destination reads, cell for cell, as what was last written to the
source frame, and the cells outside the frame are as before. -/
def CopiesFrame (uninit : Byte) (source target : DeviceRun) (srcfpn dstfpn : Addr) : Prop :=
  ∃ mpsrc mpdst after, source.device.writes source.calls = .ok mpsrc ∧ target.device.writes target.calls = .ok mpdst ∧
    swapCpPage uninit mpsrc srcfpn mpdst dstfpn = .ok (mpsrc, after) ∧
    (∀ cellidx < pagingPagesz, ∀ value, after.read (dstfpn * 256#64 + BitVec.ofNat 64 cellidx) value =
      .ok (0, after, lastWritten source.calls (srcfpn * 256#64 + BitVec.ofNat 64 cellidx))) ∧
    ∀ cell, cell < dstfpn.toNat * pagingPagesz ∨ dstfpn.toNat * pagingPagesz + pagingPagesz ≤ cell →
      after.storage cell = mpdst.storage cell

end DeviceRun

theorem lastWritten_concat (calls : List (Addr × Byte)) (call : Addr × Byte) (addr : Addr) :
    lastWritten (calls ++ [call]) addr = if call.1 = addr then call.2 else lastWritten calls addr := by
  rw [lastWritten, List.reverse_append, List.reverse_singleton, List.singleton_append, List.find?_cons]
  by_cases same : call.1 = addr
  · simp [same]
  · simp [same, lastWritten]

/-- The bytes after these writes. -/
def storedBytes (storage : Nat → Byte) (calls : List (Addr × Byte)) : Nat → Byte :=
  calls.foldl (fun storage call => Function.update storage call.1.toNat call.2) storage

theorem storedBytes_zeroed (calls : List (Addr × Byte)) (addr : Addr) :
    storedBytes (fun _ => 0) calls addr.toNat = lastWritten calls addr := by
  induction calls using List.reverseRecOn with
  | nil => rfl
  | append_singleton calls call ih =>
    rw [storedBytes, List.foldl_append, List.foldl_cons, List.foldl_nil, lastWritten_concat]
    by_cases same : call.1 = addr
    · rw [if_pos same, same, Function.update_self]
    · rw [if_neg same, Function.update_of_ne]
      · exact ih
      · exact fun equal => same (BitVec.eq_of_toNat_eq equal.symm)

namespace Memphy
variable {mp : Memphy} {calls : List (Addr × Byte)}

/-- A sequential device takes none of the writes. -/
theorem writes_eq (inside : ∀ call ∈ calls, call.1.toNat < mp.maxsz) :
    mp.writes calls = .ok { mp with storage := if mp.rdmflg then storedBytes mp.storage calls else mp.storage } := by
  induction calls generalizing mp with
  | nil =>
    rw [writes, storedBytes, List.foldl_nil, ite_self]
  | cons call calls ih =>
    have first := mp.write_eq (inside call List.mem_cons_self) call.2
    rw [writes, first, Outcome.bind_ok]
    dsimp only
    cases random : mp.rdmflg with
    | true => exact ih fun other member => inside other (List.mem_cons_of_mem _ member)
    | false => exact ih fun other member => inside other (List.mem_cons_of_mem _ member)

end Memphy

namespace DeviceRun
variable {addr srcfpn dstfpn : Addr} {calls : List (Addr × Byte)}

theorem device_fields (run : DeviceRun) : run.device.maxsz = run.maxSize.toNat ∧ run.device.rdmflg = (run.randomflg != 0) ∧
    run.device.storage = fun _ => 0 := by
  rw [device, Memphy.initMemphy_eq]
  exact ⟨rfl, rfl, rfl⟩

/-- The device after these writes. -/
def after (run : DeviceRun) (calls : List (Addr × Byte)) : Memphy :=
  { run.device with storage := if run.device.rdmflg then storedBytes (fun _ => 0) calls else fun _ => 0 }

theorem random_iff (run : DeviceRun) : run.device.rdmflg = true ↔ run.randomflg ≠ 0 := by
  rw [run.device_fields.2.1, bne_iff_ne]

theorem after_byte (run : DeviceRun) (addr : Addr) :
    (run.after calls).storage addr.toNat = if run.randomflg ≠ 0 then lastWritten calls addr else 0 := by
  rw [after]
  dsimp only
  by_cases random : run.randomflg ≠ 0
  · rw [if_pos (run.random_iff.mpr random), if_pos random, storedBytes_zeroed]
  · rw [if_neg (mt run.random_iff.mp random), if_neg random]

theorem wrote (run : DeviceRun) (part : ∀ call ∈ calls, call ∈ run.calls) : run.device.writes calls = .ok (run.after calls) := by
  obtain ⟨size, _, zeroed⟩ := run.device_fields
  rw [Memphy.writes_eq fun call member => size ▸ run.inside call (part call member), zeroed]
  rfl

theorem read_after (run : DeviceRun) (inside : addr.toNat < run.maxSize.toNat) (value : Byte) :
    (run.after calls).read addr value =
      if run.randomflg ≠ 0 then .ok (0, run.after calls, lastWritten calls addr) else .ok (-1, run.after calls, value) := by
  have size : addr.toNat < (run.after calls).maxsz := run.device_fields.1 ▸ inside
  rw [Memphy.read_eq _ size, run.after_byte]
  by_cases random : run.randomflg ≠ 0
  · have flag : (run.after calls).rdmflg = true := run.random_iff.mpr random
    rw [if_pos flag, if_pos flag, if_pos random, if_pos random]
  · have flag : ¬(run.after calls).rdmflg = true := mt run.random_iff.mp random
    rw [if_neg flag, if_neg flag, if_neg random]

theorem actsAsMemory_iff (run : DeviceRun) (inside : addr.toNat < run.maxSize.toNat) :
    run.ActsAsMemory addr ↔ run.randomflg ≠ 0 := by
  have ran := run.wrote fun _ member => member
  constructor
  · intro acts
    obtain ⟨last, wrote, reads⟩ := acts.reads
    rw [ran] at wrote
    cases wrote
    intro sequential
    have refused := reads 0
    rw [run.read_after inside, if_neg (not_not_intro sequential)] at refused
    cases refused
  · intro random
    refine ⟨⟨_, ran, fun value => ?_⟩, ?_⟩
    · rw [run.read_after inside, if_pos random]
    · intro earlier call later split other
      have part : ∀ before ∈ earlier, before ∈ run.calls := fun before member => split ▸ List.mem_append_left _ member
      have here : call.1.toNat < run.maxSize.toNat := run.inside call (split ▸ List.mem_append_right _ List.mem_cons_self)
      have size : call.1.toNat < (run.after earlier).maxsz := run.device_fields.1 ▸ here
      refine ⟨_, _, _, run.wrote part, Memphy.write_eq _ size _, ?_⟩
      dsimp only
      split
      · exact Function.update_of_ne (fun same => other (BitVec.eq_of_toNat_eq same.symm)) ..
      · rfl

/-- How the cells of the destination frame read after the copy, and what lies outside it. -/
theorem copied (source target : DeviceRun) (uninit : Byte) (sourceLt : srcfpn.toNat < source.maxSize.toNat / pagingPagesz)
    (targetLt : dstfpn.toNat < target.maxSize.toNat / pagingPagesz) :
    ∃ last : Memphy, swapCpPage uninit (source.after source.calls) srcfpn (target.after target.calls) dstfpn =
        .ok (source.after source.calls, last) ∧
      (∀ cellidx < pagingPagesz, ∀ value, last.read (dstfpn * 256#64 + BitVec.ofNat 64 cellidx) value =
        if target.randomflg ≠ 0 then .ok (0, last,
          if source.randomflg ≠ 0 then lastWritten source.calls (srcfpn * 256#64 + BitVec.ofNat 64 cellidx) else uninit)
        else .ok (-1, last, value)) ∧
      ∀ cell, cell < dstfpn.toNat * pagingPagesz ∨ dstfpn.toNat * pagingPagesz + pagingPagesz ≤ cell →
        last.storage cell = (target.after target.calls).storage cell := by
  have small {fpn size : Addr} (inside : fpn.toNat < size.toNat / pagingPagesz) : fpn.toNat < 2 ^ 56 := by
    have bound := size.isLt
    rw [pagingPagesz] at inside
    omega
  have sourceFrame : srcfpn.toNat < (source.after source.calls).frames := by
    rw [Memphy.frames]
    exact source.device_fields.1 ▸ sourceLt
  have targetFrame : dstfpn.toNat < (target.after target.calls).frames := by
    rw [Memphy.frames]
    exact target.device_fields.1 ▸ targetLt
  refine ⟨_, swapCpPage_eq uninit sourceFrame targetFrame (small sourceLt) (small targetLt), ?_, ?_⟩
  · intro cellidx cell value
    obtain ⟨place, below⟩ := frame_address cellidx targetLt (small targetLt) cell
    have inside : (dstfpn * 256#64 + BitVec.ofNat 64 cellidx).toNat < (target.after target.calls).maxsz := by
      rw [place]
      exact target.device_fields.1 ▸ below
    refine (Memphy.read_eq _ ?_ value).trans ?_
    · exact inside
    dsimp only
    by_cases random : target.randomflg ≠ 0
    · have flag : (target.after target.calls).rdmflg = true := target.random_iff.mpr random
      have byte : storedCells uninit (source.after source.calls) (target.after target.calls) srcfpn.toNat dstfpn.toNat pagingPagesz
          (dstfpn * 256#64 + BitVec.ofNat 64 cellidx).toNat =
            if source.randomflg ≠ 0 then lastWritten source.calls (srcfpn * 256#64 + BitVec.ofNat 64 cellidx) else uninit := by
        rw [place, storedCells, if_pos flag, copiedCells, if_pos ⟨Nat.le_add_right _ _, Nat.add_lt_add_left cell _⟩, Nat.add_sub_cancel_left]
        by_cases random : source.randomflg ≠ 0
        · have flag : (source.after source.calls).rdmflg = true := source.random_iff.mpr random
          rw [if_pos flag, if_pos random, ← (frame_address cellidx sourceLt (small sourceLt) cell).1, source.after_byte, if_pos random]
        · have flag : ¬(source.after source.calls).rdmflg = true := mt source.random_iff.mp random
          rw [if_neg flag, if_neg random]
      rw [if_pos flag, if_pos flag, if_pos random, byte]
    · have flag : ¬(target.after target.calls).rdmflg = true := mt target.random_iff.mp random
      rw [if_neg flag, if_neg flag, if_neg random]
  · intro cell outside
    dsimp only
    rw [storedCells]
    split
    · rw [copiedCells, if_neg (by omega)]
    · rfl

theorem copiesFrame_iff (source target : DeviceRun) (uninit : Byte) (sourceLt : srcfpn.toNat < source.maxSize.toNat / pagingPagesz)
    (targetLt : dstfpn.toNat < target.maxSize.toNat / pagingPagesz) :
    CopiesFrame uninit source target srcfpn dstfpn ↔ target.randomflg ≠ 0 ∧ (source.randomflg ≠ 0 ∨
      ∀ cellidx < pagingPagesz, lastWritten source.calls (srcfpn * 256#64 + BitVec.ofNat 64 cellidx) = uninit) := by
  obtain ⟨last, ran, cells, others⟩ := copied source target uninit sourceLt targetLt
  have wroteSource := source.wrote fun _ member => member
  have wroteTarget := target.wrote fun _ member => member
  constructor
  · intro copies
    obtain ⟨mpsrc, mpdst, after, sourceRan, targetRan, moved, reads, _⟩ := copies
    cases wroteSource.symm.trans sourceRan
    cases wroteTarget.symm.trans targetRan
    cases ran.symm.trans moved
    have random : target.randomflg ≠ 0 := by
      intro sequential
      have refused := (cells 0 (by decide) 0).symm.trans (reads 0 (by decide) 0)
      rw [if_neg (not_not_intro sequential)] at refused
      cases refused
    refine ⟨random, ?_⟩
    by_cases flag : source.randomflg ≠ 0
    · exact .inl flag
    · right
      intro cellidx cell
      have byte := (cells cellidx cell 0).symm.trans (reads cellidx cell 0)
      rw [if_pos random, if_neg flag] at byte
      exact (Prod.mk.inj (Prod.mk.inj (Except.ok.inj byte)).2).2.symm
  · intro claimed
    obtain ⟨random, content⟩ := claimed
    refine ⟨_, _, last, wroteSource, wroteTarget, ran, ?_, others⟩
    intro cellidx cell value
    rw [cells cellidx cell value, if_pos random]
    by_cases flag : source.randomflg ≠ 0
    · rw [if_pos flag]
    · rw [if_neg flag, (content.resolve_left flag) cellidx cell]

end DeviceRun

/-- An address behaves as memory exactly on a random-access device. A frame is copied exactly
between two of them, and into one from a sequential device only if the local variable that
`MEMPHY_read` leaves alone happens to hold every byte of it. -/
theorem access_modes_alike_iff {run source target : DeviceRun} {addr srcfpn dstfpn : Addr} (uninit : Byte)
    (inside : addr.toNat < run.maxSize.toNat) (sourceLt : srcfpn.toNat < source.maxSize.toNat / pagingPagesz)
    (targetLt : dstfpn.toNat < target.maxSize.toNat / pagingPagesz) :
    (run.ActsAsMemory addr ↔ run.randomflg ≠ 0) ∧
    (DeviceRun.CopiesFrame uninit source target srcfpn dstfpn ↔ target.randomflg ≠ 0 ∧ (source.randomflg ≠ 0 ∨
      ∀ cellidx < pagingPagesz, lastWritten source.calls (srcfpn * 256#64 + BitVec.ofNat 64 cellidx) = uninit)) :=
  ⟨run.actsAsMemory_iff inside, DeviceRun.copiesFrame_iff source target uninit sourceLt targetLt⟩

/-- A device of two pages in this mode, after 7 was written at address 5. -/
def twoPages (randomflg : CInt) : DeviceRun where
  found := { storage := fun _ => 0, maxsz := 0, rdmflg := false, cursor := 0, freeFpList := [] }
  maxSize := 512
  randomflg := randomflg
  next := []
  calls := [(5, 7)]
  inside call member := by
    rw [List.mem_singleton.mp member]
    decide

theorem access_modes_alike_iff_twoPages :
    ((twoPages 1).ActsAsMemory 5 ↔ (twoPages 1).randomflg ≠ 0) ∧
    (DeviceRun.CopiesFrame 0 (twoPages 0) (twoPages 1) 0 1 ↔ (twoPages 1).randomflg ≠ 0 ∧ ((twoPages 0).randomflg ≠ 0 ∨
      ∀ cellidx < pagingPagesz, lastWritten (twoPages 0).calls (0 * 256#64 + BitVec.ofNat 64 cellidx) = 0)) :=
  access_modes_alike_iff 0 (by decide) (by decide) (by decide)

/-- With the flag 0 the write and the read at address 5 return -1, and a copy in either
direction loses the byte. -/
theorem sequential_device_refuses :
    ((twoPages 0).device.write 5 7).map Prod.fst = .ok (-1) ∧ ((twoPages 0).device.read 5 0).map Prod.fst = .ok (-1) ∧
      ¬(twoPages 0).ActsAsMemory 5 ∧ ¬DeviceRun.CopiesFrame 0 (twoPages 0) (twoPages 1) 0 1 ∧
      ¬DeviceRun.CopiesFrame 0 (twoPages 1) (twoPages 0) 0 1 := by
  refine ⟨rfl, rfl, fun acts => ?_, fun copies => ?_, fun copies => ?_⟩
  · exact ((twoPages 0).actsAsMemory_iff (by decide)).mp acts rfl
  · obtain ⟨_, wrong | content⟩ := (DeviceRun.copiesFrame_iff (twoPages 0) (twoPages 1) 0 (by decide) (by decide)).mp copies
    · exact wrong rfl
    · exact absurd (content 5 (by decide)) (by decide)
  · exact ((DeviceRun.copiesFrame_iff (twoPages 1) (twoPages 0) 0 (by decide) (by decide)).mp copies).1 rfl

end LamiaAtrium
