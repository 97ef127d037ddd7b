import LamiaAtrium.Proofs.Interference
import LamiaAtrium.Proofs.ReadBack
import LamiaAtrium.Proofs.Rollback

/-! What an instruction of one process does to another with which it shares no frame. The
library calls reach its frames only where these are free or a FIFO is out of date; the raw
system call reaches whatever its arguments name. -/

namespace LamiaAtrium
open Run
variable {Proc : Type} [DecidableEq Proc] {env : Env Proc} {k after : Krnl Proc} {a b found : Proc} {code : Int}

section Growth
variable {vmaid : CInt} {incSz : Addr}

/-- Mapping `count` pages of `b` from `addr` on changes an entry: with its frame, the last page
of the range with this number has another one than before. The frames come off the free list
first to last and go to the pages last to first. -/
def MapsAnew (k : Krnl Proc) (b : Proc) (addr : Addr) (count : Nat) : Prop :=
  count ≤ k.mram.freeFpList.length ∧ ∃ i fpn, i < count ∧ k.mram.freeFpList[count - 1 - i]? = some fpn ∧
    (∀ j < count, i < j → pageOf (pgnAt addr j) ≠ pageOf (pgnAt addr i)) ∧
    (k.pte (b, pageOf (pgnAt addr i))).setFpn fpn ≠ k.pte (b, pageOf (pgnAt addr i))

/-- The FIFO of `b` after `count` pages from `addr` on were mapped for `found`. -/
def listedAfter (k : Krnl Proc) (found b : Proc) (addr : Addr) (count : Nat) : List Addr :=
  if found = b then ((List.range count).map (pgnAt addr)).reverse ++ (k.mms b).fifoPgn else (k.mms b).fifoPgn

/-- The growth for `found` takes every free frame, and a READ of `b` needs one. -/
def TakesEveryFrame (env : Env Proc) (k : Krnl Proc) (found b : Proc) (addr : Addr) (count : Nat) : Prop :=
  0 < count ∧ count = k.mram.freeFpList.length ∧
    NeedsFrame env k b k.activeMswp.freeFpList (k.frameOfOldest b (listedAfter k found b addr count))

/-- A growth by `found` that `inc_vma_limit` does not refuse shows at process `b`: it moves
the break of `b`, changes an entry of `b`, or takes a frame that `b` needs. -/
def GrowthReaches (env : Env Proc) (k : Krnl Proc) (found b : Proc) (vmaid : CInt) (incSz : Addr) : Prop :=
  ∃ owner index vma, k.mm = some owner ∧ getVmaByNum (k.mms owner) vmaid = .ok (some (index, vma)) ∧
    ¬GrowthRefused (k.mms owner) index vma (pagingAlign incSz) ∧
    ((owner = b ∨ (found = b ∧ MapsAnew k b vma.sbrk (pagesMapped incSz))) ∨
      TakesEveryFrame env k found b vma.sbrk (pagesMapped incSz))

theorem growthReaches_iff {owner : Proc} {index : Nat} {vma : VmArea} (own : k.mm = some owner)
    (area : getVmaByNum (k.mms owner) vmaid = .ok (some (index, vma)))
    (accepted : ¬GrowthRefused (k.mms owner) index vma (pagingAlign incSz)) :
    GrowthReaches env k found b vmaid incSz ↔ ((owner = b ∨ (found = b ∧ MapsAnew k b vma.sbrk (pagesMapped incSz))) ∨
      TakesEveryFrame env k found b vma.sbrk (pagesMapped incSz)) := by
  refine ⟨fun reaches => ?_, fun reaches => ⟨owner, index, vma, own, area, accepted, reaches⟩⟩
  obtain ⟨other, _, _, same, found, _, reaches⟩ := reaches
  cases own.symm.trans same
  cases area.symm.trans found
  exact reaches

/-- The free RAM frames after a growth by this many pages. -/
def framesLeft (mram : Memphy) (frames : Nat) : List Addr :=
  if frames ≤ mram.freeFpList.length then mram.freeFpList.drop frames else mram.freeFpList

theorem framesLeft_sub {mram : Memphy} {frames : Nat} {fpn : Addr} (member : fpn ∈ framesLeft mram frames) : fpn ∈ mram.freeFpList := by
  unfold framesLeft at member
  split at member
  · exact List.mem_of_mem_drop member
  · exact member

theorem grownFor_lists (k : Krnl Proc) (found owner : Proc) (index : Nat) (vma : VmArea) (incSz : Addr) :
    (grownFor k found owner index vma incSz).mram = { k.mram with freeFpList := framesLeft k.mram (pagesMapped incSz) } ∧
      (grownFor k found owner index vma incSz).activeMswp = k.activeMswp := by
  rw [grownFor, framesLeft, Krnl.setMm_mram, Krnl.setMm_activeMswp]
  by_cases enough : pagesMapped incSz ≤ k.mram.freeFpList.length
  · rw [vmMapRam_enough enough, if_pos enough]
    exact ⟨rfl, rfl⟩
  · rw [vmMapRam_short (Nat.lt_of_not_le enough), if_neg enough]
    exact ⟨rfl, rfl⟩

section Range
variable {astart aend mapstart : Addr} {incpgnum : CInt} {rg : VmRg}

omit [DecidableEq Proc] in
private theorem taken_length (enough : rounds incpgnum ≤ k.mram.freeFpList.length) :
    (k.mram.freeFpList.take (rounds incpgnum)).length = rounds incpgnum := by
  rw [List.length_take, Nat.min_eq_left enough]

/-- Mapping a range changes the entries of `b` only where it maps pages for `b`. -/
theorem vmMapRam_entries (kept : ¬(found = b ∧ MapsAnew k b mapstart (rounds incpgnum))) (page : Page) :
    (vmMapRam k found astart aend mapstart incpgnum rg).2.2.pte (b, page) = k.pte (b, page) := by
  by_cases mine : found = b
  · subst mine
    by_cases enough : rounds incpgnum ≤ k.mram.freeFpList.length
    · have taken := taken_length enough
      rw [vmMapRam_enough enough]
      simp only [Krnl.pte, Krnl.setMm_same]
      apply mapFrames_unchanged
      intro j inside last
      rw [List.length_reverse, taken] at inside last
      by_contra differs
      refine kept ⟨rfl, enough, j, _, inside, ?_, last, differs⟩
      rw [List.getElem_reverse, List.getElem_take, List.getElem?_eq_some_iff]
      exact ⟨by omega, by simp only [taken]⟩
    · rw [vmMapRam_short (Nat.lt_of_not_le enough)]
  · rw [Krnl.pte, vmMapRam_others (Ne.symm mine), Krnl.pte]

theorem vmMapRam_anew (anew : MapsAnew k b mapstart (rounds incpgnum)) :
    ∃ page, (vmMapRam k b astart aend mapstart incpgnum rg).2.2.pte (b, page) ≠ k.pte (b, page) := by
  obtain ⟨enough, i, fpn, below, frame, last, differs⟩ := anew
  have taken := taken_length enough
  have inside : i < (k.mram.freeFpList.take (rounds incpgnum)).reverse.length := by rwa [List.length_reverse, taken]
  have round := @mapFrames_inside mapstart 0 (k.mram.freeFpList.take (rounds incpgnum)).reverse (k.mms b) i inside fun l below later => by
    rw [Nat.zero_add, Nat.zero_add]
    rw [List.length_reverse, taken] at below
    exact last l below later
  obtain ⟨_, frame⟩ := List.getElem?_eq_some_iff.mp frame
  simp only [Nat.zero_add, List.getElem_reverse, List.getElem_take, taken, frame] at round
  refine ⟨pageOf (pgnAt mapstart i), fun same => differs ?_⟩
  rw [vmMapRam_enough enough] at same
  simp only [Krnl.pte, Krnl.setMm_same] at same
  exact round.symm.trans same

theorem vmMapRam_fifoPgn : ((vmMapRam k found astart aend mapstart incpgnum rg).2.2.mms b).fifoPgn =
    if found = b ∧ rounds incpgnum ≤ k.mram.freeFpList.length then
      ((List.range (rounds incpgnum)).map (pgnAt mapstart)).reverse ++ (k.mms b).fifoPgn
    else (k.mms b).fifoPgn := by
  by_cases mine : found = b
  · subst mine
    by_cases enough : rounds incpgnum ≤ k.mram.freeFpList.length
    · rw [if_pos ⟨rfl, enough⟩, vmMapRam_enough enough, Krnl.setMm_same, mapFrames_fifoPgn, List.length_reverse, taken_length enough,
        List.range_eq_range']
    · rw [if_neg fun both => enough both.2, vmMapRam_short (Nat.lt_of_not_le enough)]
  · rw [if_neg fun both => mine both.1, vmMapRam_others (Ne.symm mine)]

end Range

theorem grownFor_entries (owner : Proc) (index : Nat) (vma : VmArea) (kept : ¬(found = b ∧ MapsAnew k b vma.sbrk (pagesMapped incSz)))
    (page : Page) : (grownFor k found owner index vma incSz).pte (b, page) = k.pte (b, page) := by
  rw [grownFor_pte]
  exact vmMapRam_entries kept page

theorem grownFor_anew (owner : Proc) (index : Nat) (vma : VmArea) (anew : MapsAnew k b vma.sbrk (pagesMapped incSz)) :
    ∃ page, (grownFor k b owner index vma incSz).pte (b, page) ≠ k.pte (b, page) := by
  rw [grownFor_pte]
  exact vmMapRam_anew anew

theorem grownFor_fifoPgn (found owner : Proc) (index : Nat) (vma : VmArea) (incSz : Addr) :
    ((grownFor k found owner index vma incSz).mms b).fifoPgn =
      if found = b ∧ pagesMapped incSz ≤ k.mram.freeFpList.length then
        ((List.range (pagesMapped incSz)).map (pgnAt vma.sbrk)).reverse ++ (k.mms b).fifoPgn
      else (k.mms b).fifoPgn := by
  rw [grownFor, Krnl.setMm_mms]
  split
  · next same =>
    subst same
    exact vmMapRam_fifoPgn
  · exact vmMapRam_fifoPgn

/-- The area of the owner has another break. -/
theorem grownFor_grows {owner : Proc} {index : Nat} {vma : VmArea} (area : getVmaByNum (k.mms owner) vmaid = .ok (some (index, vma)))
    (accepted : ¬GrowthRefused (k.mms owner) index vma (pagingAlign incSz)) :
    ((grownFor k found owner index vma incSz).mms owner).mmap ≠ (k.mms owner).mmap := by
  intro same
  rw [grownFor_mmap, if_pos rfl] at same
  have here := congrArg (·[index]?) same
  rw [List.getElem?_modify_eq, getVmaByNum_ok area] at here
  have brk := congrArg VmArea.sbrk (Option.some.inj here)
  exact accepted (.inl (BitVec.le_of_eq brk))

/-- The way in for `b` after the growth. -/
theorem grownFor_way (owner : Proc) (index : Nat) (vma : VmArea) (kept : ¬(found = b ∧ MapsAnew k b vma.sbrk (pagesMapped incSz))) :
    (∀ reqSwpfpn offset, AsksFor k b reqSwpfpn offset →
      swappedResult env k b reqSwpfpn offset ((grownFor k found owner index vma incSz).way b) =
        swappedResult env k b reqSwpfpn offset (k.way b)) ↔ ¬TakesEveryFrame env k found b vma.sbrk (pagesMapped incSz) := by
  obtain ⟨ram, swap⟩ := grownFor_lists k found owner index vma incSz
  have way : (grownFor k found owner index vma incSz).way b = wayIn (framesLeft k.mram (pagesMapped incSz)) k.activeMswp.freeFpList
      (k.frameOfOldest b (if found = b ∧ pagesMapped incSz ≤ k.mram.freeFpList.length then
        ((List.range (pagesMapped incSz)).map (pgnAt vma.sbrk)).reverse ++ (k.mms b).fifoPgn else (k.mms b).fifoPgn)) := by
    rw [Krnl.way, frameOfOldest_congr (grownFor_entries owner index vma kept), grownFor_fifoPgn, ram, swap]
  rw [way, TakesEveryFrame, framesLeft]
  generalize pagesMapped incSz = count
  have full (empty : k.mram.freeFpList = []) : k.mram.freeFpList.length = 0 := by rw [empty]; rfl
  rcases Nat.lt_trichotomy count k.mram.freeFpList.length with less | same | more
  · -- a free frame is left
    have before : k.mram.freeFpList ≠ [] := fun empty => by rw [full empty] at less; omega
    have later : k.mram.freeFpList.drop count ≠ [] := fun empty => by rw [List.drop_eq_nil_iff] at empty; omega
    rw [if_pos (Nat.le_of_lt less), wayIn_free later, Krnl.way, wayIn_free before]
    exact iff_of_true (fun _ _ _ => rfl) fun claimed => absurd claimed.2.1 (Nat.ne_of_lt less)
  · rw [if_pos (Nat.le_of_eq same), List.drop_eq_nil_of_le (Nat.le_of_eq same.symm)]
    simp only [Nat.le_of_eq same, and_true]
    by_cases none : count = 0
    · have empty : k.mram.freeFpList = [] := List.length_eq_zero_iff.mp (same.symm.trans none)
      rw [Krnl.way, empty, none]
      refine iff_of_true (fun _ _ _ => ?_) fun claimed => absurd claimed.1 (Nat.lt_irrefl 0)
      split <;> rfl
    · have before : k.mram.freeFpList ≠ [] := fun empty => none (same.trans (full empty))
      have positive : 0 < count := Nat.pos_of_ne_zero none
      rw [Krnl.way, wayIn_free before, needsFrame_iff, listedAfter, and_iff_right positive, and_iff_right same]
  · -- the request is turned down
    have short : ¬count ≤ k.mram.freeFpList.length := Nat.not_le.mpr more
    rw [if_neg short, if_neg fun both => short both.2]
    exact iff_of_true (fun _ _ _ => rfl) fun claimed => absurd claimed.2.1 (Nat.ne_of_gt more)

/-- What a growth shows of itself at `b`, in its entries and regions and in the READs that need a frame. -/
theorem incVmaLimit_parts (order : InOrder k) (returned : incVmaLimit k found vmaid incSz = .ok (code, after)) : ∃ shows differs : Prop,
    SameDevices k after ∧ InOrder after ∧ (SameView k after b ↔ ¬shows) ∧
      (SameView k after b → ((∀ reqSwpfpn offset, AsksFor k b reqSwpfpn offset →
        swappedResult env after b reqSwpfpn offset (after.way b) = swappedResult env k b reqSwpfpn offset (k.way b)) ↔ ¬differs)) ∧
      (GrowthReaches env k found b vmaid incSz ↔ shows ∨ differs) := by
  obtain ⟨owner, own, ⟨_, rfl, refused⟩ | ⟨_, index, vma, area, accepted, rfl⟩⟩ := incVmaLimit_cases returned
  · refine ⟨False, False, .refl _, order, iff_of_true ⟨fun _ => rfl, rfl, rfl, fun _ => rfl⟩ id,
      fun _ => iff_of_true (fun _ _ _ => rfl) id, iff_of_false ?_ (or_self_iff.mp)⟩
    rintro ⟨other, index, vma, same, area, accepted, _⟩
    cases own.symm.trans same
    rcases refused with none | ⟨_, _, also, refused⟩
    · cases none.symm.trans area
    · cases also.symm.trans area
      exact accepted refused
  · obtain ⟨ram, swap⟩ := grownFor_lists k found owner index vma incSz
    have devices : SameDevices k (grownFor k found owner index vma incSz) := ⟨by rw [ram], by rw [ram], by rw [swap], by rw [swap]⟩
    refine ⟨_, _, devices, order.moved devices (fun fpn member => ?_) fun fpn member => .inl (swap ▸ member), ?_, fun same => ?_,
      growthReaches_iff own area accepted⟩
    · rw [ram] at member
      exact framesLeft_sub member
    · by_cases grows : owner = b
      · subst grows
        exact iff_of_false (fun view => grownFor_grows area accepted view.mmap) (not_not_intro (.inl rfl))
      · rw [or_iff_right grows]
        by_cases maps : found = b ∧ MapsAnew k b vma.sbrk (pagesMapped incSz)
        · refine iff_of_false (fun view => ?_) (not_not_intro maps)
          obtain ⟨rfl, anew⟩ := maps
          obtain ⟨page, changed⟩ := grownFor_anew owner index vma anew
          exact changed (view.pte page)
        · refine iff_of_true ((sameView_iff (grownFor_entries owner index vma maps) ?_ ?_).mpr ⟨fun _ _ _ _ => ?_, fun _ _ _ _ => ?_⟩) maps
          · rw [grownFor_mmap, if_neg (Ne.symm grows)]
          · exact grownFor_symrgtbl k found b vma incSz
          · rw [ram]
            rfl
          · rw [swap]
    · have maps : ¬(found = b ∧ MapsAnew k b vma.sbrk (pagesMapped incSz)) := by
        rintro ⟨rfl, anew⟩
        obtain ⟨page, changed⟩ := grownFor_anew owner index vma anew
        exact changed (same.pte page)
      rw [← grownFor_way owner index vma maps]
      have moved (reqSwpfpn : Addr) (offset : Fin pagingPagesz) (way : Way) :
          swappedResult env (grownFor k found owner index vma incSz) b reqSwpfpn offset way = swappedResult env k b reqSwpfpn offset way := by
        refine swappedResult_congr devices ?_ fun _ _ => ?_
        · rw [swap]
        · rw [ram]
          rfl
      simp only [moved]

theorem incVmaLimit_untouched_iff (order : InOrder k) (returned : incVmaLimit k found vmaid incSz = .ok (code, after)) :
    Untouched env k after b ↔ ¬GrowthReaches env k found b vmaid incSz := by
  obtain ⟨shows, differs, devices, later, view, results, reaches⟩ := @incVmaLimit_parts _ _ env _ _ b _ _ _ _ order returned
  rw [reaches]
  exact untouched_iff_parts devices order later view results

end Growth

section Mapping
variable {addr : Addr} {pgnum : CInt}

/-- The operation `SYSMEM_MAP_OP` on the table of `found` changes an entry of `b`. -/
def MapReaches (k : Krnl Proc) (found b : Proc) (addr : Addr) (pgnum : CInt) : Prop :=
  found = b ∧ ∃ i < rounds pgnum, k.pte (b, pageOf (pgnAt addr i)) ≠ 0xdeadbeef#32

theorem mapOp_untouched_iff (order : InOrder k) :
    Untouched env k (k.setMm found (vmapPgdMemset (k.mms found) addr pgnum)) b ↔ ¬MapReaches k found b addr pgnum := by
  by_cases mine : found = b
  · subst mine
    have entries (page : Page) : (k.setMm found (vmapPgdMemset (k.mms found) addr pgnum)).pte (found, page) =
        if ∃ i < rounds pgnum, pageOf (pgnAt addr i) = page then 0xdeadbeef#32 else k.pte (found, page) := by
      simp only [Krnl.pte, Krnl.setMm_same]
      exact vmapPgdMemset_pteAt _ _
    obtain ⟨mmap, symrgtbl, fifo⟩ := vmapPgdMemset_frame (k.mms found) addr pgnum
    constructor
    · intro untouched claimed
      obtain ⟨_, i, inside, differs⟩ := claimed
      have same := untouched.pte (pageOf (pgnAt addr i))
      rw [entries, if_pos ⟨i, inside, rfl⟩] at same
      exact differs same.symm
    · intro kept
      apply untouched_of_equal order
      · intro page
        rw [entries]
        split
        · next written =>
          obtain ⟨i, inside, rfl⟩ := written
          by_contra differs
          exact kept ⟨rfl, i, inside, Ne.symm differs⟩
        · rfl
      · rw [Krnl.setMm_same, mmap]
      · rw [Krnl.setMm_same, symrgtbl]
      · rw [Krnl.setMm_same, fifo]
      · rfl
      · rfl
  · have same : (k.setMm found (vmapPgdMemset (k.mms found) addr pgnum)).mms b = k.mms b := by
      rw [Krnl.setMm_mms, if_neg (Ne.symm mine)]
    exact iff_of_true (untouched_of_mms order same rfl rfl) fun reaches => mine reaches.1

end Mapping

section Devices
variable {mram : Memphy} {addr srcfpn dstfpn : Addr} {value : Byte}

/-- The operation `SYSMEM_SWP_OP` copies a RAM frame over a frame of the swap device; the READs
of `b` find what is left of its pages there. -/
theorem swapOp_untouched_iff (order : InOrder k) (smallSource : srcfpn.toNat < 2 ^ 32) (smallTarget : dstfpn.toNat < 2 ^ 32)
    (returned : mmSwapPage env k srcfpn dstfpn = .ok after) : Untouched env k after b ↔ ¬SwapDiffers k b dstfpn (k.mram.cell srcfpn) := by
  obtain ⟨⟨mram, activeMswp⟩, copied, returned⟩ := Outcome.bind_eq_ok returned
  cases returned
  obtain ⟨_, _, rfl, rewritten, cells⟩ := swapCpPage_cells order.random.1 order.random.2 smallSource smallTarget copied
  have devices : SameDevices k { k with activeMswp } := ⟨rfl, rfl, rewritten.maxsz, rewritten.rdmflg⟩
  have view : SameView k { k with activeMswp } b ↔ ¬(True ∧ SwapDiffers k b dstfpn (k.mram.cell srcfpn)) := by
    have copies (fpn : Addr) (offset : Fin pagingPagesz) : ({ k with activeMswp } : Krnl Proc).activeMswp.cell fpn offset =
        if fpn = dstfpn ∧ True then k.mram.cell srcfpn offset else k.activeMswp.cell fpn offset := by
      simpa only [and_true] using cells fpn offset
    rw [← swap_kept_iff copies]
    refine (sameView_iff ?_ ?_ ?_).trans (and_iff_right ?_)
    · exact fun _ => rfl
    · rfl
    · rfl
    · exact fun _ _ _ _ => rfl
  rw [true_and] at view
  have later : InOrder { k with activeMswp } := order.rewritten (.refl _) rewritten
  have way : ({ k with activeMswp } : Krnl Proc).way b = k.way b := way_congr (fun _ => rfl) rfl rfl rewritten.freeFpList
  rw [untouched_iff_parts devices order later view fun same => iff_of_true (fun reqSwpfpn offset asks => ?_) not_false, or_false]
  obtain ⟨_, _, addr, _, own, _⟩ := asks
  rw [way]
  exact swappedResult_congr devices (same.swapCell own offset) fun _ _ => rfl

/-- The operation `SYSMEM_IO_WRITE` stores a byte wherever its address points. -/
theorem storeOp_untouched_iff (order : InOrder k) (small : addr.toNat < 2 ^ 32) (written : k.mram.write addr value = .ok (code, mram)) :
    Untouched env k { k with mram } b ↔
      ¬∃ (fpn : Addr) (offset : Fin pagingPagesz), addr.toNat = fpn.toNat * pagingPagesz + offset ∧ StoreReaches env k b fpn offset value := by
  have stored {fpn : Addr} {offset : Fin pagingPagesz} (address : addr.toNat = fpn.toNat * pagingPagesz + offset) :
      Untouched env k { k with mram } b ↔ ¬StoreReaches env k b fpn offset value :=
    (Stored.of_write order.random.1 address written).untouched_iff order
  constructor
  · rintro untouched ⟨fpn, offset, address, reaches⟩
    exact (stored address).mp untouched reaches
  · intro kept
    have address : addr.toNat = (BitVec.ofNat 64 (addr.toNat / pagingPagesz)).toNat * pagingPagesz + addr.toNat % pagingPagesz := by
      rw [BitVec.toNat_ofNat]
      simp only [pagingPagesz]
      omega
    have inside : addr.toNat % pagingPagesz < pagingPagesz := Nat.mod_lt _ (by decide)
    have here : addr.toNat = (BitVec.ofNat 64 (addr.toNat / pagingPagesz)).toNat * pagingPagesz + (⟨_, inside⟩ : Fin pagingPagesz) := address
    exact (stored here).mpr fun reaches => kept ⟨_, _, here, reaches⟩

end Devices

section SystemCall
variable {pid nr : CInt} {regs last : ScRegs}

/-- System call 17 changes something of process `b` when it runs its operation for `found`. -/
def CallReaches (env : Env Proc) (k : Krnl Proc) (found b : Proc) (regs : ScRegs) : Prop :=
  let memop := addrToInt regs.a1
  if memop = sysmemMapOp then MapReaches k found b (addrParam regs.a2) (addrToInt regs.a3)
  else if memop = sysmemIncOp then GrowthReaches env k found b (addrToInt regs.a2) (addrParam regs.a3)
  else if memop = sysmemSwpOp then SwapDiffers k b (addrParam regs.a3) (k.mram.cell (addrParam regs.a2))
  else if memop = sysmemIoRead then False
  else if memop = sysmemIoWrite then ∃ (fpn : Addr) (offset : Fin pagingPagesz),
    (addrParam regs.a2).toNat = fpn.toNat * pagingPagesz + offset ∧ StoreReaches env k b fpn offset (regs.a3.setWidth 8)
  else False

omit [DecidableEq Proc] in
theorem addrParam_toNat_lt (value : Addr) : (addrParam value).toNat < 2 ^ 32 := by
  rw [addrParam, BitVec.toNat_setWidth, BitVec.toNat_setWidth]
  omega

/-- No operation of system call 17 asks whose page or frame its arguments name. -/
theorem syscall_untouched_iff (order : InOrder k) (lookup : env.findCaller pid = .ok (some found))
    (returned : syscall env k pid 17 regs = .ok (code, last, after)) : Untouched env k after b ↔ ¬CallReaches env k found b regs := by
  have unchanged : Untouched env k k b := untouched_refl order
  rw [syscall, if_pos (by rfl), sysMemmap, lookup] at returned
  simp only [Outcome.bind_ok] at returned
  unfold CallReaches
  split at returned
  · next op =>
    cases returned
    rw [if_pos op]
    exact mapOp_untouched_iff order
  · next other =>
    rw [if_neg other]
    split at returned
    · next op =>
      obtain ⟨⟨result, grown⟩, ran, returned⟩ := Outcome.bind_eq_ok returned
      cases returned
      rw [if_pos op]
      exact incVmaLimit_untouched_iff order ran
    · next other =>
      rw [if_neg other]
      split at returned
      · next op =>
        obtain ⟨swapped, ran, returned⟩ := Outcome.bind_eq_ok returned
        cases returned
        rw [if_pos op]
        exact swapOp_untouched_iff order (addrParam_toNat_lt _) (addrParam_toNat_lt _) ran
      · next other =>
        rw [if_neg other]
        split at returned
        · next op =>
          obtain ⟨_, _, returned⟩ := Outcome.bind_eq_ok returned
          obtain ⟨⟨_, mram, _⟩, read, returned⟩ := Outcome.bind_eq_ok returned
          cases returned
          rw [if_pos op, Memphy.read_same read]
          exact iff_of_true unchanged id
        · next other =>
          rw [if_neg other]
          split at returned
          · next op =>
            obtain ⟨_, _, returned⟩ := Outcome.bind_eq_ok returned
            obtain ⟨⟨result, mram⟩, written, returned⟩ := Outcome.bind_eq_ok returned
            cases returned
            rw [if_pos op]
            exact storeOp_untouched_iff order (addrParam_toNat_lt _) written
          · next other =>
            cases returned
            rw [if_neg other]
            exact iff_of_true unchanged id

end SystemCall

section Instructions
variable {mm : Mm} {pid : CInt} {ins : Inst}

omit [DecidableEq Proc] in
theorem getVmaFrom_extents {vmaid : CInt} {start index : Nat} {before later : List VmArea} {vma : VmArea}
    (same : later.map VmArea.extent = before.map VmArea.extent) (area : getVmaFrom vmaid start before = .ok (index, vma)) :
    ∃ vma', getVmaFrom vmaid start later = .ok (index, vma') ∧ vma'.extent = vma.extent := by
  induction before generalizing later start with
  | nil => cases area
  | cons head before ih =>
    cases later with
    | nil => cases same
    | cons first later =>
      obtain ⟨own, others⟩ := List.cons.inj same
      have number : first.vmId = head.vmId := congrArg Prod.fst own
      rw [getVmaFrom] at area ⊢
      rw [number]
      split at area
      · next below =>
        rw [if_pos below]
        exact ih others area
      · next here =>
        cases area
        rw [if_neg here]
        exact ⟨first, rfl, own⟩

omit [DecidableEq Proc] in
theorem SameTable.area {before later : Mm} {vmaid : CInt} {index : Nat} {vma : VmArea} (same : SameTable before later)
    (area : getVmaByNum before vmaid = .ok (some (index, vma))) :
    ∃ vma', getVmaByNum later vmaid = .ok (some (index, vma')) ∧ vma'.extent = vma.extent := by
  have extents := same.extents
  unfold getVmaByNum at area ⊢
  split at area
  · cases area
  · next some =>
    obtain ⟨found, walked, area⟩ := Outcome.bind_eq_ok area
    cases area
    obtain ⟨vma', again, own⟩ := getVmaFrom_extents extents walked
    split
    · next none =>
      rw [none] at extents
      exact absurd (List.map_eq_nil_iff.mp extents.symm) some
    · rw [again]
      exact ⟨vma', rfl, own⟩

omit [DecidableEq Proc] in
theorem SameTable.refused_iff {before later : Mm} {index : Nat} {vma vma' : VmArea} {aligned : Addr} (same : SameTable before later)
    (own : vma'.extent = vma.extent) : GrowthRefused later index vma' aligned ↔ GrowthRefused before index vma aligned := by
  obtain ⟨vmId, vmStart, vmEnd, sbrk, free⟩ := vma
  obtain ⟨vmId', vmStart', vmEnd', sbrk', free'⟩ := vma'
  simp only [VmArea.extent, Prod.mk.injEq] at own
  obtain ⟨rfl, rfl, rfl, rfl⟩ := own
  have spans (mm : Mm) : (mm.mmap.zipIdx.any fun area => area.2 != index && overlap vmStart' vmEnd' area.1.vmStart area.1.vmEnd) =
      ((mm.mmap.map VmArea.extent).zipIdx.any fun area => area.2 != index && overlap vmStart' vmEnd' area.1.2.1 area.1.2.2.1) := by
    rw [List.zipIdx_map, List.any_map]
    rfl
  simp only [GrowthRefused, spans, same.extents]

theorem setMm_elsewhere (distinct : a ≠ b) (mm : Mm) :
    (k.setMm a mm).mms b = k.mms b ∧ ∀ page, (k.setMm a mm).pte (b, page) = k.pte (b, page) := by
  have there : (k.setMm a mm).mms b = k.mms b := by rw [Krnl.setMm_mms, if_neg distinct.symm]
  exact ⟨there, fun page => by rw [Krnl.pte, Krnl.pte, there]⟩

theorem GrowthReaches.sameTable {vmaid : CInt} {incSz : Addr} (distinct : a ≠ b) (table : SameTable (k.mms a) mm)
    (reaches : GrowthReaches env k found b vmaid incSz) : GrowthReaches env (k.setMm a mm) found b vmaid incSz := by
  obtain ⟨owner, index, vma, own, area, accepted, reaches⟩ := reaches
  obtain ⟨there, entries⟩ := setMm_elsewhere (k := k) distinct mm
  have shows (brk : Addr) (same : brk = vma.sbrk) : (owner = b ∨ (found = b ∧ MapsAnew (k.setMm a mm) b brk (pagesMapped incSz))) ∨
      TakesEveryFrame env (k.setMm a mm) found b brk (pagesMapped incSz) := by
    subst same
    simp only [MapsAnew, TakesEveryFrame, NeedsFrame, AsksFor, listedAfter, Krnl.frameOfOldest, there, entries]
    exact reaches
  by_cases mine : owner = a
  · subst mine
    obtain ⟨vma', area', extent⟩ := table.area area
    have brk : vma'.sbrk = vma.sbrk := (Prod.mk.inj (Prod.mk.inj (Prod.mk.inj extent).2).2).2
    refine ⟨owner, index, vma', own, ?_, ?_, shows _ brk⟩
    · rw [Krnl.setMm_same]
      exact area'
    · rw [Krnl.setMm_same, table.refused_iff extent]
      exact accepted
  · have kept : (k.setMm a mm).mms owner = k.mms owner := by rw [Krnl.setMm_mms, if_neg mine]
    exact ⟨owner, index, vma, own, kept ▸ area, kept ▸ accepted, shows _ rfl⟩

omit [DecidableEq Proc] in
theorem SameTable.symm {before later : Mm} (same : SameTable before later) : SameTable later before :=
  ⟨same.pgd.symm, same.fifo.symm, same.extents.symm⟩

/-- Changes of the regions of `a`, around a growth, do not matter to `b`. -/
theorem growthReaches_setMm_iff {vmaid : CInt} {incSz : Addr} (distinct : a ≠ b) (table : SameTable (k.mms a) mm) :
    GrowthReaches env (k.setMm a mm) found b vmaid incSz ↔ GrowthReaches env k found b vmaid incSz := by
  refine ⟨fun reaches => ?_, .sameTable distinct table⟩
  have back : SameTable ((k.setMm a mm).mms a) (k.mms a) := by
    rw [Krnl.setMm_same]
    exact table.symm
  have again := reaches.sameTable distinct back
  rwa [setMm_setMm, setMm_self] at again

theorem sameView_setMm_iff (distinct : a ≠ b) (mm last : Mm) :
    SameView (k.setMm a mm) (after.setMm a last) b ↔ SameView k after b := by
  obtain ⟨before, entriesBefore⟩ := setMm_elsewhere (k := k) distinct mm
  obtain ⟨later, entriesLater⟩ := setMm_elsewhere (k := after) distinct last
  have bytesBefore (page : Page) : (k.setMm a mm).bytes (b, page) = k.bytes (b, page) := by
    funext offset
    rw [Krnl.bytes, Krnl.bytes, entriesBefore]
    rfl
  have bytesLater (page : Page) : (after.setMm a last).bytes (b, page) = after.bytes (b, page) := by
    funext offset
    rw [Krnl.bytes, Krnl.bytes, entriesLater]
    rfl
  constructor
  · rintro ⟨pte, mmap, symrgtbl, bytes⟩
    simp only [before, later, entriesBefore, entriesLater, bytesBefore, bytesLater] at pte mmap symrgtbl bytes
    exact ⟨pte, mmap, symrgtbl, bytes⟩
  · rintro ⟨pte, mmap, symrgtbl, bytes⟩
    refine ⟨fun page => ?_, ?_, ?_, fun page => ?_⟩
    · rw [entriesBefore, entriesLater, pte]
    · rw [before, later, mmap]
    · rw [before, later, symrgtbl]
    · rw [bytesBefore, bytesLater, bytes]

theorem InOrder.setMm (order : InOrder k) (p : Proc) (mm : Mm) : InOrder (k.setMm p mm) :=
  order.moved ⟨rfl, rfl, rfl, rfl⟩ (fun _ member => member) fun _ member => .inl member

theorem way_setMm (distinct : a ≠ b) (mm : Mm) : (k.setMm a mm).way b = k.way b := by
  obtain ⟨there, entries⟩ := setMm_elsewhere (k := k) distinct mm
  exact way_congr entries (by rw [there]) rfl rfl

/-- A growth by the library call of `a`: its own regions change before it and after it. -/
theorem grown_untouched_iff {vmaid : CInt} {incSz : Addr} {last : Mm} (order : InOrder k) (distinct : a ≠ b)
    (table : SameTable (k.mms a) mm) (returned : incVmaLimit (k.setMm a mm) found vmaid incSz = .ok (code, after)) :
    Untouched env k (after.setMm a last) b ↔ ¬GrowthReaches env k found b vmaid incSz := by
  obtain ⟨shows, differs, devices, later, view, results, reaches⟩ := @incVmaLimit_parts _ _ env _ _ b _ _ _ _ (order.setMm a mm) returned
  have whole : SameView k (after.setMm a last) b ↔ SameView (k.setMm a mm) after b := by
    have first : SameView (k.setMm a (k.mms a)) (after.setMm a last) b ↔ SameView k after b := sameView_setMm_iff distinct _ last
    have second : SameView (k.setMm a mm) (after.setMm a (after.mms a)) b ↔ SameView k after b := sameView_setMm_iff distinct mm _
    rw [setMm_self] at first second
    exact first.trans second.symm
  obtain ⟨there, entries⟩ := setMm_elsewhere (k := k) distinct mm
  have asks (reqSwpfpn : Addr) (offset : Fin pagingPagesz) : AsksFor (k.setMm a mm) b reqSwpfpn offset ↔ AsksFor k b reqSwpfpn offset := by
    simp only [AsksFor, there, entries]
  rw [← growthReaches_setMm_iff distinct table, reaches]
  refine untouched_iff_parts ⟨devices.1, devices.2, devices.3, devices.4⟩ order (later.setMm a last) (whole.trans view) fun same => ?_
  have result := results (whole.mp same)
  simp only [asks, way_setMm distinct] at result ⊢
  exact result

/-- The instruction of `a` shows at `b`: paging for `a` goes over a frame of `b` or takes one that
`b` needs, or the system call that it ends in reaches `b`. -/
def Interferes (env : Env Proc) (k : Krnl Proc) (a b : Proc) (ins : Inst) : Prop :=
  match ins.opcode with
  | .«calc» => False
  | .alloc => 0#64 < ins.arg0 ∧ (∃ area, getVmaByNum (k.mms a) 0 = .ok (some area)) ∧ NoFit (k.mms a) 0 ins.arg0 ∧
      ∃ found, env.lookup a = .ok (some found) ∧ GrowthReaches env k found b 0 (addrParam (growBytes ins.arg0))
  | .free => False
  | .read => ReadReaches env k a b (addrToInt ins.arg0) ins.arg1
  | .write => WriteReaches env k a b (ins.arg0.setWidth 8) (addrToInt ins.arg1) ins.arg2
  | .syscall => addrToInt ins.arg0 = 17#32 ∧ ∃ found, env.lookup a = .ok (some found) ∧
      CallReaches env k found b { a1 := ins.arg1, a2 := ins.arg2, a3 := ins.arg3 }

section Calls
variable (distinct : a ≠ b) (order : InOrder k)
include distinct order

/-- Another process's `mm` may change freely. -/
theorem setMm_untouched (mm : Mm) : Untouched env k (k.setMm a mm) b :=
  untouched_of_mms order (setMm_elsewhere distinct mm).1 rfl rfl

theorem liballoc_untouched_iff {size : Addr} {regIndex : CInt} (returned : liballoc env k a size regIndex = .ok (code, after)) :
    Untouched env k after b ↔ ¬(0#64 < size ∧ (∃ area, getVmaByNum (k.mms a) 0 = .ok (some area)) ∧ NoFit (k.mms a) 0 size ∧
      ∃ found, env.lookup a = .ok (some found) ∧ GrowthReaches env k found b 0 (addrParam (growBytes size))) := by
  have region (mm : Mm) : Untouched env k (k.setMm a mm) b := setMm_untouched distinct order mm
  obtain ⟨⟨_, _, final⟩, allocated, returned⟩ := Outcome.bind_eq_ok returned
  cases returned
  rcases alloc_effect allocated with
    ⟨mm, _, rfl, served⟩ | ⟨mm, pid, result, regs, grown, last, positive, area, noFit, table, known, called, _, rfl⟩
  · refine iff_of_true (region mm) ?_
    intro claimed
    obtain ⟨positive, ⟨area, here⟩, noFit, _⟩ := claimed
    cases (served positive noFit).symm.trans here
  · simp only [positive, area, noFit, true_and]
    rcases syscall_answered called with ⟨missing, same⟩ | ⟨found, answer⟩
    · cases same
      rw [setMm_setMm]
      refine iff_of_true (region last) ?_
      intro claimed
      obtain ⟨found, also, _⟩ := claimed
      cases (Env.lookup_eq known missing).symm.trans also
    · rw [syscall_inc answer] at called
      obtain ⟨⟨_, _⟩, ran, called⟩ := Outcome.bind_eq_ok called
      cases called
      rw [grown_untouched_iff order distinct table ran]
      refine not_congr ⟨fun reaches => ⟨found, Env.lookup_eq known answer, reaches⟩, ?_⟩
      intro claimed
      obtain ⟨other, also, reaches⟩ := claimed
      cases (Env.lookup_eq known answer).symm.trans also
      exact reaches

theorem libfree_untouched {regIndex : CInt} (returned : libfree k a regIndex = .ok (code, after)) : Untouched env k after b := by
  obtain ⟨mm, _, rfl⟩ := free_effect returned
  exact setMm_untouched distinct order mm

omit distinct in
theorem libsyscall_untouched_iff {nr : CInt} {a1 a2 a3 : Addr} (returned : libsyscall env k a nr a1 a2 a3 = .ok (code, after)) :
    Untouched env k after b ↔
      ¬(nr = 17#32 ∧ ∃ found, env.lookup a = .ok (some found) ∧ CallReaches env k found b { a1, a2, a3 }) := by
  have unchanged : Untouched env k k b := untouched_refl order
  obtain ⟨pid, known, returned⟩ := Outcome.bind_eq_ok returned
  obtain ⟨⟨_, _, final⟩, called, returned⟩ := Outcome.bind_eq_ok returned
  cases returned
  by_cases number : nr = 17#32
  · subst number
    change syscall env k pid 17 _ = _ at called
    rcases syscall_answered called with ⟨missing, same⟩ | ⟨found, answer⟩
    · cases same
      refine iff_of_true unchanged ?_
      intro claimed
      obtain ⟨_, found, also, _⟩ := claimed
      cases (Env.lookup_eq known missing).symm.trans also
    · rw [syscall_untouched_iff order answer called]
      refine not_congr ⟨fun reaches => ⟨rfl, found, Env.lookup_eq known answer, reaches⟩, ?_⟩
      intro claimed
      obtain ⟨_, other, also, reaches⟩ := claimed
      cases (Env.lookup_eq known answer).symm.trans also
      exact reaches
  · rw [syscall, if_neg number] at called
    cases called
    exact iff_of_true unchanged fun reaches => number reaches.1

end Calls

section Run
variable (distinct : a ≠ b) (apart : ShareNoFrame k a b) (order : InOrder k)
include distinct apart order

theorem runInst_untouched_iff (returned : runInst env k a ins = .ok (code, after)) :
    Untouched env k after b ↔ ¬Interferes env k a b ins := by
  unfold runInst at returned
  unfold Interferes
  revert returned
  cases ins.opcode with
  | «calc» =>
    intro returned
    cases returned
    exact iff_of_true (untouched_refl order) id
  | alloc => exact fun returned => liballoc_untouched_iff distinct order returned
  | free => exact fun returned => iff_of_true (libfree_untouched distinct order returned) id
  | read =>
    intro returned
    obtain ⟨⟨_, _, middle⟩, read, returned⟩ := Outcome.bind_eq_ok returned
    cases returned
    exact libread_untouched_iff distinct apart order read
  | write => exact fun returned => libwrite_untouched_iff distinct apart order returned
  | syscall => exact fun returned => libsyscall_untouched_iff order returned

end Run

end Instructions

section Order
variable {p : Proc} {pid : CInt} {regs : ScRegs} {ins : Inst}

theorem InOrder.call (order : InOrder k) (effect : CallEffect env k pid regs after) : InOrder after := by
  cases effect with
  | nothing => exact order
  | map => exact order.setMm _ _
  | inc found code _ _ _ ran =>
    obtain ⟨_, _, _, later, _⟩ := @incVmaLimit_parts _ _ env _ _ found _ _ _ _ order ran
    exact later
  | swap found _ _ _ copied =>
    obtain ⟨⟨mram, activeMswp⟩, cells, same⟩ := Outcome.bind_eq_ok copied
    cases same
    obtain ⟨rfl, rewritten⟩ := swapCpPage_rewritten cells
    exact order.rewritten (.refl _) rewritten
  | store found code mram _ _ _ written => exact order.rewritten (Memphy.write_rewritten written) (.refl _)

/-- No instruction brings the devices out of order, not even a system call with arguments of its own. -/
theorem InOrder.runInst (order : InOrder k) (returned : runInst env k p ins = .ok (code, after)) : InOrder after := by
  cases runInst_effect returned with
  | regions => exact order.setMm _ _
  | grew mm last pid regs grown _ _ _ effect => exact ((order.setMm p mm).call effect).setMm p last
  | paged pgn got fpn _ fetched =>
    obtain ⟨_, _, paged⟩ := pgGetpage_paged order fetched
    exact paged.inOrder order
  | stored addr f middle got value mram _ fetched written =>
    obtain ⟨_, _, paged⟩ := pgGetpage_paged order fetched
    exact (paged.inOrder order).rewritten (Memphy.write_rewritten written) (.refl _)
  | called pid regs _ _ effect => exact order.call effect

variable {text : Proc → List Inst} {first m : Execution Proc} {history : List (Act Proc)}

theorem InOrder.step {before after : Execution Proc} {act : Act Proc} (order : InOrder before.mem)
    (taken : ExecutionStep text before act after) : InOrder after.mem := by
  cases taken with
  | loaded m proc heap regs => exact order.setMm _ _
  | executed fetched ran =>
    obtain ⟨_, _, ⟨_, word, read, _⟩ | ⟨_, done, _⟩⟩ := run_cases fetched ran
    · obtain ⟨⟨_, data, final⟩, read, same⟩ := Outcome.bind_eq_ok read
      cases same
      rcases read_effect read with same | ⟨addr, got, byte, access⟩
      · exact same ▸ order
      · obtain ⟨_, fpn, fetched⟩ := pgGetval_effect access
        obtain ⟨_, _, paged⟩ := pgGetpage_paged order fetched
        exact paged.inOrder order
    · exact order.runInst done

theorem InOrder.of_run (order : InOrder first.mem) (run : Steps (ExecutionStep text) first history m) : InOrder m.mem := by
  induction run with
  | refl => exact order
  | tail _ taken ih => exact ih.step taken

end Order

section Isolation
variable {text : Proc → List Inst} {first m after : Execution Proc} {history : List (Act Proc)} {ins : Inst} {last : Option Inst}

/-- In every run from devices as `MEMPHY_format` leaves them, an instruction of `a` leaves `b`
alone, down to what the READs of `b` return, if and only if paging for `a` neither goes over a
frame of `b` nor takes one that `b` needs, and `a` hands the system call nothing of `b`. -/
theorem run_isolates_iff (start : InOrder first.mem) (reached : Steps (ExecutionStep text) first history m) (distinct : a ≠ b)
    (apart : ShareNoFrame m.mem a b) (fetched : (text a)[(m.pc a).toNat]? = some ins)
    (returned : run env (text a) m a = .ok (code, last, after)) :
    Untouched (m.env env) m.mem after.mem b ↔ ¬Interferes (m.env env) m.mem a b ins := by
  have order := start.of_run reached
  obtain ⟨_, _, ⟨reads, word, read, _⟩ | ⟨_, ran, _⟩⟩ := run_cases fetched returned
  · unfold Interferes
    rw [reads]
    exact libread_untouched_iff distinct apart order read
  · exact runInst_untouched_iff distinct apart order ran

end Isolation

section Neighbours

private def besides (mram activeMswp : Memphy) (mine other : Mm) : Krnl Bool where
  mm := none
  mram
  activeMswp
  activeMswpId := 0
  mms p := if p then other else mine

/-- A process with 256 bytes to give out, and its page 0 on the swap device. -/
private def swappedOut : Mm :=
  { initMm [] with mmap := [{ vmId := 0, vmStart := 0, vmEnd := 256, sbrk := 256, vmFreergList := [{ rgStart := 0, rgEnd := 256 }] }] }.setSwap 0 0 0

/-- Its neighbour, with page 0 in RAM, page 1 on the swap device, and both in its registers. -/
private def halfIn : Mm :=
  { mapPage ((initMm []).setSwap 1 0 1) 0 0 with symrgtbl := fun _ => { rgStart := 0, rgEnd := 512 } }

def neighbours : Execution Bool where
  mem := besides { storage := fun cell => BitVec.ofNat 8 cell, maxsz := 512, rdmflg := true, cursor := 0, freeFpList := [1] }
    { storage := fun cell => BitVec.ofNat 8 (cell + 7), maxsz := 1024, rdmflg := true, cursor := 0, freeFpList := [2, 3] } swappedOut halfIn
  pc _ := 0
  regs _ _ := 0x4040

def neighboursEnv : Env Bool where
  pid p := some (if p then 2 else 1)
  regs6 _ := none
  readyQueue := some [true]
  runningList := some [false]
  os := 0x4040
  uninit := 0

def allocRegion : Inst := { opcode := .alloc, arg0 := 64, arg1 := 1, arg2 := 0, arg3 := 0 }

def writeRegion : Inst := { opcode := .write, arg0 := 9, arg1 := 1, arg2 := 0, arg3 := 0 }

def allocThenWrite : Bool → List Inst := fun _ => [allocRegion, writeRegion]

/-- After the first of the two instructions. -/
def allocated : Execution Bool :=
  match run neighboursEnv (allocThenWrite false) neighbours false with
  | .ok (_, _, m) => m
  | .error _ => neighbours

theorem neighbours_inOrder : InOrder neighbours.mem := by
  refine ⟨⟨rfl, rfl⟩, by decide, by decide, fun fpn member => ?_, fun fpn member => ?_⟩
  · have same : fpn = 1 := List.mem_singleton.mp member
    rw [same]
    decide
  · have same : fpn = 2 ∨ fpn = 3 := by simpa [neighbours, besides] using member
    rcases same with rfl | rfl <;> decide

theorem swappedOut_frames (page : Page) : (swappedOut.pgd.pteAt page).ramFrame = none ∧
    ∀ fpn, (swappedOut.pgd.pteAt page).swapFrame = some fpn → fpn = 0 := by
  have entry : swappedOut.pgd.pteAt = Function.update initPgd.pteAt (pageOf 0) ((initPgd.pteAt (pageOf 0)).setSwap 0 0) :=
    pteAt_pteSetSwap ..
  rw [entry, Function.update_apply]
  split
  · refine ⟨Pte.ramFrame_setSwap _ _, fun fpn holds => ?_⟩
    rw [Pte.swapFrame_setSwap 0 (by decide)] at holds
    exact (Option.some.inj holds).symm
  · rw [pteAt_initPgd]
    exact ⟨rfl, fun fpn holds => by cases holds⟩

theorem halfIn_frames (page : Page) : (∀ fpn, (halfIn.pgd.pteAt page).ramFrame = some fpn → fpn = 0) ∧
    ∀ fpn, (halfIn.pgd.pteAt page).swapFrame = some fpn → fpn = 1 := by
  have first : ((initMm []).setSwap 1 0 1).pgd.pteAt = Function.update initPgd.pteAt (pageOf 1) ((initPgd.pteAt (pageOf 1)).setSwap 0 1) :=
    pteAt_pteSetSwap ..
  have entry : halfIn.pgd.pteAt = Function.update ((initMm []).setSwap 1 0 1).pgd.pteAt (pageOf 0)
      ((((initMm []).setSwap 1 0 1).pgd.pteAt (pageOf 0)).setFpn 0) := pteAt_mapPage ..
  rw [entry, Function.update_apply]
  split
  · constructor <;> intro fpn holds
    · rw [Pte.ramFrame_setFpn (by decide)] at holds
      exact (Option.some.inj holds).symm
    · rw [Pte.swapFrame_setFpn] at holds
      cases holds
  · rw [first, Function.update_apply]
    split
    · constructor <;> intro fpn holds
      · rw [Pte.ramFrame_setSwap] at holds
        cases holds
      · rw [Pte.swapFrame_setSwap 0 (by decide)] at holds
        exact (Option.some.inj holds).symm
    · rw [pteAt_initPgd]
      constructor <;> intro fpn holds <;> cases holds

theorem allocated_apart : ShareNoFrame allocated.mem false true := by
  constructor
  · intro page other fpn holds
    rw [show (allocated.mem.pte (false, page)).ramFrame = none from (swappedOut_frames page).1] at holds
    cases holds
  · intro page other fpn holds also
    cases (swappedOut_frames page).2 fpn holds
    cases (halfIn_frames other).2 0 also

/-- The WRITE takes the last frame of RAM, and the neighbour has a page of its own to evict. -/
theorem allocated_keeps_neighbour : ¬Interferes (allocated.env neighboursEnv) allocated.mem false true writeRegion := by
  rintro ⟨addr, found, checked, _, reaches⟩
  have address : Interleaved.writeAddr (allocated.mem.mms false) 0 (addrToInt writeRegion.arg1) writeRegion.arg2 = .ok (some 0) := rfl
  cases address.symm.trans checked
  have frame : (allocated.mem.pte (placeOf false 0)).swapFrame = some 0 := by decide
  have free : allocated.mem.mram.freeFpList = [1] := rfl
  rcases (accessReaches_free_iff frame free).mp reaches with ⟨page, _, holds, _⟩ | ⟨_, req, offset, ⟨_, _, asked, _, own, _⟩, stuck | shows⟩
  · cases (halfIn_frames page).1 1 holds
  · rcases stuck with none | none <;> cases none
  · obtain ⟨vicfpn, vicSwpfpn, oldest, head, _, ⟨outside, _⟩ | ⟨_, _, rfl, _⟩⟩ := shows
    · cases oldest
      exact absurd outside (by decide)
    · cases head
      cases (halfIn_frames _).2 0 own

theorem run_isolates_iff_allocThenWrite : ∃ last after,
    Steps (ExecutionStep allocThenWrite) neighbours [.executed false allocRegion 0] allocated ∧
    run neighboursEnv (allocThenWrite false) allocated false = .ok (0, last, after) ∧
    ¬Interferes (allocated.env neighboursEnv) allocated.mem false true writeRegion ∧
    (Untouched (allocated.env neighboursEnv) allocated.mem after.mem true ↔
      ¬Interferes (allocated.env neighboursEnv) allocated.mem false true writeRegion) := by
  have first : ExecutionStep allocThenWrite neighbours (.executed false allocRegion 0) allocated :=
    .executed (by rfl) (show run neighboursEnv (allocThenWrite false) neighbours false = .ok (0, some allocRegion, allocated) from rfl)
  have reached : Steps (ExecutionStep allocThenWrite) neighbours [.executed false allocRegion 0] allocated := .tail (.refl _) first
  have ends : ((run neighboursEnv (allocThenWrite false) allocated false).map fun result => result.1) = .ok 0 := by decide +kernel
  cases ran : run neighboursEnv (allocThenWrite false) allocated false with
  | error fault => rw [ran] at ends; cases ends
  | ok result =>
    obtain ⟨code, last, after⟩ := result
    rw [ran] at ends
    cases ends
    exact ⟨last, after, reached, rfl, allocated_keeps_neighbour,
      run_isolates_iff neighbours_inOrder reached (by decide) allocated_apart (by rfl) ran⟩

/-- What is left of two pages that `SYSMEM_MAP_OP` made up, once a byte 7 was written to the first. -/
private def writtenTo : Mm := ((vmapPgdMemset (initMm []) 0 2).setFpn 0 0).enlistPgn 0

/-- A process that has not run beside one that has written a byte. -/
def afterWrite : Execution Bool where
  mem := besides { storage := fun cell => if cell = 0 then 7 else 0, maxsz := 512, rdmflg := true, cursor := 0, freeFpList := [1] }
    { storage := fun _ => 0, maxsz := 536870912, rdmflg := true, cursor := 0,
      freeFpList := 1404407 :: (List.range 2097152).map (BitVec.ofNat 64) } (initMm []) writtenTo
  pc _ := 0
  regs p _ := if p then 0x4040 else 0

def copyOver : Inst := { opcode := .syscall, arg0 := 17, arg1 := 3, arg2 := 0, arg3 := 1404407 }

theorem afterWrite_apart : ShareNoFrame afterWrite.mem false true := by
  have empty (page : Page) : afterWrite.mem.pte (false, page) = 0#32 := pteAt_initPgd page
  constructor
  · intro page other fpn holds
    rw [empty] at holds
    cases holds
  · intro page other fpn holds
    rw [empty] at holds
    cases holds

/-- System call 17 with operation 3 copies RAM frame 0 over a page of a process that shares
nothing with the caller. No register is looked at on the way. -/
theorem syscall_overwrites_a_neighbour : ShareNoFrame afterWrite.mem false true ∧ ∃ last after,
    run neighboursEnv [copyOver] afterWrite false = .ok (0, last, after) ∧
      afterWrite.mem.bytes (true, 1) (offsetOf 0) = some 0 ∧ after.mem.bytes (true, 1) (offsetOf 0) = some 7 ∧
      ¬Untouched (afterWrite.env neighboursEnv) afterWrite.mem after.mem true := by
  have before : afterWrite.mem.bytes (true, 1) (offsetOf 0) = some 0 := by decide +kernel
  have ends : ((run neighboursEnv [copyOver] afterWrite false).map fun result =>
      (result.1, result.2.2.mem.bytes (true, 1) (offsetOf 0))) = .ok (0, some 7) := by decide +kernel
  cases ran : run neighboursEnv [copyOver] afterWrite false with
  | error fault => rw [ran] at ends; cases ends
  | ok result =>
    obtain ⟨code, last, after⟩ := result
    rw [ran] at ends
    obtain ⟨rfl, changed⟩ := Prod.mk.inj (Except.ok.inj ends)
    refine ⟨afterWrite_apart, last, after, rfl, before, changed, fun untouched => ?_⟩
    have same := congrFun (untouched.bytes 1) (offsetOf 0)
    rw [before, changed] at same
    cases same

end Neighbours
end LamiaAtrium
