import LamiaAtrium.Proofs.FrameOwnership

/-! Taking frames for a range of pages and mapping them: what `alloc_pages_range`,
`vmap_page_range` and `vm_map_ram` compute, and what that does to the frame
invariant. -/

namespace LamiaAtrium
variable {Proc : Type}

/-- The page numbers of a range count up from the first one, within the 14 bits that
`PAGING_PGN` keeps. -/
theorem pgnAt_toNat (addr : Addr) (i : Nat) : (pgnAt addr i).toNat = (addr.toNat / 256 + i) % 2 ^ 14 := by
  rw [pgnAt, BitVec.toNat_setWidth_of_le (by decide), pagingPgn_toNat]
  simp only [addrToInt, BitVec.toNat_setWidth, BitVec.toNat_add, BitVec.toNat_mul, BitVec.toNat_ofNat]
  omega

theorem pageOf_pgnAt_toNat (addr : Addr) (i : Nat) : (pageOf (pgnAt addr i)).toNat = (addr.toNat / 256 + i) % 2 ^ 14 := by
  rw [pageOf_toNat _ (by rw [pgnAt_toNat]; omega), pgnAt_toNat]

theorem pageOf_pgnAt_injective {addr : Addr} {count i j : Nat} (inside : addr.toNat + count * 256 ≤ 2 ^ 22)
    (first : i < count) (second : j < count) (same : pageOf (pgnAt addr i) = pageOf (pgnAt addr j)) : i = j := by
  have numbers := congrArg BitVec.toNat same
  rw [pageOf_pgnAt_toNat, pageOf_pgnAt_toNat] at numbers
  omega

section Frames

theorem returnFrames_eq (mram : Memphy) (frmLst : List Addr) :
    returnFrames mram frmLst = { mram with freeFpList := frmLst.reverse ++ mram.freeFpList } := by
  induction frmLst generalizing mram with
  | nil => rfl
  | cons fpn rest ih =>
    rw [returnFrames, List.foldl_cons, ← returnFrames, ih]
    simp [Memphy.putFreefp]

/-- With enough free frames the loop takes them from the head of the list; without, it
gives back what it has collected. -/
theorem allocPagesLoop_eq (left : Nat) (mram : Memphy) (frmLst : List Addr) :
    allocPagesLoop left mram frmLst =
      if left ≤ mram.freeFpList.length then
        (0, { mram with freeFpList := mram.freeFpList.drop left }, (mram.freeFpList.take left).reverse ++ frmLst)
      else (-3000, { mram with freeFpList := frmLst.reverse ++ mram.freeFpList }, []) := by
  induction left generalizing mram frmLst with
  | zero => simp [allocPagesLoop]
  | succ left ih =>
    cases free : mram.freeFpList with
    | nil => simp [allocPagesLoop, returnFrames_eq, free]
    | cons fpn rest =>
      simp only [allocPagesLoop, Memphy.getFreefp_cons free, ih, List.length_cons, Nat.add_le_add_iff_right,
        List.drop_succ_cons, List.take_succ_cons, List.reverse_cons, List.append_assoc, List.singleton_append]

theorem allocPagesRange_enough {mram : Memphy} {reqPgnum : CInt} (enough : rounds reqPgnum ≤ mram.freeFpList.length) :
    allocPagesRange mram reqPgnum = (0, { mram with freeFpList := mram.freeFpList.drop (rounds reqPgnum) },
      (mram.freeFpList.take (rounds reqPgnum)).reverse) := by
  rw [allocPagesRange, allocPagesLoop_eq, if_pos enough, List.append_nil]

/-- A request that RAM cannot serve leaves the free list as it was. -/
theorem allocPagesRange_short {mram : Memphy} {reqPgnum : CInt} (short : mram.freeFpList.length < rounds reqPgnum) :
    allocPagesRange mram reqPgnum = (-3000, mram, []) := by
  rw [allocPagesRange, allocPagesLoop_eq, if_neg (by omega)]
  rfl

end Frames

section Pages

/-- The pages of a range mapped onto a list of frames, from round `i` on. -/
def mapFrames (addr : Addr) : Nat → List Addr → Mm → Mm
  | _, [], mm => mm
  | i, fpn :: frames, mm => mapFrames addr (i + 1) frames (mapPage mm (pgnAt addr i) fpn)

theorem pteAt_mapPage (mm : Mm) (pgn fpn : Addr) : (mapPage mm pgn fpn).pgd.pteAt =
    Function.update mm.pgd.pteAt (pageOf pgn) ((mm.pgd.pteAt (pageOf pgn)).setFpn fpn) :=
  pteAt_pteSetFpn mm.pgd pgn fpn

theorem vmapPageLoop_eq (addr : Addr) (i : Nat) (frames : List Addr) (mm : Mm) :
    vmapPageLoop addr i frames.length frames mm = (0, mapFrames addr i frames mm) := by
  induction frames generalizing i mm with
  | nil => rfl
  | cons fpn frames ih => rw [List.length_cons, vmapPageLoop, ih, mapFrames]

@[simp] theorem mapFrames_mmap (addr : Addr) (i : Nat) (frames : List Addr) (mm : Mm) :
    (mapFrames addr i frames mm).mmap = mm.mmap := by
  induction frames generalizing i mm with
  | nil => rfl
  | cons fpn frames ih => rw [mapFrames, ih]; rfl

@[simp] theorem mapFrames_symrgtbl (addr : Addr) (i : Nat) (frames : List Addr) (mm : Mm) :
    (mapFrames addr i frames mm).symrgtbl = mm.symrgtbl := by
  induction frames generalizing i mm with
  | nil => rfl
  | cons fpn frames ih => rw [mapFrames, ih]; rfl

/-- A property that every freshly mapped entry has holds at a page afterwards exactly
if it did before or the page is one of the range. -/
theorem mapFrames_pteAt (property : Pte → Prop) (addr : Addr) (i : Nat) (frames : List Addr)
    (fresh : ∀ pte, ∀ fpn ∈ frames, property (Pte.setFpn pte fpn)) (mm : Mm) (page : Page) :
    property ((mapFrames addr i frames mm).pgd.pteAt page) ↔
      (∃ j < frames.length, pageOf (pgnAt addr (i + j)) = page) ∨ property (mm.pgd.pteAt page) := by
  induction frames generalizing i mm with
  | nil => simp [mapFrames]
  | cons fpn frames ih =>
    rw [mapFrames, ih _ (fun pte other member => fresh pte other (List.mem_cons_of_mem _ member)), pteAt_mapPage]
    constructor
    · rintro (⟨j, inside, here⟩ | holds)
      · exact .inl ⟨j + 1, by rw [List.length_cons]; omega, by rw [← here]; congr 2; omega⟩
      · by_cases same : page = pageOf (pgnAt addr i)
        · exact .inl ⟨0, by simp, same.symm⟩
        · rw [Function.update_of_ne same] at holds
          exact .inr holds
    · rintro (⟨j, inside, here⟩ | holds)
      · cases j with
        | zero =>
          rw [Nat.add_zero] at here
          right
          rw [← here, Function.update_self]
          exact fresh _ fpn List.mem_cons_self
        | succ j =>
          left
          exact ⟨j, by rw [List.length_cons] at inside; omega, by rw [← here]; congr 2; omega⟩
      · right
        by_cases same : page = pageOf (pgnAt addr i)
        · rw [same, Function.update_self]
          exact fresh _ fpn List.mem_cons_self
        · rw [Function.update_of_ne same]
          exact holds

end Pages

section VmMapRam
variable [DecidableEq Proc] {k : Krnl Proc} {caller : Proc} {astart aend mapstart : Addr} {incpgnum : CInt} {rg : VmRg}

theorem setMm_setMm (k : Krnl Proc) (p : Proc) (first second : Mm) : (k.setMm p first).setMm p second = k.setMm p second := by
  simp [Krnl.setMm]

theorem setMm_self (k : Krnl Proc) (p : Proc) : k.setMm p (k.mms p) = k := by simp [Krnl.setMm]

theorem vmMapRam_enough (enough : rounds incpgnum ≤ k.mram.freeFpList.length) :
    vmMapRam k caller astart aend mapstart incpgnum rg =
      (0, { rgStart := mapstart, rgEnd := mapstart + intToAddr incpgnum * 256#64 },
        { k with mram := { k.mram with freeFpList := k.mram.freeFpList.drop (rounds incpgnum) } }.setMm caller
          (mapFrames mapstart 0 (k.mram.freeFpList.take (rounds incpgnum)).reverse (k.mms caller))) := by
  have loop := vmapPageLoop_eq mapstart 0 (k.mram.freeFpList.take (rounds incpgnum)).reverse (k.mms caller)
  rw [List.length_reverse, List.length_take, Nat.min_eq_left enough] at loop
  rw [vmMapRam, allocPagesRange_enough enough]
  simp only [vmapPageRange, loop]
  rfl

theorem vmMapRam_short (short : k.mram.freeFpList.length < rounds incpgnum) :
    vmMapRam k caller astart aend mapstart incpgnum rg = (-1, rg, k) := by
  rw [vmMapRam, allocPagesRange_short short]
  rfl

/-- Once the frames are there, the entries of the range and no others become fresh ones. -/
theorem vmMapRam_pteAt (property : Pte → Prop) (fresh : ∀ pte, ∀ fpn ∈ k.mram.freeFpList, property (Pte.setFpn pte fpn))
    (enough : rounds incpgnum ≤ k.mram.freeFpList.length) (page : Page) :
    property ((vmMapRam k caller astart aend mapstart incpgnum rg).2.2.pte (caller, page)) ↔
      (∃ i < rounds incpgnum, pageOf (pgnAt mapstart i) = page) ∨ property (k.pte (caller, page)) := by
  have count : (k.mram.freeFpList.take (rounds incpgnum)).reverse.length = rounds incpgnum := by
    rw [List.length_reverse, List.length_take, Nat.min_eq_left enough]
  have taken : ∀ pte, ∀ fpn ∈ (k.mram.freeFpList.take (rounds incpgnum)).reverse, property (Pte.setFpn pte fpn) :=
    fun pte fpn member => fresh pte fpn (List.mem_of_mem_take (List.mem_reverse.mp member))
  have mapped := mapFrames_pteAt property mapstart 0 _ taken (k.mms caller) page
  rw [count] at mapped
  simp only [Nat.zero_add] at mapped
  rw [vmMapRam_enough enough]
  simp only [Krnl.pte, Krnl.setMm_same]
  exact mapped

theorem vmMapRam_present (enough : rounds incpgnum ≤ k.mram.freeFpList.length) (page : Page) :
    pagingPagePresent ((vmMapRam k caller astart aend mapstart incpgnum rg).2.2.pte (caller, page)) = true ↔
      (∃ i < rounds incpgnum, pageOf (pgnAt mapstart i) = page) ∨ pagingPagePresent (k.pte (caller, page)) = true :=
  vmMapRam_pteAt (fun pte => pagingPagePresent pte = true) (fun pte fpn _ => setFpn_present pte fpn) enough page

theorem vmMapRam_mm : (vmMapRam k caller astart aend mapstart incpgnum rg).2.2.mm = k.mm := by
  by_cases enough : rounds incpgnum ≤ k.mram.freeFpList.length
  · rw [vmMapRam_enough enough]
    rfl
  · rw [vmMapRam_short (Nat.lt_of_not_le enough)]

theorem vmMapRam_others {p : Proc} (other : p ≠ caller) :
    (vmMapRam k caller astart aend mapstart incpgnum rg).2.2.mms p = k.mms p := by
  by_cases enough : rounds incpgnum ≤ k.mram.freeFpList.length
  · rw [vmMapRam_enough enough, Krnl.setMm_mms, if_neg other]
  · rw [vmMapRam_short (Nat.lt_of_not_le enough)]

/-- Mapping pages leaves the regions of every process alone. -/
private theorem vmMapRam_regions (p : Proc) :
    ((vmMapRam k caller astart aend mapstart incpgnum rg).2.2.mms p).mmap = (k.mms p).mmap ∧
      ((vmMapRam k caller astart aend mapstart incpgnum rg).2.2.mms p).symrgtbl = (k.mms p).symrgtbl := by
  by_cases enough : rounds incpgnum ≤ k.mram.freeFpList.length
  · rw [vmMapRam_enough enough, Krnl.setMm_mms]
    split
    · next same => rw [same, mapFrames_mmap, mapFrames_symrgtbl]; exact ⟨rfl, rfl⟩
    · exact ⟨rfl, rfl⟩
  · rw [vmMapRam_short (Nat.lt_of_not_le enough)]
    exact ⟨rfl, rfl⟩

theorem vmMapRam_mmap (p : Proc) : ((vmMapRam k caller astart aend mapstart incpgnum rg).2.2.mms p).mmap = (k.mms p).mmap :=
  (vmMapRam_regions p).1

theorem vmMapRam_symrgtbl (p : Proc) :
    ((vmMapRam k caller astart aend mapstart incpgnum rg).2.2.mms p).symrgtbl = (k.mms p).symrgtbl :=
  (vmMapRam_regions p).2

private theorem Owned.mapFrames {frames loose : List Addr} {i : Nat} (owned : Owned (frames ++ loose) k)
    (unmapped : ∀ j < frames.length, (k.pte (caller, pageOf (pgnAt mapstart (i + j)))).unmapped)
    (distinct : ∀ j < frames.length, ∀ l < frames.length,
      pageOf (pgnAt mapstart (i + j)) = pageOf (pgnAt mapstart (i + l)) → j = l) :
    Owned loose (k.setMm caller (LamiaAtrium.mapFrames mapstart i frames (k.mms caller))) := by
  induction frames generalizing k i with
  | nil => rw [LamiaAtrium.mapFrames, setMm_self]; exact owned
  | cons fpn frames ih =>
    have mapped := Owned.mapPage owned (unmapped 0 (by simp))
    have entries := pte_setMm k caller (pteAt_mapPage (k.mms caller) (pgnAt mapstart i) fpn)
    have rest := @ih _ (i + 1) mapped ?_ ?_
    · rw [Krnl.setMm_same, setMm_setMm] at rest
      exact rest
    · intro j inside
      have later : i + 1 + j = i + (j + 1) := by omega
      have apart : ((caller, pageOf (pgnAt mapstart (i + (j + 1)))) : Proc × Page) ≠ (caller, pageOf (pgnAt mapstart i)) := by
        intro same
        have equal := distinct (j + 1) (by rw [List.length_cons]; omega) 0 (by simp) (Prod.mk.inj same).2
        cases equal
      rw [later, Nat.add_zero, entries, Function.update_of_ne apart]
      exact unmapped (j + 1) (by rw [List.length_cons]; omega)
    · intro j inside l insideToo same
      rw [show i + 1 + j = i + (j + 1) by omega, show i + 1 + l = i + (l + 1) by omega] at same
      have equal := distinct (j + 1) (by rw [List.length_cons]; omega) (l + 1) (by rw [List.length_cons]; omega) same
      omega

/-- `vm_map_ram` on an unmapped range below 4 MB, whether or not RAM can serve it. -/
theorem vmMapRam_good (good : Good k) (inside : mapstart.toNat + rounds incpgnum * pagingPagesz ≤ 2 ^ 22)
    (unmapped : ∀ i < rounds incpgnum, (k.pte (caller, pageOf (pgnAt mapstart i))).unmapped) :
    Good (vmMapRam k caller astart aend mapstart incpgnum rg).2.2 := by
  by_cases enough : rounds incpgnum ≤ k.mram.freeFpList.length
  · rw [vmMapRam_enough enough]
    have count : (k.mram.freeFpList.take (rounds incpgnum)).reverse.length = rounds incpgnum := by
      rw [List.length_reverse, List.length_take, Nat.min_eq_left enough]
    have taken : Owned ((k.mram.freeFpList.take (rounds incpgnum)).reverse ++ [])
        { k with mram := { k.mram with freeFpList := k.mram.freeFpList.drop (rounds incpgnum) } } := by
      have ram := good.ram
      have shuffled : ([] ++ k.mram.freeFpList).Perm
          ((k.mram.freeFpList.take (rounds incpgnum)).reverse ++ [] ++ k.mram.freeFpList.drop (rounds incpgnum)) := by
        rw [List.nil_append, List.append_nil]
        calc k.mram.freeFpList
            = k.mram.freeFpList.take (rounds incpgnum) ++ k.mram.freeFpList.drop (rounds incpgnum) :=
              (List.take_append_drop _ _).symm
          List.Perm _ _ := (List.reverse_perm _).symm.append_right _
      exact { good with ram := ram.perm shuffled }
    refine Owned.mapFrames taken ?_ ?_
    · intro j below
      rw [Nat.zero_add]
      exact unmapped j (count ▸ below)
    · intro j below l belowToo same
      rw [Nat.zero_add, Nat.zero_add] at same
      exact pageOf_pgnAt_injective inside (count ▸ below) (count ▸ belowToo) same
  · rw [vmMapRam_short (Nat.lt_of_not_le enough)]
    exact good

theorem vmMapRam_devices : SameDevices k (vmMapRam k caller astart aend mapstart incpgnum rg).2.2 := by
  by_cases enough : rounds incpgnum ≤ k.mram.freeFpList.length
  · rw [vmMapRam_enough enough]
    exact ⟨rfl, rfl, rfl, rfl⟩
  · rw [vmMapRam_short (Nat.lt_of_not_le enough)]
    exact .refl k

end VmMapRam
end LamiaAtrium
