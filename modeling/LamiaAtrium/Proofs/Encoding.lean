import LamiaAtrium.Proofs.Paging

/-! A page table entry after any history of `pte_set_fpn` and `pte_set_swap`. The two
formats share bits 0 to 12; what a reader finds there is what the last writer meant. -/

namespace LamiaAtrium

inductive PteWrite where
  | setFpn (fpn : Addr)
  | setSwap (swptyp : CInt) (swpoff : Addr)

namespace PteWrite

def apply (pte : Pte) : PteWrite → Pte
  | setFpn fpn => pte.setFpn fpn
  | setSwap swptyp swpoff => pte.setSwap swptyp swpoff

/-- The numbers fit their fields. -/
def Fits : PteWrite → Prop
  | setFpn fpn => fpn.toNat < 2 ^ 13
  | setSwap swptyp swpoff => swptyp.toNat < 2 ^ 5 ∧ swpoff.toNat < 2 ^ 21

/-- Every field that a reader of the entry looks at is the one that this write encodes. -/
def ShownBy (pte : Pte) : PteWrite → Prop
  | setFpn fpn => pagingPagePresent pte = true ∧ pagingPageSwapped pte = false ∧ pte &&& pagingPteDirtyMask = 0 ∧
      (pagingFpn pte).setWidth 64 = fpn
  | setSwap swptyp swpoff => pagingPagePresent pte = false ∧ pagingPageSwapped pte = true ∧ pte &&& pagingPteDirtyMask = 0 ∧
      (pagingSwp pte).setWidth 64 = swpoff ∧ getval pte pagingPteSwptypMask 0 = swptyp

end PteWrite

section Fields
variable (pte : Pte) (fpn swpoff : Addr) (swptyp : CInt)

theorem setFpn_dirty : pte.setFpn fpn &&& pagingPteDirtyMask = 0 := by
  ext i inside
  simp [Pte.setFpn, setval, setbit, clrbit, pagingPteDirtyMask, pagingPteFpnMask]
  grind

theorem setSwap_dirty : pte.setSwap swptyp swpoff &&& pagingPteDirtyMask = 0 := by
  ext i inside
  simp [Pte.setSwap, setval, clrbit, pagingPteDirtyMask, pagingPteSwptypMask, pagingPteSwpoffMask]
  grind

theorem setSwap_swptyp : getval (pte.setSwap swptyp swpoff) pagingPteSwptypMask 0 = (swptyp.setWidth 5).setWidth 32 := by
  ext i inside
  simp [getval, Pte.setSwap, setval, intToAddr, pagingPteSwptypMask, pagingPteSwpoffMask]
  grind

theorem setSwap_swptyp_of_lt (bound : swptyp.toNat < 2 ^ 5) : getval (pte.setSwap swptyp swpoff) pagingPteSwptypMask 0 = swptyp := by
  apply BitVec.eq_of_toNat_eq
  rw [setSwap_swptyp]
  simp only [BitVec.toNat_setWidth]
  omega

theorem PteWrite.shownBy_apply {last : PteWrite} (fits : last.Fits) : last.ShownBy (last.apply pte) := by
  cases last with
  | setFpn fpn => exact ⟨setFpn_present pte fpn, setFpn_swapped pte fpn, setFpn_dirty pte fpn, pagingFpn_setFpn_of_lt pte fpn fits⟩
  | setSwap swptyp swpoff =>
    obtain ⟨typ, off⟩ := fits
    exact ⟨setSwap_present pte swpoff swptyp, setSwap_swapped pte swpoff swptyp, setSwap_dirty pte swpoff swptyp,
      pagingSwp_setSwap_of_lt pte swpoff swptyp off, setSwap_swptyp_of_lt pte swpoff swptyp typ⟩

end Fields

section Table

/-- One of the two writers called for a page of a process. -/
structure PageWrite where
  pgn : Addr
  write : PteWrite

def Mm.written (mm : Mm) (call : PageWrite) : Mm :=
  match call.write with
  | .setFpn fpn => mm.setFpn call.pgn fpn
  | .setSwap swptyp swpoff => mm.setSwap call.pgn swptyp swpoff

/-- The calls of a history that reach the entry of this page. -/
def callsFor (page : Page) (history : List PageWrite) : List PteWrite :=
  (history.filter fun call => pageOf call.pgn = page).map PageWrite.write

theorem written_pgd (mm : Mm) (call : PageWrite) :
    (mm.written call).pgd = mm.pgd.rewrite call.pgn fun pte => call.write.apply pte := by
  obtain ⟨pgn, write⟩ := call
  cases write <;> rfl

theorem getEntry_written (mm : Mm) (call : PageWrite) (pgn : Addr) :
    (mm.written call).getEntry pgn =
      if pageOf call.pgn = pageOf pgn then call.write.apply (mm.getEntry pgn) else mm.getEntry pgn := by
  rw [Mm.getEntry, written_pgd, pteGetEntry_rewrite, Mm.getEntry]
  by_cases same : pageOf pgn = pageOf call.pgn
  · rw [if_pos same, if_pos same.symm, pteGetEntry_congr _ same]
  · rw [if_neg same, if_neg (Ne.symm same)]

/-- The entry of a page depends on the calls for that page alone. -/
theorem getEntry_history (mm : Mm) (history : List PageWrite) (pgn : Addr) :
    (history.foldl Mm.written mm).getEntry pgn = (callsFor (pageOf pgn) history).foldl PteWrite.apply (mm.getEntry pgn) := by
  induction history generalizing mm with
  | nil => rfl
  | cons call history ih =>
    rw [List.foldl_cons, ih, getEntry_written]
    by_cases same : pageOf call.pgn = pageOf pgn
    · rw [if_pos same, callsFor, callsFor, List.filter_cons_of_pos (by simpa using same)]
      rfl
    · rw [if_neg same, callsFor, callsFor, List.filter_cons_of_neg (by simpa using same)]

end Table

section Readers
variable {Proc : Type} [DecidableEq Proc] {env : Env Proc} {k : Krnl Proc} {caller : Proc} {last : PteWrite}

/-- `pg_getpage` behind its tests on the entry: the page comes in from `reqSwpfpn`. -/
def pgGetpageSwapped (env : Env Proc) (k : Krnl Proc) (caller : Proc) (pgn : CInt) (reqSwpfpn : Addr) :
    Outcome (Int × Option CInt × Krnl Proc) := do
  match k.mram.getFreefp with
  | some (newfpn, mram) =>
    let k ← pageIn env { k with mram } caller (intToAddr pgn) reqSwpfpn newfpn
    return (0, some (addrToInt newfpn), k)
  | none =>
    let (evicted, k) ← evictVictim env k caller
    let some newfpn := evicted | return (-1, none, k)
    let k ← pageIn env k caller (intToAddr pgn) reqSwpfpn newfpn
    return (0, some (addrToInt newfpn), k)

/-- What `pg_getpage` does on a page whose entry a write left. -/
def PteWrite.served (env : Env Proc) (k : Krnl Proc) (caller : Proc) (pgn : CInt) :
    PteWrite → Outcome (Int × Option CInt × Krnl Proc)
  | setFpn fpn => .ok (0, some (addrToInt fpn), k)
  | setSwap _ swpoff => pgGetpageSwapped env k caller pgn swpoff

/-- What `free_pcb_memph` does on such a page. -/
def PteWrite.released (k : Krnl Proc) : PteWrite → Krnl Proc
  | setFpn fpn => { k with mram := k.mram.putFreefp fpn }
  | setSwap _ swpoff => { k with activeMswp := k.activeMswp.putFreefp swpoff }

theorem pgGetpage_served {pgn : CInt} (shown : last.ShownBy ((k.mms caller).getEntry (intToAddr pgn))) :
    pgGetpage env k caller pgn = last.served env k caller pgn := by
  cases last with
  | setFpn fpn =>
    obtain ⟨present, swapped, _, number⟩ := shown
    rw [pgGetpage, if_neg (by simp [swapped]), if_pos present]
    have same : addrToInt fpn = pagingFpn ((k.mms caller).getEntry (intToAddr pgn)) := by
      rw [← number]
      simp [addrToInt]
    rw [PteWrite.served, same]
    rfl
  | setSwap swptyp swpoff =>
    obtain ⟨_, swapped, _, number, _⟩ := shown
    rw [pgGetpage, if_pos swapped, number]
    rfl

private theorem intToAddr_setWidth {word : CInt} (small : word.toNat < 2 ^ 31) : intToAddr word = word.setWidth 64 := by
  rw [intToAddr, BitVec.signExtend_eq_setWidth_of_msb_false]
  rw [BitVec.msb_eq_false_iff_two_mul_lt]
  omega

omit [DecidableEq Proc] in
theorem freePcbPage_released {pagenum : Nat} (shown : last.ShownBy ((k.mms caller).getEntry (BitVec.ofNat 64 pagenum))) :
    freePcbPage caller k pagenum = last.released k := by
  have used : (k.mms caller).getEntry (BitVec.ofNat 64 pagenum) ≠ 0 := by
    intro zero
    rw [zero] at shown
    cases last with
    | setFpn fpn => cases shown.1
    | setSwap swptyp swpoff => cases shown.2.1
  rw [freePcbPage, if_neg used]
  cases last with
  | setFpn fpn =>
    obtain ⟨present, swapped, _, number⟩ := shown
    have small := pagingFpn_lt ((k.mms caller).getEntry (BitVec.ofNat 64 pagenum))
    rw [if_pos (by simp [present, swapped]), intToAddr_setWidth (by omega), number]
    rfl
  | setSwap swptyp swpoff =>
    obtain ⟨present, swapped, _, number, _⟩ := shown
    have small := pagingSwp_lt ((k.mms caller).getEntry (BitVec.ofNat 64 pagenum))
    rw [if_neg (by simp [swapped]), if_pos swapped, intToAddr_setWidth (by omega), number]
    rfl

/-- Whatever an entry held and whichever writers ran, the last one alone decides what the entry
shows and how `pg_getpage` and `free_pcb_memph` treat the page, also when calls for other pages
come in between. -/
theorem pte_shows_last_write (pte : Pte) (history : List PteWrite) (fits : last.Fits) :
    last.ShownBy ((history ++ [last]).foldl PteWrite.apply pte) ∧
    ∀ (env : Env Proc) (k : Krnl Proc) (caller : Proc) (mm : Mm) (calls : List PageWrite),
      k.mms caller = calls.foldl Mm.written mm →
      (∀ pgn : CInt, (callsFor (pageOf (intToAddr pgn)) calls).getLast? = some last →
        pgGetpage env k caller pgn = last.served env k caller pgn) ∧
      ∀ pagenum : Nat, (callsFor (pageOf (BitVec.ofNat 64 pagenum)) calls).getLast? = some last →
        freePcbPage caller k pagenum = last.released k := by
  have shown (pte : Pte) (history : List PteWrite) : last.ShownBy ((history ++ [last]).foldl PteWrite.apply pte) := by
    rw [List.foldl_append]
    exact PteWrite.shownBy_apply _ fits
  refine ⟨shown pte history, ?_⟩
  intro env k caller mm calls state
  have entry (pgn : Addr) (named : (callsFor (pageOf pgn) calls).getLast? = some last) :
      last.ShownBy ((k.mms caller).getEntry pgn) := by
    obtain ⟨earlier, split⟩ := List.getLast?_eq_some_iff.mp named
    rw [state, getEntry_history, split]
    exact shown _ earlier
  constructor
  · intro pgn named
    exact pgGetpage_served (entry _ named)
  · intro pagenum named
    exact freePcbPage_released (entry _ named)

def swappedTwice : List PageWrite :=
  [⟨3, .setSwap 31 0x1fffff⟩, ⟨4, .setFpn 7⟩, ⟨3, .setFpn 0x1fff⟩, ⟨3, .setSwap 1 5⟩, ⟨4, .setSwap 0 2⟩]

/-- An entry of ones, and a page that was swapped out a second time. -/
theorem pte_shows_last_write_swappedTwice :
    (PteWrite.setSwap 1 5).ShownBy (([PteWrite.setFpn 0x1fff] ++ [PteWrite.setSwap 1 5]).foldl PteWrite.apply 0xffffffff) ∧
    ∀ env : Env Unit, pgGetpage env ((oneFrame [0] [0, 1]).setMm () (swappedTwice.foldl Mm.written (initMm []))) () 3 =
      pgGetpageSwapped env ((oneFrame [0] [0, 1]).setMm () (swappedTwice.foldl Mm.written (initMm []))) () 3 5 := by
  have both := @pte_shows_last_write Unit _ (.setSwap 1 5) 0xffffffff [.setFpn 0x1fff] ⟨by decide, by decide⟩
  refine ⟨both.1, fun env => ?_⟩
  have calls := both.2 env ((oneFrame [0] [0, 1]).setMm () (swappedTwice.foldl Mm.written (initMm []))) () (initMm []) swappedTwice
  exact (calls (Krnl.setMm_same _ _ _)).1 3 rfl

end Readers
end LamiaAtrium
