import Mathlib.Data.Nat.Find
import Mathlib.Data.Set.Function
import LamiaAtrium.Proofs.Access
import LamiaAtrium.Proofs.RamMapping

/-! What a call that fails half-way leaves behind. `vm_map_ram` collects its frames one
at a time and gives them back one at a time; `pg_getpage` takes its victim off the FIFO
before it knows whether a swap frame is left. -/

namespace LamiaAtrium
variable {Proc : Type}

section Mapped
variable (addr : Addr)

theorem mapFrames_fifoPgn (i : Nat) (frames : List Addr) (mm : Mm) :
    (mapFrames addr i frames mm).fifoPgn = ((List.range' i frames.length).map (pgnAt addr)).reverse ++ mm.fifoPgn := by
  induction frames generalizing i mm with
  | nil => rfl
  | cons fpn frames ih =>
    rw [mapFrames, ih, List.length_cons, List.range'_succ, List.map_cons, List.reverse_cons, List.append_assoc]
    rfl

variable {addr}

theorem mapFrames_outside {i : Nat} {frames : List Addr} {page : Page}
    (outside : ∀ j < frames.length, page ≠ pageOf (pgnAt addr (i + j))) (mm : Mm) :
    (mapFrames addr i frames mm).pgd.pteAt page = mm.pgd.pteAt page := by
  induction frames generalizing i mm with
  | nil => rfl
  | cons fpn frames ih =>
    have first : page ≠ pageOf (pgnAt addr i) := outside 0 (by simp)
    have rest := @ih (i + 1) ?_ (mapPage mm (pgnAt addr i) fpn)
    · rw [mapFrames, rest, pteAt_mapPage, Function.update_of_ne first]
    · intro j inside
      have later := outside (j + 1) (by simp [inside])
      rwa [show i + 1 + j = i + (j + 1) by omega]

/-- The entry of a page is the one that the last round for this page wrote. -/
theorem mapFrames_inside {i : Nat} {frames : List Addr} (mm : Mm) (j : Nat) (inside : j < frames.length)
    (last : ∀ l < frames.length, j < l → pageOf (pgnAt addr (i + l)) ≠ pageOf (pgnAt addr (i + j))) :
    (mapFrames addr i frames mm).pgd.pteAt (pageOf (pgnAt addr (i + j))) =
      (mm.pgd.pteAt (pageOf (pgnAt addr (i + j)))).setFpn frames[j] := by
  induction frames generalizing i mm j with
  | nil => cases inside
  | cons fpn frames ih =>
    have later : ∀ j, i + 1 + j = i + (j + 1) := fun j => by omega
    rw [mapFrames]
    cases j with
    | zero =>
      rw [mapFrames_outside, pteAt_mapPage, Nat.add_zero, Function.update_self]
      · rfl
      · intro j below same
        rw [later] at same
        exact last (j + 1) (by simp [below]) (Nat.succ_pos j) same.symm
    | succ j =>
      have rest := ih (i := i + 1) (mapPage mm (pgnAt addr i) fpn) j (by simpa using inside) ?_
      · rw [later] at rest
        rw [rest, pteAt_mapPage]
        by_cases again : pageOf (pgnAt addr (i + (j + 1))) = pageOf (pgnAt addr i)
        · rw [again, Function.update_self, setFpn_setFpn]
          rfl
        · rw [Function.update_of_ne again]
          rfl
      · intro l below after
        rw [later, later]
        exact last (l + 1) (by simp [below]) (Nat.succ_lt_succ after)

/-- The rounds change no entry if the last one for each page writes what is there. -/
theorem mapFrames_unchanged {frames : List Addr} {mm : Mm}
    (unchanged : ∀ j, (inside : j < frames.length) → (∀ l < frames.length, j < l → pageOf (pgnAt addr l) ≠ pageOf (pgnAt addr j)) →
      (mm.pgd.pteAt (pageOf (pgnAt addr j))).setFpn frames[j] = mm.pgd.pteAt (pageOf (pgnAt addr j))) (page : Page) :
    (mapFrames addr 0 frames mm).pgd.pteAt page = mm.pgd.pteAt page := by
  classical
  by_cases written : ∃ j < frames.length, pageOf (pgnAt addr j) = page
  · obtain ⟨some, someInside, here⟩ := written
    let rounds (j : Nat) : Prop := j < frames.length ∧ pageOf (pgnAt addr j) = page
    have found : rounds (Nat.findGreatest rounds frames.length) := Nat.findGreatest_spec (Nat.le_of_lt someInside) ⟨someInside, here⟩
    generalize chosen : Nat.findGreatest rounds frames.length = j at found
    obtain ⟨inside, here⟩ := found
    have last (l : Nat) (below : l < frames.length) (after : j < l) : pageOf (pgnAt addr l) ≠ pageOf (pgnAt addr j) := by
      intro same
      exact Nat.findGreatest_is_greatest (chosen ▸ after) (Nat.le_of_lt below) ⟨below, same.trans here⟩
    have round := @mapFrames_inside addr 0 frames mm j inside fun l below after => by
      rw [Nat.zero_add, Nat.zero_add]
      exact last l below after
    rw [Nat.zero_add, unchanged j inside last, here] at round
    exact round
  · apply mapFrames_outside
    intro j inside same
    rw [Nat.zero_add] at same
    exact written ⟨j, inside, same.symm⟩

end Mapped

section VmMapRam
variable [DecidableEq Proc] {k : Krnl Proc} {caller : Proc} {astart aend mapstart : Addr} {incpgnum : CInt} {rg : VmRg}

/-- The first `count` free frames are behind the `count` pages from `mapstart` on, one to
one; these pages are listed, and nothing else has changed. -/
structure MapsRange (k : Krnl Proc) (caller : Proc) (mapstart : Addr) (count : Nat) (after : Krnl Proc) : Prop where
  ram : after.mram = { k.mram with freeFpList := k.mram.freeFpList.drop count }
  swap : after.activeMswp = k.activeMswp
  pages : Set.InjOn (fun i => pageOf (pgnAt mapstart i)) (Set.Iio count)
  frames : Set.BijOn (fun i => (after.pte (caller, pageOf (pgnAt mapstart i))).ramFrame) (Set.Iio count)
    (some '' {fpn | fpn ∈ k.mram.freeFpList.take count})
  fifo : (after.mms caller).fifoPgn = ((List.range count).map (pgnAt mapstart)).reverse ++ (k.mms caller).fifoPgn
  otherPages : ∀ page, (∀ i < count, page ≠ pageOf (pgnAt mapstart i)) → after.pte (caller, page) = k.pte (caller, page)
  otherProcs : ∀ p, p ≠ caller → after.mms p = k.mms p

/-- All of the request with the result 0, or none of it with another result. -/
def Transactional (k : Krnl Proc) (caller : Proc) (astart aend mapstart : Addr) (incpgnum : CInt) (rg : VmRg) : Prop :=
  let (result, _, after) := vmMapRam k caller astart aend mapstart incpgnum rg
  (rounds incpgnum ≤ k.mram.freeFpList.length → result = 0 ∧ MapsRange k caller mapstart (rounds incpgnum) after) ∧
    (k.mram.freeFpList.length < rounds incpgnum → result ≠ 0 ∧ after = k)

omit [DecidableEq Proc] in
/-- Entries written in a list of rounds name its frames one to one exactly if the entries
can hold every number. -/
private theorem names_frames_iff {frames : List Addr} (nodup : frames.Nodup) {entry : Nat → Pte} {old : Nat → Pte}
    (written : ∀ j, (inside : j < frames.length) → entry j = (old j).setFpn frames[j]) :
    Set.BijOn (fun j => (entry j).ramFrame) (Set.Iio frames.length) (some '' {fpn | fpn ∈ frames}) ↔
      ∀ fpn ∈ frames, fpn.toNat < 2 ^ 13 := by
  constructor
  · intro bijective fpn member
    obtain ⟨j, inside, names⟩ := bijective.surjOn ⟨fpn, member, rfl⟩
    dsimp only at names
    rw [written j inside] at names
    exact Pte.ramFrame_lt names
  · intro small
    have names (j : Nat) (inside : j < frames.length) : (entry j).ramFrame = some frames[j] := by
      rw [written j inside, Pte.ramFrame_setFpn (small _ (List.getElem_mem inside))]
    refine ⟨?_, ?_, ?_⟩
    · intro j inside
      exact ⟨frames[j], List.getElem_mem inside, (names j inside).symm⟩
    · intro j inside l insideToo same
      dsimp only at same
      rw [names j inside, names l insideToo, Option.some.injEq] at same
      exact (List.Nodup.getElem_inj_iff nodup).mp same
    · intro frame target
      obtain ⟨fpn, member, rfl⟩ := target
      obtain ⟨j, inside, rfl⟩ := List.getElem_of_mem member
      exact ⟨j, inside, names j inside⟩

private theorem mapsRange_iff (nodup : k.mram.freeFpList.Nodup) (inside : mapstart.toNat + rounds incpgnum * pagingPagesz ≤ 2 ^ 22)
    (enough : rounds incpgnum ≤ k.mram.freeFpList.length) :
    MapsRange k caller mapstart (rounds incpgnum) (vmMapRam k caller astart aend mapstart incpgnum rg).2.2 ↔
      ∀ fpn ∈ k.mram.freeFpList.take (rounds incpgnum), fpn.toNat < 2 ^ 13 := by
  have distinct (i j : Nat) (first : i < rounds incpgnum) (second : j < rounds incpgnum)
      (same : pageOf (pgnAt mapstart i) = pageOf (pgnAt mapstart j)) : i = j :=
    pageOf_pgnAt_injective inside first second same
  have shape : vmMapRam k caller astart aend mapstart incpgnum rg = _ := vmMapRam_enough enough
  have count : (k.mram.freeFpList.take (rounds incpgnum)).reverse.length = rounds incpgnum := by
    rw [List.length_reverse, List.length_take, Nat.min_eq_left enough]
  have taken : (k.mram.freeFpList.take (rounds incpgnum)).reverse.Nodup := List.nodup_reverse.mpr (nodup.sublist (List.take_sublist _ _))
  have member (fpn : Addr) : fpn ∈ (k.mram.freeFpList.take (rounds incpgnum)).reverse ↔ fpn ∈ k.mram.freeFpList.take (rounds incpgnum) :=
    List.mem_reverse
  generalize (k.mram.freeFpList.take (rounds incpgnum)).reverse = frames at shape count taken member
  have entries (j : Nat) (below : j < frames.length) :
      (vmMapRam k caller astart aend mapstart incpgnum rg).2.2.pte (caller, pageOf (pgnAt mapstart j)) =
        (k.pte (caller, pageOf (pgnAt mapstart j))).setFpn frames[j] := by
    have round := @mapFrames_inside mapstart 0 frames (k.mms caller) j below ?_
    · rw [Nat.zero_add] at round
      rw [shape]
      simp only [Krnl.pte, Krnl.setMm_same]
      exact round
    · intro l belowToo later same
      rw [Nat.zero_add, Nat.zero_add] at same
      have equal := distinct l j (count ▸ belowToo) (count ▸ below) same
      omega
  have named := names_frames_iff taken entries
  simp only [member, count] at named
  rw [← named]
  refine ⟨fun maps => maps.frames, fun frames => ⟨?_, ?_, ?_, frames, ?_, ?_, ?_⟩⟩
  · rw [shape]
    rfl
  · rw [shape]
    rfl
  · exact fun i first j second same => distinct i j first second same
  · rw [shape, Krnl.setMm_same, mapFrames_fifoPgn, count, List.range_eq_range']
  · intro page outside
    rw [shape]
    simp only [Krnl.pte, Krnl.setMm_same]
    apply mapFrames_outside
    intro j below
    rw [Nat.zero_add]
    exact outside j (count ▸ below)
  · intro p other
    rw [shape, Krnl.setMm_mms, if_neg other]

/-- On a range below 4 MB the call is transactional exactly if the entries can hold the
numbers of the frames it takes. A request that RAM cannot serve always leaves no trace. -/
theorem vm_map_ram_transactional_iff (nodup : k.mram.freeFpList.Nodup)
    (inside : mapstart.toNat + rounds incpgnum * pagingPagesz ≤ 2 ^ 22) :
    Transactional k caller astart aend mapstart incpgnum rg ↔
      (rounds incpgnum ≤ k.mram.freeFpList.length → ∀ fpn ∈ k.mram.freeFpList.take (rounds incpgnum), fpn.toNat < 2 ^ 13) := by
  by_cases enough : rounds incpgnum ≤ k.mram.freeFpList.length
  · have maps : MapsRange k caller mapstart (rounds incpgnum) (vmMapRam k caller astart aend mapstart incpgnum rg).2.2 ↔ _ :=
      mapsRange_iff nodup inside enough
    have result : (vmMapRam k caller astart aend mapstart incpgnum rg).1 = 0 := by rw [vmMapRam_enough enough]
    rw [← maps]
    constructor
    · intro both many
      exact (both.1 many).2
    · intro mapped
      exact ⟨fun many => ⟨result, mapped many⟩, fun short => absurd enough (Nat.not_le.mpr short)⟩
  · have untouched : vmMapRam k caller astart aend mapstart incpgnum rg = _ := vmMapRam_short (Nat.lt_of_not_le enough)
    have result : (vmMapRam k caller astart aend mapstart incpgnum rg).1 ≠ 0 := by
      rw [untouched]
      exact (by decide : (-1 : Addr) ≠ 0)
    have same : (vmMapRam k caller astart aend mapstart incpgnum rg).2.2 = k := by rw [untouched]
    exact iff_of_true ⟨fun many => absurd many enough, fun _ => ⟨result, same⟩⟩ fun many => absurd many enough

/-- Page 0 has frame 4 of RAM, and the other four are free in some order. -/
def fourFree : Krnl Unit :=
  { (oneFrame [] [0, 1]).setMm () (mapPage (initMm []) 0 4) with mram := { (oneFrame [3, 1, 0, 2] []).mram with maxsz := 1280 } }

/-- Three pages are mapped onto the first three frames, and a request for five leaves no trace. -/
theorem vm_map_ram_transactional_iff_fourFree : Transactional fourFree () 1280 2048 1280 3 { rgStart := 1280, rgEnd := 2048 } ∧
    Transactional fourFree () 1280 2560 1280 5 { rgStart := 1280, rgEnd := 2560 } := by
  have nodup : fourFree.mram.freeFpList.Nodup := by decide
  have fits : ∀ fpn ∈ fourFree.mram.freeFpList, fpn.toNat < 2 ^ 13 := by
    show ∀ fpn ∈ [3#64, 1#64, 0#64, 2#64], fpn.toNat < 2 ^ 13
    simp
  constructor
  · exact (vm_map_ram_transactional_iff nodup (by simp [rounds, pagingPagesz])).mpr fun _ fpn member => fits fpn (List.mem_of_mem_take member)
  · exact (vm_map_ram_transactional_iff nodup (by simp [rounds, pagingPagesz])).mpr fun enough => absurd enough (by decide)

/-- A RAM of 4 MB, twice what the entries can address, with two free frames. -/
def wideRam : Krnl Unit :=
  { oneFrame [] [0, 1] with mram := { (oneFrame [0, 8192] []).mram with maxsz := 2 ^ 22 }, mm := some () }

/-- Two pages asked of a RAM whose free frames are 0 and 8192: both entries name frame 0. -/
theorem two_pages_share_a_frame : wideRam.mram.freeFpList.Nodup ∧
    ¬Transactional wideRam () 0 512 0 2 { rgStart := 0, rgEnd := 512 } ∧
    ∃ rg after, vmMapRam wideRam () 0 512 0 2 { rgStart := 0, rgEnd := 512 } = (0, rg, after) ∧
      (after.pte ((), pageOf (pgnAt 0 0))).ramFrame = some 0 ∧ (after.pte ((), pageOf (pgnAt 0 1))).ramFrame = some 0 := by
  have first : ((vmMapRam wideRam () 0 512 0 2 { rgStart := 0, rgEnd := 512 }).2.2.pte ((), pageOf (pgnAt 0 0))).ramFrame = some 0 := by
    decide
  have second : ((vmMapRam wideRam () 0 512 0 2 { rgStart := 0, rgEnd := 512 }).2.2.pte ((), pageOf (pgnAt 0 1))).ramFrame = some 0 := by
    decide
  refine ⟨by decide, fun both => ?_, _, _, rfl, first, second⟩
  have maps := (both.1 (by decide)).2
  have same := maps.frames.injOn (show 0 ∈ Set.Iio (rounds 2) by decide) (show 1 ∈ Set.Iio (rounds 2) by decide) (first.trans second.symm)
  cases same

end VmMapRam

section PageIn
variable [DecidableEq Proc] {env : Env Proc} {k : Krnl Proc} {caller : Proc} {pgn : CInt}

/-- The caller's page table and FIFO and both devices, with their free lists and their
contents, are as before. -/
structure PagingUntouched (k : Krnl Proc) (caller : Proc) (after : Krnl Proc) : Prop where
  pgd : (after.mms caller).pgd = (k.mms caller).pgd
  fifo : (after.mms caller).fifoPgn = (k.mms caller).fifoPgn
  ram : after.mram = k.mram
  swap : after.activeMswp = k.activeMswp

def FailureLeavesNoTrace (env : Env Proc) (k : Krnl Proc) (caller : Proc) (pgn : CInt) : Prop :=
  ∀ fpn after, pgGetpage env k caller pgn = .ok (-1, fpn, after) → PagingUntouched k caller after

/-- The page has to come in, no frame is free on either device, and there is a victim. -/
def LosesVictim (k : Krnl Proc) (caller : Proc) (pgn : CInt) : Prop :=
  pagingPageSwapped ((k.mms caller).getEntry (intToAddr pgn)) = true ∧ k.mram.freeFpList = [] ∧
    k.activeMswp.freeFpList = [] ∧ (k.mms caller).fifoPgn ≠ []

/-- With both devices full the victim is off the list and stays in RAM. -/
private theorem evictVictim_both_full {vicpgn : Addr} {mm : Mm} (victim : findVictimPage (k.mms caller) = some (vicpgn, mm))
    (swapFull : k.activeMswp.freeFpList = []) : evictVictim env k caller = .ok (none, k.setMm caller mm) := by
  rw [evictVictim, victim]
  dsimp only
  rw [Krnl.setMm_activeMswp, Memphy.getFreefp_nil swapFull]
  rfl

private theorem pgGetpage_full (swapped : pagingPageSwapped ((k.mms caller).getEntry (intToAddr pgn)) = true)
    (ramFull : k.mram.freeFpList = []) {middle : Krnl Proc} (evicted : evictVictim env k caller = .ok (none, middle)) :
    pgGetpage env k caller pgn = .ok (-1, none, middle) := by
  rw [pgGetpage, if_pos swapped, Memphy.getFreefp_nil ramFull]
  dsimp only
  rw [evicted]
  rfl

omit [DecidableEq Proc] in
theorem findVictimPage_fifo {mm after : Mm} {vicpgn : Addr} (found : findVictimPage mm = some (vicpgn, after)) :
    mm.fifoPgn = after.fifoPgn ++ [vicpgn] := by
  rw [findVictimPage, Option.map_eq_some_iff] at found
  obtain ⟨⟨oldest, kept⟩, popped, same⟩ := found
  cases same
  exact popOldest_eq popped

/-- A failed page-in leaves no trace exactly if it is not the one that finds both devices
full after it has picked a victim. -/
theorem failed_page_in_changes_nothing_iff : FailureLeavesNoTrace env k caller pgn ↔ ¬LosesVictim k caller pgn := by
  constructor
  · intro noTrace ⟨swapped, ramFull, swapFull, listed⟩
    cases victim : findVictimPage (k.mms caller) with
    | none =>
      rw [findVictimPage, Option.map_eq_none_iff, popOldest_none] at victim
      exact listed victim
    | some found =>
      obtain ⟨vicpgn, mm⟩ := found
      have lost : evictVictim env k caller = _ := evictVictim_both_full victim swapFull
      have untouched := noTrace _ _ (pgGetpage_full swapped ramFull lost)
      have fifo := untouched.fifo
      rw [Krnl.setMm_same, findVictimPage_fifo victim] at fifo
      have lengths := congrArg List.length fifo
      simp at lengths
  · intro keeps fpn after returned
    rcases (pgGetpage_cases returned).2 with ⟨absent, _, rfl⟩ | ⟨_, code, _⟩
    · by_cases swapped : pagingPageSwapped ((k.mms caller).getEntry (intToAddr pgn)) = true
      · -- not available: RAM is full, and there is no victim or no swap frame for it
        rw [Available, if_pos swapped, not_or, not_not, not_and_or, not_not, not_not] at absent
        obtain ⟨ramFull, noRoom⟩ := absent
        have empty : (k.mms caller).fifoPgn = [] := by
          rcases noRoom with empty | swapFull
          · exact empty
          · by_contra listed
            exact keeps ⟨swapped, ramFull, swapFull, listed⟩
        have noVictim : evictVictim env k caller = .ok (none, k) := by
          rw [evictVictim, findVictimPage, empty]
          rfl
        rw [pgGetpage_full swapped ramFull noVictim] at returned
        cases returned
        exact ⟨rfl, rfl, rfl, rfl⟩
      · rw [pgGetpage, if_neg swapped] at returned
        split at returned
        · cases returned
        · cases returned
          exact ⟨rfl, rfl, rfl, rfl⟩
    · cases code

/-- Page 0 holds the only RAM frame, page 1 and some other process the two swap frames. -/
def bothFull : Krnl Unit :=
  let k := oneFrame [] []
  k.setMm () (((k.mms ()).setFpn 0 0).enlistPgn 0 |>.setSwap 1 0 0)

/-- The fault on page 1 fails, and page 0 can never be chosen again. -/
theorem failed_page_in_forgets_victim : ¬FailureLeavesNoTrace crowdedEnv bothFull () 1 ∧
    (bothFull.mms ()).fifoPgn = [0] ∧ ∃ after, pgGetpage crowdedEnv bothFull () 1 = .ok (-1, none, after) ∧
      (after.mms ()).fifoPgn = [] ∧ (after.pte ((), pageOf 0)).resident = true := by
  have ran : ∃ after, pgGetpage crowdedEnv bothFull () 1 = .ok (-1, none, after) ∧
      (after.mms ()).fifoPgn = [] ∧ (after.pte ((), pageOf 0)).resident = true := ⟨_, rfl, rfl, by decide⟩
  refine ⟨fun noTrace => ?_, rfl, ran⟩
  obtain ⟨after, returned, forgotten, _⟩ := ran
  have same := (noTrace _ _ returned).fifo
  rw [forgotten] at same
  cases same

end PageIn
end LamiaAtrium
