import LamiaAtrium.Proofs.FrameOwnership

/-! What `free_pcb_memph` gives back. Its loop counts pages of 4096 bytes in 2 MB, while
the processes map pages of 256 bytes in 4 MB: it stops at page 512 of 16384. -/

namespace LamiaAtrium
variable {Proc : Type} {k after : Krnl Proc} {caller : Proc}

/-- `PAGING_MAX_PGN`: the bus of 4 MB in pages of 256 bytes. -/
def pagingMaxPgn : Nat := (2 ^ 22 + pagingPagesz - 1) / pagingPagesz

/-- No two pages of the process name one frame, and all are below the limit of the bus. -/
structure OwnFrames (k : Krnl Proc) (caller : Proc) : Prop where
  ram : ∀ first second fpn, (k.pte (caller, first)).ramFrame = some fpn → (k.pte (caller, second)).ramFrame = some fpn → first = second
  swap : ∀ first second fpn, (k.pte (caller, first)).swapFrame = some fpn → (k.pte (caller, second)).swapFrame = some fpn → first = second
  below : ∀ page, ¬(k.pte (caller, page)).unmapped → page.toNat < pagingMaxPgn

/-- Each frame of the process is pushed onto the free list of its device once, and
nothing else happens. -/
structure Releases (k : Krnl Proc) (caller : Proc) (after : Krnl Proc) : Prop where
  ram : ∃ pushed, after.mram = { k.mram with freeFpList := pushed ++ k.mram.freeFpList } ∧ pushed.Nodup ∧
    ∀ fpn, fpn ∈ pushed ↔ ∃ page, (k.pte (caller, page)).ramFrame = some fpn
  swap : ∃ pushed, after.activeMswp = { k.activeMswp with freeFpList := pushed ++ k.activeMswp.freeFpList } ∧ pushed.Nodup ∧
    ∀ fpn, fpn ∈ pushed ↔ ∃ page, (k.pte (caller, page)).swapFrame = some fpn
  rest : after.mms = k.mms

section Loop

/-- The frames that the first `count` rounds push, the last one first. -/
def pushedFrames (frame : Page → Option Addr) (count : Nat) : List Addr :=
  (List.range count).reverse.filterMap fun pagenum => frame (BitVec.ofNat 45 pagenum)

theorem pushedFrames_succ (frame : Page → Option Addr) (count : Nat) :
    pushedFrames frame (count + 1) = (frame (BitVec.ofNat 45 count)).toList ++ pushedFrames frame count := by
  rw [pushedFrames, List.range_succ, List.reverse_append, List.reverse_singleton, List.singleton_append]
  cases named : frame (BitVec.ofNat 45 count) with
  | none => exact List.filterMap_cons_none named
  | some fpn => exact List.filterMap_cons_some named

theorem mem_pushedFrames {frame : Page → Option Addr} {count : Nat} (inside : count ≤ 2 ^ 45) {fpn : Addr} :
    fpn ∈ pushedFrames frame count ↔ ∃ page, page.toNat < count ∧ frame page = some fpn := by
  simp only [pushedFrames, List.mem_filterMap, List.mem_reverse, List.mem_range]
  constructor
  · intro ⟨pagenum, below, named⟩
    refine ⟨BitVec.ofNat 45 pagenum, ?_, named⟩
    rw [BitVec.toNat_ofNat]
    omega
  · intro ⟨page, below, named⟩
    exact ⟨page.toNat, below, by simpa using named⟩

theorem pushedFrames_nodup {frame : Page → Option Addr} {count : Nat} (inside : count ≤ 2 ^ 45)
    (distinct : ∀ first second fpn, frame first = some fpn → frame second = some fpn → first = second) :
    (pushedFrames frame count).Nodup := by
  induction count with
  | zero => exact List.nodup_nil
  | succ count ih =>
    rw [pushedFrames_succ]
    cases named : frame (BitVec.ofNat 45 count) with
    | none => exact ih (by omega)
    | some fpn =>
      refine List.nodup_cons.mpr ⟨fun again => ?_, ih (by omega)⟩
      obtain ⟨page, below, same⟩ := (mem_pushedFrames (by omega)).mp again
      have number := congrArg BitVec.toNat (distinct _ _ fpn same named)
      rw [BitVec.toNat_ofNat] at number
      omega

theorem freePcbPage_eq (k : Krnl Proc) (caller : Proc) (pagenum : Nat) :
    freePcbPage caller k pagenum =
      { k with
        mram := { k.mram with freeFpList := (k.pte (caller, BitVec.ofNat 45 pagenum)).ramFrame.toList ++ k.mram.freeFpList }
        activeMswp := { k.activeMswp with
          freeFpList := (k.pte (caller, BitVec.ofNat 45 pagenum)).swapFrame.toList ++ k.activeMswp.freeFpList } } := by
  have page : pageOf (BitVec.ofNat 64 pagenum) = BitVec.ofNat 45 pagenum := by
    apply BitVec.eq_of_toNat_eq
    simp only [pageOf, BitVec.toNat_setWidth, BitVec.toNat_ofNat]
    omega
  have small (word : BitVec 32) (bound : word.toNat < 2 ^ 31) : intToAddr word = word.setWidth 64 := by
    apply BitVec.eq_of_toNat_eq
    rw [intToAddr, BitVec.toNat_signExtend, BitVec.msb_eq_false_iff_two_mul_lt.mpr (by omega)]
    simp
  rw [freePcbPage, getEntry_eq_pte, page]
  generalize k.pte (caller, BitVec.ofNat 45 pagenum) = pte
  dsimp only
  by_cases swapped : pagingPageSwapped pte = true
  · have absent := Pte.not_resident_of_swapped swapped
    have some : pte ≠ 0 := fun empty => by rw [empty] at swapped; cases swapped
    rw [if_neg some, if_neg (by simp [swapped]), if_pos swapped, Pte.ramFrame_of_not_resident absent, Pte.swapFrame_of_swapped swapped]
    rw [small _ (Nat.lt_of_lt_of_le (pagingSwp_lt pte) (by decide))]
    rfl
  · have unswapped : pte.swapFrame = none := by simp [Pte.swapFrame, swapped]
    rw [unswapped]
    by_cases present : pagingPagePresent pte = true
    · have resident : pte.resident = true := by simp [Pte.resident, swapped, present]
      have some : pte ≠ 0 := fun empty => by rw [empty] at present; cases present
      rw [if_neg some, if_pos (by simp [swapped, present]), Pte.ramFrame_of_resident resident]
      rw [small _ (Nat.lt_of_lt_of_le (pagingFpn_lt pte) (by decide))]
      rfl
    · have absent : pte.resident = false := by simp [Pte.resident, present]
      rw [Pte.ramFrame_of_not_resident absent]
      split
      · rfl
      · have neither : (pagingPagePresent pte && !pagingPageSwapped pte) ≠ true := by simp [present]
        rw [if_neg neither]
        rfl

theorem freePcbMemph_loop (k : Krnl Proc) (caller : Proc) (count : Nat) :
    (List.range count).foldl (freePcbPage caller) k =
      { k with
        mram := { k.mram with freeFpList := pushedFrames (fun page => (k.pte (caller, page)).ramFrame) count ++ k.mram.freeFpList }
        activeMswp := { k.activeMswp with
          freeFpList := pushedFrames (fun page => (k.pte (caller, page)).swapFrame) count ++ k.activeMswp.freeFpList } } := by
  induction count with
  | zero => rfl
  | succ count ih =>
    rw [List.range_succ, List.foldl_append, ih, List.foldl_cons, List.foldl_nil, freePcbPage_eq, pushedFrames_succ, pushedFrames_succ,
      List.append_assoc, List.append_assoc]
    rfl

theorem freePcbMemph_eq (k : Krnl Proc) (caller : Proc) :
    (freePcbMemph k caller).2 =
      { k with
        mram := { k.mram with
          freeFpList := pushedFrames (fun page => (k.pte (caller, page)).ramFrame) paging64MaxPgn ++ k.mram.freeFpList }
        activeMswp := { k.activeMswp with
          freeFpList := pushedFrames (fun page => (k.pte (caller, page)).swapFrame) paging64MaxPgn ++ k.activeMswp.freeFpList } } := by
  dsimp only [freePcbMemph]
  generalize paging64MaxPgn = count
  exact freePcbMemph_loop k caller count

end Loop

/-- `free_pcb_memph` releases exactly what the process owns if and only if nothing is
mapped from page 512 on. -/
theorem free_pcb_memph_releases_iff (own : OwnFrames k caller) :
    Releases k caller (freePcbMemph k caller).2 ↔ ∀ page, ¬(k.pte (caller, page)).unmapped → page.toNat < paging64MaxPgn := by
  have shape := freePcbMemph_eq k caller
  have inside : paging64MaxPgn ≤ 2 ^ 45 := by decide
  generalize paging64MaxPgn = limit at shape inside ⊢
  constructor
  · intro releases page mapped
    obtain ⟨rams, ram, _, ramNamed⟩ := releases.ram
    obtain ⟨swaps, swap, _, swapNamed⟩ := releases.swap
    rw [shape] at ram swap
    have ramSame : pushedFrames _ limit = rams := List.append_cancel_right (congrArg Memphy.freeFpList ram)
    have swapSame : pushedFrames _ limit = swaps := List.append_cancel_right (congrArg Memphy.freeFpList swap)
    by_cases swapped : pagingPageSwapped (k.pte (caller, page)) = true
    · have holds := Pte.swapFrame_of_swapped swapped
      have pushed := (swapNamed _).mpr ⟨page, holds⟩
      rw [← swapSame, mem_pushedFrames inside] at pushed
      obtain ⟨other, below, same⟩ := pushed
      exact own.swap _ _ _ same holds ▸ below
    · have resident : (k.pte (caller, page)).resident = true := by
        cases absent : (k.pte (caller, page)).resident with
        | true => rfl
        | false => exact absurd ⟨absent, by simpa using swapped⟩ mapped
      have holds := Pte.ramFrame_of_resident resident
      have pushed := (ramNamed _).mpr ⟨page, holds⟩
      rw [← ramSame, mem_pushedFrames inside] at pushed
      obtain ⟨other, below, same⟩ := pushed
      exact own.ram _ _ _ same holds ▸ below
  · intro low
    have all (frame : Page → Option Addr) (mapped : ∀ page, (k.pte (caller, page)).unmapped → frame page = none) (fpn : Addr) :
        fpn ∈ pushedFrames frame limit ↔ ∃ page, frame page = some fpn := by
      rw [mem_pushedFrames inside]
      constructor
      · intro ⟨page, _, named⟩
        exact ⟨page, named⟩
      · intro ⟨page, named⟩
        refine ⟨page, low page fun unmapped => ?_, named⟩
        rw [mapped page unmapped] at named
        cases named
    rw [shape]
    refine ⟨⟨_, rfl, pushedFrames_nodup inside own.ram, all _ ?_⟩, ⟨_, rfl, pushedFrames_nodup inside own.swap, all _ ?_⟩, rfl⟩
    · exact fun page unmapped => Pte.ramFrame_of_not_resident unmapped.1
    · exact fun page unmapped => Pte.swapFrame_of_unmapped unmapped

section FourPages

/-- Two pages in RAM and two on the swap device, among pages that were never mapped. -/
def fourPages : Krnl Unit :=
  let k := oneFrame [1] [2]
  k.setMm () (((((k.mms ()).setFpn 3 0).setSwap 5 0 0).setFpn 511 2).setSwap 9 0 1)

theorem fourPages_pte (page : Page) : fourPages.pte ((), page) =
    if page = pageOf 9 then Pte.setSwap 0 0 1 else if page = pageOf 511 then Pte.setFpn 0 2
    else if page = pageOf 5 then Pte.setSwap 0 0 0 else if page = pageOf 3 then Pte.setFpn 0 0 else 0 := by
  have table : fourPages.pte ((), page) =
      (((((initMm []).setFpn 3 0).setSwap 5 0 0).setFpn 511 2).setSwap 9 0 1).pgd.pteAt page := rfl
  rw [table]
  simp only [Mm.setFpn, Mm.setSwap, pteAt_pteSetFpn, pteAt_pteSetSwap, Function.update_apply]
  have empty (page : Page) : (initMm []).pgd.pteAt page = 0 := pteAt_initPgd page
  simp only [empty]
  simp [pageOf]

theorem fourPages_ramFrame (page : Page) : (fourPages.pte ((), page)).ramFrame =
    if page = pageOf 511 then some 2 else if page = pageOf 3 then some 0 else none := by
  rw [fourPages_pte]
  split
  next same => subst same; rfl
  next =>
    split
    · rfl
    · split
      next same => subst same; rfl
      next => split <;> rfl

theorem fourPages_swapFrame (page : Page) : (fourPages.pte ((), page)).swapFrame =
    if page = pageOf 9 then some 1 else if page = pageOf 5 then some 0 else none := by
  rw [fourPages_pte]
  split
  · rfl
  · split
    next same => subst same; rfl
    next =>
      split
      · rfl
      · split <;> rfl

theorem fourPages_low (page : Page) (mapped : ¬(fourPages.pte ((), page)).unmapped) : page.toNat < paging64MaxPgn := by
  by_contra high
  have beyond (pgn : Addr) (low : (pageOf pgn).toNat < paging64MaxPgn) : page ≠ pageOf pgn := fun same => high (same ▸ low)
  rw [fourPages_pte, if_neg (beyond 9 (by decide)), if_neg (beyond 511 (by decide)), if_neg (beyond 5 (by decide)),
    if_neg (beyond 3 (by decide))] at mapped
  exact mapped ⟨rfl, rfl⟩

theorem fourPages_own : OwnFrames fourPages () where
  ram first second fpn holds also := by
    rw [fourPages_ramFrame] at holds also
    grind
  swap first second fpn holds also := by
    rw [fourPages_swapFrame] at holds also
    grind
  below page mapped := Nat.lt_of_lt_of_le (fourPages_low page mapped) (by decide)

theorem free_pcb_memph_releases_iff_fourPages : Releases fourPages () (freePcbMemph fourPages ()).2 :=
  (free_pcb_memph_releases_iff fourPages_own).mpr fourPages_low

end FourPages

section OnePage

/-- A process that has mapped one page, onto the only frame of the RAM. -/
def onePage (pgn : Addr) : Krnl Unit :=
  let k := oneFrame [] [0, 1]
  k.setMm () ((k.mms ()).setFpn pgn 0)

theorem onePage_pte (pgn : Addr) (page : Page) :
    (onePage pgn).pte ((), page) = if page = pageOf pgn then Pte.setFpn 0 0 else 0 := by
  rw [onePage, pte_setMm _ () (pteAt_pteSetFpn _ pgn 0)]
  simp only [Function.update_apply, Prod.mk.injEq, true_and]
  split
  · congr 1
    exact pteAt_initPgd _
  · exact pteAt_initPgd page

theorem onePage_own {pgn : Addr} (below : (pageOf pgn).toNat < pagingMaxPgn) : OwnFrames (onePage pgn) () := by
  have elsewhere (page : Page) (mapped : ¬((onePage pgn).pte ((), page)).unmapped) : page = pageOf pgn := by
    by_contra other
    rw [onePage_pte, if_neg other] at mapped
    exact mapped ⟨rfl, rfl⟩
  constructor
  · intro first second fpn holds holdsToo
    rw [elsewhere first (Pte.mapped_of_ramFrame holds), elsewhere second (Pte.mapped_of_ramFrame holdsToo)]
  · intro first second fpn holds holdsToo
    rw [elsewhere first (Pte.mapped_of_swapFrame holds), elsewhere second (Pte.mapped_of_swapFrame holdsToo)]
  · intro page mapped
    rw [elsewhere page mapped]
    exact below

/-- Page 512 is one the process can map; its frame is not given back. -/
theorem page_512_keeps_its_frame : OwnFrames (onePage 512) () ∧ ((onePage 512).pte ((), 512)).ramFrame = some 0 ∧
    ((freePcbMemph (onePage 512) ()).2).mram.freeFpList = [] ∧ ¬Releases (onePage 512) () (freePcbMemph (onePage 512) ()).2 := by
  have holds : ((onePage 512).pte ((), 512)).ramFrame = some 0 := by decide
  have kept : ((freePcbMemph (onePage 512) ()).2).mram.freeFpList = [] := by
    rw [freePcbMemph_eq]
    refine List.append_eq_nil_iff.mpr ⟨List.eq_nil_iff_forall_not_mem.mpr fun fpn pushed => ?_, rfl⟩
    obtain ⟨page, below, names⟩ := (mem_pushedFrames (by decide)).mp pushed
    have low : page ≠ pageOf 512 := fun same => by
      rw [same] at below
      exact absurd below (by decide)
    rw [onePage_pte, if_neg low] at names
    cases names
  refine ⟨onePage_own (by decide), holds, kept, fun releases => ?_⟩
  obtain ⟨pushed, ram, _, named⟩ := releases.ram
  have member := (named 0).mpr ⟨512, holds⟩
  have list := congrArg Memphy.freeFpList ram
  rw [kept] at list
  rw [(List.append_eq_nil_iff.mp list.symm).1] at member
  cases member

end OnePage
end LamiaAtrium
