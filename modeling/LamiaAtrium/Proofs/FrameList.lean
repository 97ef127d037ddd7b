import LamiaAtrium.NodeHeap

/-! The list that `init_memphy` leaves behind `free_fp_list`, whatever the memory held
before. -/

namespace LamiaAtrium
open LinkedList

section Malloc
variable {Ptr Value : Type} [DecidableEq Ptr]

/-- The promise of `malloc`: no two blocks overlap, and none is live. -/
structure NodeHeap.Fresh (h : NodeHeap Ptr Value) : Prop where
  apart : (h.blocks.map Prod.fst).Nodup
  unused : ∀ block ∈ h.blocks, h.cells block.1 = none

variable {h after : NodeHeap Ptr Value} {pointer : Ptr} {content cell : Cell Ptr Value} {blocks : List (Ptr × Cell Ptr Value)}

@[simp] theorem NodeHeap.malloc_cons (next : h.blocks = (pointer, content) :: blocks) :
    h.malloc = .ok (pointer, { cells := Function.update h.cells pointer (some content), blocks }) := by
  rw [NodeHeap.malloc, next]

omit [DecidableEq Ptr] in
@[simp] theorem NodeHeap.load_live (live : h.cells pointer = some cell) : h.load pointer = .ok cell := by
  rw [NodeHeap.load, live]

@[simp] theorem NodeHeap.store_live (live : h.cells pointer = some content) (cell : Cell Ptr Value) :
    h.store pointer cell = .ok { h with cells := Function.update h.cells pointer (some cell) } := by
  rw [NodeHeap.store, live]

theorem NodeHeap.setNext_live (live : h.cells pointer = some cell) (next : Option Ptr) :
    h.setNext pointer next = .ok { h with cells := Function.update h.cells pointer (some { cell with next }) } := by
  rw [NodeHeap.setNext, NodeHeap.load_live live, Outcome.bind_ok, NodeHeap.store_live live]

theorem NodeHeap.setValue_live (live : h.cells pointer = some cell) (value : Value) :
    h.setValue pointer value = .ok { h with cells := Function.update h.cells pointer (some { cell with value }) } := by
  rw [NodeHeap.setValue, NodeHeap.load_live live, Outcome.bind_ok, NodeHeap.store_live live]

omit [DecidableEq Ptr] in
/-- What `malloc` promised still holds for the blocks after the first one. -/
theorem NodeHeap.Fresh.tail (fresh : h.Fresh) (next : h.blocks = (pointer, content) :: blocks) {cells : Cells Ptr Value}
    (kept : ∀ block ∈ blocks, cells block.1 = h.cells block.1) : NodeHeap.Fresh { cells, blocks } where
  apart := by
    have apart := fresh.apart
    rw [next, List.map_cons, List.nodup_cons] at apart
    exact apart.2
  unused block member := (kept block member).trans (fresh.unused block (next ▸ List.mem_cons_of_mem _ member))

omit [DecidableEq Ptr] in
theorem NodeHeap.Fresh.ne_of_live (fresh : h.Fresh) (live : h.cells pointer = some cell) {block : Ptr × Cell Ptr Value}
    (member : block ∈ h.blocks) : block.1 ≠ pointer := by
  intro same
  have unused := fresh.unused block member
  rw [same, live] at unused
  cases unused

end Malloc

section Format
variable {Ptr : Type} [DecidableEq Ptr] {h : NodeHeap Ptr Addr}

/-- The numbers that the loop of `MEMPHY_format` writes from round `iter` on. -/
def writtenNumbers : Nat → CInt → List Addr
  | 0, _ => []
  | left + 1, iter => intToAddr iter :: writtenNumbers left (iter + 1)

/-- What the loop makes of the memory: the node it starts at gets a link to the new nodes, and
keeps its own link if there are none. -/
structure Linked (left : Nat) (iter : CInt) (fst : Ptr) (cell : Cell Ptr Addr) (h after : NodeHeap Ptr Addr) (next : Option Ptr) :
    Prop where
  first : after.cells fst = some { value := cell.value, next }
  behind : if left = 0 then next = cell.next else Chain after.cells next (writtenNumbers left iter)
  frame : ∀ pointer, pointer ≠ fst → (∀ block ∈ h.blocks, block.1 ≠ pointer) → after.cells pointer = h.cells pointer

theorem formatLoop_links {left : Nat} {iter : CInt} {fst : Ptr} {cell : Cell Ptr Addr} (fresh : h.Fresh)
    (enough : left ≤ h.blocks.length) (live : h.cells fst = some cell) :
    ∃ after next, MemphyStruct.formatLoop left iter fst h = .ok after ∧ Linked left iter fst cell h after next := by
  induction left generalizing iter fst cell h with
  | zero => exact ⟨h, cell.next, rfl, live, rfl, fun _ _ _ => rfl⟩
  | succ left ih =>
    cases next : h.blocks with
    | nil => rw [next] at enough; cases enough
    | cons block blocks =>
      obtain ⟨newfst, content⟩ := block
      have member : (newfst, content) ∈ h.blocks := next ▸ List.mem_cons_self
      have distinct : newfst ≠ fst := fresh.ne_of_live live member
      -- the memory after the three writes of the round
      let written : Cells Ptr Addr := Function.update (Function.update h.cells newfst (some { value := intToAddr iter, next := none }))
        fst (some { cell with next := some newfst })
      have round : MemphyStruct.formatLoop (left + 1) iter fst h =
          MemphyStruct.formatLoop left (iter + 1) newfst { cells := written, blocks } := by
        have liveNew : (Function.update h.cells newfst (some content)) newfst = some content := Function.update_self _ _ _
        rw [MemphyStruct.formatLoop, NodeHeap.malloc_cons next, Outcome.bind_ok]
        dsimp only
        rw [NodeHeap.store_live liveNew, Outcome.bind_ok, Function.update_idem, NodeHeap.setNext_live]
        · rfl
        · exact (Function.update_of_ne distinct.symm _ _).trans live
      have newCell : written newfst = some { value := intToAddr iter, next := none } :=
        (Function.update_of_ne distinct _ _).trans (Function.update_self _ _ _)
      have apart := fresh.apart
      rw [next, List.map_cons, List.nodup_cons] at apart
      have notNew {other : Ptr × Cell Ptr Addr} (later : other ∈ blocks) : other.1 ≠ newfst := by
        intro same
        apply apart.1
        rw [← same]
        exact List.mem_map.mpr ⟨other, later, rfl⟩
      have notFst {other : Ptr × Cell Ptr Addr} (later : other ∈ blocks) : other.1 ≠ fst :=
        fresh.ne_of_live live (next ▸ List.mem_cons_of_mem _ later)
      have freshThere : NodeHeap.Fresh { cells := written, blocks } := by
        apply fresh.tail next
        intro other later
        exact (Function.update_of_ne (notFst later) _ _).trans (Function.update_of_ne (notNew later) _ _)
      have room : left ≤ blocks.length := by
        rw [next, List.length_cons] at enough
        omega
      obtain ⟨after, link, ran, linked⟩ := @ih { cells := written, blocks } (iter + 1) newfst _ freshThere room newCell
      refine ⟨after, some newfst, round.trans ran, ?_, ?_, ?_⟩
      · rw [linked.frame fst distinct.symm fun other later => notFst later]
        exact Function.update_self _ _ _
      · rw [if_neg (Nat.succ_ne_zero left)]
        refine .cons linked.first ?_
        have behind := linked.behind
        cases left with
        | zero =>
          rw [if_pos rfl] at behind
          rw [behind]
          exact .nil
        | succ left =>
          rw [if_neg (Nat.succ_ne_zero left)] at behind
          exact behind
      · intro pointer notOld notBlock
        have notHere : newfst ≠ pointer := notBlock _ member
        rw [linked.frame pointer (Ne.symm notHere) fun other later => notBlock other (next ▸ List.mem_cons_of_mem _ later)]
        exact (Function.update_of_ne notOld _ _).trans (Function.update_of_ne (Ne.symm notHere) _ _)

theorem writtenNumbers_eq (left start : Nat) (bound : start + left ≤ 2 ^ 31) :
    writtenNumbers left (BitVec.ofNat 32 start) = (List.range' start left).map (BitVec.ofNat 64) := by
  induction left generalizing start with
  | zero => rfl
  | succ left ih =>
    have number : (BitVec.ofNat 32 start).toNat = start := by
      rw [BitVec.toNat_ofNat]
      omega
    have sign : (BitVec.ofNat 32 start).msb = false := by
      rw [BitVec.msb_eq_false_iff_two_mul_lt, number]
      omega
    have wide : intToAddr (BitVec.ofNat 32 start) = BitVec.ofNat 64 start := by
      apply BitVec.eq_of_toNat_eq
      rw [intToAddr, BitVec.signExtend_eq_setWidth_of_msb_false sign, BitVec.toNat_setWidth_of_le (by decide), number,
        BitVec.toNat_ofNat]
      omega
    have next : BitVec.ofNat 32 start + 1 = BitVec.ofNat 32 (start + 1) := (BitVec.ofNat_add start 1).symm
    rw [writtenNumbers, wide, next, ih (start + 1) (by omega), List.range'_succ, List.map_cons]

variable {mp : MemphyStruct Ptr} {pagesz : CInt}

theorem format_refused (none : (mp.maxsz.sdiv pagesz).toInt ≤ 0) : mp.format pagesz h = .ok (-1, mp, h) := by
  rw [MemphyStruct.format, if_pos (BitVec.sle_iff_toInt_le.mpr none)]
  rfl

/-- `MEMPHY_format` with at least one frame: the node of frame 0 comes first, and its link is
the one its block held unless there is a second frame. -/
theorem format_links (frames : 0 < (mp.maxsz.sdiv pagesz).toInt) (fresh : h.Fresh)
    (enough : (mp.maxsz.sdiv pagesz).toInt ≤ h.blocks.length) :
    ∃ fst content blocks after next, h.blocks = (fst, content) :: blocks ∧
      mp.format pagesz h = .ok (0, { mp with freeFpList := some fst }, after) ∧ after.cells fst = some { value := 0, next } ∧
      ((mp.maxsz.sdiv pagesz).toInt = 1 → next = content.next ∧
        after.cells = Function.update h.cells fst (some { value := 0, next := content.next })) ∧
      (1 < (mp.maxsz.sdiv pagesz).toInt →
        Chain after.cells next (writtenNumbers ((mp.maxsz.sdiv pagesz).toNat - 1) 1)) := by
  generalize count : mp.maxsz.sdiv pagesz = numfp at *
  have sign : numfp.toInt = numfp.toNat := toInt_of_nonneg (Int.le_of_lt frames)
  cases next : h.blocks with
  | nil =>
    rw [next, List.length_nil] at enough
    omega
  | cons block blocks =>
    obtain ⟨fst, content⟩ := block
    have member : (fst, content) ∈ h.blocks := next ▸ List.mem_cons_self
    let head : NodeHeap Ptr Addr := { cells := Function.update h.cells fst (some { content with value := 0 }), blocks }
    have live : head.cells fst = some { content with value := 0 } := Function.update_self _ _ _
    have apart := fresh.apart
    rw [next, List.map_cons, List.nodup_cons] at apart
    have freshThere : head.Fresh := by
      apply fresh.tail next
      intro other later
      refine Function.update_of_ne ?_ _ _
      intro same
      apply apart.1
      rw [← same]
      exact List.mem_map.mpr ⟨other, later, rfl⟩
    have room : numfp.toNat - 1 ≤ head.blocks.length := by
      rw [next, List.length_cons] at enough
      change _ ≤ blocks.length
      omega
    obtain ⟨after, link, ran, linked⟩ := @formatLoop_links _ _ head (numfp.toNat - 1) 1 fst _ freshThere room live
    refine ⟨fst, content, blocks, after, link, rfl, ?_, linked.first, ?_, ?_⟩
    · have positive : ¬ numfp.sle 0#32 = true := by
        rw [BitVec.sle_iff_toInt_le]
        exact Int.not_le.mpr frames
      have liveNew : (Function.update h.cells fst (some content)) fst = some content := Function.update_self _ _ _
      rw [MemphyStruct.format, count]
      dsimp only
      rw [if_neg positive, NodeHeap.malloc_cons next, Outcome.bind_ok]
      dsimp only
      rw [NodeHeap.setValue_live liveNew, Outcome.bind_ok, Function.update_idem]
      change (MemphyStruct.formatLoop (numfp.toNat - 1) 1 fst head >>= fun h => _) = _
      rw [ran]
      rfl
    · intro one
      have none : numfp.toNat - 1 = 0 := by omega
      have behind := linked.behind
      rw [none] at ran behind
      cases ran
      rw [if_pos rfl] at behind
      exact ⟨behind, rfl⟩
    · intro several
      have behind := linked.behind
      rw [if_neg (by omega)] at behind
      exact behind

end Format

section Serve
variable {Ptr : Type} [DecidableEq Ptr] {mp : MemphyStruct Ptr} {h : NodeHeap Ptr Addr}

/-- So many calls of `MEMPHY_get_freefp` in a row, with their results. -/
def MemphyStruct.getFreefps : Nat → MemphyStruct Ptr → NodeHeap Ptr Addr →
    Outcome (List (Int × Option Addr) × MemphyStruct Ptr × NodeHeap Ptr Addr)
  | 0, mp, h => .ok ([], mp, h)
  | calls + 1, mp, h => do
    let (code, fpn, mp, h) ← mp.getFreefp h
    let (results, mp, h) ← getFreefps calls mp h
    return ((code, fpn) :: results, mp, h)

theorem getFreefp_chain {fpn : Addr} {rest : List Addr} (chain : Chain h.cells mp.freeFpList (fpn :: rest)) :
    ∃ next last, mp.getFreefp h = .ok (0, some fpn, { mp with freeFpList := next }, last) ∧ Chain last.cells next rest := by
  cases link : mp.freeFpList with
  | none =>
    rw [link, Chain.null_iff] at chain
    cases chain
  | some fp =>
    rw [link] at chain
    obtain ⟨value, next, later, same, live, behind⟩ := chain.head
    cases same
    refine ⟨next, h.free fp, ?_, behind.update_head live none⟩
    rw [MemphyStruct.getFreefp, link]
    dsimp only
    rw [NodeHeap.load_live live]
    rfl

theorem getFreefp_empty (chain : Chain h.cells mp.freeFpList []) : mp.getFreefp h = .ok (-1, none, mp, h) := by
  rw [MemphyStruct.getFreefp, Chain.nil_iff.mp chain]

/-- A list in memory serves its numbers in order, and then nothing. -/
theorem getFreefps_chain {numbers : List Addr} (chain : Chain h.cells mp.freeFpList numbers) :
    ∃ last memory, mp.getFreefps numbers.length h = .ok (numbers.map fun fpn => (0, some fpn), last, memory) ∧
      last.getFreefp memory = .ok (-1, none, last, memory) := by
  induction numbers generalizing mp h with
  | nil => exact ⟨mp, h, rfl, getFreefp_empty chain⟩
  | cons fpn rest ih =>
    obtain ⟨next, behind, given, later⟩ := getFreefp_chain chain
    obtain ⟨last, memory, served, ended⟩ := @ih { mp with freeFpList := next } behind later
    refine ⟨last, memory, ?_, ended⟩
    rw [List.length_cons, MemphyStruct.getFreefps, given, Outcome.bind_ok]
    dsimp only
    rw [served]
    rfl

end Serve

section Init
variable {Ptr : Type} [DecidableEq Ptr] {mp : MemphyStruct Ptr} {h : NodeHeap Ptr Addr} {maxSize : Addr} {randomflg : CInt}

/-- The numbers of all whole frames of a device of this size, in order. -/
def frameNumbers (maxSize : Addr) : List Addr := (List.range (maxSize.toNat / 256)).map (BitVec.ofNat 64)

/-- The number of frames that `MEMPHY_format` computes from the size in an `int`. -/
def formattedFrames (maxSize : Addr) : Int := ((addrToInt maxSize).sdiv 256).toInt

/-- `init_memphy` returns with every frame on a null-terminated list, so that each frame is
handed out once, in order, before -1. -/
def ListsEveryFrame (mp : MemphyStruct Ptr) (maxSize : Addr) (randomflg : CInt) (h : NodeHeap Ptr Addr) : Prop :=
  ∃ code after memory, mp.initMemphy maxSize randomflg h = .ok (code, after, memory) ∧
    Chain memory.cells after.freeFpList (frameNumbers maxSize) ∧
    ∃ last lastMemory, after.getFreefps (maxSize.toNat / 256) memory =
        .ok ((frameNumbers maxSize).map fun fpn => (0, some fpn), last, lastMemory) ∧
      last.getFreefp lastMemory = .ok (-1, none, last, lastMemory)

/-- The link that the first block from `malloc` holds. -/
def firstLink (h : NodeHeap Ptr Addr) : Option Ptr := h.blocks.head?.bind fun block => block.2.next

/-- The size alone decides from two frames on, up to the largest `int`. Below that it is the
memory that was there before: the pointer in the struct of a device without a frame, the link
in the block of a single frame. A size that no `int` holds is formatted as a smaller one. -/
def SetUp (mp : MemphyStruct Ptr) (maxSize : Addr) (h : NodeHeap Ptr Addr) : Prop :=
  if maxSize.toNat < 256 then mp.freeFpList = none
  else if maxSize.toNat < 512 then firstLink h = none
  else if maxSize.toNat < 2 ^ 31 then True
  else formattedFrames maxSize ≤ 0 ∧ Chain h.cells mp.freeFpList (frameNumbers maxSize) ∨
    formattedFrames maxSize = 1 ∧ Chain h.cells (firstLink h) (frameNumbers maxSize).tail

theorem formattedFrames_eq (maxSize : Addr) : formattedFrames maxSize = (addrToInt maxSize).toInt.tdiv 256 := by
  rw [formattedFrames, BitVec.toInt_sdiv_of_ne_or_ne]
  · rfl
  · exact .inr (by decide)

theorem formattedFrames_small (size : maxSize.toNat < 2 ^ 31) : formattedFrames maxSize = (maxSize.toNat / 256 : Nat) := by
  rw [formattedFrames_eq, addrToInt_of_lt size, Int.tdiv_eq_ediv_of_nonneg (by omega)]
  omega

theorem formattedFrames_lt (maxSize : Addr) : formattedFrames maxSize < 8388608 := by
  have bound : (addrToInt maxSize).toInt < 2147483648 := BitVec.toInt_lt
  rw [formattedFrames_eq]
  by_cases positive : 0 ≤ (addrToInt maxSize).toInt
  · rw [Int.tdiv_eq_ediv_of_nonneg positive]
    omega
  · have flipped := Int.neg_tdiv (addrToInt maxSize).toInt 256
    have quotient : 0 ≤ (-(addrToInt maxSize).toInt).tdiv 256 := Int.tdiv_nonneg (by omega) (by decide)
    omega

/-- The struct after `init_memphy`, but for the list. -/
def MemphyStruct.initialised (mp : MemphyStruct Ptr) (maxSize : Addr) (randomflg : CInt) (freeFpList : Option Ptr) : MemphyStruct Ptr where
  storage := fun _ => 0
  maxsz := addrToInt maxSize
  rdmflg := randomflg != 0
  cursor := if randomflg != 0 then mp.cursor else 0
  freeFpList := freeFpList

/-- The list behind `init_memphy`, by the number of frames that it formats. -/
structure ListBuilt (mp : MemphyStruct Ptr) (maxSize : Addr) (h : NodeHeap Ptr Addr) (link : Option Ptr)
    (memory : NodeHeap Ptr Addr) : Prop where
  none : formattedFrames maxSize ≤ 0 → memory = h ∧ link = mp.freeFpList
  one : formattedFrames maxSize = 1 → ∀ numbers, Chain memory.cells link numbers ↔
    ∃ rest, numbers = 0 :: rest ∧ Chain h.cells (firstLink h) rest
  several : 2 ≤ formattedFrames maxSize → Chain memory.cells link
    ((List.range (formattedFrames maxSize).toNat).map (BitVec.ofNat 64))

theorem initMemphy_list (mp : MemphyStruct Ptr) (randomflg : CInt) (fresh : h.Fresh)
    (enough : formattedFrames maxSize ≤ h.blocks.length) :
    ∃ link memory, mp.initMemphy maxSize randomflg h = .ok (0, mp.initialised maxSize randomflg link, memory) ∧
      ListBuilt mp maxSize h link memory := by
  let device : MemphyStruct Ptr := { mp with storage := fun _ => 0, maxsz := addrToInt maxSize }
  have finish {code : Int} {link : Option Ptr} {memory : NodeHeap Ptr Addr}
      (ran : device.format 256 h = .ok (code, { device with freeFpList := link }, memory)) :
      mp.initMemphy maxSize randomflg h = .ok (0, mp.initialised maxSize randomflg link, memory) := by
    rw [MemphyStruct.initMemphy]
    change (device.format 256 h >>= fun result => _) = _
    rw [ran]
    by_cases mode : randomflg = 0#32 <;> simp [MemphyStruct.initialised, mode, device]
  rcases Int.lt_or_le 0 (formattedFrames maxSize) with some | none
  · obtain ⟨fst, content, blocks, memory, next, list, ran, first, one, several⟩ :=
      @format_links _ _ h device 256 some fresh enough
    refine ⟨fst, memory, finish ran, fun none => by omega, ?_, ?_⟩
    · intro single numbers
      obtain ⟨rfl, cells⟩ := one single
      have unused : h.cells fst = Option.none := fresh.unused (fst, content) (list ▸ List.mem_cons_self)
      have behind : firstLink h = content.next := by rw [firstLink, list]; rfl
      rw [behind, cells]
      constructor
      · intro chain
        obtain ⟨value, next, rest, same, live, later⟩ := chain.head
        rw [Function.update_self] at live
        cases live
        exact ⟨rest, same, (Chain.behind_fresh_iff unused).mp later⟩
      · intro claimed
        obtain ⟨rest, rfl, chain⟩ := claimed
        exact .cons (Function.update_self _ _ _) ((Chain.behind_fresh_iff unused).mpr chain)
    · intro more
      have chain := several more
      have count : formattedFrames maxSize = ((addrToInt maxSize).sdiv 256).toNat := toInt_of_nonneg (Int.le_of_lt some)
      have bound := formattedFrames_lt maxSize
      obtain ⟨left, exact⟩ : ∃ left, ((addrToInt maxSize).sdiv 256).toNat = left + 1 := ⟨_, (Nat.sub_add_cancel (by omega)).symm⟩
      change Chain memory.cells next (writtenNumbers (((addrToInt maxSize).sdiv 256).toNat - 1) (BitVec.ofNat 32 1)) at chain
      rw [writtenNumbers_eq _ _ (by omega), exact, Nat.add_sub_cancel] at chain
      rw [count, Int.toNat_natCast, exact, List.range_eq_range', List.range'_succ, List.map_cons]
      exact .cons first chain
  · exact ⟨mp.freeFpList, h, finish (format_refused none), fun _ => ⟨rfl, rfl⟩, fun one => by omega, fun several => by omega⟩

theorem frameNumbers_length (maxSize : Addr) : (frameNumbers maxSize).length = maxSize.toNat / 256 := by
  rw [frameNumbers, List.length_map, List.length_range]

theorem frameNumbers_cons (some : 256 ≤ maxSize.toNat) : frameNumbers maxSize = 0 :: (frameNumbers maxSize).tail := by
  obtain ⟨left, count⟩ : ∃ left, maxSize.toNat / 256 = left + 1 := ⟨_, (Nat.sub_add_cancel (by omega)).symm⟩
  rw [frameNumbers, count, List.range_eq_range', List.range'_succ]
  rfl

/-- A list of all frames is also served as one. -/
theorem listsEveryFrame_iff {link : Option Ptr} {memory : NodeHeap Ptr Addr}
    (ran : mp.initMemphy maxSize randomflg h = .ok (0, mp.initialised maxSize randomflg link, memory)) :
    ListsEveryFrame mp maxSize randomflg h ↔ Chain memory.cells link (frameNumbers maxSize) := by
  constructor
  · intro claimed
    obtain ⟨code, other, otherMemory, again, chain, _⟩ := claimed
    rw [ran] at again
    cases again
    exact chain
  · intro chain
    refine ⟨0, _, memory, ran, chain, ?_⟩
    rw [← frameNumbers_length]
    exact @getFreefps_chain _ _ (mp.initialised maxSize randomflg link) memory _ chain

omit [DecidableEq Ptr] in
/-- With a size that an `int` holds, the count is the number of frames. -/
theorem ListBuilt.small {link : Option Ptr} {memory : NodeHeap Ptr Addr} (built : ListBuilt mp maxSize h link memory)
    (small : maxSize.toNat < 2 ^ 31) : Chain memory.cells link (frameNumbers maxSize) ↔ SetUp mp maxSize h := by
  have count := formattedFrames_small small
  rw [SetUp]
  by_cases noFrame : maxSize.toNat < 256
  · obtain ⟨rfl, rfl⟩ := built.none (by omega)
    have nothing : frameNumbers maxSize = [] := by rw [frameNumbers, Nat.div_eq_of_lt noFrame]; rfl
    rw [if_pos noFrame, nothing]
    exact Chain.nil_iff
  · rw [if_neg noFrame]
    by_cases oneFrame : maxSize.toNat < 512
    · have single : maxSize.toNat / 256 = 1 := by omega
      have numbers : frameNumbers maxSize = [0] := by rw [frameNumbers, single]; rfl
      rw [if_pos oneFrame, built.one (by omega), numbers, ← Chain.nil_iff]
      constructor
      · intro claimed
        obtain ⟨rest, same, chain⟩ := claimed
        cases same
        exact chain
      · intro chain
        exact ⟨[], rfl, chain⟩
    · rw [if_neg oneFrame, if_pos small, iff_true]
      have chain := built.several (by omega)
      rw [count, Int.toNat_natCast] at chain
      exact chain

omit [DecidableEq Ptr] in
/-- With a larger size the count is smaller, and a list that is built is too short. -/
theorem ListBuilt.large {link : Option Ptr} {memory : NodeHeap Ptr Addr} (built : ListBuilt mp maxSize h link memory)
    (large : 2 ^ 31 ≤ maxSize.toNat) : Chain memory.cells link (frameNumbers maxSize) ↔ SetUp mp maxSize h := by
  have bound := formattedFrames_lt maxSize
  have many : 2 ^ 23 ≤ maxSize.toNat / 256 := by omega
  rw [SetUp, if_neg (by omega), if_neg (by omega), if_neg (by omega)]
  rcases (by omega : formattedFrames maxSize ≤ 0 ∨ formattedFrames maxSize = 1 ∨ 2 ≤ formattedFrames maxSize) with low | single | more
  · obtain ⟨rfl, rfl⟩ := built.none low
    constructor
    · intro chain
      exact .inl ⟨low, chain⟩
    · intro claimed
      rcases claimed with ⟨_, chain⟩ | ⟨same, _⟩
      · exact chain
      · omega
  · rw [built.one single]
    constructor
    · intro claimed
      obtain ⟨rest, same, chain⟩ := claimed
      rw [same]
      exact .inr ⟨single, chain⟩
    · intro claimed
      rcases claimed with ⟨same, _⟩ | ⟨_, chain⟩
      · omega
      · exact ⟨_, frameNumbers_cons (by omega), chain⟩
  · have chain := built.several more
    constructor
    · intro whole
      have lengths := congrArg List.length (chain.unique whole)
      rw [frameNumbers_length, List.length_map, List.length_range] at lengths
      omega
    · intro claimed
      rcases claimed with ⟨same, _⟩ | ⟨same, _⟩ <;> omega

/-- Formatting leaves a well-formed list of all frames exactly under `SetUp`. -/
theorem init_memphy_lists_every_frame_iff (fresh : h.Fresh) (enough : formattedFrames maxSize ≤ h.blocks.length) :
    ListsEveryFrame mp maxSize randomflg h ↔ SetUp mp maxSize h := by
  obtain ⟨link, memory, initialised, built⟩ := initMemphy_list mp randomflg fresh enough
  rw [listsEveryFrame_iff initialised]
  rcases Nat.lt_or_ge maxSize.toNat (2 ^ 31) with small | large
  · exact built.small small
  · exact built.large large

/-- A struct and blocks that hold a pointer to no node, in a heap without live nodes. -/
def dirtyStruct : MemphyStruct Nat := { storage := fun _ => 0, maxsz := 0, rdmflg := false, cursor := 0, freeFpList := some 99 }

def dirtyBlocks (count : Nat) : NodeHeap Nat Addr :=
  { cells := fun _ => none, blocks := (List.range count).map fun number => (number, { value := 77, next := some 99 }) }

private theorem dirtyBlocks_fresh (count : Nat) : (dirtyBlocks count).Fresh where
  apart := by
    have same : (dirtyBlocks count).blocks.map Prod.fst = List.range count := by
      rw [dirtyBlocks, List.map_map]
      exact List.map_id _
    rw [same]
    exact List.nodup_range
  unused _ _ := rfl

theorem init_memphy_lists_every_frame_iff_fourPages :
    ListsEveryFrame dirtyStruct 1100 1 (dirtyBlocks 4) ↔ SetUp dirtyStruct 1100 (dirtyBlocks 4) :=
  init_memphy_lists_every_frame_iff (dirtyBlocks_fresh 4) (by decide)

/-- On a device of one page the list goes on with what the block held: the first call hands out
frame 0 and the second follows the stray link. -/
theorem one_page_device_keeps_stray_link :
    ¬ListsEveryFrame dirtyStruct 256 1 (dirtyBlocks 1) ∧
    (dirtyStruct.initMemphy 256 1 (dirtyBlocks 1) >>= fun result => result.2.1.getFreefps 2 result.2.2) = .error .useAfterFree := by
  refine ⟨?_, rfl⟩
  intro claimed
  obtain ⟨code, after, memory, ran, chain, _⟩ := claimed
  obtain ⟨other, otherMemory, initialised, _, one, _⟩ := initMemphy_list dirtyStruct 1 (dirtyBlocks_fresh 1) (show formattedFrames 256 ≤ 1 by decide)
  rw [initialised] at ran
  cases ran
  obtain ⟨rest, same, behind⟩ := (one (by decide) _).mp chain
  cases same
  cases behind

end Init

section Refinement
variable {Ptr : Type} [DecidableEq Ptr] {mp : MemphyStruct Ptr} {h : NodeHeap Ptr Addr} {device : Memphy}

/-- The struct and its nodes stand for a device with its list of free frames. -/
structure Represents (mp : MemphyStruct Ptr) (h : NodeHeap Ptr Addr) (device : Memphy) : Prop where
  storage : mp.storage = device.storage
  maxsz : mp.maxsz.toInt = device.maxsz
  rdmflg : mp.rdmflg = device.rdmflg
  cursor : mp.cursor = device.cursor
  list : Chain h.cells mp.freeFpList device.freeFpList

theorem Represents.getFreefp (represents : Represents mp h device) :
    match device.getFreefp with
    | none => mp.getFreefp h = .ok (-1, none, mp, h)
    | some (fpn, rest) => ∃ after last, mp.getFreefp h = .ok (0, some fpn, after, last) ∧ Represents after last rest := by
  have chain := represents.list
  cases numbers : device.freeFpList with
  | nil =>
    rw [numbers] at chain
    rw [Memphy.getFreefp_nil numbers]
    exact getFreefp_empty chain
  | cons fpn rest =>
    rw [numbers] at chain
    rw [Memphy.getFreefp_cons numbers]
    obtain ⟨next, last, given, behind⟩ := getFreefp_chain chain
    exact ⟨_, last, given, represents.storage, represents.maxsz, represents.rdmflg, represents.cursor, behind⟩

theorem Represents.putFreefp (represents : Represents mp h device) (fresh : h.Fresh) (room : h.blocks ≠ []) (fpn : Addr) :
    ∃ after last, mp.putFreefp fpn h = .ok (0, after, last) ∧ Represents after last (device.putFreefp fpn) := by
  cases next : h.blocks with
  | nil => exact absurd next room
  | cons block blocks =>
    obtain ⟨newnode, content⟩ := block
    have unused : h.cells newnode = none := fresh.unused (newnode, content) (next ▸ List.mem_cons_self)
    have liveNew : (Function.update h.cells newnode (some content)) newnode = some content := Function.update_self _ _ _
    refine ⟨{ mp with freeFpList := some newnode },
      { cells := Function.update h.cells newnode (some { value := fpn, next := mp.freeFpList }), blocks }, ?_, ?_⟩
    · rw [MemphyStruct.putFreefp, NodeHeap.malloc_cons next, Outcome.bind_ok]
      dsimp only
      rw [NodeHeap.store_live liveNew, Function.update_idem]
      rfl
    · exact ⟨represents.storage, represents.maxsz, represents.rdmflg, represents.cursor,
        .cons (Function.update_self _ _ _) (represents.list.update_fresh unused _)⟩

/-- `init_memphy` in memory does what it does on lists, where the memory that stays on the list
of a small device stands for the lists that the abstract call is given. -/
theorem initMemphy_represents {maxSize : Addr} {randomflg : CInt} {next : List Addr} (fresh : h.Fresh)
    (enough : formattedFrames maxSize ≤ h.blocks.length) (size : maxSize.toNat < 2 ^ 31) (cursor : mp.cursor = device.cursor)
    (old : maxSize.toNat < 256 → Chain h.cells mp.freeFpList device.freeFpList)
    (single : 256 ≤ maxSize.toNat → maxSize.toNat < 512 → Chain h.cells (firstLink h) next) :
    ∃ after memory, mp.initMemphy maxSize randomflg h = .ok (0, after, memory) ∧
      Represents after memory (device.initMemphy maxSize.toNat randomflg next) := by
  obtain ⟨link, memory, initialised, none, one, several⟩ := initMemphy_list mp randomflg fresh enough
  have count := formattedFrames_small size
  refine ⟨_, memory, initialised, ?_⟩
  have list : Chain memory.cells link (device.initMemphy maxSize.toNat randomflg next).freeFpList := by
    rw [Memphy.initMemphy_eq, Memphy.staleFrames, pagingPagesz]
    rcases (by omega : maxSize.toNat < 256 ∨ (256 ≤ maxSize.toNat ∧ maxSize.toNat < 512) ∨ 512 ≤ maxSize.toNat) with few | ⟨low, high⟩ | many
    · obtain ⟨rfl, rfl⟩ := none (by omega)
      rw [Nat.div_eq_of_lt few]
      exact old few
    · have frame : maxSize.toNat / 256 = 1 := by omega
      rw [frame]
      exact (one (by omega) _).mpr ⟨next, rfl, single low high⟩
    · have chain := several (by omega)
      rw [count, Int.toNat_natCast] at chain
      obtain ⟨more, frames⟩ : ∃ more, maxSize.toNat / 256 = more + 2 := ⟨_, (Nat.sub_add_cancel (by omega)).symm⟩
      rw [frames] at chain ⊢
      simpa using chain
  rw [Memphy.initMemphy_eq] at list ⊢
  exact ⟨rfl, addrToInt_of_lt size, rfl, by rw [MemphyStruct.initialised, cursor], list⟩

end Refinement
end LamiaAtrium
