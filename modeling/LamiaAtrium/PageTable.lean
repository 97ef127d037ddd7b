import LamiaAtrium.Pte

/-! The five-level page table of `mm64.c`. A directory entry either has its present
bit clear (`none`) or points to the table that `calloc` returned for it. Tables are
owned by the entry that points to them, so the table tree stands for the pointers. -/

namespace LamiaAtrium

abbrev Table (α : Type) := BitVec 9 → α

abbrev Pt := Table Pte
abbrev Pmd := Table (Option Pt)
abbrev Pud := Table (Option Pmd)
abbrev P4d := Table (Option Pud)
abbrev Pgd := Table (Option P4d)

def genmask64 (h l : Nat) : Addr := (~~~0#64 <<< l) &&& (~~~0#64 >>> (64 - h - 1))

/-- The five indices that `get_pd_from_address` writes through its pointers. -/
structure PdIndex where
  pgd : Addr
  p4d : Addr
  pud : Addr
  pmd : Addr
  pt : Addr

def getPdFromAddress (addr : Addr) : PdIndex where
  pgd := (addr &&& genmask64 56 48) >>> 48
  p4d := (addr &&& genmask64 47 39) >>> 39
  pud := (addr &&& genmask64 38 30) >>> 30
  pmd := (addr &&& genmask64 29 21) >>> 21
  pt := (addr &&& genmask64 20 12) >>> 12

def getPdFromPagenum (pgn : Addr) : PdIndex := getPdFromAddress (pgn <<< 12)

/-- `tbl[idx]`; the masks keep every index below 512. -/
def Table.entry (table : Table α) (index : Addr) : α := table (index.setWidth 9)

def Table.store (table : Table α) (index : Addr) (value : α) : Table α :=
  Function.update table (index.setWidth 9) value

/-- `get_next_level_table64` and `get_next_level_table32`: the table the entry points
to, or a zeroed one. The caller stores it back, which is the pointer written to the
entry. -/
def getNextLevelTable (entry : Option (Table α)) (zero : α) : Table α := entry.getD fun _ => zero

/-- The walk that `pte_set_fpn`, `pte_set_swap` and `pte_set_entry` share, with the
rewrite each of them makes of the entry it reaches. -/
def Pgd.rewrite (pgd : Pgd) (pgn : Addr) (f : Pte → Pte) : Pgd :=
  let idx := getPdFromPagenum pgn
  let p4d : P4d := getNextLevelTable (Table.entry pgd idx.pgd) none
  let pud : Pud := getNextLevelTable (Table.entry p4d idx.p4d) none
  let pmd : Pmd := getNextLevelTable (Table.entry pud idx.pud) none
  let pt : Pt := getNextLevelTable (Table.entry pmd idx.pmd) 0#32
  let pt := Table.store pt idx.pt (f (Table.entry pt idx.pt))
  Table.store pgd idx.pgd (some (Table.store p4d idx.p4d (some (Table.store pud idx.pud (some
    (Table.store pmd idx.pmd (some pt)))))))

def pteSetFpn (pgd : Pgd) (pgn fpn : Addr) : Pgd := pgd.rewrite pgn fun pte => pte.setFpn fpn

def pteSetSwap (pgd : Pgd) (pgn : Addr) (swptyp : CInt) (swpoff : Addr) : Pgd :=
  pgd.rewrite pgn fun pte => pte.setSwap swptyp swpoff

def pteSetEntry (pgd : Pgd) (pgn : Addr) (pteVal : Pte) : Pgd := pgd.rewrite pgn fun _ => pteVal

def pteGetEntry (pgd : Pgd) (pgn : Addr) : Pte :=
  let idx := getPdFromPagenum pgn
  match Table.entry pgd idx.pgd with
  | none => 0#32
  | some p4d => match Table.entry p4d idx.p4d with
    | none => 0#32
    | some pud => match Table.entry pud idx.pud with
      | none => 0#32
      | some pmd => match Table.entry pmd idx.pmd with
        | none => 0#32
        | some pt => Table.entry pt idx.pt

/-- The page number that a table walk distinguishes: nine bits for each of five levels. -/
abbrev Page := BitVec 45

def pageOf (pgn : Addr) : Page := pgn.setWidth 45

def Page.toAddr (page : Page) : Addr := page.setWidth 64

@[simp] theorem pageOf_toAddr (page : Page) : pageOf page.toAddr = page := by
  simp [pageOf, Page.toAddr]

theorem pageOf_toNat (pgn : Addr) (bound : pgn.toNat < 2 ^ 45) : (pageOf pgn).toNat = pgn.toNat := by
  simp only [pageOf, BitVec.toNat_setWidth]
  omega

section Indices

private theorem getLsbD_ones64 (i : Nat) : (~~~0#64).getLsbD i = decide (i < 64) := by
  rw [BitVec.getLsbD_not, BitVec.getLsbD_zero, Bool.not_false, Bool.and_true]

private theorem getLsbD_genmask64 (h l i : Nat) (bound : h < 64) :
    (genmask64 h l).getLsbD i = (decide (l ≤ i) && decide (i ≤ h)) := by
  rw [genmask64, BitVec.getLsbD_and, BitVec.getLsbD_shiftLeft, BitVec.getLsbD_ushiftRight,
    getLsbD_ones64, getLsbD_ones64]
  grind

/-- Nine bits of the page number, counted from the lowest level. -/
def Page.digit (page : Page) (level : Nat) : BitVec 9 := page.extractLsb' (9 * level) 9

private theorem index_word (pgn : Addr) (level : Nat) (inside : 9 * level + 20 < 64) :
    ((pgn <<< 12) &&& genmask64 (9 * level + 20) (9 * level + 12)) >>> (9 * level + 12) =
      ((pageOf pgn).digit level).setWidth 64 := by
  ext i bound
  simp only [BitVec.getElem_ushiftRight, BitVec.getLsbD_and, BitVec.getLsbD_shiftLeft, getLsbD_genmask64 _ _ _ inside,
    BitVec.getElem_setWidth, Page.digit, BitVec.getLsbD_extractLsb', pageOf, BitVec.getLsbD_setWidth]
  have shifted : 9 * level + 12 + i - 12 = 9 * level + i := by omega
  grind

theorem getPdFromPagenum_eq (pgn : Addr) : getPdFromPagenum pgn =
    { pgd := ((pageOf pgn).digit 4).setWidth 64, p4d := ((pageOf pgn).digit 3).setWidth 64, pud := ((pageOf pgn).digit 2).setWidth 64,
      pmd := ((pageOf pgn).digit 1).setWidth 64, pt := ((pageOf pgn).digit 0).setWidth 64 } := by
  simp only [getPdFromPagenum, getPdFromAddress, PdIndex.mk.injEq]
  exact ⟨index_word pgn 4 (by decide), index_word pgn 3 (by decide), index_word pgn 2 (by decide), index_word pgn 1 (by decide),
    index_word pgn 0 (by decide)⟩

def Page.indices (page : Page) : BitVec 9 × BitVec 9 × BitVec 9 × BitVec 9 × BitVec 9 :=
  (page.extractLsb' 36 9, page.extractLsb' 27 9, page.extractLsb' 18 9, page.extractLsb' 9 9, page.extractLsb' 0 9)

theorem getPdFromPagenum_indices (pgn : Addr) :
    ((getPdFromPagenum pgn).pgd.setWidth 9, (getPdFromPagenum pgn).p4d.setWidth 9,
      (getPdFromPagenum pgn).pud.setWidth 9, (getPdFromPagenum pgn).pmd.setWidth 9,
      (getPdFromPagenum pgn).pt.setWidth 9) = (pageOf pgn).indices := by
  have cut (digit : BitVec 9) : (digit.setWidth 64).setWidth 9 = digit := by simp
  rw [getPdFromPagenum_eq]
  simp only [cut]
  rfl

/-- The split is injective: equal indices at all five levels mean the same page. -/
theorem Page.indices_injective {first second : Page} (same : first.indices = second.indices) : first = second := by
  simp only [Page.indices, Prod.mk.injEq] at same
  obtain ⟨pgd, p4d, pud, pmd, pt⟩ := same
  have bits (field : Nat) (equal : first.extractLsb' field 9 = second.extractLsb' field 9) (i : Nat) (inside : i < 9) :
      first.getLsbD (field + i) = second.getLsbD (field + i) := by
    have read := congrArg (fun word : BitVec 9 => word.getLsbD i) equal
    simpa [BitVec.getLsbD_extractLsb', inside] using read
  apply BitVec.eq_of_getLsbD_eq
  intro i inside
  rcases (by omega : i < 9 ∨ 9 ≤ i ∧ i < 18 ∨ 18 ≤ i ∧ i < 27 ∨ 27 ≤ i ∧ i < 36 ∨ 36 ≤ i ∧ i < 45) with
    at0 | at1 | at2 | at3 | at4
  · simpa using bits 0 pt i at0
  · simpa [Nat.add_sub_cancel' at1.1] using bits 9 pmd (i - 9) (by omega)
  · simpa [Nat.add_sub_cancel' at2.1] using bits 18 pud (i - 18) (by omega)
  · simpa [Nat.add_sub_cancel' at3.1] using bits 27 p4d (i - 27) (by omega)
  · simpa [Nat.add_sub_cancel' at4.1] using bits 36 pgd (i - 36) (by omega)

end Indices

section Walk

/-- One level of a read: an absent table reads as zero. -/
private def readLevel (child : α → Pte) (entry : Option (Table α)) (index : Addr) : Pte :=
  match entry with
  | none => 0#32
  | some table => child (table.entry index)

/-- One level of a write: the table is created when it is missing, and the entry at
the index is rewritten by the levels below. -/
private def writeLevel (zero : α) (index : Addr) (below : α → α) (entry : Option (Table α)) : Option (Table α) :=
  some ((getNextLevelTable entry zero).store index (below ((getNextLevelTable entry zero).entry index)))

/-- If the levels below a table turn a read at one place into `f` of the old value
exactly under `hit`, then so does the table, with its own index in the condition. -/
private theorem readLevel_writeLevel (target other : α → Pte) (zero : α) (f : Pte → Pte) (below : α → α)
    (hit : Prop) [Decidable hit] (zeroTarget : target zero = 0#32) (zeroOther : other zero = 0#32)
    (rewritten : ∀ value, other (below value) = if hit then f (target value) else other value)
    (entry : Option (Table α)) (index place : Addr) :
    readLevel other (writeLevel zero index below entry) place =
      if place.setWidth 9 = index.setWidth 9 ∧ hit then f (readLevel target entry index)
      else readLevel other entry place := by
  by_cases same : place.setWidth 9 = index.setWidth 9
  · cases entry <;>
      simp [readLevel, writeLevel, getNextLevelTable, Table.store, Table.entry, same, rewritten, zeroTarget, zeroOther]
  · cases entry <;>
      simp [readLevel, writeLevel, getNextLevelTable, Table.store, Table.entry, same, zeroOther]

private def readPt (idx : PdIndex) (entry : Option Pt) : Pte := readLevel id entry idx.pt
private def readPmd (idx : PdIndex) (entry : Option Pmd) : Pte := readLevel (readPt idx) entry idx.pmd
private def readPud (idx : PdIndex) (entry : Option Pud) : Pte := readLevel (readPmd idx) entry idx.pud
private def readP4d (idx : PdIndex) (entry : Option P4d) : Pte := readLevel (readPud idx) entry idx.p4d

private theorem pteGetEntry_eq (pgd : Pgd) (pgn : Addr) :
    pteGetEntry pgd pgn = readLevel (readP4d (getPdFromPagenum pgn)) (some pgd) (getPdFromPagenum pgn).pgd := by
  simp only [pteGetEntry, readLevel, readP4d, readPud, readPmd, readPt, id]
  repeat (split <;> simp only [*])

private theorem rewrite_eq (pgd : Pgd) (pgn : Addr) (f : Pte → Pte) :
    some (pgd.rewrite pgn f) =
      let idx := getPdFromPagenum pgn
      writeLevel none idx.pgd (writeLevel none idx.p4d (writeLevel none idx.pud
        (writeLevel none idx.pmd (writeLevel 0#32 idx.pt f)))) (some pgd) := rfl

private theorem pageOf_eq_iff (pgn other : Addr) : pageOf other = pageOf pgn ↔
    (getPdFromPagenum other).pgd.setWidth 9 = (getPdFromPagenum pgn).pgd.setWidth 9 ∧
    (getPdFromPagenum other).p4d.setWidth 9 = (getPdFromPagenum pgn).p4d.setWidth 9 ∧
    (getPdFromPagenum other).pud.setWidth 9 = (getPdFromPagenum pgn).pud.setWidth 9 ∧
    (getPdFromPagenum other).pmd.setWidth 9 = (getPdFromPagenum pgn).pmd.setWidth 9 ∧
    (getPdFromPagenum other).pt.setWidth 9 = (getPdFromPagenum pgn).pt.setWidth 9 := by
  have here := getPdFromPagenum_indices pgn
  have there := getPdFromPagenum_indices other
  rw [← Prod.mk.injEq, ← Prod.mk.injEq, ← Prod.mk.injEq, ← Prod.mk.injEq, here, there]
  exact ⟨congrArg Page.indices, Page.indices_injective⟩

/-- What a write through the walk does to every later read: it shows at the page
written and nowhere else, however many tables it had to create on the way. -/
theorem pteGetEntry_rewrite (pgd : Pgd) (pgn other : Addr) (f : Pte → Pte) :
    pteGetEntry (pgd.rewrite pgn f) other =
      if pageOf other = pageOf pgn then f (pteGetEntry pgd pgn) else pteGetEntry pgd other := by
  simp only [pteGetEntry_eq, rewrite_eq, pageOf_eq_iff]
  generalize getPdFromPagenum pgn = here
  generalize getPdFromPagenum other = there
  have pt (entry : Option Pt) : readPt there (writeLevel 0#32 here.pt f entry) =
      if there.pt.setWidth 9 = here.pt.setWidth 9 then f (readPt here entry) else readPt there entry := by
    have leaf := readLevel_writeLevel id id 0#32 f f True rfl rfl (fun value => by simp) entry here.pt there.pt
    simp only [and_true] at leaf
    exact leaf
  have pmd := readLevel_writeLevel (readPt here) (readPt there) none f _ _ rfl rfl pt
  have pud := readLevel_writeLevel (readPmd here) (readPmd there) none f _ _ rfl rfl
    (fun entry => pmd entry here.pmd there.pmd)
  have p4d := readLevel_writeLevel (readPud here) (readPud there) none f _ _ rfl rfl
    (fun entry => pud entry here.pud there.pud)
  exact readLevel_writeLevel (readP4d here) (readP4d there) none f _ _ rfl rfl
    (fun entry => p4d entry here.p4d there.p4d) (some pgd) here.pgd there.pgd

end Walk

/-- The page table as a map from pages to entries. -/
def Pgd.pteAt (pgd : Pgd) (page : Page) : Pte := pteGetEntry pgd page.toAddr

section Map
variable (pgd : Pgd) (pgn : Addr)

theorem pteGetEntry_congr {first second : Addr} (same : pageOf first = pageOf second) :
    pteGetEntry pgd first = pteGetEntry pgd second := by
  obtain ⟨at1, at2, at3, at4, at5⟩ := (pageOf_eq_iff second first).mp same
  simp only [pteGetEntry, Table.entry, at1, at2, at3, at4, at5]

theorem pteGetEntry_eq_pteAt : pteGetEntry pgd pgn = pgd.pteAt (pageOf pgn) :=
  pteGetEntry_congr pgd (pageOf_toAddr (pageOf pgn)).symm

theorem pteAt_rewrite (f : Pte → Pte) :
    (pgd.rewrite pgn f).pteAt = Function.update pgd.pteAt (pageOf pgn) (f (pgd.pteAt (pageOf pgn))) := by
  funext page
  simp only [Pgd.pteAt, pteGetEntry_rewrite, pageOf_toAddr, Function.update_apply]
  rw [pteGetEntry_eq_pteAt pgd pgn]
  rfl

@[simp] theorem pteAt_pteSetFpn (fpn : Addr) :
    (pteSetFpn pgd pgn fpn).pteAt = Function.update pgd.pteAt (pageOf pgn) ((pgd.pteAt (pageOf pgn)).setFpn fpn) :=
  pteAt_rewrite pgd pgn _

@[simp] theorem pteAt_pteSetSwap (swptyp : CInt) (swpoff : Addr) :
    (pteSetSwap pgd pgn swptyp swpoff).pteAt =
      Function.update pgd.pteAt (pageOf pgn) ((pgd.pteAt (pageOf pgn)).setSwap swptyp swpoff) :=
  pteAt_rewrite pgd pgn _

@[simp] theorem pteAt_pteSetEntry (pteVal : Pte) :
    (pteSetEntry pgd pgn pteVal).pteAt = Function.update pgd.pteAt (pageOf pgn) pteVal :=
  pteAt_rewrite pgd pgn _

end Map

/-- The tables that `init_mm` links for the index-zero path. Every entry of the last
table is zero, so the tree reads as the empty map. -/
def initPgd : Pgd :=
  let pt : Pt := fun _ => 0#32
  let pmd : Pmd := Table.store (fun _ => none) 0 (some pt)
  let pud : Pud := Table.store (fun _ => none) 0 (some pmd)
  let p4d : P4d := Table.store (fun _ => none) 0 (some pud)
  Table.store (fun _ => none) 0 (some p4d)

private theorem initPgd_eq : initPgd = Pgd.rewrite (fun _ => none) 0#64 id := by
  simp [initPgd, Pgd.rewrite, getNextLevelTable, Table.entry, Table.store, getPdFromPagenum, getPdFromAddress]

@[simp] theorem pteAt_initPgd (page : Page) : initPgd.pteAt page = 0#32 := by
  rw [initPgd_eq, pteAt_rewrite, id, Function.update_eq_self]
  rfl

end LamiaAtrium
