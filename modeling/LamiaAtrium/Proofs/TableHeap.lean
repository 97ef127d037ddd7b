import Mathlib.Data.List.Induction
import LamiaAtrium.TableHeap
import LamiaAtrium.Library.Run

/-! The tables in memory are a map from processes and pages to entries. Every table has a
name, the path of indices that leads to it from its process; tables of different names
never overlap, so a store through one path shows at no other. -/

namespace LamiaAtrium
open Memory Run
variable {Proc : Type}

/-- A table is reached from its process by a path of indices. `init_mm` also has fresh
tables at hand, one of each depth, to which nothing points yet. -/
inductive TableName (Proc : Type) where
  | table (p : Proc) (path : List (BitVec 9))
  | spare (depth : Nat)
  deriving DecidableEq

namespace TableName

def depth : TableName Proc → Nat
  | table _ path => path.length
  | spare depth => depth

/-- The tables of depth 0 to 3 have pointers for entries, those of depth 4 have PTEs. -/
def bytes (depth : Nat) : Nat := if depth < 4 then 512 * 8 else 512 * 4

def region (name : TableName Proc) (base : Addr) : Region := { base := base.toNat, size := bytes name.depth }

end TableName

abbrev Places (Proc : Type) := TableName Proc → Option Addr

section Links

/-- What a directory entry holds when it leads to a table, and when it does not. -/
def link : Option Addr → Addr
  | none => 0
  | some child => child ||| paging64PtePresentMask

@[simp] theorem link_none_absent : link none &&& paging64PtePresentMask = 0 := by decide

theorem link_some_present (child : Addr) : link (some child) &&& paging64PtePresentMask ≠ 0 := by
  intro absent
  have top := congrArg (fun word : Addr => word.getLsbD 63) absent
  simp [link, paging64PtePresentMask] at top

/-- Tagging a pointer below 2^48 and masking it again loses nothing. -/
theorem link_some_table {child : Addr} (low : child.toNat < 2 ^ 48) : link (some child) &&& paging64TableAddrMask = child := by
  have mask : paging64TableAddrMask = BitVec.ofNat 64 (2 ^ 48 - 1) := by decide
  have tag : paging64PtePresentMask &&& paging64TableAddrMask = 0 := by decide
  have kept : child &&& paging64TableAddrMask = child := by
    apply BitVec.eq_of_toNat_eq
    rw [mask, BitVec.toNat_and, BitVec.toNat_ofNat, Nat.mod_eq_of_lt (by decide), Nat.and_two_pow_sub_one_eq_mod]
    exact Nat.mod_eq_of_lt low
  rw [link, BitVec.and_or_distrib_right, tag, kept]
  exact BitVec.or_zero

theorem slot64_toNat {table : Addr} (low : table.toNat + 512 * 8 ≤ 2 ^ 48) (index : BitVec 9) :
    (Heap.slot64 table (index.setWidth 64)).toNat = table.toNat + 8 * index.toNat := by
  have bound := index.isLt
  simp only [Heap.slot64, BitVec.toNat_add, BitVec.toNat_mul, BitVec.toNat_setWidth, BitVec.toNat_ofNat]
  omega

theorem slot32_toNat {table : Addr} (low : table.toNat + 512 * 4 ≤ 2 ^ 48) (index : BitVec 9) :
    (Heap.slot32 table (index.setWidth 64)).toNat = table.toNat + 4 * index.toNat := by
  have bound := index.isLt
  simp only [Heap.slot32, BitVec.toNat_add, BitVec.toNat_mul, BitVec.toNat_setWidth, BitVec.toNat_ofNat]
  omega

end Links

section Cells
variable {h : Heap Proc} {first second : Addr}

/-- The bytes that an access of `width` bytes at an address touches. -/
def cell (addr : Addr) (width : Nat) : Region := { base := addr.toNat, size := width }

theorem load64_store64_same (word : Addr) : (h.store64 first word).load64 first = word :=
  @load_store_same h.memory (cell first 8) word

theorem load32_store32_same (word : Pte) : (h.store32 first word).load32 first = word :=
  @load_store_same h.memory (cell first 4) word

variable {width : Nat}

theorem load64_store64_apart (apart : (cell first 8).Apart (cell second 8)) (word : Addr) :
    (h.store64 second word).load64 first = h.load64 first := load_store_apart apart word

theorem load32_store32_apart (apart : (cell first 4).Apart (cell second 4)) (word : Pte) :
    (h.store32 second word).load32 first = h.load32 first := load_store_apart apart word

end Cells

/-- Where every table lies. -/
structure Layout (h : Heap Proc) (places : Places Proc) : Prop where
  blocks : ∀ name base, places name = some base → name.region base ∈ h.blocks
  apart : ∀ first second a b, first ≠ second → places first = some a → places second = some b →
    (first.region a).Apart (second.region b)
  root : ∀ p, h.pgd p = (places (.table p [])).getD 0
  entries : ∀ p path base, places (.table p path) = some base → path.length < 4 → ∀ i : BitVec 9,
    h.load64 (Heap.slot64 base (i.setWidth 64)) = link (places (.table p (path ++ [i])))
  spares : ∀ depth base, places (.spare depth) = some base → ∀ part, part.Within ((TableName.spare depth : TableName Proc).region base) →
    load h.memory part = 0
  closed : ∀ p path i, places (.table p path) = none → places (.table p (path ++ [i])) = none

namespace Layout
variable {h : Heap Proc} {places : Places Proc} (layout : Layout h places)
include layout

theorem placed {name : TableName Proc} {base : Addr} (here : places name = some base) :
    0 < base.toNat ∧ base.toNat + TableName.bytes name.depth ≤ 2 ^ 48 := h.placed _ (layout.blocks name base here)

theorem directory_low {name : TableName Proc} {base : Addr} (here : places name = some base) (inner : name.depth < 4) :
    base.toNat + 512 * 8 ≤ 2 ^ 48 := by
  have low := (layout.placed here).2
  rwa [TableName.bytes, if_pos inner] at low

theorem table_low {name : TableName Proc} {base : Addr} (here : places name = some base) : base.toNat + 512 * 4 ≤ 2 ^ 48 := by
  have low := (layout.placed here).2
  unfold TableName.bytes at low
  split at low <;> omega

/-- An entry of a directory lies inside it, and so does a PTE in its table. -/
theorem cell64_within {name : TableName Proc} {base : Addr} (here : places name = some base) (inner : name.depth < 4) (i : BitVec 9) :
    (cell (Heap.slot64 base (i.setWidth 64)) 8).Within (name.region base) := by
  have fits : 8 * 512 ≤ TableName.bytes name.depth := by simp [TableName.bytes, inner]
  have slot : ((name.region base).slot 8 i.toNat).Within (name.region base) := Region.slot_within i.isLt fits
  rw [cell, slot64_toNat (layout.directory_low here inner)]
  exact slot

theorem cell32_within {name : TableName Proc} {base : Addr} (here : places name = some base) (i : BitVec 9) :
    (cell (Heap.slot32 base (i.setWidth 64)) 4).Within (name.region base) := by
  have fits : 4 * 512 ≤ TableName.bytes name.depth := by
    unfold TableName.bytes
    split <;> decide
  have slot : ((name.region base).slot 4 i.toNat).Within (name.region base) := Region.slot_within i.isLt fits
  rw [cell, slot32_toNat (layout.table_low here)]
  exact slot

theorem cell64_apart {name : TableName Proc} {base : Addr} (here : places name = some base) (inner : name.depth < 4) {i j : BitVec 9}
    (distinct : i ≠ j) : (cell (Heap.slot64 base (i.setWidth 64)) 8).Apart (cell (Heap.slot64 base (j.setWidth 64)) 8) := by
  rw [cell, cell, slot64_toNat (layout.directory_low here inner), slot64_toNat (layout.directory_low here inner)]
  exact (name.region base).slot_apart 8 fun same => distinct (BitVec.eq_of_toNat_eq same)

theorem cell32_apart {name : TableName Proc} {base : Addr} (here : places name = some base) {i j : BitVec 9}
    (distinct : i ≠ j) : (cell (Heap.slot32 base (i.setWidth 64)) 4).Apart (cell (Heap.slot32 base (j.setWidth 64)) 4) := by
  rw [cell, cell, slot32_toNat (layout.table_low here), slot32_toNat (layout.table_low here)]
  exact (name.region base).slot_apart 4 fun same => distinct (BitVec.eq_of_toNat_eq same)

/-- Parts of different tables are apart. -/
theorem beside {first second : TableName Proc} {a b : Addr} (here : places first = some a) (there : places second = some b)
    (distinct : first ≠ second) {part target : Region} (inside : part.Within (first.region a)) (within : target.Within (second.region b)) :
    part.Apart target :=
  (layout.apart first second a b distinct here there).mono inside within

end Layout

/-- The tables of depth 0 to 3 that lead to a page, each by its index in the one before. -/
def Page.path (page : Page) : List (BitVec 9) := [page.digit 4, page.digit 3, page.digit 2, page.digit 1]

theorem Page.eq_of_path {first second : Page} (path : first.path = second.path) (slot : first.digit 0 = second.digit 0) : first = second := by
  simp only [Page.path, List.cons.injEq] at path
  obtain ⟨at4, at3, at2, at1, _⟩ := path
  apply Page.indices_injective
  simp only [Page.indices, Prod.mk.injEq]
  exact ⟨at4, at3, at2, at1, slot⟩

/-- The entry of a page: that in the table its path leads to, or 0 if there is none. -/
def entryIn (h : Heap Proc) (places : Places Proc) (p : Proc) (page : Page) : Pte :=
  match places (.table p page.path) with
  | none => 0
  | some pt => h.load32 (Heap.slot32 pt ((page.digit 0).setWidth 64))

section Read
variable {h : Heap Proc} {places : Places Proc}

/-- One directory on the way of a read: it ends there with 0, or goes on in the next table. -/
private theorem Layout.follow (layout : Layout h places) {p : Proc} {path : List (BitVec 9)} {base : Addr}
    (here : places (.table p path) = some base) (inner : path.length < 4) (i : BitVec 9) :
    (h.load64 (Heap.slot64 base (i.setWidth 64)) &&& paging64PtePresentMask = 0 ∧ places (.table p (path ++ [i])) = none) ∨
      h.load64 (Heap.slot64 base (i.setWidth 64)) &&& paging64PtePresentMask ≠ 0 ∧
        places (.table p (path ++ [i])) = some (h.load64 (Heap.slot64 base (i.setWidth 64)) &&& paging64TableAddrMask) := by
  rw [layout.entries p path base here inner i]
  cases next : places (.table p (path ++ [i])) with
  | none => exact .inl ⟨link_none_absent, rfl⟩
  | some child =>
    have low := layout.table_low next
    exact .inr ⟨link_some_present child, by rw [link_some_table (by omega)]⟩

/-- `pte_get_entry` reads the entry of the page and changes nothing. -/
theorem Layout.get (layout : Layout h places) (p : Proc) (pgn : Addr) : h.pteGetEntry p pgn = (entryIn h places p (pageOf pgn), h) := by
  have root := layout.root p
  have absent {path : List (BitVec 9)} (later : List (BitVec 9)) (missing : places (.table p path) = none) :
      places (.table p (path ++ later)) = none := by
    induction later using List.reverseRecOn with
    | nil => rwa [List.append_nil]
    | append_singleton later i ih => rw [← List.append_assoc]; exact layout.closed _ _ i ih
  unfold Heap.pteGetEntry entryIn Page.path
  rw [getPdFromPagenum_eq]
  generalize pageOf pgn = page
  dsimp only
  cases start : places (.table p []) with
  | none =>
    have null : h.pgd p = 0 := by rw [root, start]; rfl
    rw [if_pos null, show places (.table p [_, _, _, _]) = none from absent [_, _, _, _] start]
  | some pgd =>
    have here : h.pgd p = pgd := by rw [root, start]; rfl
    have real : pgd ≠ 0 := fun null => absurd (layout.placed start).1 (by rw [null]; decide)
    rw [here, if_neg real]
    rcases layout.follow start (by decide) (page.digit 4) with ⟨stop, missing⟩ | ⟨go, p4d⟩
    · rw [if_pos stop, show places (.table p [_, _, _, _]) = none from absent [_, _, _] missing]
    rw [if_neg go]
    rcases layout.follow p4d (by simp) (page.digit 3) with ⟨stop, missing⟩ | ⟨go, pud⟩
    · rw [if_pos stop, show places (.table p [_, _, _, _]) = none from absent [_, _] missing]
    rw [if_neg go]
    rcases layout.follow pud (by simp) (page.digit 2) with ⟨stop, missing⟩ | ⟨go, pmd⟩
    · rw [if_pos stop, show places (.table p [_, _, _, _]) = none from absent [_] missing]
    rw [if_neg go]
    rcases layout.follow pmd (by simp) (page.digit 1) with ⟨stop, missing⟩ | ⟨go, pt⟩
    · rw [if_pos stop, show places (.table p [_, _, _, _]) = none from missing]
    rw [if_neg go, show places (.table p [_, _, _, _]) = some _ from pt]

end Read

section Primitives
variable [DecidableEq Proc] {h next : Heap Proc} {places : Places Proc}

/-- The same entries everywhere. -/
def SameEntries (h : Heap Proc) (places : Places Proc) (next : Heap Proc) (after : Places Proc) : Prop :=
  ∀ p page, entryIn next after p page = entryIn h places p page

/-- A new block is a zeroed table of which nobody knows. -/
theorem Layout.calloc (layout : Layout h places) {c : Calloc Proc} (depth : Nat) {base : Addr}
    (got : h.calloc c (TableName.bytes depth) = .ok (base, next)) :
    Layout next (Function.update places (.spare depth) (some base)) ∧ next.pgd = h.pgd ∧
      SameEntries h places next (Function.update places (.spare depth) (some base)) := by
  unfold Heap.calloc at got
  split at got
  · cases got
  · next found =>
    cases got
    obtain ⟨bounds, apart⟩ := c.fresh _ _ _ found
    have older {name : TableName Proc} {place : Addr} (here : Function.update places (.spare depth) (some base) name = some place) :
        name = .spare depth ∧ place = base ∨ name ≠ .spare depth ∧ places name = some place := by
      rw [Function.update_apply] at here
      split at here
      · next same => cases here; exact .inl ⟨same, rfl⟩
      · next other => exact .inr ⟨other, here⟩
    have tables (p : Proc) (path : List (BitVec 9)) :
        Function.update places (.spare depth) (some base) (.table p path) = places (.table p path) :=
      Function.update_of_ne (fun same => by cases same) ..
    have beside {name : TableName Proc} {place : Addr} (here : places name = some place) {part : Region}
        (inside : part.Within (name.region place)) :
        load (clear h.memory { base := base.toNat, size := TableName.bytes depth }) part = load h.memory part :=
      load_clear_apart ((apart _ (layout.blocks name place here)).mono inside ⟨Nat.le_refl _, Nat.le_refl _⟩)
    refine ⟨⟨?_, ?_, ?_, ?_, ?_, ?_⟩, rfl, ?_⟩
    · intro name place here
      rcases older here with ⟨rfl, rfl⟩ | ⟨_, here⟩
      · exact List.mem_cons_self
      · exact List.mem_cons_of_mem _ (layout.blocks name place here)
    · intro first second a b distinct here there
      rcases older here with ⟨new, rfl⟩ | ⟨_, left⟩
      · rcases older there with ⟨newToo, _⟩ | ⟨_, right⟩
        · exact absurd (new.trans newToo.symm) distinct
        · rw [new]
          exact (apart _ (layout.blocks second b right)).symm
      · rcases older there with ⟨new, rfl⟩ | ⟨_, right⟩
        · rw [new]
          exact apart _ (layout.blocks first a left)
        · exact layout.apart first second a b distinct left right
    · intro p
      rw [tables]
      exact layout.root p
    · intro p path place here inner i
      rw [tables] at here ⊢
      rw [← layout.entries p path place here inner i]
      exact beside here (layout.cell64_within here inner i)
    · intro other place here part inside
      rcases older here with ⟨same, rfl⟩ | ⟨_, here⟩
      · cases same
        exact load_clear_within inside
      · exact (beside here inside).trans (layout.spares other place here part inside)
    · intro p path i missing
      rw [tables] at missing ⊢
      exact layout.closed p path i missing
    · intro p page
      unfold entryIn
      rw [tables]
      split
      · rfl
      · next pt here => exact beside here (layout.cell32_within here _)

/-- The spare table below `path` becomes the one at index `i`. -/
def Places.linked (places : Places Proc) (p : Proc) (path : List (BitVec 9)) (i : BitVec 9) (child : Addr) : Places Proc := fun name =>
  if name = .table p (path ++ [i]) then some child else if name = .spare (path.length + 1) then none else places name

theorem Places.linked_cases {p : Proc} {path : List (BitVec 9)} {i : BitVec 9} {child place : Addr} {name : TableName Proc}
    (here : places.linked p path i child name = some place) :
    name = .table p (path ++ [i]) ∧ place = child ∨
      name ≠ .table p (path ++ [i]) ∧ name ≠ .spare (path.length + 1) ∧ places name = some place := by
  unfold Places.linked at here
  split at here
  · next same => cases here; exact .inl ⟨same, rfl⟩
  · next other =>
    split at here
    · cases here
    · next apart => exact .inr ⟨other, apart, here⟩

theorem Places.linked_table {p q : Proc} {path later : List (BitVec 9)} {i : BitVec 9} {child : Addr}
    (other : ¬(q = p ∧ later = path ++ [i])) : places.linked p path i child (.table q later) = places (.table q later) := by
  unfold Places.linked
  rw [if_neg, if_neg]
  · intro same
    cases same
  · intro same
    cases same
    exact other ⟨rfl, rfl⟩

@[simp] theorem Places.linked_new {p : Proc} {path : List (BitVec 9)} {i : BitVec 9} {child : Addr} :
    places.linked p path i child (.table p (path ++ [i])) = some child := if_pos rfl

/-- A zeroed table at hand goes under an entry that has none. -/
theorem Layout.link (layout : Layout h places) {p : Proc} {path : List (BitVec 9)} {i : BitVec 9} {base child : Addr}
    (here : places (.table p path) = some base) (inner : path.length < 4) (vacant : places (.table p (path ++ [i])) = none)
    (fresh : places (.spare (path.length + 1)) = some child) :
    Layout (h.store64 (Heap.slot64 base (i.setWidth 64)) (child ||| paging64PtePresentMask)) (places.linked p path i child) ∧
      SameEntries h places (h.store64 (Heap.slot64 base (i.setWidth 64)) (child ||| paging64PtePresentMask))
        (places.linked p path i child) := by
  have regions : (TableName.table p (path ++ [i])).region child = (TableName.spare (path.length + 1) : TableName Proc).region child := by
    simp [TableName.region, TableName.depth]
  have written := layout.cell64_within here inner i
  -- a table other than the parent keeps its bytes
  have kept {name : TableName Proc} {place : Addr} (there : places name = some place) (other : name ≠ .table p path) {part : Region}
      (inside : part.Within (name.region place)) :
      load (h.store64 (Heap.slot64 base (i.setWidth 64)) (child ||| paging64PtePresentMask)).memory part = load h.memory part :=
    load_store_apart (layout.beside there here other inside written) _
  refine ⟨⟨?_, ?_, ?_, ?_, ?_, ?_⟩, ?_⟩
  · intro name place there
    rcases Places.linked_cases there with ⟨rfl, rfl⟩ | ⟨_, _, old⟩
    · rw [regions]
      exact layout.blocks _ _ fresh
    · exact layout.blocks name place old
  · intro first second a b distinct there thereToo
    rcases Places.linked_cases there with ⟨new, rfl⟩ | ⟨_, noSpare, old⟩
    · rcases Places.linked_cases thereToo with ⟨newToo, _⟩ | ⟨_, noSpareToo, oldToo⟩
      · exact absurd (new.trans newToo.symm) distinct
      · rw [new, regions]
        exact layout.apart _ second _ b noSpareToo.symm fresh oldToo
    · rcases Places.linked_cases thereToo with ⟨new, rfl⟩ | ⟨_, _, oldToo⟩
      · rw [new, regions]
        exact layout.apart first _ a _ noSpare old fresh
      · exact layout.apart first second a b distinct old oldToo
  · intro q
    rw [Places.linked_table (by simp)]
    exact layout.root q
  · intro q later place there inside j
    rcases Places.linked_cases there with ⟨new, rfl⟩ | ⟨old, _, before⟩
    · cases new
      -- the new table is zero, and nothing is below it
      have inSpare : (TableName.spare (path.length + 1) : TableName Proc).depth < 4 := by simpa [TableName.depth] using inside
      have within := layout.cell64_within fresh inSpare j
      rw [Places.linked_table (by simp), layout.closed _ _ j vacant]
      exact (kept fresh nofun within).trans (layout.spares _ _ fresh _ within)
    · by_cases parent : q = p ∧ later = path
      · obtain ⟨rfl, rfl⟩ := parent
        cases here.symm.trans before
        by_cases same : j = i
        · rw [same, load64_store64_same, Places.linked_new]
          rfl
        · rw [load64_store64_apart (layout.cell64_apart here inner same), Places.linked_table (by simpa using same)]
          exact layout.entries _ later _ here inner j
      · rw [Places.linked_table fun same => parent ⟨same.1, (List.append_singleton_inj.mp same.2).1⟩]
        rw [← layout.entries q later place before inside j]
        refine kept before (fun same => ?_) (layout.cell64_within before inside j)
        cases same
        exact parent ⟨rfl, rfl⟩
  · intro depth place there part inside
    rcases Places.linked_cases there with ⟨new, _⟩ | ⟨_, _, old⟩
    · cases new
    · exact (kept old nofun inside).trans (layout.spares depth place old part inside)
  · intro q later j missing
    have other : ¬(q = p ∧ later = path ++ [i]) := by
      intro ⟨sameProc, samePath⟩
      rw [sameProc, samePath, Places.linked_new] at missing
      cases missing
    rw [Places.linked_table other] at missing
    rw [Places.linked_table]
    · exact layout.closed q later j missing
    · intro ⟨sameProc, samePath⟩
      rw [sameProc, (List.append_singleton_inj.mp samePath).1, here] at missing
      cases missing
  · intro q page
    unfold entryIn
    by_cases new : q = p ∧ page.path = path ++ [i]
    · rw [new.1, new.2, Places.linked_new, vacant]
      have within := layout.cell32_within fresh (page.digit 0)
      exact (kept fresh nofun within).trans (layout.spares _ _ fresh _ within)
    · rw [Places.linked_table new]
      split
      · rfl
      · next pt there =>
        refine kept there (fun same => ?_) (layout.cell32_within there _)
        cases same
        exact absurd inner (by simp [Page.path])

/-- A spare first table becomes that of `p`, whose older tables nobody can reach any more. -/
def Places.rooted (places : Places Proc) (p : Proc) (base : Addr) : Places Proc
  | .table q path => if q = p then if path = [] then some base else none else places (.table q path)
  | .spare depth => if depth = 0 then none else places (.spare depth)

theorem Places.rooted_cases {p : Proc} {base place : Addr} {name : TableName Proc} (here : places.rooted p base name = some place) :
    name = .table p [] ∧ place = base ∨ (∀ path, name ≠ .table p path) ∧ name ≠ .spare 0 ∧ places name = some place := by
  cases name with
  | table q path =>
    simp only [Places.rooted] at here
    split at here
    · next own =>
      split at here
      · next first => cases here; exact .inl ⟨by rw [own, first], rfl⟩
      · cases here
    · next other =>
      refine .inr ⟨fun path same => ?_, nofun, here⟩
      cases same
      exact other rfl
  | spare depth =>
    simp only [Places.rooted] at here
    split at here
    · cases here
    · next deeper =>
      refine .inr ⟨nofun, fun same => ?_, here⟩
      cases same
      exact deeper rfl

theorem Layout.rooted (layout : Layout h places) {base : Addr} (fresh : places (.spare 0) = some base) (p : Proc) :
    Layout { h with pgd := Function.update h.pgd p base } (places.rooted p base) ∧
      ∀ q page, entryIn { h with pgd := Function.update h.pgd p base } (places.rooted p base) q page =
        if q = p then 0 else entryIn h places q page := by
  have regions : (TableName.table p []).region base = (TableName.spare 0 : TableName Proc).region base := rfl
  refine ⟨⟨?_, ?_, ?_, ?_, ?_, ?_⟩, ?_⟩
  · intro name place there
    rcases Places.rooted_cases there with ⟨new, rfl⟩ | ⟨_, _, old⟩
    · rw [new, regions]
      exact layout.blocks _ _ fresh
    · exact layout.blocks name place old
  · intro first second a b distinct there thereToo
    rcases Places.rooted_cases there with ⟨new, rfl⟩ | ⟨_, noSpare, old⟩
    · rcases Places.rooted_cases thereToo with ⟨newToo, _⟩ | ⟨_, noSpareToo, oldToo⟩
      · exact absurd (new.trans newToo.symm) distinct
      · rw [new, regions]
        exact layout.apart _ second _ b noSpareToo.symm fresh oldToo
    · rcases Places.rooted_cases thereToo with ⟨new, rfl⟩ | ⟨_, _, oldToo⟩
      · rw [new, regions]
        exact layout.apart first _ a _ noSpare old fresh
      · exact layout.apart first second a b distinct old oldToo
  · intro q
    dsimp only
    rw [Function.update_apply, Places.rooted]
    split
    · rw [if_pos rfl]
      rfl
    · exact layout.root q
  · intro q path place there inner i
    rcases Places.rooted_cases there with ⟨new, rfl⟩ | ⟨other, _, old⟩
    · cases new
      rw [Places.rooted, if_pos rfl, if_neg (List.append_ne_nil_of_right_ne_nil _ (List.cons_ne_nil _ _))]
      exact layout.spares 0 _ fresh _ (layout.cell64_within fresh (Nat.zero_lt_succ 3) i)
    · have apart : q ≠ p := fun same => other path (by rw [same])
      rw [Places.rooted, if_neg apart]
      exact layout.entries q path place old inner i
  · intro depth place there part inside
    rcases Places.rooted_cases there with ⟨new, _⟩ | ⟨_, _, old⟩
    · cases new
    · exact layout.spares depth place old part inside
  · intro q path i missing
    simp only [Places.rooted] at missing ⊢
    split at missing
    · next own => rw [if_pos own, if_neg (List.append_ne_nil_of_right_ne_nil _ (List.cons_ne_nil _ _))]
    · next other =>
      rw [if_neg other]
      exact layout.closed q path i missing
  · intro q page
    unfold entryIn Places.rooted
    by_cases own : q = p
    · simp only [if_pos own, if_neg (show page.path ≠ [] from List.cons_ne_nil _ _)]
    · simp only [if_neg own]
      rfl

/-- A store to an entry of a last table shows at its page only. -/
theorem Layout.storeLeaf (layout : Layout h places) {p : Proc} {target : Page} {pt : Addr} (here : places (.table p target.path) = some pt)
    (word : Pte) : Layout (h.store32 (Heap.slot32 pt ((target.digit 0).setWidth 64)) word) places ∧
      ∀ q page, entryIn (h.store32 (Heap.slot32 pt ((target.digit 0).setWidth 64)) word) places q page =
        if q = p ∧ page = target then word else entryIn h places q page := by
  have written := layout.cell32_within here (target.digit 0)
  have kept {name : TableName Proc} {place : Addr} (there : places name = some place) (other : name ≠ .table p target.path) {part : Region}
      (inside : part.Within (name.region place)) :
      load (h.store32 (Heap.slot32 pt ((target.digit 0).setWidth 64)) word).memory part = load h.memory part :=
    load_store_apart (layout.beside there here other inside written) _
  refine ⟨⟨layout.blocks, layout.apart, layout.root, ?_, ?_, layout.closed⟩, ?_⟩
  · intro q path base there inner i
    rw [← layout.entries q path base there inner i]
    refine kept there (fun same => ?_) (layout.cell64_within there inner i)
    cases same
    exact absurd inner (by simp [Page.path])
  · intro depth base there part inside
    exact (kept there nofun inside).trans (layout.spares depth base there part inside)
  · intro q page
    unfold entryIn
    by_cases table : q = p ∧ page.path = target.path
    · rw [table.1, table.2, here]
      dsimp only
      by_cases slot : page.digit 0 = target.digit 0
      · rw [if_pos ⟨rfl, Page.eq_of_path table.2 slot⟩, slot]
        exact load32_store32_same word
      · rw [if_neg fun same => slot (by rw [same.2])]
        exact load32_store32_apart (layout.cell32_apart here slot) word
    · rw [if_neg fun same => table ⟨same.1, by rw [same.2]⟩]
      split
      · rfl
      · next there =>
        have other : TableName.table q page.path ≠ .table p target.path := fun same => table (TableName.table.inj same)
        exact kept there other (layout.cell32_within there _)

end Primitives
section Calls
variable [DecidableEq Proc] {c : Calloc Proc} {h next : Heap Proc} {places : Places Proc} {p : Proc} {path : List (BitVec 9)}

/-- Between two calls every table is in use. -/
structure Settled (h : Heap Proc) (places : Places Proc) : Prop extends Layout h places where
  noSpares : ∀ depth, places (.spare depth) = none

omit [DecidableEq Proc] in
theorem SameEntries.trans {middle : Heap Proc} {between after : Places Proc} (first : SameEntries h places middle between)
    (second : SameEntries middle between next after) : SameEntries h places next after :=
  fun q page => (second q page).trans (first q page)

/-- The table behind an entry is the one its name says, and no entry of a page changes. -/
theorem Settled.nextTable (settled : Settled h places) {width : Nat} {i : BitVec 9} {base child : Addr}
    (here : places (.table p path) = some base) (inner : path.length < 4) (bytes : 512 * width = TableName.bytes (path.length + 1))
    (got : h.getNextLevelTable c width (Heap.slot64 base (i.setWidth 64)) = .ok (child, next)) :
    ∃ after, Settled next after ∧ after (.table p (path ++ [i])) = some child ∧ SameEntries h places next after := by
  unfold Heap.getNextLevelTable at got
  rcases settled.follow here inner i with ⟨stop, vacant⟩ | ⟨go, there⟩
  · rw [if_pos stop, bytes] at got
    obtain ⟨⟨table, middle⟩, allocated, got⟩ := Outcome.bind_eq_ok got
    cases got
    obtain ⟨layout, _, entries⟩ := settled.calloc _ allocated
    have older (name : TableName Proc) (other : name ≠ .spare (path.length + 1)) :
        Function.update places (.spare (path.length + 1)) (some child) name = places name := Function.update_of_ne other ..
    have parent := (older (.table p path) nofun).trans here
    have below := (older (.table p (path ++ [i])) nofun).trans vacant
    obtain ⟨linked, entriesToo⟩ := layout.link parent inner below (Function.update_self ..)
    refine ⟨_, ⟨linked, fun depth => ?_⟩, Places.linked_new, entries.trans entriesToo⟩
    unfold Places.linked
    rw [if_neg nofun]
    split
    · rfl
    · next other => exact (older _ other).trans (settled.noSpares depth)
  · rw [if_neg go] at got
    cases got
    exact ⟨places, settled, there, fun _ _ => rfl⟩

theorem Settled.walk (settled : Settled h places) {pgn pte : Addr} (got : h.walk c p pgn = .ok (pte, next)) :
    ∃ after pt, Settled next after ∧ after (.table p (pageOf pgn).path) = some pt ∧
      pte = Heap.slot32 pt (((pageOf pgn).digit 0).setWidth 64) ∧ SameEntries h places next after := by
  unfold Heap.walk at got
  rw [getPdFromPagenum_eq] at got
  dsimp only at got
  by_cases null : h.pgd p = 0
  · rw [if_pos null] at got
    cases got
  rw [if_neg null] at got
  have root := settled.root p
  cases start : places (.table p []) with
  | none =>
    rw [start] at root
    exact absurd root null
  | some pgd =>
    have here : h.pgd p = pgd := by rw [root, start]; rfl
    rw [here] at got
    obtain ⟨⟨p4d, h1⟩, first, got⟩ := Outcome.bind_eq_ok got
    obtain ⟨⟨pud, h2⟩, second, got⟩ := Outcome.bind_eq_ok got
    obtain ⟨⟨pmd, h3⟩, third, got⟩ := Outcome.bind_eq_ok got
    obtain ⟨⟨pt, h4⟩, fourth, got⟩ := Outcome.bind_eq_ok got
    cases got
    obtain ⟨_, settled, at1, same1⟩ := settled.nextTable start (by simp) rfl first
    obtain ⟨_, settled, at2, same2⟩ := settled.nextTable at1 (by simp) rfl second
    obtain ⟨_, settled, at3, same3⟩ := settled.nextTable at2 (by simp) rfl third
    obtain ⟨after, settled, at4, same4⟩ := settled.nextTable at3 (by simp) rfl fourth
    exact ⟨after, pt, settled, at4, rfl, ((same1.trans same2).trans same3).trans same4⟩

/-- What the three setters do to the map. -/
theorem Settled.rewrite (settled : Settled h places) {pgn : Addr} {f : Pte → Pte} (got : h.rewrite c p pgn f = .ok next) :
    ∃ after, Settled next after ∧ ∀ q page, entryIn next after q page =
      if q = p ∧ page = pageOf pgn then f (entryIn h places p (pageOf pgn)) else entryIn h places q page := by
  obtain ⟨⟨pte, middle⟩, walked, got⟩ := Outcome.bind_eq_ok got
  cases got
  obtain ⟨after, pt, settled, here, rfl, same⟩ := settled.walk walked
  obtain ⟨layout, entries⟩ := settled.storeLeaf here (f (middle.load32 (Heap.slot32 pt (((pageOf pgn).digit 0).setWidth 64))))
  have old : entryIn h places p (pageOf pgn) = middle.load32 (Heap.slot32 pt (((pageOf pgn).digit 0).setWidth 64)) := by
    rw [← same, entryIn, here]
  refine ⟨after, ⟨layout, settled.noSpares⟩, fun q page => ?_⟩
  rw [entries, ← same q page, old]

/-- `init_mm` gives the process five fresh tables that read as the empty map. -/
theorem Settled.initMm (settled : Settled h places) (got : h.initMm c p = .ok next) :
    ∃ after, Settled next after ∧ ∀ q page, entryIn next after q page = if q = p then 0 else entryIn h places q page := by
  obtain ⟨⟨pgd, h0⟩, alloc0, got⟩ := Outcome.bind_eq_ok got
  obtain ⟨⟨p4d, h1⟩, alloc1, got⟩ := Outcome.bind_eq_ok got
  obtain ⟨⟨pud, h2⟩, alloc2, got⟩ := Outcome.bind_eq_ok got
  obtain ⟨⟨pmd, h3⟩, alloc3, got⟩ := Outcome.bind_eq_ok got
  obtain ⟨⟨pt, h4⟩, alloc4, got⟩ := Outcome.bind_eq_ok got
  cases got
  have layout : Layout h places := settled.toLayout
  obtain ⟨layout, _, same0⟩ := layout.calloc 0 alloc0
  obtain ⟨layout, fresh⟩ := layout.rooted (Function.update_self ..) p
  obtain ⟨layout, _, same1⟩ := layout.calloc 1 alloc1
  obtain ⟨layout, _, same2⟩ := layout.calloc 2 alloc2
  obtain ⟨layout, _, same3⟩ := layout.calloc 3 alloc3
  obtain ⟨layout, _, same4⟩ := layout.calloc 4 alloc4
  -- the four new directories get their only entry, the first one of each
  obtain ⟨layout, link1⟩ := @Layout.link _ _ _ _ layout p [] 0 pgd p4d (by simp [Places.rooted]) (by simp)
    (by simp [Places.rooted]) (by simp)
  obtain ⟨layout, link2⟩ := @Layout.link _ _ _ _ layout p [0] 0 p4d pud (by simp [Places.linked]) (by simp)
    (by simp [Places.linked, Places.rooted]) (by simp [Places.linked])
  obtain ⟨layout, link3⟩ := @Layout.link _ _ _ _ layout p [0, 0] 0 pud pmd (by simp [Places.linked]) (by simp)
    (by simp [Places.linked, Places.rooted]) (by simp [Places.linked])
  obtain ⟨layout, link4⟩ := @Layout.link _ _ _ _ layout p [0, 0, 0] 0 pmd pt (by simp [Places.linked]) (by simp)
    (by simp [Places.linked, Places.rooted]) (by simp [Places.linked])
  refine ⟨_, ⟨layout, fun depth => ?_⟩, fun q page => ?_⟩
  · simp only [Places.linked, Places.rooted, Function.update_apply, List.length_cons, List.length_nil, reduceCtorEq, if_false,
      TableName.spare.injEq, settled.noSpares]
    grind
  · have later := ((((same1.trans same2).trans same3).trans same4).trans link1).trans ((link2.trans link3).trans link4)
    rw [← same0 q page, ← fresh q page]
    exact later q page

end Calls

namespace TableCall

def caller : TableCall Proc → Proc
  | initMm caller => caller
  | setEntry caller _ _ => caller
  | setFpn caller _ _ => caller
  | setSwap caller _ _ _ => caller

/-- The page number a call stores at and what it makes of the entry there; `init_mm` stores
at none. -/
def change : TableCall Proc → Option (Addr × (Pte → Pte))
  | initMm _ => none
  | setEntry _ pgn pteVal => some (pgn, fun _ => pteVal)
  | setFpn _ pgn fpn => some (pgn, fun pte => pte.setFpn fpn)
  | setSwap _ pgn swptyp swpoff => some (pgn, fun pte => pte.setSwap swptyp swpoff)

/-- The page number is one that the five levels can tell apart. -/
def InReach (call : TableCall Proc) : Prop := ∀ pgn f, call.change = some (pgn, f) → pgn.toNat < 2 ^ 45

variable [DecidableEq Proc] {Key : Type} [DecidableEq Key]

/-- What a call does to a map from processes and keys to entries: it stores at one process
and key, and `init_mm` empties the map of its process. -/
def storeAt (key : Addr → Key) (stored : Proc → Key → Pte) (call : TableCall Proc) : Proc → Key → Pte :=
  Function.update stored call.caller
    (match call.change with
      | none => fun _ => 0
      | some (pgn, f) => Function.update (stored call.caller) (key pgn) (f (stored call.caller (key pgn))))

/-- The values last stored for each process and page number, 0 where there is none. -/
def stored (calls : List (TableCall Proc)) : Proc → Addr → Pte := calls.foldl (storeAt id) fun _ _ => 0

/-- The same calls on the tables of `PageTable`. -/
def onTrees (trees : Proc → Pgd) (call : TableCall Proc) : Proc → Pgd :=
  Function.update trees call.caller
    (match call.change with
      | none => initPgd
      | some (pgn, f) => (trees call.caller).rewrite pgn f)

theorem storeAt_apply (key : Addr → Key) (map : Proc → Key → Pte) (call : TableCall Proc) (p : Proc) (target : Key) :
    call.storeAt key map p target = match call.change with
      | none => if p = call.caller then 0 else map p target
      | some (pgn, f) => if p = call.caller ∧ target = key pgn then f (map call.caller (key pgn)) else map p target := by
  unfold storeAt
  rw [Function.update_apply]
  cases call.change with
  | none => split <;> rfl
  | some change =>
    by_cases own : p = call.caller
    · rw [if_pos own, own]
      dsimp only
      rw [Function.update_apply]
      simp
    · rw [if_neg own]
      dsimp only
      rw [if_neg fun same => own same.1]

theorem onTrees_pteAt (trees : Proc → Pgd) (call : TableCall Proc) :
    (fun p => (call.onTrees trees p).pteAt) = call.storeAt pageOf fun p => (trees p).pteAt := by
  funext p
  unfold onTrees storeAt
  rw [Function.update_apply, Function.update_apply]
  split
  · cases call.change with
    | none => exact funext pteAt_initPgd
    | some change => exact pteAt_rewrite _ _ _
  · rfl

/-- One call in memory is one store to the map of entries. -/
theorem entries {c : Calloc Proc} {h next : Heap Proc} {places : Places Proc} {call : TableCall Proc} (settled : Settled h places)
    (returned : call.run c h = .ok next) :
    ∃ after, Settled next after ∧ entryIn next after = call.storeAt pageOf (entryIn h places) := by
  have setter {p : Proc} {pgn : Addr} {f : Pte → Pte} (own : call.caller = p) (stores : call.change = some (pgn, f))
      (ran : h.rewrite c p pgn f = .ok next) :
      ∃ after, Settled next after ∧ entryIn next after = call.storeAt pageOf (entryIn h places) := by
    obtain ⟨after, settled, same⟩ := settled.rewrite ran
    refine ⟨after, settled, ?_⟩
    funext q page
    rw [same, storeAt_apply, stores, own]
  cases call with
  | initMm p =>
    obtain ⟨after, settled, same⟩ := settled.initMm returned
    refine ⟨after, settled, ?_⟩
    funext q page
    rw [same, storeAt_apply]
    rfl
  | setEntry p pgn pteVal => exact setter rfl rfl returned
  | setFpn p pgn fpn => exact setter rfl rfl returned
  | setSwap p pgn swptyp swpoff => exact setter rfl rfl returned

end TableCall

section Runs
variable [DecidableEq Proc] {c : Calloc Proc} {first h : Heap Proc} {calls : List (TableCall Proc)}

omit [DecidableEq Proc] in
theorem Settled.empty (bare : ∀ p, h.pgd p = 0) : Settled h fun _ => none where
  blocks := nofun
  apart := nofun
  root := bare
  entries := nofun
  spares := nofun
  closed _ _ _ _ := rfl
  noSpares _ := rfl

/-- A run from processes without tables, as the stores to a map. -/
private theorem entries_run (bare : ∀ p, first.pgd p = 0)
    (run : Steps (fun h (call : TableCall Proc) next => call.run c h = .ok next) first calls h) :
    ∃ places, Settled h places ∧ entryIn h places = calls.foldl (TableCall.storeAt pageOf) fun _ _ => 0 := by
  induction run with
  | refl => exact ⟨_, Settled.empty bare, rfl⟩
  | tail _ taken ih =>
    obtain ⟨places, settled, same⟩ := ih
    obtain ⟨after, settled, stored⟩ := TableCall.entries settled taken
    exact ⟨after, settled, by rw [stored, same, List.foldl_append]; rfl⟩

/-- The tables in memory and those of `PageTable` read the same after the same calls. -/
theorem heap_simulates_tables (bare : ∀ p, first.pgd p = 0)
    (run : Steps (fun h (call : TableCall Proc) next => call.run c h = .ok next) first calls h) (p : Proc) (pgn : Addr) :
    (h.pteGetEntry p pgn).1 = pteGetEntry (calls.foldl TableCall.onTrees (fun _ _ => none) p) pgn := by
  obtain ⟨places, settled, same⟩ := entries_run bare run
  have trees : (fun p => (calls.foldl TableCall.onTrees (fun _ _ => none) p).pteAt) = calls.foldl (TableCall.storeAt pageOf) fun _ _ => 0 := by
    clear same settled run
    induction calls using List.reverseRecOn with
    | nil => rfl
    | append_singleton calls call ih =>
      rw [List.foldl_append, List.foldl_append, ← ih]
      exact TableCall.onTrees_pteAt _ call
  rw [settled.get, same, ← trees, pteGetEntry_eq_pteAt]

omit [DecidableEq Proc] in
theorem pageOf_injective {pgn other : Addr} (below : pgn.toNat < 2 ^ 45) (belowToo : other.toNat < 2 ^ 45) :
    pageOf pgn = pageOf other ↔ pgn = other := by
  refine ⟨fun same => BitVec.eq_of_toNat_eq ?_, congrArg pageOf⟩
  have numbers := congrArg BitVec.toNat same
  rwa [pageOf_toNat pgn below, pageOf_toNat other belowToo] at numbers

/-- The five-level table is a map from processes and page numbers: a read returns the value
last stored for exactly that process and page, and leaves memory alone. -/
theorem page_table_refines_map (bare : ∀ p, first.pgd p = 0)
    (run : Steps (fun h (call : TableCall Proc) next => call.InReach ∧ call.run c h = .ok next) first calls h) (p : Proc) (pgn : Addr)
    (below : pgn.toNat < 2 ^ 45) : h.pteGetEntry p pgn = (TableCall.stored calls p pgn, h) := by
  have reached : ∃ places, Settled h places ∧ ∀ p pgn, pgn.toNat < 2 ^ 45 →
      entryIn h places p (pageOf pgn) = TableCall.stored calls p pgn := by
    induction run with
    | refl => exact ⟨_, Settled.empty bare, fun _ _ _ => rfl⟩
    | @tail middle h calls call _ taken ih =>
      obtain ⟨places, settled, same⟩ := ih
      obtain ⟨after, settled, entries⟩ := TableCall.entries settled taken.2
      refine ⟨after, settled, fun q other small => ?_⟩
      have last : TableCall.stored (calls ++ [call]) = call.storeAt id (TableCall.stored calls) := List.foldl_append ..
      rw [entries, last, TableCall.storeAt_apply, TableCall.storeAt_apply]
      cases stores : call.change with
      | none =>
        dsimp only
        rw [same q other small]
      | some change =>
        obtain ⟨target, f⟩ := change
        have inReach := taken.1 target f stores
        dsimp only
        simp only [pageOf_injective small inReach, same call.caller target inReach, same q other small, id]
  obtain ⟨places, settled, same⟩ := reached
  rw [settled.get, same p pgn below]

/-- Past every block there is, as long as there is room. -/
def topOf (blocks : List Region) : Nat := blocks.foldr (fun block top => max (block.base + block.size) top) 4096

theorem topOf_spec (blocks : List Region) : 0 < topOf blocks ∧ ∀ block ∈ blocks, block.base + block.size ≤ topOf blocks := by
  induction blocks with
  | nil => exact ⟨by decide, nofun⟩
  | cons head rest ih =>
    rw [topOf, List.foldr_cons, ← topOf]
    refine ⟨by omega, fun block member => ?_⟩
    rcases List.mem_cons.mp member with rfl | later
    · exact Nat.le_max_left _ _
    · exact Nat.le_trans (ih.2 block later) (Nat.le_max_right _ _)

def bump : Calloc Proc where
  get h size := if topOf h.blocks + size ≤ 2 ^ 48 then some (BitVec.ofNat 64 (topOf h.blocks)) else none
  fresh h size base got := by
    obtain ⟨positive, above⟩ := topOf_spec h.blocks
    split at got
    · next room =>
      cases got
      have place : (BitVec.ofNat 64 (topOf h.blocks)).toNat = topOf h.blocks := Nat.mod_eq_of_lt (by omega)
      rw [place]
      exact ⟨⟨positive, room⟩, fun block member => .inl (above block member)⟩
    · cases got

/-- A machine on which nothing was allocated. -/
def bareHeap : Heap Unit := { memory := fun _ => 0, blocks := [], placed := nofun, pgd := fun _ => 0 }

/-- A page on another path than that of `init_mm`: the four tables below the first are new. -/
theorem page_table_refines_map_bareHeap : ∃ h, Steps (fun h (call : TableCall Unit) next => call.InReach ∧ call.run bump h = .ok next)
    bareHeap [.initMm (), .setFpn () 0x1000000005 3] h ∧
    h.pteGetEntry () 0x1000000005 = (TableCall.stored [.initMm (), .setFpn () 0x1000000005 3] () 0x1000000005, h) := by
  have ran : ∃ middle h, TableCall.run bump bareHeap (.initMm ()) = .ok middle ∧ TableCall.run bump middle (.setFpn () 0x1000000005 3) = .ok h :=
    ⟨_, _, rfl, rfl⟩
  obtain ⟨middle, h, first, second⟩ := ran
  have run : Steps (fun h (call : TableCall Unit) next => call.InReach ∧ call.run bump h = .ok next) bareHeap
      [.initMm (), .setFpn () 0x1000000005 3] h := by
    refine .tail (.single ⟨nofun, first⟩) ⟨fun pgn f stores => ?_, second⟩
    cases stores
    decide
  exact ⟨h, run, page_table_refines_map (fun _ => rfl) run () 0x1000000005 (by decide)⟩

end Runs
end LamiaAtrium
