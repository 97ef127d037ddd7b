import LamiaAtrium.PageTable
import LamiaAtrium.Library.Memory

/-! The page tables of `mm64.c` as they lie in memory: arrays that `calloc` returned, whose
directory entries are pointers with bit 63 set. This is the level below `PageTable`, where
an entry owns the table it points to. -/

namespace LamiaAtrium
open Memory

/-- The memory of the tables, and of each process's `mm` the pointer to its first one.
`blocks` is what `calloc` has handed out: nothing at the null pointer or past 48 bits. -/
structure Heap (Proc : Type) where
  memory : Bytes
  blocks : List Region
  placed : ∀ block ∈ blocks, 0 < block.base ∧ block.base + block.size ≤ 2 ^ 48
  pgd : Proc → Addr

/-- An allocator: `none` is the null pointer, and what it returns otherwise overlaps
nothing that was handed out before. -/
structure Calloc (Proc : Type) where
  get : Heap Proc → Nat → Option Addr
  fresh : ∀ h size base, get h size = some base →
    (0 < base.toNat ∧ base.toNat + size ≤ 2 ^ 48) ∧ ∀ block ∈ h.blocks, block.Apart { base := base.toNat, size }

def paging64PtePresentMask : Addr := 1#64 <<< 63
def paging64TableAddrMask : Addr := 0x0000FFFFFFFFFFFF#64

namespace Heap
variable {Proc : Type} (c : Calloc Proc) (h : Heap Proc)

/-- `calloc(512, width)`. The callers store a null pointer and go on to follow it. -/
def calloc (size : Nat) : Outcome (Addr × Heap Proc) :=
  match found : c.get h size with
  | none => .error .nullDereference
  | some base => .ok (base, { h with
      memory := clear h.memory { base := base.toNat, size }
      blocks := { base := base.toNat, size } :: h.blocks
      placed := List.forall_mem_cons.mpr ⟨(c.fresh h size base found).1, h.placed⟩ })

/-- `&table[index]` for entries of 8 and of 4 bytes. -/
def slot64 (table index : Addr) : Addr := table + index * 8#64

def slot32 (table index : Addr) : Addr := table + index * 4#64

def load64 (addr : Addr) : Addr := load h.memory { base := addr.toNat, size := 8 }

def store64 (addr : Addr) (word : Addr) : Heap Proc := { h with memory := store h.memory { base := addr.toNat, size := 8 } word }

def load32 (addr : Addr) : Pte := load h.memory { base := addr.toNat, size := 4 }

def store32 (addr : Addr) (word : Pte) : Heap Proc := { h with memory := store h.memory { base := addr.toNat, size := 4 } word }

/-- The table behind the entry at an address, a zeroed one if the entry is not present. -/
def getNextLevelTable (width : Nat) (entry : Addr) : Outcome (Addr × Heap Proc) :=
  let content := h.load64 entry
  if content &&& paging64PtePresentMask = 0 then do
    let (newTable, h) ← h.calloc c (512 * width)
    return (newTable, h.store64 entry (newTable ||| paging64PtePresentMask))
  else return (content &&& paging64TableAddrMask, h)

def getNextLevelTable64 (entry : Addr) : Outcome (Addr × Heap Proc) := h.getNextLevelTable c 8 entry

def getNextLevelTable32 (entry : Addr) : Outcome (Addr × Heap Proc) := h.getNextLevelTable c 4 entry

variable [DecidableEq Proc]

/-- The walk that the three setters share: the address of the page's entry. -/
def walk (caller : Proc) (pgn : Addr) : Outcome (Addr × Heap Proc) := do
  let idx := getPdFromPagenum pgn
  let pgdTbl := h.pgd caller
  if pgdTbl = 0 then throw .nullDereference
  let (p4dTbl, h) ← h.getNextLevelTable64 c (slot64 pgdTbl idx.pgd)
  let (pudTbl, h) ← h.getNextLevelTable64 c (slot64 p4dTbl idx.p4d)
  let (pmdTbl, h) ← h.getNextLevelTable64 c (slot64 pudTbl idx.pud)
  let (ptTbl, h) ← h.getNextLevelTable32 c (slot64 pmdTbl idx.pmd)
  return (slot32 ptTbl idx.pt, h)

def rewrite (caller : Proc) (pgn : Addr) (f : Pte → Pte) : Outcome (Heap Proc) := do
  let (pte, h) ← h.walk c caller pgn
  return h.store32 pte (f (h.load32 pte))

def pteSetFpn (caller : Proc) (pgn fpn : Addr) : Outcome (Heap Proc) := h.rewrite c caller pgn fun pte => pte.setFpn fpn

def pteSetSwap (caller : Proc) (pgn : Addr) (swptyp : CInt) (swpoff : Addr) : Outcome (Heap Proc) :=
  h.rewrite c caller pgn fun pte => pte.setSwap swptyp swpoff

def pteSetEntry (caller : Proc) (pgn : Addr) (pteVal : Pte) : Outcome (Heap Proc) := h.rewrite c caller pgn fun _ => pteVal

/-- `pte_get_entry`, with the memory as the call leaves it. -/
def pteGetEntry (caller : Proc) (pgn : Addr) : Pte × Heap Proc :=
  let idx := getPdFromPagenum pgn
  let tbl := h.pgd caller
  if tbl = 0 then (0, h)
  else
    let entry := h.load64 (slot64 tbl idx.pgd)
    if entry &&& paging64PtePresentMask = 0 then (0, h)
    else
      let tbl := entry &&& paging64TableAddrMask
      let entry := h.load64 (slot64 tbl idx.p4d)
      if entry &&& paging64PtePresentMask = 0 then (0, h)
      else
        let tbl := entry &&& paging64TableAddrMask
        let entry := h.load64 (slot64 tbl idx.pud)
        if entry &&& paging64PtePresentMask = 0 then (0, h)
        else
          let tbl := entry &&& paging64TableAddrMask
          let entry := h.load64 (slot64 tbl idx.pmd)
          if entry &&& paging64PtePresentMask = 0 then (0, h)
          else (h.load32 (slot32 (entry &&& paging64TableAddrMask) idx.pt), h)

/-- The page table part of `init_mm`. -/
def initMm (caller : Proc) : Outcome (Heap Proc) := do
  let (pgd, h) ← h.calloc c (512 * 8)
  let h : Heap Proc := { h with pgd := Function.update h.pgd caller pgd }
  let (p4d, h) ← h.calloc c (512 * 8)
  let (pud, h) ← h.calloc c (512 * 8)
  let (pmd, h) ← h.calloc c (512 * 8)
  let (pt, h) ← h.calloc c (512 * 4)
  let h := h.store64 (slot64 pgd 0) (p4d ||| paging64PtePresentMask)
  let h := h.store64 (slot64 p4d 0) (pud ||| paging64PtePresentMask)
  let h := h.store64 (slot64 pud 0) (pmd ||| paging64PtePresentMask)
  return h.store64 (slot64 pmd 0) (pt ||| paging64PtePresentMask)

end Heap

/-- A call that writes to the tables of a process. -/
inductive TableCall (Proc : Type) where
  | initMm (caller : Proc)
  | setEntry (caller : Proc) (pgn : Addr) (pteVal : Pte)
  | setFpn (caller : Proc) (pgn fpn : Addr)
  | setSwap (caller : Proc) (pgn : Addr) (swptyp : CInt) (swpoff : Addr)

def TableCall.run {Proc : Type} [DecidableEq Proc] (c : Calloc Proc) (h : Heap Proc) : TableCall Proc → Outcome (Heap Proc)
  | initMm caller => h.initMm c caller
  | setEntry caller pgn pteVal => h.pteSetEntry c caller pgn pteVal
  | setFpn caller pgn fpn => h.pteSetFpn c caller pgn fpn
  | setSwap caller pgn swptyp swpoff => h.pteSetSwap c caller pgn swptyp swpoff

end LamiaAtrium
