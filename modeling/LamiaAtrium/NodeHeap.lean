import LamiaAtrium.Library.LinkedList
import LamiaAtrium.Libmem

/-! The node lists of the kernel as they lie in memory: the free frames of a device and
the free regions of an area. This is the level below the lists of `Memphy` and `Mm`. A
block from `malloc` holds whatever was there, and a field keeps it until it is written. -/

namespace LamiaAtrium
open LinkedList

/-- `blocks` is what the next calls of `malloc` return, each block with its content. -/
structure NodeHeap (Ptr Value : Type) where
  cells : Cells Ptr Value
  blocks : List (Ptr × Cell Ptr Value)

namespace NodeHeap
variable {Ptr Value : Type} [DecidableEq Ptr]

/-- The callers write through the result at once, also when it is the null pointer. -/
def malloc (h : NodeHeap Ptr Value) : Outcome (Ptr × NodeHeap Ptr Value) :=
  match h.blocks with
  | [] => .error .nullDereference
  | (pointer, content) :: blocks => .ok (pointer, { cells := Function.update h.cells pointer (some content), blocks })

def load (h : NodeHeap Ptr Value) (pointer : Ptr) : Outcome (Cell Ptr Value) :=
  match h.cells pointer with
  | some cell => .ok cell
  | none => .error .useAfterFree

def store (h : NodeHeap Ptr Value) (pointer : Ptr) (cell : Cell Ptr Value) : Outcome (NodeHeap Ptr Value) :=
  match h.cells pointer with
  | some _ => .ok { h with cells := Function.update h.cells pointer (some cell) }
  | none => .error .useAfterFree

def setValue (h : NodeHeap Ptr Value) (pointer : Ptr) (value : Value) : Outcome (NodeHeap Ptr Value) := do
  let cell ← h.load pointer
  h.store pointer { cell with value }

def setNext (h : NodeHeap Ptr Value) (pointer : Ptr) (next : Option Ptr) : Outcome (NodeHeap Ptr Value) := do
  let cell ← h.load pointer
  h.store pointer { cell with next }

def free (h : NodeHeap Ptr Value) (pointer : Ptr) : NodeHeap Ptr Value :=
  { h with cells := Function.update h.cells pointer none }

end NodeHeap

/-- `struct memphy_struct` with the pointer to its list. -/
structure MemphyStruct (Ptr : Type) where
  storage : Nat → Byte
  maxsz : CInt
  rdmflg : Bool
  cursor : Nat
  freeFpList : Option Ptr

namespace MemphyStruct
variable {Ptr : Type} [DecidableEq Ptr]

/-- The loop of `MEMPHY_format` with `left` rounds to go. -/
def formatLoop : Nat → CInt → Ptr → NodeHeap Ptr Addr → Outcome (NodeHeap Ptr Addr)
  | 0, _, _, h => .ok h
  | left + 1, iter, fst, h => do
    let (newfst, h) ← h.malloc
    let h ← h.store newfst { value := intToAddr iter, next := none }
    let h ← h.setNext fst (some newfst)
    formatLoop left (iter + 1) newfst h

/-- `MEMPHY_format`. The link of the first node is left to the loop. -/
def format (mp : MemphyStruct Ptr) (pagesz : CInt) (h : NodeHeap Ptr Addr) : Outcome (Int × MemphyStruct Ptr × NodeHeap Ptr Addr) := do
  let numfp := mp.maxsz.sdiv pagesz
  if numfp.sle 0#32 then return (-1, mp, h)
  let (fst, h) ← h.malloc
  let h ← h.setValue fst 0
  let h ← formatLoop (numfp.toNat - 1) 1 fst h
  return (0, { mp with freeFpList := some fst }, h)

/-- `init_memphy`. It stores the 64-bit size in an `int` and ignores the answer of `MEMPHY_format`. -/
def initMemphy (mp : MemphyStruct Ptr) (maxSize : Addr) (randomflg : CInt) (h : NodeHeap Ptr Addr) :
    Outcome (Int × MemphyStruct Ptr × NodeHeap Ptr Addr) := do
  let mp := { mp with storage := fun _ => 0, maxsz := addrToInt maxSize }
  let (_, mp, h) ← mp.format 256 h
  let mp := { mp with rdmflg := randomflg != 0 }
  let mp := if !mp.rdmflg then { mp with cursor := 0 } else mp
  return (0, mp, h)

/-- `MEMPHY_get_freefp`, with what it stores at `*retfpn`. -/
def getFreefp (mp : MemphyStruct Ptr) (h : NodeHeap Ptr Addr) : Outcome (Int × Option Addr × MemphyStruct Ptr × NodeHeap Ptr Addr) :=
  match mp.freeFpList with
  | none => .ok (-1, none, mp, h)
  | some fp => do
    let cell ← h.load fp
    return (0, some cell.value, { mp with freeFpList := cell.next }, h.free fp)

def putFreefp (mp : MemphyStruct Ptr) (fpn : Addr) (h : NodeHeap Ptr Addr) : Outcome (Int × MemphyStruct Ptr × NodeHeap Ptr Addr) := do
  let fp := mp.freeFpList
  let (newnode, h) ← h.malloc
  let h ← h.store newnode { value := fpn, next := fp }
  return (0, { mp with freeFpList := some newnode }, h)

end MemphyStruct

/-- `struct vm_area_struct` with the pointer to its free list. `vm_next` is the place in the
list of areas, and nothing reads `vm_mm`. -/
structure VmAreaStruct (Ptr : Type) where
  vmId : BitVec 64
  vmStart : Addr
  vmEnd : Addr
  sbrk : Addr
  vmFreergList : Option Ptr

structure MmStruct (Ptr : Type) where
  pgd : Pgd
  mmap : List (VmAreaStruct Ptr)
  symrgtbl : Fin pagingMaxSymtblSz → VmRg
  fifoPgn : List Addr

section Regions
variable {Ptr : Type} [DecidableEq Ptr]

def initVmRg (rgStart rgEnd : Addr) (h : NodeHeap Ptr VmRg) : Outcome (Ptr × NodeHeap Ptr VmRg) := do
  let (rgnode, h) ← h.malloc
  let h ← h.store rgnode { value := { rgStart, rgEnd }, next := none }
  return (rgnode, h)

/-- `enlist_vm_rg_node`, with the new content of `*rglist`. -/
def enlistVmRgNode (rglist : Option Ptr) (rgnode : Ptr) (h : NodeHeap Ptr VmRg) : Outcome (Option Ptr × NodeHeap Ptr VmRg) := do
  let h ← h.setNext rgnode rglist
  return (some rgnode, h)

/-- `init_mm` on the zeroed `mm` of `ld_routine`; `vma0` is the block that `malloc` returned
for the area, as it was found. -/
def MmStruct.initMm (vma0 : VmAreaStruct Ptr) (h : NodeHeap Ptr VmRg) : Outcome (Int × MmStruct Ptr × NodeHeap Ptr VmRg) := do
  let vma0 := { vma0 with vmId := 0, vmStart := 0, vmEnd := 0, sbrk := 0 }
  let (firstRg, h) ← initVmRg vma0.vmStart vma0.vmEnd h
  let (vmFreergList, h) ← enlistVmRgNode vma0.vmFreergList firstRg h
  return (0, { pgd := initPgd, mmap := [{ vma0 with vmFreergList }], symrgtbl := fun _ => { rgStart := 0, rgEnd := 0 }, fifoPgn := [] }, h)

/-- The body of the `if` in the loop of `get_free_vmrg_area`: the region cut off the node. -/
def carveNode (size : Addr) (rgit : Ptr) (rg : Cell Ptr VmRg) (h : NodeHeap Ptr VmRg) : Outcome (VmRg × NodeHeap Ptr VmRg) := do
  let newrg : VmRg := { rgStart := rg.value.rgStart, rgEnd := rg.value.rgStart + size }
  if newrg.rgEnd < rg.value.rgEnd then
    let h ← h.store rgit { rg with value := { rg.value with rgStart := newrg.rgEnd } }
    return (newrg, h)
  else match rg.next with
    | some nxt =>
      let cell ← h.load nxt
      let h ← h.store rgit cell
      return (newrg, h.free nxt)
    | none =>
      let h ← h.store rgit { value := { rg.value with rgStart := rg.value.rgEnd }, next := none }
      return (newrg, h)

/-- The loop of `get_free_vmrg_area` for at most `fuel` nodes; `none` when they are used up
before the loop has ended. -/
def carveLoop (size : Addr) : Nat → Option Ptr → NodeHeap Ptr VmRg → Option (Outcome (Option VmRg × NodeHeap Ptr VmRg))
  | _, none, h => some (.ok (none, h))
  | 0, some _, _ => none
  | fuel + 1, some rgit, h =>
    match h.load rgit with
    | .error fault => some (.error fault)
    | .ok rg =>
      if rg.value.rgStart + size ≤ rg.value.rgEnd then
        some ((carveNode size rgit rg h).map fun (newrg, h) => (some newrg, h))
      else carveLoop size fuel rg.next h

/-- `get_free_vmrg_area` on the free list of the area that it has found. -/
def NodeHeap.getFreeVmrgArea (h : NodeHeap Ptr VmRg) (fuel : Nat) (vmFreergList : Option Ptr) (size : CInt) :
    Option (Outcome (Int × Option VmRg × NodeHeap Ptr VmRg)) :=
  if size.sle 0#32 then some (.ok (-1, none, h))
  else (carveLoop (intToAddr size) fuel vmFreergList h).map fun scanned => do
    let (newrg, h) ← scanned
    match newrg with
    | none => return (-1, none, h)
    | some newrg =>
      if newrg.rgStart = -1 then return (-1, some newrg, h)
      return (0, some newrg, h)

/-- `enlist_vm_freerg_list`, with the new content of `mm->mmap->vm_freerg_list`. -/
def NodeHeap.enlistVmFreergList (h : NodeHeap Ptr VmRg) (rgNode : Option Ptr) (rgElmt : Ptr) :
    Outcome (Int × Option Ptr × NodeHeap Ptr VmRg) := do
  let cell ← h.load rgElmt
  if cell.value.rgStart ≥ cell.value.rgEnd then return (-1, rgNode, h)
  let h ← if rgNode.isSome then h.setNext rgElmt rgNode else .ok h
  return (0, some rgElmt, h)

/-- `__free` from its `malloc` on; it drops the result of `enlist_vm_freerg_list`. -/
def NodeHeap.freeRegion (h : NodeHeap Ptr VmRg) (vmFreergList : Option Ptr) (rgnode : VmRg) :
    Outcome (Int × Option Ptr × NodeHeap Ptr VmRg) := do
  let (freergNode, h) ← h.malloc
  let h ← h.store freergNode { value := rgnode, next := none }
  h.enlistVmFreergList vmFreergList freergNode

/-- The end of `__alloc`: the rest of what the area has grown by. -/
def NodeHeap.keepExtra (h : NodeHeap Ptr VmRg) (vmFreergList : Option Ptr) (oldBrk size grow : Addr) :
    Outcome (Option Ptr × NodeHeap Ptr VmRg) := do
  if oldBrk + size < oldBrk + grow then
    let (extra, h) ← h.malloc
    let h ← h.store extra { value := { rgStart := oldBrk + size, rgEnd := oldBrk + grow }, next := vmFreergList }
    return (some extra, h)
  else return (vmFreergList, h)

end Regions

section Pages
variable {Ptr : Type} [DecidableEq Ptr]

/-- `enlist_pgn_node`, with the new content of `*plist`. -/
def NodeHeap.enlistPgnNode (h : NodeHeap Ptr Addr) (plist : Option Ptr) (pgn : Addr) : Outcome (Int × Option Ptr × NodeHeap Ptr Addr) := do
  let (pnode, h) ← h.malloc
  let h ← h.store pnode { value := pgn, next := plist }
  return (0, some pnode, h)

/-- The loop of `find_victim_page` for at most `fuel` rounds: `prev`, `pg` and the content of `pg`
after it; `none` when they are used up before it has ended. -/
def NodeHeap.lastPageLoop (h : NodeHeap Ptr Addr) : Nat → Option Ptr → Ptr → Option (Outcome (Option Ptr × Ptr × Addr))
  | fuel, prev, pg =>
    match h.load pg with
    | .error fault => some (.error fault)
    | .ok cell =>
      match cell.next, fuel with
      | none, _ => some (.ok (prev, pg, cell.value))
      | some _, 0 => none
      | some next, fuel + 1 => lastPageLoop h fuel (some pg) next

/-- `find_victim_page` on `mm->fifo_pgn`, with what it stores at `*retpgn` and the new content of
`mm->fifo_pgn`. -/
def NodeHeap.findVictimPage (h : NodeHeap Ptr Addr) (fuel : Nat) (fifoPgn : Option Ptr) :
    Option (Outcome (Int × Option Addr × Option Ptr × NodeHeap Ptr Addr)) :=
  match fifoPgn with
  | none => some (.ok (-1, none, fifoPgn, h))
  | some pg =>
    match h.load pg with
    | .error fault => some (.error fault)
    | .ok { value, next := none } => some (.ok (0, some value, none, h.free pg))
    | .ok { value := _, next := some _ } =>
      (h.lastPageLoop fuel none pg).map fun walked => do
        let (prev, pg, value) ← walked
        let some prev := prev | .error .nullDereference
        let h ← h.setNext prev none
        return (0, some value, fifoPgn, h.free pg)

end Pages
end LamiaAtrium
