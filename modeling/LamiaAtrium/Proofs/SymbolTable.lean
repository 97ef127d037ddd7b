import LamiaAtrium.Cpu
import LamiaAtrium.Proofs.Growth

/-! The indices with which an instruction reaches `symrgtbl`. `__free` has a test of its own
in front of `get_symrg_byid`, whose test lets 30 through, and `__alloc` has none. -/

namespace LamiaAtrium
variable {Proc : Type} [DecidableEq Proc] {env : Env Proc} {k : Krnl Proc} {proc : Proc} {ins : Inst}

/-- The register operand as the memory library gets it: a `uint32_t` read as an `int`. -/
def Inst.register (ins : Inst) : CInt :=
  match ins.opcode with
  | .alloc | .write => addrToInt ins.arg1
  | _ => addrToInt ins.arg0

def InTable (rgid : CInt) : Prop := 0 ≤ rgid.toInt ∧ rgid.toInt < pagingMaxSymtblSz

/-- Whether `__alloc` comes to a store to the table: after the free list, or after the growth. -/
def allocStores (env : Env Proc) (k : Krnl Proc) (caller : Proc) (vmaid : CInt) (size : Addr) : Outcome Bool := do
  if size ≤ 0#64 then return false
  let some (area, _) ← getVmaByNum (k.mms caller) vmaid | return false
  let (code, chosen, mm) ← getFreeVmrgArea (k.mms caller) vmaid (addrToInt size)
  match code, chosen with
  | 0, some _ => return true
  | _, _ =>
    let _ ← ((k.setMm caller mm).mms caller).area area
    let pid ← env.callerPid caller
    let _ ← syscall env (k.setMm caller mm) pid 17 { a1 := 2, a2 := intToAddr vmaid, a3 := growBytes size }
    return true

/-- The index of the first access that an instruction makes to the table; `none` if it makes none. -/
def symrgIndex (env : Env Proc) (k : Krnl Proc) (proc : Proc) (ins : Inst) : Option Int :=
  match ins.opcode with
  | .calc | .syscall => none
  | .alloc =>
    match allocStores env k proc 0 ins.arg0 with
    | .ok true => some ins.register.toInt
    | _ => none
  | .free =>
    if ins.register.slt 0#32 ∨ (30#32).sle ins.register then none else (getSymrgByid ins.register).map Int.ofNat
  | .read => (getSymrgByid ins.register).map Int.ofNat
  | .write =>
    match getVmaByNum (k.mms proc) 0 with
    | .ok (some _) => (getSymrgByid ins.register).map Int.ofNat
    | _ => none

section Indices
variable {rgid : CInt} {mm : Mm}

theorem getSymrgByid_eq (rgid : CInt) : getSymrgByid rgid = if 0 ≤ rgid.toInt ∧ rgid.toInt ≤ 30 then some rgid.toNat else none := by
  have bound : (30#32).toInt = 30 := rfl
  have zero : (0#32).toInt = 0 := rfl
  rw [getSymrgByid, BitVec.slt_eq_decide, BitVec.slt_eq_decide, bound, zero]
  by_cases inside : 0 ≤ rgid.toInt ∧ rgid.toInt ≤ 30
  · rw [if_pos inside, if_neg (by simpa using inside)]
  · rw [if_neg inside, if_pos]
    rw [Bool.or_eq_true, decide_eq_true_eq, decide_eq_true_eq]
    omega

theorem toNat_outside (outside : ¬InTable rgid) : ¬rgid.toNat < pagingMaxSymtblSz := by
  intro inside
  apply outside
  have small : rgid.toNat < 30 := inside
  have number : rgid.toInt = rgid.toNat := BitVec.toInt_eq_toNat_of_lt (by omega)
  exact ⟨by omega, by rw [number]; exact Int.ofNat_lt.mpr inside⟩

/-- An index that `get_symrg_byid` lets through is a row of the table, or 30. -/
theorem getSymrgByid_some {index : Nat} (found : getSymrgByid rgid = some index) : (index : Int) = rgid.toInt ∧ (InTable rgid ∨ rgid.toInt = 30) := by
  rw [getSymrgByid_eq] at found
  by_cases inside : 0 ≤ rgid.toInt ∧ rgid.toInt ≤ 30
  · rw [if_pos inside] at found
    cases found
    refine ⟨(toInt_of_nonneg inside.1).symm, ?_⟩
    rcases Int.lt_or_eq_of_le inside.2 with below | same
    · exact .inl ⟨inside.1, below⟩
    · exact .inr same
  · rw [if_neg inside] at found
    cases found

theorem getSymrgByid_none (outside : ¬InTable rgid) (notLast : rgid.toInt ≠ 30) : getSymrgByid rgid = none := by
  cases found : getSymrgByid rgid with
  | none => rfl
  | some index =>
    rcases (getSymrgByid_some found).2 with inside | last
    · exact absurd inside outside
    · exact absurd last notLast

theorem getSymrgByid_last (last : rgid.toInt = 30) : getSymrgByid rgid = some 30 := by
  have number := toInt_of_nonneg (show 0 ≤ rgid.toInt by omega)
  rw [getSymrgByid_eq, if_pos (by omega), show rgid.toNat = 30 by omega]

theorem symrg_outside {index : Nat} (outside : ¬index < pagingMaxSymtblSz) : mm.symrg index = .error .outOfBounds := by
  rw [Mm.symrg, dif_neg outside]

theorem setSymrg_outside {index : Nat} (outside : ¬index < pagingMaxSymtblSz) (rg : VmRg) : mm.setSymrg index rg = .error .outOfBounds := by
  rw [Mm.setSymrg, dif_neg outside]

end Indices

section Functions
variable {caller : Proc} {vmaid rgid : CInt} {size offset : Addr} {value : Byte}

omit [DecidableEq Proc] in
/-- The test of `__free` itself. -/
theorem free_guard (outside : ¬InTable rgid) : rgid.slt 0#32 = true ∨ (30#32).sle rgid = true := by
  have bound : (30#32).toInt = 30 := rfl
  have zero : (0#32).toInt = 0 := rfl
  have limit : (pagingMaxSymtblSz : Int) = 30 := rfl
  rw [InTable, limit] at outside
  rw [BitVec.slt_eq_decide, decide_eq_true_eq, BitVec.sle_iff_toInt_le]
  omega

theorem free_outside (outside : ¬InTable rgid) : free k caller vmaid rgid = .ok (-1, k) := by
  rw [free, if_pos (free_guard outside)]
  rfl

theorem read_outside (outside : ¬InTable rgid) :
    read env k caller rgid offset = if rgid.toInt = 30 then .error .outOfBounds else .ok (-1, none, k) := by
  rw [read]
  by_cases last : rgid.toInt = 30
  · rw [if_pos last, getSymrgByid_last last]
    dsimp only
    rw [symrg_outside (by decide)]
    rfl
  · rw [if_neg last, getSymrgByid_none outside last]
    rfl

theorem write_outside (outside : ¬InTable rgid) :
    write env k caller vmaid rgid offset value = match getVmaByNum (k.mms caller) vmaid with
      | .error fault => .error fault
      | .ok none => .ok (-1, k)
      | .ok (some _) => if rgid.toInt = 30 then .error .outOfBounds else .ok (-1, k) := by
  rw [write]
  dsimp only
  cases getVmaByNum (k.mms caller) vmaid with
  | error fault => rfl
  | ok found =>
    by_cases last : rgid.toInt = 30
    · rw [getSymrgByid_last last]
      cases found with
      | none => rfl
      | some area =>
        rw [Outcome.bind_ok]
        dsimp only
        rw [if_pos last, symrg_outside (by decide)]
        rfl
    · rw [getSymrgByid_none outside last]
      cases found with
      | none => rfl
      | some area =>
        dsimp only
        rw [if_neg last]
        rfl

omit [DecidableEq Proc] in
private theorem getFreeVmrgArea_code {mm after : Mm} {request : CInt} {code : Int} {chosen : Option VmRg}
    (returned : getFreeVmrgArea mm vmaid request = .ok (code, chosen, after)) : code = -1 ∨ code = 0 ∧ ∃ newrg, chosen = some newrg := by
  rw [getFreeVmrgArea] at returned
  by_cases positive : request.sle 0#32 = true
  · rw [if_pos positive] at returned
    cases returned
    exact .inl rfl
  · rw [if_neg positive] at returned
    obtain ⟨found, _, returned⟩ := Outcome.bind_eq_ok returned
    cases found with
    | none => cases returned; exact .inl rfl
    | some area =>
      dsimp only at returned
      cases cut : carve (intToAddr request) area.2.vmFreergList with
      | none => rw [cut] at returned; cases returned; exact .inl rfl
      | some pair =>
        rw [cut] at returned
        by_cases last : pair.1.rgStart = -1
        · simp only [if_pos last] at returned
          cases returned
          exact .inl rfl
        · simp only [if_neg last] at returned
          cases returned
          exact .inr ⟨rfl, _, rfl⟩

theorem allocGrow_outside {area index : Nat} (outside : ¬index < pagingMaxSymtblSz) :
    ∃ fault, allocGrow env k caller vmaid area index size = .error fault ∧
      ((do
        let _ ← (k.mms caller).area area
        let pid ← env.callerPid caller
        let _ ← syscall env k pid 17 { a1 := 2, a2 := intToAddr vmaid, a3 := growBytes size }
        return true : Outcome Bool) = .ok true → fault = .outOfBounds) := by
  rw [allocGrow]
  dsimp only
  cases (k.mms caller).area area with
  | error fault => exact ⟨fault, rfl, fun stored => by cases stored⟩
  | ok start =>
    cases env.callerPid caller with
    | error fault => exact ⟨fault, rfl, fun stored => by cases stored⟩
    | ok pid =>
      simp only [Outcome.bind_ok]
      cases syscall env k pid 17 { a1 := 2, a2 := intToAddr vmaid, a3 := growBytes size } with
      | error fault => exact ⟨fault, rfl, fun stored => by cases stored⟩
      | ok result =>
        refine ⟨.outOfBounds, ?_, fun _ => rfl⟩
        obtain ⟨_, _, grown⟩ := result
        simp only [Outcome.bind_ok, setSymrg_outside outside]
        rfl

/-- Past the lookup of the area, `__alloc` with an index outside the table does not return. -/
theorem alloc_outside (outside : ¬InTable rgid) (positive : 0#64 < size) {area : Nat × VmArea}
    (found : getVmaByNum (k.mms caller) vmaid = .ok (some area)) :
    ∃ fault, alloc env k caller vmaid rgid size = .error fault ∧ (allocStores env k caller vmaid size = .ok true → fault = .outOfBounds) := by
  have sign : ¬size ≤ 0#64 := BitVec.not_le.mpr positive
  obtain ⟨index, vma⟩ := area
  rw [alloc, allocStores, if_neg sign, if_neg sign, found]
  dsimp only [Outcome.bind_ok]
  cases tried : getFreeVmrgArea (k.mms caller) vmaid (addrToInt size) with
  | error fault => exact ⟨fault, rfl, fun stored => by cases stored⟩
  | ok result =>
    obtain ⟨code, chosen, mm⟩ := result
    rcases getFreeVmrgArea_code tried with rfl | ⟨rfl, newrg, rfl⟩
    · exact allocGrow_outside (toNat_outside outside)
    · refine ⟨.outOfBounds, ?_, fun _ => rfl⟩
      change (mm.setSymrg rgid.toNat newrg >>= fun mm => _) = _
      rw [setSymrg_outside (toNat_outside outside)]
      rfl

end Functions

section Safety

/-- The instruction names a register. -/
def Inst.namesRegister (ins : Inst) : Prop := ins.opcode ≠ .calc ∧ ins.opcode ≠ .syscall

/-- Its access to the table is inside, and with an index outside it does nothing but fail. -/
structure TableSafe (env : Env Proc) (k : Krnl Proc) (proc : Proc) (ins : Inst) : Prop where
  inside : ∀ index, symrgIndex env k proc ins = some index → 0 ≤ index ∧ index < pagingMaxSymtblSz
  rejected : ins.namesRegister → ¬InTable ins.register →
    ∃ after, runInst env k proc ins = .ok (-1, after) ∧ after.mms proc = k.mms proc

/-- The operand that the opcode's own path does not let into the table unchecked. -/
def Checked (k : Krnl Proc) (proc : Proc) (ins : Inst) : Prop :=
  match ins.opcode with
  | .calc | .syscall | .free => True
  | .read => ins.register.toInt ≠ 30
  | .write => InTable ins.register ∨ (k.mms proc).mmap = [] ∨
      ins.register.toInt ≠ 30 ∧ ∃ found, getVmaByNum (k.mms proc) 0 = .ok found
  | .alloc => InTable ins.register ∨ ins.arg0 = 0 ∨ (k.mms proc).mmap = []

/-- An access is made with the operand of the instruction as its index. -/
theorem symrgIndex_register {index : Int} (reached : symrgIndex env k proc ins = some index) : index = ins.register.toInt := by
  have lookup (found : (getSymrgByid ins.register).map Int.ofNat = some index) : index = ins.register.toInt := by
    obtain ⟨number, known, same⟩ := Option.map_eq_some_iff.mp found
    rw [← same]
    exact (getSymrgByid_some known).1
  rw [symrgIndex] at reached
  cases op : ins.opcode with
  | «calc» => rw [op] at reached; cases reached
  | syscall => rw [op] at reached; cases reached
  | alloc =>
    rw [op] at reached
    dsimp only at reached
    split at reached
    · cases reached
      rfl
    · cases reached
  | free =>
    rw [op] at reached
    dsimp only at reached
    split at reached
    · cases reached
    · exact lookup reached
  | read => rw [op] at reached; exact lookup reached
  | write =>
    rw [op] at reached
    dsimp only at reached
    split at reached
    · exact lookup reached
    · cases reached

theorem TableSafe.of_inTable (inside : InTable ins.register) : TableSafe env k proc ins where
  inside index reached := by
    rw [symrgIndex_register reached]
    exact inside
  rejected _ outside := absurd inside outside

section Opcodes
variable {arg0 arg1 arg2 arg3 : Addr}

private theorem free_safe : TableSafe env k proc { opcode := .free, arg0, arg1, arg2, arg3 } := by
  by_cases inside : InTable (addrToInt arg0)
  · exact .of_inTable inside
  · constructor
    · intro index reached
      have none : symrgIndex env k proc { opcode := .free, arg0, arg1, arg2, arg3 } = none := if_pos (free_guard inside)
      rw [none] at reached
      cases reached
    · intro _ _
      exact ⟨k, @free_outside _ _ k proc 0 _ inside, rfl⟩

private theorem read_safe_iff :
    TableSafe env k proc { opcode := .read, arg0, arg1, arg2, arg3 } ↔ (addrToInt arg0).toInt ≠ 30 := by
  constructor
  · intro safe last
    have reached : symrgIndex env k proc { opcode := .read, arg0, arg1, arg2, arg3 } = some 30 := by
      change (getSymrgByid (addrToInt arg0)).map Int.ofNat = some 30
      rw [getSymrgByid_last last]
      rfl
    exact absurd (safe.inside 30 reached).2 (by decide)
  · intro notLast
    by_cases inside : InTable (addrToInt arg0)
    · exact .of_inTable inside
    · constructor
      · intro index reached
        change (getSymrgByid (addrToInt arg0)).map Int.ofNat = some index at reached
        rw [getSymrgByid_none inside notLast] at reached
        cases reached
      · intro _ _
        refine ⟨k, ?_, rfl⟩
        change (libread env k proc (addrToInt arg0) arg1 >>= fun result => _) = _
        rw [libread, read_outside inside, if_neg notLast]
        rfl

private theorem write_safe_iff :
    TableSafe env k proc { opcode := .write, arg0, arg1, arg2, arg3 } ↔ InTable (addrToInt arg1) ∨ (k.mms proc).mmap = [] ∨
      (addrToInt arg1).toInt ≠ 30 ∧ ∃ found, getVmaByNum (k.mms proc) 0 = .ok found := by
  by_cases inside : InTable (addrToInt arg1)
  · exact iff_of_true (.of_inTable inside) (.inl inside)
  · have ran : runInst env k proc { opcode := .write, arg0, arg1, arg2, arg3 } =
        write env k proc 0 (addrToInt arg1) arg2 (arg0.setWidth 8) := rfl
    constructor
    · intro safe
      obtain ⟨after, returned, _⟩ := safe.rejected ⟨by simp, by simp⟩ inside
      rw [ran, write_outside inside] at returned
      cases lookup : getVmaByNum (k.mms proc) 0 with
      | error fault => rw [lookup] at returned; cases returned
      | ok found =>
        cases found with
        | none => exact .inr (.inl (getVmaByNum_none_iff.mp lookup))
        | some area =>
          rw [lookup] at returned
          dsimp only at returned
          refine .inr (.inr ⟨?_, _, rfl⟩)
          intro last
          rw [if_pos last] at returned
          cases returned
    · intro checked
      have checked := checked.resolve_left inside
      constructor
      · intro place reached
        rw [symrgIndex] at reached
        dsimp only at reached
        rcases checked with empty | ⟨notLast, _⟩
        · rw [getVmaByNum_none_iff.mpr empty] at reached
          cases reached
        · have register : getSymrgByid (Inst.mk .write arg0 arg1 arg2 arg3).register = none := getSymrgByid_none inside notLast
          rw [register] at reached
          split at reached <;> cases reached
      · intro _ _
        refine ⟨k, ?_, rfl⟩
        rw [ran, write_outside inside]
        rcases checked with empty | ⟨notLast, found, lookup⟩
        · rw [getVmaByNum_none_iff.mpr empty]
        · rw [lookup]
          cases found with
          | none => rfl
          | some area => exact if_neg notLast

private theorem alloc_safe_iff :
    TableSafe env k proc { opcode := .alloc, arg0, arg1, arg2, arg3 } ↔
      InTable (addrToInt arg1) ∨ arg0 = 0 ∨ (k.mms proc).mmap = [] := by
  by_cases inside : InTable (addrToInt arg1)
  · exact iff_of_true (.of_inTable inside) (.inl inside)
  · have ran : runInst env k proc { opcode := .alloc, arg0, arg1, arg2, arg3 } =
        (alloc env k proc 0 (addrToInt arg1) arg0 >>= fun result => .ok (result.1, result.2.2)) := rfl
    by_cases zero : arg0 = 0
    · subst zero
      have stores : allocStores env k proc 0 0 = .ok false := rfl
      refine iff_of_true ⟨?_, ?_⟩ (.inr (.inl rfl))
      · intro place reached
        rw [symrgIndex] at reached
        dsimp only at reached
        rw [stores] at reached
        cases reached
      · intro _ _
        exact ⟨k, rfl, rfl⟩
    · have positive : 0#64 < arg0 := by
        rw [BitVec.lt_def]
        exact Nat.pos_of_ne_zero fun same => zero (BitVec.eq_of_toNat_eq same)
      have sign : ¬arg0 ≤ 0#64 := BitVec.not_le.mpr positive
      constructor
      · intro safe
        obtain ⟨after, returned, _⟩ := safe.rejected ⟨by simp, by simp⟩ inside
        rw [ran] at returned
        cases lookup : getVmaByNum (k.mms proc) 0 with
        | error fault =>
          rw [alloc, if_neg sign, lookup] at returned
          cases returned
        | ok found =>
          cases found with
          | none => exact .inr (.inr (getVmaByNum_none_iff.mp lookup))
          | some area =>
            obtain ⟨fault, failed, _⟩ := @alloc_outside _ _ env k proc 0 _ _ inside positive _ lookup
            rw [failed] at returned
            cases returned
      · intro checked
        have lookup : getVmaByNum (k.mms proc) 0 = .ok none :=
          getVmaByNum_none_iff.mpr ((checked.resolve_left inside).resolve_left zero)
        constructor
        · intro place reached
          have stores : allocStores env k proc 0 arg0 = .ok false := by rw [allocStores, if_neg sign, lookup]; rfl
          rw [symrgIndex] at reached
          dsimp only at reached
          rw [stores] at reached
          cases reached
        · intro _ _
          refine ⟨k, ?_, rfl⟩
          rw [ran, alloc, if_neg sign, lookup]
          rfl

end Opcodes

/-- Every access of an instruction to the table is inside, and an index outside is rejected
without effect, exactly if its path checks the operand. -/
theorem symbol_table_in_range_iff : TableSafe env k proc ins ↔ Checked k proc ins := by
  obtain ⟨opcode, arg0, arg1, arg2, arg3⟩ := ins
  have idle (op : Opcode) (none : symrgIndex env k proc { opcode := op, arg0, arg1, arg2, arg3 } = none)
      (plain : ¬Inst.namesRegister { opcode := op, arg0, arg1, arg2, arg3 }) :
      TableSafe env k proc { opcode := op, arg0, arg1, arg2, arg3 } :=
    ⟨fun _ reached => (by rw [none] at reached; cases reached), fun names => absurd names plain⟩
  cases opcode with
  | «calc» => exact iff_of_true (idle _ rfl fun names => names.1 rfl) trivial
  | syscall => exact iff_of_true (idle _ rfl fun names => names.2 rfl) trivial
  | free => exact iff_of_true free_safe trivial
  | read => exact read_safe_iff
  | write => exact write_safe_iff
  | alloc => exact alloc_safe_iff

/-- An access outside the table is where the model stops. -/
theorem symrgIndex_outside {index : Int} (reached : symrgIndex env k proc ins = some index) (outside : ¬InTable ins.register) :
    runInst env k proc ins = .error .outOfBounds := by
  have last {register : CInt} (beyond : ¬InTable register) (found : (getSymrgByid register).map Int.ofNat = some index) :
      register.toInt = 30 := by
    obtain ⟨number, known, _⟩ := Option.map_eq_some_iff.mp found
    exact (getSymrgByid_some known).2.resolve_left beyond
  obtain ⟨opcode, arg0, arg1, arg2, arg3⟩ := ins
  cases opcode with
  | «calc» => cases reached
  | syscall => cases reached
  | free =>
    have none : symrgIndex env k proc { opcode := .free, arg0, arg1, arg2, arg3 } = none := if_pos (free_guard outside)
    rw [none] at reached
    cases reached
  | read =>
    change ¬InTable (addrToInt arg0) at outside
    change (libread env k proc (addrToInt arg0) arg1 >>= fun result => _) = _
    rw [libread, read_outside outside, if_pos (last outside reached)]
    rfl
  | write =>
    change ¬InTable (addrToInt arg1) at outside
    change write env k proc 0 (addrToInt arg1) arg2 (arg0.setWidth 8) = _
    rw [write_outside outside]
    rw [symrgIndex] at reached
    dsimp only at reached
    split at reached
    · next area lookup =>
      rw [lookup]
      exact if_pos (last outside reached)
    · cases reached
  | alloc =>
    change ¬InTable (addrToInt arg1) at outside
    change (alloc env k proc 0 (addrToInt arg1) arg0 >>= fun result => _) = _
    rw [symrgIndex] at reached
    dsimp only at reached
    cases stores : allocStores env k proc 0 arg0 with
    | error fault => rw [stores] at reached; cases reached
    | ok comes =>
      cases comes with
      | false => rw [stores] at reached; cases reached
      | true =>
        have positive : 0#64 < arg0 := by
          rw [BitVec.lt_def]
          apply Nat.pos_of_ne_zero
          intro same
          have zero : arg0 = 0 := BitVec.eq_of_toNat_eq same
          rw [zero] at stores
          cases stores
        cases lookup : getVmaByNum (k.mms proc) 0 with
        | error fault =>
          rw [allocStores, if_neg (BitVec.not_le.mpr positive), lookup] at stores
          cases stores
        | ok found =>
          cases found with
          | none =>
            rw [allocStores, if_neg (BitVec.not_le.mpr positive), lookup] at stores
            cases stores
          | some area =>
            obtain ⟨fault, failed, why⟩ := @alloc_outside _ _ env k proc 0 _ _ outside positive _ lookup
            rw [failed, why stores]
            rfl

/-- `READ 30` and `ALLOC` into register 30 reach the row behind the table. -/
theorem register_30_is_behind_the_table :
    symrgIndex unknownCaller (oneFrame [0] [0, 1]) () { opcode := .read, arg0 := 30, arg1 := 0, arg2 := 0, arg3 := 0 } = some 30 ∧
    symrgIndex unknownCaller (oneFrame [0] [0, 1]) () { opcode := .alloc, arg0 := 16, arg1 := 30, arg2 := 0, arg3 := 0 } = some 30 ∧
    ¬TableSafe unknownCaller (oneFrame [0] [0, 1]) () { opcode := .read, arg0 := 30, arg1 := 0, arg2 := 0, arg3 := 0 } := by
  refine ⟨rfl, rfl, ?_⟩
  intro safe
  exact absurd (safe.inside 30 rfl).2 (by decide)

end Safety
end LamiaAtrium
