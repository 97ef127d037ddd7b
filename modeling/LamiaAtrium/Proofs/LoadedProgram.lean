import LamiaAtrium.Loader

/-! What of a loaded program comes from its file. `load` assigns the numbers that its scan finds
and leaves the other arguments as `malloc` returned them; `run` passes on a fixed number of
arguments for each opcode. -/

namespace LamiaAtrium

/-- How many of its arguments `run` passes on. -/
def Opcode.passed : Opcode → Nat
  | .calc => 0
  | .alloc => 2
  | .free => 1
  | .read => 2
  | .write => 3
  | .syscall => 4

/-- An instruction as the file gives it: its opcode, and the numbers that the scan finds. -/
structure ScannedInst where
  opcode : Opcode
  operands : List Addr
  deriving DecidableEq, Repr

/-- The loop of `load` without the array that it fills. -/
def scanInsts : Nat → (opcode buf text : List Char) → Outcome (Option (List ScannedInst))
  | 0, _, _, _ => .ok (some [])
  | left + 1, opcode, buf, text => do
    let (opcode, text) ← scanOpcode opcode text
    match getOpcode (cString opcode) with
    | none => return none
    | some opcode' =>
      let (operands, buf, text) := scanOperands opcode' buf text
      let insts ← scanInsts left opcode buf text
      return insts.map ({ opcode := opcode', operands } :: ·)

def scanFile (memory : LoadMemory) (file : List Char) : Outcome (Option (List ScannedInst)) :=
  let (_, size, text) := scanHeader memory file
  scanInsts size.toNat memory.opcode memory.buf text

/-- The instruction in a block of memory that held this. -/
def ScannedInst.stored (ins : ScannedInst) (block : Inst) : Inst :=
  { block with opcode := ins.opcode }.assign ins.operands

/-- The instructions from `i` on in an array that held this. -/
def fillArray (array : Nat → Inst) (i : Nat) : List ScannedInst → List Inst
  | [] => []
  | ins :: rest => ins.stored (array i) :: fillArray array (i + 1) rest

/-- Whatever the blocks of the instruction array held, `run` makes the same calls. -/
def DependsOnFileOnly (memory : LoadMemory) (file : List Char) : Prop :=
  ∀ first second : Nat → Inst,
    (Program.load { memory with text := first } file).map (Option.map Program.calls) =
      (Program.load { memory with text := second } file).map (Option.map Program.calls)

section Calls
variable {Proc : Type} [DecidableEq Proc]

theorem runInst_performs (env : Env Proc) (k : Krnl Proc) (proc : Proc) (ins : Inst) :
    runInst env k proc ins =
      match ins.call with
      | none => .ok (0, k)
      | some call => performCall env k proc call := by
  rw [runInst, Inst.call]
  cases ins.opcode <;> rfl

theorem run_runInst (env : Env Proc) (text : List Inst) (m : Execution Proc) (proc : Proc) :
    (run env text m proc).map (fun (stat, _, m) => (stat, m.mem)) =
      match text[(m.pc proc).toNat]? with
      | none => .ok (1, m.mem)
      | some ins => runInst (m.env env) m.mem proc ins := by
  rw [run]
  cases text[(m.pc proc).toNat]? with
  | none => rfl
  | some ins =>
    by_cases reads : ins.opcode = .read
    · simp only [runInst, reads, if_true]
      cases returned : libread (m.env env) m.mem proc (addrToInt ins.arg0) ins.arg1 with
      | error fault => rw [Execution.env] at returned ⊢; simp only [returned]; rfl
      | ok result => rw [Execution.env] at returned ⊢; simp only [returned]; rfl
    · simp only [if_neg reads]
      cases returned : runInst (m.env env) m.mem proc ins with
      | error fault => rw [Execution.env] at returned ⊢; simp only [returned]; rfl
      | ok result => rw [Execution.env] at returned ⊢; simp only [returned]; rfl

/-- `run` makes the call at the program counter, and nothing else happens to the memory. -/
theorem run_performs (env : Env Proc) (program : Program) (m : Execution Proc) (proc : Proc) :
    (run env program.text m proc).map (fun (stat, _, m) => (stat, m.mem)) =
      match program.calls[(m.pc proc).toNat]? with
      | none => .ok (1, m.mem)
      | some none => .ok (0, m.mem)
      | some (some call) => performCall (m.env env) m.mem proc call := by
  rw [run_runInst, Program.calls, List.getElem?_map]
  cases program.text[(m.pc proc).toNat]? with
  | none => rfl
  | some ins =>
    dsimp only [Option.map_some]
    rw [runInst_performs]
    cases ins.call <;> rfl

end Calls

theorem map_scanned (result : Outcome (Option α)) (f : α → β) (g : β → γ) :
    (result.map (Option.map f)).map (Option.map g) = result.map (Option.map (g ∘ f)) := by
  cases result with
  | error fault => rfl
  | ok value => cases value <;> rfl

theorem bind_scanned (result : Outcome (Option α)) (f : α → β) :
    (result >>= fun value => return value.map f) = result.map (Option.map f) := by
  cases result <;> rfl

theorem loadLoop_scans (array : Nat → Inst) (left i : Nat) (opcode buf text : List Char) :
    (loadLoop array left i opcode buf text).map (Option.map Subtype.val) =
      (scanInsts left opcode buf text).map (Option.map (fillArray array i)) := by
  induction left generalizing i opcode buf text with
  | zero => rfl
  | succ left ih =>
    rw [loadLoop, scanInsts]
    cases scanOpcode opcode text with
    | error fault => rfl
    | ok found =>
      obtain ⟨opcode, text⟩ := found
      dsimp only [Outcome.bind_ok]
      cases getOpcode (cString opcode) with
      | none => rfl
      | some op =>
        dsimp only
        generalize scanOperands op buf text = found
        obtain ⟨operands, buf, text⟩ := found
        let ins : ScannedInst := { opcode := op, operands }
        have rest := congrArg (Except.map (Option.map (ins.stored (array i) :: ·))) (ih (i + 1) opcode buf text)
        rw [map_scanned, map_scanned] at rest
        rw [bind_scanned, bind_scanned, map_scanned, map_scanned]
        exact rest

/-- The calls of a loaded program are those of the scanned instructions over the array. -/
theorem load_scans (memory : LoadMemory) (file : List Char) :
    (Program.load memory file).map (Option.map Program.calls) =
      (scanFile memory file).map (Option.map fun scanned => (fillArray memory.text 0 scanned).map Inst.call) := by
  rw [Program.load, scanFile]
  obtain ⟨priority, size, text⟩ := scanHeader memory file
  dsimp only
  have loaded := congrArg (Except.map (Option.map (List.map Inst.call)))
    (loadLoop_scans memory.text size.toNat 0 memory.opcode memory.buf text)
  rw [map_scanned, map_scanned] at loaded
  rw [bind_scanned, map_scanned]
  exact loaded

section Operands
variable {f : Addr → β} {operands : List Addr} {i : Nat}

/-- An operand that the file gives does not depend on the array. -/
theorem getD_given (given : i < operands.length) (first second : Addr) :
    operands[i]?.getD first = operands[i]?.getD second := by
  rw [List.getElem?_eq_getElem given]
  rfl

/-- An operand that the file does not give is the one of the array. -/
theorem given_of_agree {first second : Addr} (differ : f first ≠ f second)
    (agree : f (operands[i]?.getD first) = f (operands[i]?.getD second)) : i < operands.length := by
  by_contra missing
  rw [List.getElem?_eq_none (Nat.le_of_not_lt missing)] at agree
  exact differ agree

end Operands

/-- Every argument of the block is this number. -/
def Inst.filled (value : Addr) : Inst := { opcode := .calc, arg0 := value, arg1 := value, arg2 := value, arg3 := value }

/-- The call of an instruction comes from the file if the file gives all that `run` passes on. -/
theorem ScannedInst.call_stored (ins : ScannedInst) (enough : ins.opcode.passed ≤ ins.operands.length) (first second : Inst) :
    (ins.stored first).call = (ins.stored second).call := by
  obtain ⟨opcode, operands⟩ := ins
  have given {i : Nat} (inside : i < opcode.passed) := getD_given (Nat.lt_of_lt_of_le inside enough)
  cases opcode with
  | «calc» => rfl
  | alloc =>
    simp only [ScannedInst.stored, Inst.assign, Inst.call]
    rw [given (by decide) first.arg0 second.arg0, given (by decide) first.arg1 second.arg1]
  | free =>
    simp only [ScannedInst.stored, Inst.assign, Inst.call]
    rw [given (by decide) first.arg0 second.arg0]
  | read =>
    simp only [ScannedInst.stored, Inst.assign, Inst.call]
    rw [given (by decide) first.arg0 second.arg0, given (by decide) first.arg1 second.arg1]
  | write =>
    simp only [ScannedInst.stored, Inst.assign, Inst.call]
    rw [given (by decide) first.arg0 second.arg0, given (by decide) first.arg1 second.arg1, given (by decide) first.arg2 second.arg2]
  | syscall =>
    simp only [ScannedInst.stored, Inst.assign, Inst.call]
    rw [given (by decide) first.arg0 second.arg0, given (by decide) first.arg1 second.arg1,
      given (by decide) first.arg2 second.arg2, given (by decide) first.arg3 second.arg3]

/-- With fewer numbers the call is not the same over zeros and over ones. -/
theorem ScannedInst.enough_of_call (ins : ScannedInst)
    (same : (ins.stored (.filled 0)).call = (ins.stored (.filled (BitVec.allOnes 64))).call) :
    ins.opcode.passed ≤ ins.operands.length := by
  obtain ⟨opcode, operands⟩ := ins
  cases opcode with
  | «calc» => exact Nat.zero_le _
  | alloc =>
    simp only [ScannedInst.stored, Inst.assign, Inst.call, Inst.filled, Option.some.injEq, LibCall.liballoc.injEq] at same
    exact given_of_agree (by decide) same.2
  | free =>
    simp only [ScannedInst.stored, Inst.assign, Inst.call, Inst.filled, Option.some.injEq, LibCall.libfree.injEq] at same
    exact given_of_agree (by decide) same
  | read =>
    simp only [ScannedInst.stored, Inst.assign, Inst.call, Inst.filled, Option.some.injEq, LibCall.libread.injEq] at same
    exact given_of_agree (f := id) (by decide) same.2
  | write =>
    simp only [ScannedInst.stored, Inst.assign, Inst.call, Inst.filled, Option.some.injEq, LibCall.libwrite.injEq] at same
    exact given_of_agree (f := id) (by decide) same.2.2
  | syscall =>
    simp only [ScannedInst.stored, Inst.assign, Inst.call, Inst.filled, Option.some.injEq, LibCall.libsyscall.injEq] at same
    exact given_of_agree (f := id) (by decide) same.2.2.2

theorem fillArray_constant (block : Inst) (i : Nat) (scanned : List ScannedInst) :
    fillArray (fun _ => block) i scanned = scanned.map (·.stored block) := by
  induction scanned generalizing i with
  | nil => rfl
  | cons ins rest ih => exact congrArg (ins.stored block :: ·) (ih (i + 1))

theorem fillArray_calls {scanned : List ScannedInst} (enough : ∀ ins ∈ scanned, ins.opcode.passed ≤ ins.operands.length)
    (first second : Nat → Inst) (i : Nat) :
    (fillArray first i scanned).map Inst.call = (fillArray second i scanned).map Inst.call := by
  induction scanned generalizing i with
  | nil => rfl
  | cons ins rest ih =>
    rw [List.forall_mem_cons] at enough
    rw [fillArray, fillArray, List.map_cons, List.map_cons, ins.call_stored enough.1 (first i) (second i), ih enough.2]

/-- The calls come from the file exactly if `load` refuses it, or finds for each instruction
the numbers that `run` passes on. -/
theorem dependsOnFileOnly_iff (memory : LoadMemory) (file : List Char) :
    DependsOnFileOnly memory file ↔
      ∀ scanned, scanFile memory file = .ok (some scanned) → ∀ ins ∈ scanned, ins.opcode.passed ≤ ins.operands.length := by
  have calls (array : Nat → Inst) : (Program.load { memory with text := array } file).map (Option.map Program.calls) =
      (scanFile memory file).map (Option.map fun scanned => (fillArray array 0 scanned).map Inst.call) := load_scans _ file
  constructor
  · intro same scanned found ins member
    have agree := same (fun _ => .filled 0) fun _ => .filled (BitVec.allOnes 64)
    rw [calls, calls, found] at agree
    replace agree := Option.some.inj (Except.ok.inj agree)
    dsimp only at agree
    rw [fillArray_constant, fillArray_constant, List.map_map, List.map_map, List.map_inj_left] at agree
    exact ins.enough_of_call (agree ins member)
  · intro enough first second
    rw [calls, calls]
    cases found : scanFile memory file with
    | error fault => rfl
    | ok result =>
      cases result with
      | none => rfl
      | some scanned =>
        have same := fillArray_calls (enough scanned found) first second 0
        exact congrArg (fun calls => Except.ok (some calls)) same

end LamiaAtrium
