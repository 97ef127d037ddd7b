import LamiaAtrium.Cpu
import LamiaAtrium.Scanf

/-! `load` of `loader.c` on the text of the process file, and the calls that `run` makes for
what it loaded. -/

namespace LamiaAtrium

/-- `%u`: an `unsigned long` stored to an `unsigned int`. -/
def scanUnsigned (text : List Char) : Option (BitVec 32) × List Char :=
  let (value, rest) := scanUnsignedLong text
  (value.map (BitVec.setWidth 32), rest)

/-- So many conversions `%lu`; the first one that fails is the last. -/
def scanArgs : Nat → List Char → List Addr × List Char
  | 0, text => ([], text)
  | left + 1, text =>
    match scanUnsignedLong text with
    | (none, text) => ([], text)
    | (some value, text) =>
      let (values, text) := scanArgs left text
      (value :: values, text)

/-- The rest of the line, with its newline if there is one. -/
def lineOf : List Char → List Char
  | [] => []
  | c :: rest => if c = '\n' then [c] else c :: lineOf rest

/-- `fgets` into a buffer of this size; `none` at the end of the file, where it stores nothing. -/
def fgets (size : Nat) (text : List Char) : Option (List Char × List Char) :=
  match (lineOf text).take (size - 1) with
  | [] => none
  | line => some (line, text.drop line.length)

/-- `get_opcode`; `none` is `exit(1)`. -/
def getOpcode (opt : List Char) : Option Opcode :=
  if opt = "calc".toList then some .calc
  else if opt = "alloc".toList then some .alloc
  else if opt = "free".toList then some .free
  else if opt = "read".toList then some .read
  else if opt = "write".toList then some .write
  else if opt = "syscall".toList then some .syscall
  else none

/-- The fields that got a number, from `arg_0` on; the others keep what they held. -/
def Inst.assign (ins : Inst) (values : List Addr) : Inst :=
  { ins with
    arg0 := values[0]?.getD ins.arg0
    arg1 := values[1]?.getD ins.arg1
    arg2 := values[2]?.getD ins.arg2
    arg3 := values[3]?.getD ins.arg3 }

/-- What `load` finds in the memory that it uses: the blocks from `malloc`, and `opcode` and `buf`
on its stack. The opcode of an instruction is always written. -/
structure LoadMemory where
  priority : BitVec 32
  size : BitVec 32
  text : Nat → Inst
  opcode : List Char
  buf : List Char

/-- The `fscanf` of a format with `count` operands. A trailing newline in it skips white space. -/
def scanLine (count : Nat) (text : List Char) : List Addr × List Char :=
  let (values, text) := scanArgs count text
  (values, if values.length = count then skipSpace text else text)

/-- The switch of `load`: the numbers it assigns, the content of `buf`, and the text behind. -/
def scanOperands (opcode : Opcode) (buf text : List Char) : List Addr × List Char × List Char :=
  match opcode with
  | .calc => ([], buf, text)
  | .alloc =>
    let (values, text) := scanLine 2 text
    (values, buf, text)
  | .free =>
    let (values, text) := scanLine 1 text
    (values, buf, text)
  | .read | .write =>
    let (values, text) := scanLine 3 text
    (values, buf, text)
  | .syscall =>
    let (buf, text) := (fgets 200 text).getD (buf, text)
    ((scanArgs 4 (cString buf)).1, buf, text)

/-- `fscanf(file, "%s", opcode)` into ten bytes. At the end of the file the last word stays. -/
def scanOpcode (opcode text : List Char) : Outcome (List Char × List Char) :=
  match scanWord text.length text with
  | (none, text) => .ok (opcode, text)
  | (some word, text) => if word.length < 10 then .ok (word, text) else .error .outOfBounds

/-- The loop of `load` from instruction `i` on; `none` is `exit(1)`. -/
def loadLoop (memory : Nat → Inst) : (left i : Nat) → (opcode buf text : List Char) →
    Outcome (Option { insts : List Inst // insts.length = left })
  | 0, _, _, _, _ => .ok (some ⟨[], rfl⟩)
  | left + 1, i, opcode, buf, text => do
    let (opcode, text) ← scanOpcode opcode text
    match getOpcode (cString opcode) with
    | none => return none
    | some op =>
      let (values, buf, text) := scanOperands op buf text
      let insts ← loadLoop memory left (i + 1) opcode buf text
      return insts.map fun insts =>
        ⟨{ memory i with opcode := op }.assign values :: insts.val, congrArg (· + 1) insts.property⟩

/-- The first line of the file: the priority and the number of instructions. -/
def scanHeader (memory : LoadMemory) (file : List Char) : BitVec 32 × BitVec 32 × List Char :=
  match scanUnsigned file with
  | (none, text) => (memory.priority, memory.size, text)
  | (some priority, text) =>
    let (size, text) := scanUnsigned text
    (priority, size.getD memory.size, text)

def Program.load (memory : LoadMemory) (file : List Char) : Outcome (Option Program) := do
  let (priority, size, text) := scanHeader memory file
  let insts ← loadLoop memory.text size.toNat 0 memory.opcode memory.buf text
  return insts.map fun insts =>
    { priority, text := insts.val, size_lt := lt_of_eq_of_lt insts.property size.isLt }

/-- A call that `run` makes to the memory library. The destination of `libread` is always the
local copy of the instruction. -/
inductive LibCall where
  | liballoc (size : Addr) (regIndex : CInt)
  | libfree (regIndex : CInt)
  | libread (source : CInt) (offset : Addr)
  | libwrite (data : Byte) (destination : CInt) (offset : Addr)
  | libsyscall (syscallIdx : CInt) (a1 a2 a3 : Addr)
  deriving DecidableEq, Repr

def Inst.call (ins : Inst) : Option LibCall :=
  match ins.opcode with
  | .calc => none
  | .alloc => some (.liballoc ins.arg0 (addrToInt ins.arg1))
  | .free => some (.libfree (addrToInt ins.arg0))
  | .read => some (.libread (addrToInt ins.arg0) ins.arg1)
  | .write => some (.libwrite (ins.arg0.setWidth 8) (addrToInt ins.arg1) ins.arg2)
  | .syscall => some (.libsyscall (addrToInt ins.arg0) ins.arg1 ins.arg2 ins.arg3)

/-- The calls of the program, in the order in which `run` makes them. -/
def Program.calls (program : Program) : List (Option LibCall) := program.text.map Inst.call

section Calls
variable {Proc : Type} [DecidableEq Proc]

def performCall (env : Env Proc) (k : Krnl Proc) (proc : Proc) : LibCall → Outcome (Int × Krnl Proc)
  | .liballoc size regIndex => liballoc env k proc size regIndex
  | .libfree regIndex => libfree k proc regIndex
  | .libread source offset => (libread env k proc source offset).map fun (stat, _, k) => (stat, k)
  | .libwrite data destination offset => libwrite env k proc data destination offset
  | .libsyscall syscallIdx a1 a2 a3 => libsyscall env k proc syscallIdx a1 a2 a3

end Calls
end LamiaAtrium
