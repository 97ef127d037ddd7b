import LamiaAtrium.Scanf
import LamiaAtrium.System

/-! `read_config` of `os.c`, and what `main` makes of the file it accepted. -/

namespace LamiaAtrium

/-- An entry of `ld_processes`. -/
structure ProcessLine where
  startTime : BitVec 64
  path : List Char
  prio : BitVec 64
  deriving DecidableEq, Repr

structure ConfigFile where
  timeSlot : CInt
  numCpus : CInt
  numProcesses : CInt
  memramsz : CInt
  memswpsz : List CInt
  ldProcesses : List ProcessLine
  ldProcesses_length : ldProcesses.length = rounds numProcesses

def pagingMaxMmswp : Nat := 4

/-- The memory line: a failed match is not looked at and leaves the 0 of the static variable. -/
def readSizes : Nat → List Char → List CInt × List Char
  | 0, text => ([], text)
  | left + 1, text =>
    let (size, text) := scanInt text
    let (sizes, text) := readSizes left text
    (size.getD 0 :: sizes, text)

def readProcessLine (text : List Char) : Option (ProcessLine × List Char) := do
  let (some startTime, text) := scanUnsignedLong text | none
  let (some pname, text) := scanWord 127 text | none
  let (some prio, text) := scanUnsignedLong text | none
  return ({ startTime, path := "input/proc/".toList ++ cString pname, prio }, text)

def readProcesses : (count : Nat) → List Char → Option { lines : List ProcessLine // lines.length = count }
  | 0, _ => some ⟨[], rfl⟩
  | count + 1, text => do
    let (line, text) ← readProcessLine text
    let lines ← readProcesses count text
    return ⟨line :: lines.val, congrArg (· + 1) lines.property⟩

/-- `none` is `exit(1)`. The paths under `input/sched` have no memory line. -/
def readConfig (path : List Char) (text : List Char) : Option ConfigFile := do
  let (some timeSlot, text) := scanInt text | none
  let (some numCpus, text) := scanInt text | none
  let (some numProcesses, text) := scanInt text | none
  let text := skipSpace text
  let isSched := "input/sched".toList.isPrefixOf path
  let (sizes, text) := if isSched then (List.replicate (1 + pagingMaxMmswp) 0, text) else readSizes (1 + pagingMaxMmswp) text
  -- `fgetc` eats one character behind the memory line
  let text := if isSched then text else text.tail
  let lines ← readProcesses (rounds numProcesses) text
  return {
    timeSlot, numCpus, numProcesses, memramsz := sizes.headD 0, memswpsz := sizes.tail, ldProcesses := lines.val,
    ldProcesses_length := lines.property }

/-- What the run depends on besides the configuration: the program files, the devices as
`init_memphy` left them, the address of `os`, and uninitialised memory. -/
structure Setting where
  load : List Char → Program
  mram : Memphy
  activeMswp : Memphy
  os : Addr
  uninit : Byte
  heap : Nat → Option (List VmRg)

def ConfigFile.config (file : ConfigFile) (setting : Setting) : Config where
  timeSlot := file.timeSlot.toInt
  numCpus := rounds file.numCpus
  processes := file.ldProcesses.map fun line => { program := setting.load line.path, prio := line.prio }
  processes_lt := by
    rw [List.length_map, file.ldProcesses_length, rounds]
    have bound := @BitVec.toInt_lt 32 file.numProcesses
    omega
  mram := setting.mram
  activeMswp := setting.activeMswp
  os := setting.os
  uninit := setting.uninit
  heap := setting.heap

end LamiaAtrium
