import Mathlib.Data.List.Basic
import LamiaAtrium.Proofs.ProcessFiles

/-! What the process files mean, and that the format leaves nothing out: every program has a
file, and `load` gives the program of the file back, whatever memory it finds. -/

namespace LamiaAtrium

/-- The call that a line describes. The destination of READ is scanned but not passed on, and
numbers behind the four of a SYSCALL are dropped. -/
def SourceLine.call (line : SourceLine) : Option LibCall :=
  match line.opcode, operandValues line.operands with
  | .alloc, [size, reg] => some (.liballoc size (addrToInt reg))
  | .free, [reg] => some (.libfree (addrToInt reg))
  | .read, [source, offset, _] => some (.libread (addrToInt source) offset)
  | .write, [data, destination, offset] => some (.libwrite (data.setWidth 8) (addrToInt destination) offset)
  | .syscall, nr :: a1 :: a2 :: a3 :: _ => some (.libsyscall (addrToInt nr) a1 a2 a3)
  | _, _ => none

/-- The SYSCALL lines that are loaded give all four numbers. -/
def ProcessFile.Full (file : ProcessFile) : Prop := ∀ line ∈ file.loaded, line.opcode = .syscall → 4 ≤ line.operands.length

section Printing

/-- The digits that `printf` writes. -/
def Numeral.ofNat (n : Nat) : Numeral where
  sign := .absent
  digits := Nat.toDigits 10 n
  nonempty := Nat.toDigits_ne_nil
  valid _ inside := Nat.isDigit_of_mem_toDigits (by decide) (by decide) inside

theorem space_apart : [' '] ≠ [] := List.cons_ne_nil _ _

theorem space_blank : ∀ c ∈ [' '], isBlank c := List.all_eq_true.mp rfl

def Operand.ofNat (n : Nat) : Operand where
  gap := [' ']
  number := .ofNat n
  apart := space_apart
  blank := space_blank

/-- The numbers on the line of an instruction. -/
def Inst.operands (ins : Inst) : List Addr :=
  match ins.opcode with
  | .calc => []
  | .alloc => [ins.arg0, ins.arg1]
  | .free => [ins.arg0]
  | .read | .write => [ins.arg0, ins.arg1, ins.arg2]
  | .syscall => [ins.arg0, ins.arg1, ins.arg2, ins.arg3]

def printOperands (values : List Addr) : List Operand := values.map fun value => .ofNat value.toNat

@[simp] theorem decimal_toDigits (n : Nat) : decimal (Nat.toDigits 10 n) = n := Nat.ofDigitChars_ten_toDigits

theorem Numeral.ofNat_value (n : Nat) (fits : n < 2 ^ 64) : (Numeral.ofNat n).value = BitVec.ofNat 64 n := by
  have int : (Numeral.ofNat n).int = n := by
    have unsigned : (Numeral.ofNat n).sign ≠ .minus := show Sign.absent ≠ .minus by decide
    rw [Numeral.int, if_neg unsigned]
    exact congrArg Int.ofNat (decimal_toDigits n)
  rw [Numeral.value, int, strtoul, Int.natAbs_natCast, if_pos fits, BitVec.ofInt_natCast]

theorem operandValues_print (values : List Addr) : operandValues (printOperands values) = values := by
  rw [operandValues, printOperands, List.map_map]
  apply (List.map_congr_left _).trans values.map_id
  intro value _
  exact (Numeral.ofNat_value _ value.isLt).trans (BitVec.ofNat_toNat 64 value |>.trans value.setWidth_eq)

/-- A number of 64 bits takes a blank and at most twenty digits. -/
theorem operandsText_print_length (values : List Addr) : (operandsText (printOperands values)).length ≤ 21 * values.length := by
  induction values with
  | nil => exact Nat.le_refl 0
  | cons value values ih =>
    have digits : (Nat.toDigits 10 value.toNat).length ≤ 20 := by
      rw [Nat.length_toDigits_le_iff (by decide) (by decide)]
      have := value.isLt
      omega
    have head : ((Operand.ofNat value.toNat).gap ++ (Operand.ofNat value.toNat).number.text).length = 1 + (Nat.toDigits 10 value.toNat).length :=
      List.length_append
    rw [printOperands, List.map_cons, operandsText, List.flatMap_cons, List.length_append, head, List.length_cons]
    rw [printOperands, operandsText] at ih
    omega

private theorem Inst.takes_operands (ins : Inst) : ins.opcode.Takes (printOperands ins.operands) := by
  cases opcode : ins.opcode with
  | syscall =>
    have short := operandsText_print_length ins.operands
    simp only [Inst.operands, opcode] at short ⊢
    exact ⟨List.cons_ne_nil _ _, Nat.lt_of_le_of_lt short (show 21 * 4 < 200 by decide)⟩
  | _ => simp only [Inst.operands, opcode, printOperands, Opcode.Takes, List.map_cons, List.map_nil, List.length_cons, List.length_nil]

private theorem newline_space : ∀ c ∈ ['\n'], isSpace c := List.all_eq_true.mp rfl

def Inst.line (ins : Inst) : SourceLine where
  opcode := ins.opcode
  operands := printOperands ins.operands
  after := ['\n']
  takes := ins.takes_operands
  blank := newline_space

theorem Numeral.ofNat_unsigned (n : Nat) (fits : n < 2 ^ 32) : ((Numeral.ofNat n).value.setWidth 32).toNat = n := by
  rw [Numeral.ofNat_value n (Nat.lt_trans fits (by decide)), BitVec.toNat_setWidth, BitVec.toNat_ofNat,
    Nat.mod_eq_of_lt (Nat.lt_trans fits (by decide)), Nat.mod_eq_of_lt fits]

namespace Program
variable (program : Program)

private theorem headed_lines : program.text.map Inst.line ≠ [] → '\n' ∈ ['\n'] := fun _ => List.mem_singleton_self _

private theorem separated_lines : Separated (program.text.map Inst.line) := by
  apply List.pairwise_map.mpr
  exact List.Pairwise.imp (fun _ => List.mem_singleton_self _) (List.pairwise_of_forall fun _ _ => trivial)

private theorem complete_lines :
    ((Operand.ofNat program.text.length).number.value.setWidth 32).toNat ≤ (program.text.map Inst.line).length := by
  rw [List.length_map]
  exact Nat.le_of_eq (Numeral.ofNat_unsigned _ program.size_lt)

/-- The process file of a program. -/
def file : ProcessFile where
  priority := .ofNat program.priority.toNat
  size := .ofNat program.text.length
  after := ['\n']
  lines := program.text.map Inst.line
  blank := newline_space
  headed := program.headed_lines
  separated := program.separated_lines
  complete := program.complete_lines

end Program

end Printing

section Loading
variable {memory : LoadMemory} {text : List Char} {scanned : List ScannedInst}

/-- What the scan found is stored to the array, behind the priority of the header. -/
theorem load_stored (found : scanFile memory text = .ok (some scanned)) : ∃ program, Program.load memory text = .ok (some program) ∧
    program.priority = (scanHeader memory text).1 ∧ program.text = fillArray memory.text 0 scanned := by
  rw [scanFile] at found
  rw [Program.load]
  generalize scanHeader memory text = header at found ⊢
  obtain ⟨priority, size, rest⟩ := header
  dsimp only at found ⊢
  have filled := loadLoop_scans memory.text size.toNat 0 memory.opcode memory.buf rest
  rw [found] at filled
  cases loaded : loadLoop memory.text size.toNat 0 memory.opcode memory.buf rest with
  | error fault =>
    rw [loaded] at filled
    cases filled
  | ok insts =>
    rw [loaded] at filled
    cases insts with
    | none => cases filled
    | some insts =>
      have same := Option.some.inj (Except.ok.inj filled)
      exact ⟨_, rfl, rfl, same⟩

/-- Over any block of memory the line leaves the call that it describes. -/
theorem SourceLine.call_stored (line : SourceLine) (full : line.opcode = .syscall → 4 ≤ line.operands.length) (block : Inst) :
    (line.scanned.stored block).call = line.call := by
  obtain ⟨opcode, operands, after, takes, blank⟩ := line
  cases opcode with
  | «calc» => rfl
  | free =>
    obtain ⟨first, rfl⟩ := List.length_eq_one_iff.mp takes
    rfl
  | alloc =>
    obtain ⟨first, second, rfl⟩ := List.length_eq_two.mp takes
    rfl
  | read | write =>
    obtain ⟨first, second, third, rfl⟩ := List.length_eq_three.mp takes
    rfl
  | syscall =>
    have enough : 4 ≤ operands.length := full rfl
    clear full
    match operands, takes, enough with
    | _ :: _ :: _ :: _ :: _, _, _ => rfl

theorem fillArray_lines {lines : List SourceLine} (full : ∀ line ∈ lines, line.opcode = .syscall → 4 ≤ line.operands.length)
    (array : Nat → Inst) (i : Nat) : (fillArray array i (lines.map SourceLine.scanned)).map Inst.call = lines.map SourceLine.call := by
  induction lines generalizing i with
  | nil => rfl
  | cons line lines ih =>
    rw [List.forall_mem_cons] at full
    rw [List.map_cons, fillArray, List.map_cons, line.call_stored full.1, ih full.2, List.map_cons]

/-- The file means its header and its lines. -/
theorem ProcessFile.load_text (memory : LoadMemory) (file : ProcessFile) (full : file.Full) : ∃ program,
    Program.load memory file.text = .ok (some program) ∧ program.priority = file.priority.value.setWidth 32 ∧
    program.calls = file.loaded.map SourceLine.call := by
  obtain ⟨program, loaded, priority, text⟩ := load_stored (file.scanFile_text memory)
  refine ⟨program, loaded, ?_, ?_⟩
  · rw [priority, file.scanHeader_text]
  · rw [Program.calls, text]
    exact fillArray_lines full memory.text 0

end Loading

namespace Program
variable (program : Program)

theorem file_loaded : program.file.loaded = program.text.map Inst.line := by
  have whole : program.file.lines.length = (program.file.size.number.value.setWidth 32).toNat := by
    rw [file, List.length_map]
    exact (Numeral.ofNat_unsigned _ program.size_lt).symm
  rw [ProcessFile.loaded, ← whole, List.take_length]
  rfl

theorem file_full : program.file.Full := by
  intro line member called
  rw [file_loaded] at member
  obtain ⟨ins, _, rfl⟩ := List.mem_map.mp member
  have opcode : ins.opcode = .syscall := called
  simp only [Inst.line, Inst.operands, opcode, printOperands, List.map_cons, List.map_nil, List.length_cons, List.length_nil, Nat.le_refl]

end Program

section RoundTrip

/-- The scan takes the whole line of an instruction. -/
theorem Inst.line_scanned (ins : Inst) : ins.line.scanned = { opcode := ins.opcode, operands := ins.operands } := by
  have whole : ins.operands.length ≤ 4 := by
    cases opcode : ins.opcode <;> simp [Inst.operands, opcode]
  rw [SourceLine.scanned, Inst.line, operandValues_print, List.take_of_length_le whole]

/-- What `load` stores for the line is the same call and prints as the same line, over any block. -/
theorem Inst.line_stored (ins block : Inst) :
    (ins.line.scanned.stored block).call = ins.call ∧ (ins.line.scanned.stored block).line.text = ins.line.text := by
  rw [line_scanned]
  obtain ⟨opcode, _, _, _, _⟩ := ins
  cases opcode <;> exact ⟨rfl, rfl⟩

theorem fillArray_map {f : Inst → β} (same : ∀ ins block, f (ins.line.scanned.stored block) = f ins) (array : Nat → Inst) (i : Nat)
    (text : List Inst) : (fillArray array i (text.map (·.line.scanned))).map f = text.map f := by
  induction text generalizing i with
  | nil => rfl
  | cons ins text ih => rw [List.map_cons, fillArray, List.map_cons, same, ih, List.map_cons]

/-- A process file means its header and the calls of its lines, if each SYSCALL that is loaded
gives all four numbers. Every program has such a file: it loads to a program with the same
calls and the same file. -/
theorem process_file_round_trip (memory : LoadMemory) :
    (∀ file : ProcessFile, file.Full → ∃ program, Program.load memory file.text = .ok (some program) ∧
      program.priority = file.priority.value.setWidth 32 ∧ program.calls = file.loaded.map SourceLine.call) ∧
    ∀ program : Program, program.file.Full ∧ ∃ loaded, Program.load memory program.file.text = .ok (some loaded) ∧
      loaded.priority = program.priority ∧ loaded.calls = program.calls ∧ loaded.file.text = program.file.text := by
  refine ⟨fun file full => file.load_text memory full, fun program => ⟨program.file_full, ?_⟩⟩
  obtain ⟨loaded, found, priority, text⟩ := load_stored (program.file.scanFile_text memory)
  rw [program.file_loaded, List.map_map] at text
  have kept : loaded.priority = program.priority := by
    rw [priority, program.file.scanHeader_text]
    exact BitVec.eq_of_toNat_eq (Numeral.ofNat_unsigned _ program.priority.isLt)
  have calls : loaded.calls = program.calls := by
    rw [Program.calls, text]
    exact fillArray_map (fun ins block => (ins.line_stored block).1) memory.text 0 program.text
  have lines : loaded.text.map (·.line.text) = program.text.map (·.line.text) := by
    rw [text]
    exact fillArray_map (fun ins block => (ins.line_stored block).2) memory.text 0 program.text
  have length := congrArg List.length lines
  rw [List.length_map, List.length_map] at length
  refine ⟨loaded, found, kept, calls, ?_⟩
  simp only [ProcessFile.text, Program.file, linesText, List.flatMap, List.map_map, Function.comp_def, kept, lines, length]

/-- The shipped `input/proc/m0s`. -/
def m0s : Program where
  priority := 1
  text := [
    { opcode := .alloc, arg0 := 300, arg1 := 0, arg2 := 0, arg3 := 0 },
    { opcode := .alloc, arg0 := 100, arg1 := 1, arg2 := 0, arg3 := 0 },
    { opcode := .free, arg0 := 0, arg1 := 0, arg2 := 0, arg3 := 0 },
    { opcode := .alloc, arg0 := 100, arg1 := 2, arg2 := 0, arg3 := 0 },
    { opcode := .write, arg0 := 102, arg1 := 1, arg2 := 20, arg3 := 0 },
    { opcode := .write, arg0 := 1, arg1 := 2, arg2 := 1000, arg3 := 0 }]
  size_lt := by decide

theorem process_file_round_trip_m0s :
    m0s.file.text = "1 6\nalloc 300 0\nalloc 100 1\nfree 0\nalloc 100 2\nwrite 102 1 20\nwrite 1 2 1000\n".toList ∧
    ∃ program, Program.load (.filled 57005) m0s.file.text = .ok (some program) ∧ program.priority = 1 ∧
      program.calls = [some (.liballoc 300 0), some (.liballoc 100 1), some (.libfree 0), some (.liballoc 100 2),
        some (.libwrite 102 1 20), some (.libwrite 1 2 1000)] := by
  obtain ⟨means, prints⟩ := process_file_round_trip (.filled 57005)
  obtain ⟨program, loaded, priority, calls⟩ := means m0s.file (prints m0s).1
  exact ⟨rfl, program, loaded, priority, calls⟩

end RoundTrip
end LamiaAtrium
