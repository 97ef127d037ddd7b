import Mathlib.Data.List.TakeWhile
import LamiaAtrium.Proofs.LoadedProgram

/-! The process files that the loader is meant for: a header, and one line for each instruction.
The scan finds the numbers of each line, up to the four that a SYSCALL takes. -/

namespace LamiaAtrium

inductive Sign where
  | absent
  | plus
  | minus
  deriving DecidableEq, Repr

def Sign.text : Sign → List Char
  | absent => []
  | plus => ['+']
  | minus => ['-']

/-- A number as `%lu` takes it. -/
structure Numeral where
  sign : Sign
  digits : List Char
  nonempty : digits ≠ []
  valid : ∀ c ∈ digits, c.isDigit

def Numeral.text (number : Numeral) : List Char := number.sign.text ++ number.digits

def Numeral.int (number : Numeral) : Int := if number.sign = .minus then -decimal number.digits else decimal number.digits

def Numeral.value (number : Numeral) : Addr := strtoul number.int

/-- White space within a line. -/
def isBlank (c : Char) : Bool := isSpace c && c != '\n'

/-- A number and the blanks before it. -/
structure Operand where
  gap : List Char
  number : Numeral
  apart : gap ≠ []
  blank : ∀ c ∈ gap, isBlank c

def operandsText (operands : List Operand) : List Char := operands.flatMap fun operand => operand.gap ++ operand.number.text

def operandValues (operands : List Operand) : List Addr := operands.map (·.number.value)

def Opcode.word : Opcode → List Char
  | .calc => "calc".toList
  | .alloc => "alloc".toList
  | .free => "free".toList
  | .read => "read".toList
  | .write => "write".toList
  | .syscall => "syscall".toList

/-- The operands in the form of each opcode: `alloc [size] [reg]`, `free [reg]`,
`read [source] [offset] [destination]`, `write [data] [destination] [offset]`, and
`syscall [number]` with up to three arguments, on a line that `buf` holds. -/
def Opcode.Takes (opcode : Opcode) (operands : List Operand) : Prop :=
  match opcode with
  | .calc => operands = []
  | .alloc => operands.length = 2
  | .free => operands.length = 1
  | .read | .write => operands.length = 3
  | .syscall => operands ≠ [] ∧ (operandsText operands).length < 200

structure SourceLine where
  opcode : Opcode
  operands : List Operand
  after : List Char
  takes : opcode.Takes operands
  blank : ∀ c ∈ after, isSpace c

def SourceLine.text (line : SourceLine) : List Char := line.opcode.word ++ (operandsText line.operands ++ line.after)

def linesText (lines : List SourceLine) : List Char := lines.flatMap SourceLine.text

/-- Every line with another one behind it ends in a newline. -/
def Separated (lines : List SourceLine) : Prop := lines.Pairwise fun line _ => '\n' ∈ line.after

/-- The header gives the priority and the number of instructions, and there are that many lines. -/
structure ProcessFile where
  priority : Numeral
  size : Operand
  after : List Char
  lines : List SourceLine
  blank : ∀ c ∈ after, isSpace c
  headed : lines ≠ [] → '\n' ∈ after
  separated : Separated lines
  complete : (size.number.value.setWidth 32).toNat ≤ lines.length

namespace ProcessFile

def text (file : ProcessFile) : List Char :=
  file.priority.text ++ (file.size.gap ++ (file.size.number.text ++ (file.after ++ linesText file.lines)))

/-- The lines that `load` reads. -/
def loaded (file : ProcessFile) : List SourceLine := file.lines.take (file.size.number.value.setWidth 32).toNat

end ProcessFile

/-- What the scan takes from a line. -/
def SourceLine.scanned (line : SourceLine) : ScannedInst := { opcode := line.opcode, operands := (operandValues line.operands).take 4 }

theorem isDigit_iff {c : Char} : c.isDigit ↔ 48 ≤ c.toNat ∧ c.toNat ≤ 57 := by
  rw [Char.isDigit, Bool.and_eq_true, decide_eq_true_iff, decide_eq_true_iff]
  exact Iff.rfl

theorem isSpace_iff {c : Char} : isSpace c ↔ c.toNat = 32 ∨ 9 ≤ c.toNat ∧ c.toNat ≤ 13 := by
  rw [isSpace, Bool.or_eq_true, Bool.and_eq_true, beq_iff_eq, decide_eq_true_iff, decide_eq_true_iff, ← Char.toNat_inj]
  exact Iff.rfl

theorem not_isSpace_of_isDigit {c : Char} (digit : c.isDigit) : isSpace c = false := by
  rw [← Bool.not_eq_true, isSpace_iff]
  rw [isDigit_iff] at digit
  omega

theorem Operand.space (operand : Operand) : ∀ c ∈ operand.gap, isSpace c :=
  fun c inside => (Bool.and_eq_true_iff.mp (operand.blank c inside)).1

/-- A text that ends the number or the word before it. -/
def Parted (text : List Char) : Prop := ∀ c ∈ text.head?, isSpace c

/-- A text that is not skipped. -/
def Solid (text : List Char) : Prop := ∀ c ∈ text.head?, isSpace c = false

theorem Parted.of_gap {gap text : List Char} (nonempty : gap ≠ []) (blank : ∀ c ∈ gap, isSpace c) : Parted (gap ++ text) := by
  cases gap with
  | nil => exact absurd rfl nonempty
  | cons c gap =>
    intro d first
    cases first
    exact blank c List.mem_cons_self

theorem skipSpace_gap {gap text : List Char} (blank : ∀ c ∈ gap, isSpace c) (solid : Solid text) : skipSpace (gap ++ text) = text := by
  rw [skipSpace, List.dropWhile_append_of_pos blank]
  cases text with
  | nil => rfl
  | cons c text => exact List.dropWhile_cons_of_neg (Bool.eq_false_iff.mp (solid c rfl))

/-- A run of characters that none of the text behind belongs to. -/
theorem takeWhile_parted {p : Char → Bool} {word text : List Char} (inside : ∀ c ∈ word, p c) (outside : ∀ c ∈ text.head?, p c = false) :
    (word ++ text).takeWhile p = word ∧ (word ++ text).dropWhile p = text := by
  rw [List.takeWhile_append_of_pos inside, List.dropWhile_append_of_pos inside]
  cases text with
  | nil => exact ⟨List.append_nil word, rfl⟩
  | cons c text =>
    have stop := Bool.eq_false_iff.mp (outside c rfl)
    rw [List.takeWhile_cons_of_neg stop, List.dropWhile_cons_of_neg stop]
    exact ⟨List.append_nil word, rfl⟩

theorem scanSign_text (sign : Sign) {c : Char} (digit : c.isDigit) (text : List Char) :
    scanSign (sign.text ++ c :: text) = (decide (sign = .minus), c :: text) := by
  cases sign with
  | plus => rfl
  | minus => rfl
  | absent =>
    change scanSign (c :: text) = _
    unfold scanSign
    split
    · next same =>
      cases same
      cases digit
    · next same =>
      cases same
      cases digit
    · rfl

section Numbers
variable {rest : List Char}

theorem Numeral.solid (number : Numeral) : Solid (number.text ++ rest) := by
  obtain ⟨sign, digits, nonempty, valid⟩ := number
  intro c first
  cases sign with
  | plus =>
    cases first
    rfl
  | minus =>
    cases first
    rfl
  | absent =>
    cases digits with
    | nil => exact absurd rfl nonempty
    | cons d digits =>
      cases first
      exact not_isSpace_of_isDigit (valid c List.mem_cons_self)

theorem scanInteger_numeral (number : Numeral) {gap : List Char} (blank : ∀ c ∈ gap, isSpace c) (parted : Parted rest) :
    scanInteger (gap ++ (number.text ++ rest)) = (some number.int, rest) := by
  have solid : Solid (number.text ++ rest) := number.solid
  have stops (c : Char) (first : c ∈ rest.head?) : c.isDigit = false := by
    rw [← Bool.not_eq_true]
    intro digit
    have solid := not_isSpace_of_isDigit digit
    rw [parted c first] at solid
    cases solid
  have found := takeWhile_parted number.valid stops
  have signed : scanSign (number.text ++ rest) = (decide (number.sign = .minus), number.digits ++ rest) := by
    rw [Numeral.text, List.append_assoc]
    obtain ⟨d, digits, same⟩ := List.exists_cons_of_ne_nil number.nonempty
    rw [same]
    exact scanSign_text number.sign (number.valid d (same ▸ List.mem_cons_self)) _
  rw [scanInteger, skipSpace_gap blank solid, signed]
  dsimp only
  rw [found.1, found.2]
  split
  · next empty => exact absurd empty number.nonempty
  · simp only [decide_eq_true_eq, Numeral.int]

theorem scanUnsignedLong_numeral (number : Numeral) {gap : List Char} (blank : ∀ c ∈ gap, isSpace c) (parted : Parted rest) :
    scanUnsignedLong (gap ++ (number.text ++ rest)) = (some number.value, rest) := by
  rw [scanUnsignedLong, scanInteger_numeral number blank parted]
  rfl

theorem scanUnsigned_numeral (number : Numeral) {gap : List Char} (blank : ∀ c ∈ gap, isSpace c) (parted : Parted rest) :
    scanUnsigned (gap ++ (number.text ++ rest)) = (some (number.value.setWidth 32), rest) := by
  rw [scanUnsigned, scanUnsignedLong_numeral number blank parted]
  rfl

theorem operandsText_parted (operands : List Operand) (parted : Parted rest) : Parted (operandsText operands ++ rest) := by
  cases operands with
  | nil => exact parted
  | cons operand operands =>
    rw [operandsText, List.flatMap_cons, List.append_assoc, List.append_assoc]
    exact .of_gap operand.apart operand.space

/-- The conversions take the operands from left to right. -/
theorem scanArgs_operands (operands : List Operand) (left : Nat) (parted : Parted rest) :
    scanArgs (operands.length + left) (operandsText operands ++ rest) =
      (operandValues operands ++ (scanArgs left rest).1, (scanArgs left rest).2) := by
  induction operands with
  | nil =>
    rw [List.length_nil, Nat.zero_add]
    rfl
  | cons operand operands ih =>
    have scanned := scanUnsignedLong_numeral operand.number operand.space (operandsText_parted operands parted)
    rw [List.length_cons, Nat.succ_add, scanArgs, operandsText, List.flatMap_cons, List.append_assoc, List.append_assoc]
    rw [operandsText] at scanned ih
    rw [scanned]
    dsimp only
    rw [ih]
    rfl

theorem scanArgs_blank (count : Nat) (blank : ∀ c ∈ rest, isSpace c) : (scanArgs count rest).1 = [] := by
  cases count with
  | zero => rfl
  | succ count =>
    have skipped : skipSpace rest = [] := List.dropWhile_eq_nil_iff.mpr blank
    rw [scanArgs, scanUnsignedLong, scanInteger, skipped]
    rfl

/-- Of more operands than conversions the first ones are taken. -/
theorem scanArgs_take (operands : List Operand) (count : Nat) (blank : ∀ c ∈ rest, isSpace c) :
    (scanArgs count (operandsText operands ++ rest)).1 = (operandValues operands).take count := by
  have parted : Parted rest := fun c first => blank c (List.mem_of_mem_head? first)
  rcases Nat.le_total count operands.length with fewer | more
  · obtain ⟨taken, left, rfl, rfl⟩ : ∃ taken left, operands = taken ++ left ∧ taken.length = count :=
      ⟨_, _, (List.take_append_drop count operands).symm, List.length_take_of_le fewer⟩
    have scanned := scanArgs_operands taken 0 (operandsText_parted left parted)
    rw [Nat.add_zero] at scanned
    rw [operandsText, List.flatMap_append, List.append_assoc]
    rw [operandsText, operandsText] at scanned
    rw [scanned, operandValues, operandValues, List.map_append]
    exact (List.append_nil _).trans (List.take_left' (List.length_map _)).symm
  · obtain ⟨left, rfl⟩ := Nat.exists_eq_add_of_le more
    rw [scanArgs_operands operands left parted, scanArgs_blank left blank, List.append_nil, List.take_of_length_le]
    rw [operandValues, List.length_map]
    exact Nat.le_add_right ..

end Numbers

namespace Opcode

theorem word_solid (opcode : Opcode) : ∀ c ∈ opcode.word, !isSpace c := by
  cases opcode <;> exact List.all_eq_true.mp rfl

theorem getOpcode_word (opcode : Opcode) : getOpcode (cString opcode.word) = some opcode := by
  cases opcode <;> rfl

theorem word_fits (opcode : Opcode) : opcode.word ≠ [] ∧ opcode.word.length < 10 := by
  cases opcode <;> decide

theorem append_solid (opcode : Opcode) (rest : List Char) : Solid (opcode.word ++ rest) := by
  cases opcode <;>
  · intro c first
    cases first
    rfl

end Opcode

theorem scanOpcode_word (held : List Char) (opcode : Opcode) {gap rest : List Char} (blank : ∀ c ∈ gap, isSpace c) (parted : Parted rest) :
    scanOpcode held (gap ++ (opcode.word ++ rest)) = .ok (opcode.word, rest) := by
  have ends (c : Char) (first : c ∈ rest.head?) : (!isSpace c) = false := by rw [parted c first, Bool.not_true]
  have found := takeWhile_parted opcode.word_solid ends
  have scanned : scanWord (gap ++ (opcode.word ++ rest)).length (gap ++ (opcode.word ++ rest)) = (some opcode.word, rest) := by
    rw [scanWord, skipSpace_gap blank (opcode.append_solid rest), found.1, List.take_of_length_le]
    · split
      · next empty => exact absurd empty opcode.word_fits.1
      · rw [List.drop_left]
    · rw [List.length_append, List.length_append]
      omega
  rw [scanOpcode, scanned]
  exact if_pos opcode.word_fits.2

theorem lineOf_append {text rest : List Char} (inner : ∀ c ∈ text, c ≠ '\n') : lineOf (text ++ rest) = text ++ lineOf rest := by
  induction text with
  | nil => rfl
  | cons c text ih =>
    rw [List.forall_mem_cons] at inner
    rw [List.cons_append, lineOf, if_neg inner.1, ih inner.2]
    rfl

/-- The line that begins in the middle of this text ends in it, or with it. -/
theorem lineOf_prefix {after rest : List Char} (broken : rest = [] ∨ '\n' ∈ after) : ∃ more, after = lineOf (after ++ rest) ++ more := by
  induction after with
  | nil =>
    rcases broken with rfl | broken
    · exact ⟨[], rfl⟩
    · cases broken
  | cons c after ih =>
    rw [List.cons_append, lineOf]
    by_cases newline : c = '\n'
    · rw [if_pos newline]
      exact ⟨after, rfl⟩
    · rw [if_neg newline]
      obtain ⟨more, same⟩ := ih (broken.imp_right fun held => (List.mem_cons.mp held).resolve_left (Ne.symm newline))
      exact ⟨more, congrArg (c :: ·) same⟩

theorem Numeral.printed (number : Numeral) : ∀ c ∈ number.text, 43 ≤ c.toNat := by
  intro c inside
  rcases List.mem_append.mp inside with signed | digit
  · cases sign : number.sign with
    | absent =>
      rw [sign] at signed
      cases signed
    | plus =>
      rw [sign] at signed
      rw [List.mem_singleton.mp signed]
      decide
    | minus =>
      rw [sign] at signed
      rw [List.mem_singleton.mp signed]
      decide
  · have range := isDigit_iff.mp (number.valid c digit)
    omega

/-- Neither the line nor the string that `sscanf` reads ends in the operands. -/
theorem operandsText_inner (operands : List Operand) : ∀ c ∈ operandsText operands, c ≠ '\n' ∧ c.toNat ≠ 0 := by
  intro c inside
  obtain ⟨operand, _, inside⟩ := List.mem_flatMap.mp inside
  rcases List.mem_append.mp inside with gap | number
  · have range := isSpace_iff.mp (operand.space c gap)
    have within := (Bool.and_eq_true_iff.mp (operand.blank c gap)).2
    exact ⟨bne_iff_ne.mp within, by omega⟩
  · have printed := operand.number.printed c number
    constructor
    · rintro rfl
      revert printed
      decide
    · omega

theorem operandsText_ne_nil {operands : List Operand} (nonempty : operands ≠ []) : operandsText operands ≠ [] := by
  obtain ⟨operand, operands, rfl⟩ := List.exists_cons_of_ne_nil nonempty
  rw [operandsText, List.flatMap_cons, List.append_assoc]
  exact List.append_ne_nil_of_left_ne_nil operand.apart _

/-- `fgets` on the line of a SYSCALL gets all operands and a part of the blanks behind them. -/
theorem fgets_operands {operands : List Operand} (nonempty : operands ≠ []) (short : (operandsText operands).length < 200)
    {after rest : List Char} (broken : rest = [] ∨ '\n' ∈ after) : ∃ first more, after = first ++ more ∧
    fgets 200 (operandsText operands ++ (after ++ rest)) = some (operandsText operands ++ first, more ++ rest) := by
  obtain ⟨more, ends⟩ := lineOf_prefix broken
  generalize here : lineOf (after ++ rest) = line at ends
  let room := 199 - (operandsText operands).length
  have split : after = line.take room ++ (line.drop room ++ more) := by rw [← List.append_assoc, List.take_append_drop, ends]
  refine ⟨line.take room, line.drop room ++ more, split, ?_⟩
  have taken : (lineOf (operandsText operands ++ (after ++ rest))).take (200 - 1) = operandsText operands ++ line.take room := by
    rw [lineOf_append fun c inside => (operandsText_inner operands c inside).1, here, List.take_append,
      List.take_of_length_le (Nat.le_of_lt_succ short)]
  have behind : operandsText operands ++ (after ++ rest) =
      operandsText operands ++ line.take room ++ (line.drop room ++ more ++ rest) := by
    rw [List.append_assoc, ← List.append_assoc (line.take room), ← split]
  rw [fgets, taken]
  split
  · next empty => exact absurd (List.append_eq_nil_iff.mp empty).1 (operandsText_ne_nil nonempty)
  · rw [behind, List.drop_left]

theorem scanLine_operands (operands : List Operand) {after rest : List Char} (blank : ∀ c ∈ after, isSpace c) (solid : Solid rest)
    (parted : Parted (after ++ rest)) : scanLine operands.length (operandsText operands ++ (after ++ rest)) = (operandValues operands, rest) := by
  have scanned := scanArgs_operands operands 0 parted
  rw [Nat.add_zero, scanArgs, List.append_nil] at scanned
  rw [scanLine, scanned]
  dsimp only
  rw [operandValues, List.length_map, if_pos rfl, skipSpace_gap blank solid]

namespace SourceLine

theorem after_parted (line : SourceLine) {rest : List Char} (broken : rest = [] ∨ '\n' ∈ line.after) : Parted (line.after ++ rest) := by
  rcases broken with rfl | broken
  · rw [List.append_nil]
    exact fun c first => line.blank c (List.mem_of_mem_head? first)
  · exact .of_gap (List.ne_nil_of_mem broken) line.blank

/-- The lines of ALLOC, FREE, READ and WRITE give as many operands as their formats have. -/
theorem scanLine_line (line : SourceLine) {count : Nat} (given : line.operands.length = count) (few : count ≤ 4) {rest : List Char}
    (solid : Solid rest) (broken : rest = [] ∨ '\n' ∈ line.after) :
    scanLine count (operandsText line.operands ++ (line.after ++ rest)) = (line.scanned.operands, rest) := by
  have scanned := scanLine_operands line.operands line.blank solid (line.after_parted broken)
  have whole : (operandValues line.operands).take 4 = operandValues line.operands := by
    apply List.take_of_length_le
    rw [operandValues, List.length_map, given]
    exact few
  rw [given] at scanned
  rw [scanned, SourceLine.scanned, whole]

/-- The scan of a line takes its operands, of a SYSCALL at most four, and leaves blanks before the
next line. -/
theorem scanOperands_line (line : SourceLine) (buf : List Char) {rest : List Char} (solid : Solid rest)
    (broken : rest = [] ∨ '\n' ∈ line.after) : ∃ buf' gap, (∀ c ∈ gap, isSpace c) ∧
    scanOperands line.opcode buf (operandsText line.operands ++ (line.after ++ rest)) = (line.scanned.operands, buf', gap ++ rest) := by
  have takes := line.takes
  cases opcode : line.opcode with
  | «calc» =>
    rw [opcode] at takes
    refine ⟨buf, line.after, line.blank, ?_⟩
    rw [scanned, show line.operands = [] from takes]
    rfl
  | alloc | free | read | write =>
    rw [opcode] at takes
    refine ⟨buf, [], fun c inside => (List.not_mem_nil inside).elim, ?_⟩
    rw [scanOperands, line.scanLine_line takes (by decide) solid broken]
    rfl
  | syscall =>
    rw [opcode] at takes
    obtain ⟨first, more, split, got⟩ := fgets_operands takes.1 takes.2 broken
    have blank := line.blank
    rw [split, List.forall_mem_append] at blank
    refine ⟨operandsText line.operands ++ first, more, blank.2, ?_⟩
    -- no NUL ends the string before the blanks end the line
    have string : cString (operandsText line.operands ++ first) = operandsText line.operands ++ first := by
      apply List.takeWhile_eq_self_iff.mpr
      intro c inside
      rw [decide_eq_true_iff]
      rcases List.mem_append.mp inside with operand | space
      · exact (operandsText_inner _ c operand).2
      · have range := isSpace_iff.mp (blank.1 c space)
        omega
    rw [scanOperands, got]
    dsimp only [Option.getD_some]
    rw [string, scanArgs_take _ _ blank.1]
    rfl

end SourceLine

theorem linesText_solid (lines : List SourceLine) : Solid (linesText lines) := by
  cases lines with
  | nil =>
    intro c first
    cases first
  | cons line lines =>
    rw [linesText, List.flatMap_cons, SourceLine.text, List.append_assoc]
    exact line.opcode.append_solid _

/-- The loop of `load` on the lines of a file takes one line for each instruction. -/
theorem scanInsts_lines {lines : List SourceLine} (separated : Separated lines) {left : Nat} (enough : left ≤ lines.length)
    (opcode buf : List Char) {gap : List Char} (blank : ∀ c ∈ gap, isSpace c) :
    scanInsts left opcode buf (gap ++ linesText lines) = .ok (some ((lines.take left).map SourceLine.scanned)) := by
  induction lines generalizing left opcode buf gap with
  | nil =>
    rw [Nat.le_zero.mp enough]
    rfl
  | cons line lines ih =>
    cases left with
    | zero => rfl
    | succ left =>
      have broken : linesText lines = [] ∨ '\n' ∈ line.after := by
        cases lines with
        | nil => exact .inl rfl
        | cons next lines => exact .inr ((List.pairwise_cons.mp separated).1 next List.mem_cons_self)
      have parted := operandsText_parted line.operands (line.after_parted broken)
      obtain ⟨buf', gap', blank', scanned⟩ := line.scanOperands_line buf (linesText_solid lines) broken
      have rest := ih (List.pairwise_cons.mp separated).2 (Nat.le_of_succ_le_succ enough) line.opcode.word buf' blank'
      rw [linesText, List.flatMap_cons, SourceLine.text, List.append_assoc, List.append_assoc, ← linesText, scanInsts,
        scanOpcode_word _ _ blank parted]
      dsimp only [Outcome.bind_ok]
      rw [Opcode.getOpcode_word]
      dsimp only
      rw [scanned]
      dsimp only
      rw [rest]
      rfl

namespace ProcessFile

theorem scanHeader_text (memory : LoadMemory) (file : ProcessFile) : scanHeader memory file.text =
    (file.priority.value.setWidth 32, file.size.number.value.setWidth 32, file.after ++ linesText file.lines) := by
  have parted : Parted (file.after ++ linesText file.lines) := by
    by_cases empty : file.lines = []
    · rw [empty]
      exact fun c first => file.blank c (List.append_nil file.after ▸ List.mem_of_mem_head? first)
    · exact .of_gap (List.ne_nil_of_mem (file.headed empty)) file.blank
  have ends : Parted (file.size.gap ++ (file.size.number.text ++ (file.after ++ linesText file.lines))) := .of_gap file.size.apart file.size.space
  have priority := @scanUnsigned_numeral _ file.priority [] (fun c inside => (List.not_mem_nil inside).elim) ends
  have size := scanUnsigned_numeral file.size.number file.size.space parted
  rw [scanHeader, text]
  rw [List.nil_append] at priority
  rw [priority]
  dsimp only
  rw [size]
  rfl

/-- `load` finds the header and as many lines as it says. -/
theorem scanFile_text (memory : LoadMemory) (file : ProcessFile) :
    scanFile memory file.text = .ok (some (file.loaded.map SourceLine.scanned)) := by
  rw [scanFile, scanHeader_text]
  exact scanInsts_lines file.separated file.complete memory.opcode memory.buf file.blank

end ProcessFile

/-- Only the line of a SYSCALL can give too few numbers. -/
theorem SourceLine.enough_iff (line : SourceLine) : line.scanned.opcode.passed ≤ line.scanned.operands.length ↔
    (line.opcode = .syscall → 4 ≤ line.operands.length) := by
  have takes := line.takes
  have length : line.scanned.operands.length = min 4 line.operands.length := by
    rw [scanned, List.length_take, operandValues, List.length_map]
  change line.opcode.passed ≤ _ ↔ _
  rw [length]
  cases opcode : line.opcode with
  | «calc» =>
    constructor
    · intro _ same
      cases same
    · exact fun _ => Nat.zero_le _
  | syscall =>
    rw [Opcode.passed, Nat.le_min]
    exact ⟨fun enough _ => enough.2, fun enough => ⟨Nat.le_refl 4, enough rfl⟩⟩
  | alloc | free | read | write =>
    rw [opcode] at takes
    rw [show line.operands.length = _ from takes]
    constructor
    · intro _ same
      cases same
    · exact fun _ => by decide

/-- A process file determines the calls of its program exactly if each SYSCALL that is loaded gives
all four numbers, and any other text exactly if `load` refuses it or finds for each
instruction the numbers that `run` passes on. -/
theorem loaded_program_depends_on_file_iff (memory : LoadMemory) (file : ProcessFile) (text : List Char) :
    (DependsOnFileOnly memory file.text ↔ ∀ line ∈ file.loaded, line.opcode = .syscall → 4 ≤ line.operands.length) ∧
    (DependsOnFileOnly memory text ↔
      ∀ scanned, scanFile memory text = .ok (some scanned) → ∀ ins ∈ scanned, ins.opcode.passed ≤ ins.operands.length) := by
  refine ⟨?_, dependsOnFileOnly_iff memory text⟩
  rw [dependsOnFileOnly_iff, file.scanFile_text]
  constructor
  · intro enough line loaded
    exact line.enough_iff.mp (enough _ rfl _ (List.mem_map_of_mem loaded))
  · intro enough scanned found ins member
    cases found
    obtain ⟨line, loaded, rfl⟩ := List.mem_map.mp member
    exact line.enough_iff.mpr (enough line loaded)

def Numeral.ofDigit (digit : Char) (valid : digit.isDigit) : Numeral where
  sign := .absent
  digits := [digit]
  nonempty := List.cons_ne_nil digit []
  valid := fun _ inside => List.mem_singleton.mp inside ▸ valid

/-- The shipped `input/proc/sc1`. -/
def sc1 : ProcessFile where
  priority := { sign := .absent, digits := ['2', '0'], nonempty := by decide, valid := List.all_eq_true.mp rfl }
  size := { gap := [' '], number := .ofDigit '1' rfl, apart := by decide, blank := List.all_eq_true.mp rfl }
  after := ['\n']
  lines := [{
    opcode := .syscall
    operands := [{ gap := [' '], number := .ofDigit '0' rfl, apart := by decide, blank := List.all_eq_true.mp rfl }]
    after := [' ', '\n']
    takes := ⟨List.cons_ne_nil _ _, by decide⟩
    blank := List.all_eq_true.mp rfl }]
  blank := List.all_eq_true.mp rfl
  headed := fun _ => List.mem_singleton_self _
  separated := List.pairwise_singleton _ _
  complete := by decide

/-- Before `load`, every block of the instruction array holds this number in its arguments. -/
def LoadMemory.filled (value : Addr) : LoadMemory where
  priority := 0
  size := 0
  text _ := .filled value
  opcode := []
  buf := []

/-- The three arguments that `syscall 0` does not give are passed on as `malloc` returned them. -/
theorem sc1_passes_found_arguments :
    sc1.text = "20 1\nsyscall 0 \n".toList ∧
    (Program.load (.filled 0) sc1.text).map (Option.map Program.calls) = .ok (some [some (.libsyscall 0 0 0 0)]) ∧
    (Program.load (.filled 57005) sc1.text).map (Option.map Program.calls) = .ok (some [some (.libsyscall 0 57005 57005 57005)]) ∧
    ¬DependsOnFileOnly (.filled 0) sc1.text := by
  refine ⟨rfl, rfl, rfl, ?_⟩
  intro same
  have agree := same (fun _ => .filled 0) fun _ => .filled 57005
  cases agree

end LamiaAtrium
