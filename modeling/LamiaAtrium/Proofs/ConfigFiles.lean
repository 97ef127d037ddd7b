import Mathlib.Data.List.DropRight
import LamiaAtrium.Proofs.FileFormats
import LamiaAtrium.Proofs.Levels

/-! The configuration files that `read_config` is meant for, what they mean, and that everything
it accepts can be written as such a file and read again. -/

namespace LamiaAtrium

/-- White space that ends a number or a word. -/
structure Gap where
  text : List Char
  apart : text ≠ []
  space : ∀ c ∈ text, isSpace c

private theorem char_apart (c : Char) : [c] ≠ [] := List.cons_ne_nil _ _

private theorem char_space {c : Char} (space : isSpace c) : ∀ d ∈ [c], isSpace d := by
  intro d inside
  rwa [List.mem_singleton.mp inside]

def Gap.of (c : Char) (space : isSpace c) : Gap where
  text := [c]
  apart := char_apart c
  space := char_space space

/-- A number and the white space before it. -/
structure Field where
  gap : Gap
  number : Numeral

def Field.text (field : Field) : List Char := field.gap.text ++ field.number.text

/-- The name of a process file, which `%127s` takes in one piece. -/
structure ProcessName where
  chars : List Char
  nonempty : chars ≠ []
  short : chars.length ≤ 127
  solid : ∀ c ∈ chars, !isSpace c

/-- A line with the start time, the name of the file and the priority. -/
structure ConfigEntry where
  startTime : Field
  gap : Gap
  pname : ProcessName
  prio : Field

def ConfigEntry.text (entry : ConfigEntry) : List Char :=
  entry.startTime.text ++ (entry.gap.text ++ (entry.pname.chars ++ entry.prio.text))

def ConfigEntry.line (entry : ConfigEntry) : ProcessLine where
  startTime := entry.startTime.number.value
  path := "input/proc/".toList ++ cString entry.pname.chars
  prio := entry.prio.number.value

def Numeral.cint (number : Numeral) : CInt := strtol number.int

/-- The first line, the sizes of the devices unless the path is under `input/sched`, and as many
entries as the first line says. -/
structure ConfigText (isSched : Bool) where
  timeSlot : Numeral
  numCpus : Field
  numProcesses : Field
  sizes : List Field
  entries : List ConfigEntry
  after : List Char
  sized : sizes.length = if isSched then 0 else 1 + pagingMaxMmswp
  complete : entries.length = rounds numProcesses.number.cint
  ends : Parted after

namespace ConfigText
variable {isSched : Bool} (config : ConfigText isSched)

def text : List Char :=
  config.timeSlot.text ++ (config.numCpus.text ++ (config.numProcesses.text ++
    (config.sizes.flatMap Field.text ++ (config.entries.flatMap ConfigEntry.text ++ config.after))))

/-- The sizes that the file does not give are the 0 of the static variables. -/
def sizeValues : List CInt := if isSched then List.replicate (1 + pagingMaxMmswp) 0 else config.sizes.map (·.number.cint)

/-- What the file means. -/
def file : ConfigFile where
  timeSlot := config.timeSlot.cint
  numCpus := config.numCpus.number.cint
  numProcesses := config.numProcesses.number.cint
  memramsz := config.sizeValues.headD 0
  memswpsz := config.sizeValues.tail
  ldProcesses := config.entries.map ConfigEntry.line
  ldProcesses_length := (List.length_map _).trans config.complete

end ConfigText

theorem skipSpace_append {gap text : List Char} (space : ∀ c ∈ gap, isSpace c) : skipSpace (gap ++ text) = skipSpace text :=
  List.dropWhile_append_of_pos space

theorem skipSpace_idem (text : List Char) : skipSpace (skipSpace text) = skipSpace text := List.dropWhile_idempotent isSpace text

section Conversions
variable {rest : List Char}

theorem Gap.parted (gap : Gap) : Parted (gap.text ++ rest) := .of_gap gap.apart gap.space

theorem Field.parted (field : Field) : Parted (field.text ++ rest) := by
  rw [text, List.append_assoc]
  exact field.gap.parted

theorem scanInt_numeral (number : Numeral) {gap : List Char} (space : ∀ c ∈ gap, isSpace c) (parted : Parted rest) :
    scanInt (gap ++ (number.text ++ rest)) = (some number.cint, rest) := by
  rw [scanInt, scanInteger_numeral number space parted]
  rfl

theorem scanInt_first (number : Numeral) (parted : Parted rest) : scanInt (number.text ++ rest) = (some number.cint, rest) :=
  @scanInt_numeral _ number [] (fun _ inside => (List.not_mem_nil inside).elim) parted

theorem scanInt_field (field : Field) (parted : Parted rest) : scanInt (field.text ++ rest) = (some field.number.cint, rest) := by
  rw [Field.text, List.append_assoc, scanInt_numeral field.number field.gap.space parted]

theorem scanUnsignedLong_field (field : Field) (parted : Parted rest) :
    scanUnsignedLong (field.text ++ rest) = (some field.number.value, rest) := by
  rw [Field.text, List.append_assoc, scanUnsignedLong_numeral field.number field.gap.space parted]

theorem ProcessName.append_solid (pname : ProcessName) : Solid (pname.chars ++ rest) := by
  obtain ⟨chars, nonempty, short, solid⟩ := pname
  cases chars with
  | nil => exact absurd rfl nonempty
  | cons c chars =>
    intro d first
    cases first
    exact Bool.not_eq_true' _ |>.mp (solid c List.mem_cons_self)

theorem scanWord_name (gap : Gap) (pname : ProcessName) (parted : Parted rest) :
    scanWord 127 (gap.text ++ (pname.chars ++ rest)) = (some pname.chars, rest) := by
  have ends (c : Char) (first : c ∈ rest.head?) : (!isSpace c) = false := by rw [parted c first, Bool.not_true]
  have found := takeWhile_parted pname.solid ends
  rw [scanWord, skipSpace_gap gap.space pname.append_solid, found.1, List.take_of_length_le pname.short]
  split
  · next empty => exact absurd empty pname.nonempty
  · rw [List.drop_left]

theorem readProcessLine_entry (entry : ConfigEntry) (parted : Parted rest) :
    readProcessLine (entry.text ++ rest) = some (entry.line, rest) := by
  rw [ConfigEntry.text, List.append_assoc, List.append_assoc, List.append_assoc, readProcessLine,
    scanUnsignedLong_field entry.startTime entry.gap.parted]
  dsimp only
  rw [scanWord_name entry.gap entry.pname entry.prio.parted]
  dsimp only
  rw [scanUnsignedLong_field entry.prio parted]
  rfl

end Conversions

section Lines

theorem scanUnsignedLong_skip (text : List Char) : scanUnsignedLong (skipSpace text) = scanUnsignedLong text := by
  rw [scanUnsignedLong, scanUnsignedLong, scanInteger, scanInteger, skipSpace_idem]

theorem readProcesses_skip (count : Nat) (text : List Char) : readProcesses count (skipSpace text) = readProcesses count text := by
  cases count with
  | zero => rfl
  | succ count => rw [readProcesses, readProcesses, readProcessLine, readProcessLine, scanUnsignedLong_skip]

/-- White space in front of the lines does not matter. -/
theorem readProcesses_gap {gap : List Char} (space : ∀ c ∈ gap, isSpace c) (count : Nat) (text : List Char) :
    readProcesses count (gap ++ text) = readProcesses count text := by
  rw [← readProcesses_skip, skipSpace_append space, readProcesses_skip]

section Entries
variable {rest : List Char} (parted : Parted rest)
include parted

theorem entries_parted (entries : List ConfigEntry) : Parted (entries.flatMap ConfigEntry.text ++ rest) := by
  cases entries with
  | nil => exact parted
  | cons entry entries =>
    rw [List.flatMap_cons, ConfigEntry.text, List.append_assoc, List.append_assoc]
    exact entry.startTime.parted

theorem readProcesses_entries (entries : List ConfigEntry) : (readProcesses entries.length (entries.flatMap ConfigEntry.text ++ rest)).map
    Subtype.val = some (entries.map ConfigEntry.line) := by
  induction entries with
  | nil => rfl
  | cons entry entries ih =>
    rw [List.flatMap_cons, List.append_assoc, List.length_cons, readProcesses, readProcessLine_entry entry (entries_parted parted entries)]
    dsimp only [Option.bind_eq_bind, Option.bind_some]
    obtain ⟨lines, found, same⟩ := Option.map_eq_some_iff.mp ih
    rw [found]
    exact congrArg (fun lines => some (entry.line :: lines)) same

end Entries

/-- `fgetc` takes white space in front of the lines. -/
theorem readProcesses_fgetc (entries : List ConfigEntry) (rest : List Char) :
    readProcesses entries.length (entries.flatMap ConfigEntry.text ++ rest).tail =
      readProcesses entries.length (entries.flatMap ConfigEntry.text ++ rest) := by
  cases entries with
  | nil => rfl
  | cons entry entries =>
    rw [List.flatMap_cons, ConfigEntry.text, Field.text]
    obtain ⟨c, blanks, same⟩ := List.exists_cons_of_ne_nil entry.startTime.gap.apart
    have space := entry.startTime.gap.space
    rw [same] at space ⊢
    simp only [List.append_assoc]
    rw [readProcesses_gap space]
    exact readProcesses_gap (fun c inside => space c (List.mem_cons_of_mem _ inside)) _ _

theorem readSizes_skip (left : Nat) (text : List Char) : readSizes (left + 1) (skipSpace text) = readSizes (left + 1) text := by
  rw [readSizes, readSizes, scanInt, scanInt, scanInteger, scanInteger, skipSpace_idem]

theorem readSizes_fields (sizes : List Field) {rest : List Char} (parted : Parted rest) :
    readSizes sizes.length (sizes.flatMap Field.text ++ rest) = (sizes.map (·.number.cint), rest) := by
  induction sizes with
  | nil => rfl
  | cons size sizes ih =>
    have behind : Parted (sizes.flatMap Field.text ++ rest) := by
      cases sizes with
      | nil => exact parted
      | cons next sizes =>
        rw [List.flatMap_cons, List.append_assoc]
        exact next.parted
    rw [List.flatMap_cons, List.append_assoc, List.length_cons, readSizes, scanInt_field size behind]
    dsimp only
    rw [ih]
    rfl

end Lines

namespace ConfigText

/-- The text from the memory line on. -/
def behind {isSched : Bool} (config : ConfigText isSched) : List Char :=
  config.sizes.flatMap Field.text ++ (config.entries.flatMap ConfigEntry.text ++ config.after)

theorem behind_parted {isSched : Bool} (config : ConfigText isSched) : Parted config.behind := by
  rw [behind]
  cases config.sizes with
  | nil => exact entries_parted config.ends config.entries
  | cons size sizes =>
    rw [List.flatMap_cons, List.append_assoc]
    exact size.parted

/-- The memory line leaves the process lines, or white space and these. -/
theorem memory_line {isSched : Bool} (config : ConfigText isSched) : ∃ rest,
    (if isSched then (List.replicate (1 + pagingMaxMmswp) 0, skipSpace config.behind)
      else readSizes (1 + pagingMaxMmswp) (skipSpace config.behind)) = (config.sizeValues, rest) ∧
    (readProcesses config.entries.length (if isSched then rest else rest.tail)).map Subtype.val = some (config.entries.map ConfigEntry.line) := by
  have sized := config.sized
  cases isSched with
  | true =>
    have none : config.sizes = [] := List.length_eq_zero_iff.mp sized
    refine ⟨skipSpace config.behind, rfl, ?_⟩
    rw [if_pos rfl, readProcesses_skip, behind, none]
    exact readProcesses_entries config.ends config.entries
  | false =>
    refine ⟨config.entries.flatMap ConfigEntry.text ++ config.after, ?_, ?_⟩
    · have taken := readSizes_fields config.sizes (entries_parted config.ends config.entries)
      rw [show config.sizes.length = 4 + 1 from sized] at taken
      exact (readSizes_skip 4 config.behind).trans taken
    · exact (congrArg _ (readProcesses_fgetc config.entries config.after)).trans (readProcesses_entries config.ends config.entries)

theorem read {path : List Char} {isSched : Bool} (here : "input/sched".toList.isPrefixOf path = isSched) (config : ConfigText isSched) :
    readConfig path config.text = some config.file := by
  obtain ⟨rest, sizes, read⟩ := config.memory_line
  rw [config.complete] at read
  obtain ⟨lines, found, same⟩ := Option.map_eq_some_iff.mp read
  have slot := scanInt_first config.timeSlot (@config.numCpus.parted (config.numProcesses.text ++ config.behind))
  have cpus := scanInt_field config.numCpus (@config.numProcesses.parted config.behind)
  have processes := scanInt_field config.numProcesses config.behind_parted
  change readConfig path (config.timeSlot.text ++ (config.numCpus.text ++ (config.numProcesses.text ++ config.behind))) = _
  rw [readConfig, slot]
  dsimp only
  rw [cpus]
  dsimp only
  rw [processes, here]
  dsimp only
  rw [sizes]
  dsimp only
  rw [found]
  dsimp only [Option.bind_eq_bind, Option.bind_some, Option.pure_def]
  simp only [file, same]

end ConfigText

/-- The path of a process file is this directory and a name, up to its first NUL. -/
def ProcessLine.Named (line : ProcessLine) : Prop := ∃ pname : ProcessName, line.path = "input/proc/".toList ++ cString pname.chars

/-- What a configuration file can say: names without white space, and no sizes under `input/sched`. -/
structure ConfigFile.Valid (isSched : Bool) (file : ConfigFile) : Prop where
  devices : file.memswpsz.length = pagingMaxMmswp
  unset : isSched → file.memramsz = 0 ∧ file.memswpsz = List.replicate pagingMaxMmswp 0
  named : ∀ line ∈ file.ldProcesses, line.Named

section Accepted
variable {text rest : List Char}

theorem scanWord_some {width : Nat} {word : List Char} (found : scanWord width text = (some word, rest)) :
    word ≠ [] ∧ word.length ≤ width ∧ ∀ c ∈ word, !isSpace c := by
  rw [scanWord] at found
  split at found
  · cases found
  · next nonempty =>
    cases found
    refine ⟨nonempty, List.length_take_le _ _, ?_⟩
    intro c inside
    exact @List.mem_takeWhile_imp _ (fun c => !isSpace c) _ c (List.mem_of_mem_take inside)

theorem readProcessLine_named {line : ProcessLine} (found : readProcessLine text = some (line, rest)) : line.Named := by
  rw [readProcessLine] at found
  split at found
  · next taken =>
    split at found
    · next pname behind word =>
      split at found
      · cases found
        obtain ⟨nonempty, short, solid⟩ := scanWord_some word
        exact ⟨⟨pname, nonempty, short, solid⟩, rfl⟩
      · cases found
    · cases found
  · cases found

theorem readProcesses_named {count : Nat} {lines : { lines : List ProcessLine // lines.length = count }}
    (found : readProcesses count text = some lines) : ∀ line ∈ lines.val, line.Named := by
  induction count generalizing text with
  | zero =>
    cases found
    exact fun line member => (List.not_mem_nil member).elim
  | succ count ih =>
    rw [readProcesses] at found
    obtain ⟨⟨first, behind⟩, head, found⟩ := Option.bind_eq_some_iff.mp found
    obtain ⟨others, tail, found⟩ := Option.bind_eq_some_iff.mp found
    cases found
    exact List.forall_mem_cons.mpr ⟨readProcessLine_named head, ih tail⟩

theorem readSizes_length (left : Nat) (text : List Char) : (readSizes left text).1.length = left := by
  induction left generalizing text with
  | zero => rfl
  | succ left ih =>
    rw [readSizes]
    exact congrArg (· + 1) (ih _)

theorem readConfig_valid {path : List Char} {file : ConfigFile} (accepted : readConfig path text = some file) :
    file.Valid ("input/sched".toList.isPrefixOf path) := by
  generalize mode : "input/sched".toList.isPrefixOf path = isSched
  rw [readConfig] at accepted
  split at accepted
  · split at accepted
    · split at accepted
      · next behind _ =>
        rw [mode] at accepted
        dsimp only at accepted
        generalize line : (if isSched then (List.replicate (1 + pagingMaxMmswp) 0, skipSpace behind)
          else readSizes (1 + pagingMaxMmswp) (skipSpace behind)) = sizes at accepted
        obtain ⟨lines, found, accepted⟩ := Option.bind_eq_some_iff.mp accepted
        cases accepted
        refine ⟨?_, ?_, readProcesses_named found⟩
        · have five : sizes.1.length = 1 + pagingMaxMmswp := by
            rw [← line]
            cases isSched with
            | true => exact List.length_replicate
            | false => exact readSizes_length _ _
          rw [List.length_tail, five]
          rfl
        · rintro rfl
          cases line
          exact ⟨rfl, rfl⟩
      · cases accepted
    · cases accepted
  · cases accepted

end Accepted

section Printing

/-- The characters that `printf` writes. -/
def Numeral.ofInt (value : Int) : Numeral := { Numeral.ofNat value.natAbs with sign := if value < 0 then .minus else .absent }

theorem Numeral.ofInt_int (value : Int) : (Numeral.ofInt value).int = value := by
  have digits : decimal (Numeral.ofInt value).digits = value.natAbs := decimal_toDigits _
  rw [Numeral.int, digits, ofInt]
  dsimp only
  by_cases negative : value < 0
  · rw [if_pos negative, if_pos rfl]
    omega
  · rw [if_neg negative, if_neg (by decide)]
    omega

theorem Numeral.ofInt_cint (value : CInt) : (Numeral.ofInt value.toInt).cint = value := by
  have below := @BitVec.toInt_lt 32 value
  have above := @BitVec.le_toInt 32 value
  rw [cint, ofInt_int, strtol]
  refine (congrArg (BitVec.ofInt 32) ?_).trans BitVec.ofInt_toInt
  omega

theorem Numeral.ofNat_addr (value : BitVec 64) : (Numeral.ofNat value.toNat).value = value := by
  rw [ofNat_value _ value.isLt, BitVec.ofNat_toNat, BitVec.setWidth_eq]

def Field.print (number : Numeral) : Field := { gap := .of ' ' rfl, number }

def ConfigEntry.print (line : ProcessLine) (pname : ProcessName) : ConfigEntry where
  startTime := { gap := .of '\n' rfl, number := .ofNat line.startTime.toNat }
  gap := .of ' ' rfl
  pname := pname
  prio := .print (.ofNat line.prio.toNat)

theorem ConfigEntry.print_line {line : ProcessLine} {pname : ProcessName} (named : line.path = "input/proc/".toList ++ cString pname.chars) :
    (ConfigEntry.print line pname).line = line := by
  simp only [ConfigEntry.line, ConfigEntry.print, Field.print, Numeral.ofNat_addr, ← named]

theorem exists_entries {lines : List ProcessLine} (named : ∀ line ∈ lines, line.Named) :
    ∃ entries : List ConfigEntry, entries.map ConfigEntry.line = lines := by
  induction lines with
  | nil => exact ⟨[], rfl⟩
  | cons line lines ih =>
    rw [List.forall_mem_cons] at named
    obtain ⟨pname, path⟩ := named.1
    obtain ⟨entries, same⟩ := ih named.2
    exact ⟨.print line pname :: entries, by rw [List.map_cons, ConfigEntry.print_line path, same]⟩

theorem Field.print_cint (value : CInt) : (Field.print (.ofInt value.toInt)).number.cint = value := Numeral.ofInt_cint value

theorem newline_parted : Parted ['\n'] := by
  intro c first
  cases first
  rfl

/-- Every valid configuration has a text. -/
theorem ConfigFile.Valid.exists_text {isSched : Bool} {file : ConfigFile} (valid : file.Valid isSched) :
    ∃ config : ConfigText isSched, config.file = file := by
  obtain ⟨entries, same⟩ := exists_entries valid.named
  obtain ⟨timeSlot, numCpus, numProcesses, memramsz, memswpsz, ldProcesses, complete⟩ := file
  have devices : memswpsz.length = pagingMaxMmswp := valid.devices
  let print (value : CInt) : Field := .print (.ofInt value.toInt)
  let config : ConfigText isSched :=
    { timeSlot := .ofInt timeSlot.toInt
      numCpus := print numCpus
      numProcesses := print numProcesses
      sizes := if isSched then [] else (memramsz :: memswpsz).map print
      entries := entries
      sized := by
        cases isSched with
        | true => rfl
        | false =>
          rw [if_neg Bool.false_ne_true, List.length_map, List.length_cons, devices]
          rfl
      complete := by
        rw [Field.print_cint, ← complete]
        exact (List.length_map _).symm.trans (congrArg List.length same)
      after := ['\n']
      ends := newline_parted }
  have sizes : config.sizeValues = memramsz :: memswpsz := by
    cases isSched with
    | true =>
      obtain ⟨ram, swap⟩ := valid.unset rfl
      exact (congrArg₂ List.cons ram swap).symm
    | false =>
      change ((memramsz :: memswpsz).map print).map (·.number.cint) = _
      rw [List.map_map]
      exact (List.map_congr_left fun value _ => Field.print_cint value).trans (List.map_id _)
  refine ⟨config, ?_⟩
  rw [ConfigText.file]
  simp only [sizes, List.headD_cons, List.tail_cons, config, print, Field.print_cint, Numeral.ofInt_cint, same]

/-- A configuration file means its numbers and its process lines, and everything that
`read_config` accepts is the meaning of such a file. -/
theorem config_file_round_trip (path : List Char) :
    (∀ config : ConfigText ("input/sched".toList.isPrefixOf path), readConfig path config.text = some config.file) ∧
    ∀ text file, readConfig path text = some file → file.Valid ("input/sched".toList.isPrefixOf path) ∧
      ∃ config : ConfigText ("input/sched".toList.isPrefixOf path), config.file = file ∧ readConfig path config.text = some file := by
  refine ⟨fun config => config.read rfl, ?_⟩
  intro text file accepted
  have valid := readConfig_valid accepted
  obtain ⟨config, same⟩ := valid.exists_text
  refine ⟨valid, config, same, ?_⟩
  rw [config.read rfl, same]

/-- The shipped `input/sched_0`. -/
def sched0 : ConfigText true where
  timeSlot := .ofNat 2
  numCpus := .print (.ofNat 1)
  numProcesses := .print (.ofNat 2)
  sizes := []
  entries := [
    .print { startTime := 0, path := [], prio := 4 } { chars := "s0".toList, nonempty := by decide, short := by decide, solid := List.all_eq_true.mp rfl },
    .print { startTime := 4, path := [], prio := 0 } { chars := "s1".toList, nonempty := by decide, short := by decide, solid := List.all_eq_true.mp rfl }]
  after := ['\n']
  sized := rfl
  complete := rfl
  ends := newline_parted

theorem config_file_round_trip_sched0 : sched0.text = "2 1 2\n0 s0 4\n4 s1 0\n".toList ∧
    readConfig "input/sched_0".toList sched0.text = some sched0.file ∧ sched0.file.Valid true ∧
    sched0.file.ldProcesses = [{ startTime := 0, path := "input/proc/s0".toList, prio := 4 },
      { startTime := 4, path := "input/proc/s1".toList, prio := 0 }] := by
  obtain ⟨means, prints⟩ := config_file_round_trip "input/sched_0".toList
  have read := means sched0
  exact ⟨rfl, read, (prints _ _ read).1, rfl⟩

end Printing
end LamiaAtrium
