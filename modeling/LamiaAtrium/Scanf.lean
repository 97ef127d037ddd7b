import LamiaAtrium.Machine

/-! The conversions of `fscanf` that the sources use, on the text that is left in the stream.
Each returns what it stored, `none` for a failed match, and the text after it. -/

namespace LamiaAtrium

def isSpace (c : Char) : Bool := c == ' ' || (9 ≤ c.toNat && c.toNat ≤ 13)

def skipSpace (text : List Char) : List Char := text.dropWhile isSpace

def decimal (digits : List Char) : Nat := digits.foldl (fun value digit => 10 * value + (digit.toNat - 48)) 0

/-- The sign is gone from the stream even if no digit comes after it. -/
def scanSign : List Char → Bool × List Char
  | '-' :: rest => (true, rest)
  | '+' :: rest => (false, rest)
  | text => (false, text)

def scanInteger (text : List Char) : Option Int × List Char :=
  let (negative, text) := scanSign (skipSpace text)
  match text.takeWhile Char.isDigit with
  | [] => (none, text)
  | digits => (some (if negative then -decimal digits else decimal digits), text.dropWhile Char.isDigit)

/-- `strtol`, which stays between `LONG_MIN` and `LONG_MAX`, with its result stored to an `int`. -/
def strtol (value : Int) : CInt := BitVec.ofInt 32 (max (-9223372036854775808) (min value 9223372036854775807))

/-- `strtoul`: a number that does not fit is `ULONG_MAX`, a negative one is negated as an
`unsigned long`. -/
def strtoul (value : Int) : BitVec 64 := if value.natAbs < 2 ^ 64 then BitVec.ofInt 64 value else BitVec.allOnes 64

/-- `%d` -/
def scanInt (text : List Char) : Option CInt × List Char :=
  let (value, rest) := scanInteger text
  (value.map strtol, rest)

/-- `%lu` -/
def scanUnsignedLong (text : List Char) : Option (BitVec 64) × List Char :=
  let (value, rest) := scanInteger text
  (value.map strtoul, rest)

/-- `%s` with a width. -/
def scanWord (width : Nat) (text : List Char) : Option (List Char) × List Char :=
  let text := skipSpace text
  match (text.takeWhile fun c => !isSpace c).take width with
  | [] => (none, text)
  | word => (some word, text.drop word.length)

/-- A string in memory ends at its first NUL. -/
def cString (text : List Char) : List Char := text.takeWhile fun c => c.toNat ≠ 0

end LamiaAtrium
