import Mathlib.Algebra.Group.Int.Defs
import Mathlib.Algebra.Group.Nat.Defs
import Mathlib.Data.List.DropRight
import Mathlib.Data.Int.Order.Basic

/-!
# Strings

The helpers that read lists, numbers and flags out of texts.

## Main definitions

* `Fault` — what the code can raise.
* `iequal`, `trim`, `split` — comparison, blanks and lists.
* `quote`, `stringsJoin` — quotes, and lists that are written.
* `strtol`, `str2num`, `str2i`, `str2b` — numbers and flags.
-/

namespace RulesAnalyzer

/-- What a function of the code raises. -/
inductive Fault
  /-- `IPAddressError`. -/
  | ipAddressError (address reason : String)
  /-- `ServiceError`. -/
  | serviceError (protoPort : String)
  /-- `std::runtime_error`. -/
  | runtimeError (what : String)
  /-- `interrupt_error`. -/
  | interruptError (what : String)
  /-- An element that does not exist or a null pointer is used: nothing is defined then. -/
  | undefined
  /-- An assertion fails, and the program is aborted. -/
  | aborted
  deriving DecidableEq, Repr

/-- Nothing of the program runs after the fault. -/
def Fault.isFinal : Fault → Bool
  | undefined | aborted => true
  | _ => false

/-! ### Comparison, blanks and lists -/

/-- The comparison that ignores the case of letters. -/
def iequal (s1 s2 : String) : Bool :=
  s1.toList.map Char.toLower == s2.toList.map Char.toLower

/-- A space or a tab. -/
def isBlank (c : Char) : Bool := c == ' ' || c == '\t'

/-- The characters without the blanks at both ends. -/
def trim (s : List Char) : List Char := (s.rdropWhile isBlank).dropWhile isBlank

/-- The segments between delimiters, blank ones left out.  Blanks around a segment stay. -/
def split (str : String) (delim : Char) : List String :=
  ((str.toList.splitOn delim).filter fun value => !(trim value).isEmpty).map String.ofList

/-- The text between quotes; the quotes in it are doubled. -/
def quote (str : String) : String :=
  String.ofList ('"' :: (str.toList.flatMap fun c => if c = '"' then ['"', '"'] else [c]) ++ ['"'])

/-- The strings, quoted or not, with a delimiter between them. -/
def stringsJoin (strings : List String) (delim : String) (quoted : Bool) : String :=
  let output :=
    strings.flatMap fun str => (if quoted then quote str else str).toList ++ delim.toList
  if output.length > delim.length then String.ofList (output.take (output.length - delim.length))
  else ""

/-! ### Numbers and flags -/

/-- `std::isspace`. -/
def isSpace (c : Char) : Bool := isBlank c || c == '\n' || c == '\x0b' || c == '\x0c' || c == '\r'

/-- The number that decimal digits stand for. -/
def ofDigits (digits : List Char) : ℕ :=
  digits.foldl (fun value c => 10 * value + (c.toNat - '0'.toNat)) 0

/-- `std::strtol` with base 10: the number, and the text it stops at, which is the whole text
when there are no digits.  A number that does not fit in 64 bits is an error. -/
def strtol (str : List Char) : Option (ℤ × List Char) :=
  let (negative, rest) := match str.dropWhile isSpace with
    | '-' :: rest => (true, rest)
    | '+' :: rest => (false, rest)
    | rest => (false, rest)
  let digits := rest.takeWhile Char.isDigit
  if digits.isEmpty then some (0, str)
  else
    let value : ℤ := if negative then -ofDigits digits else ofDigits digits
    if value < -2 ^ 63 ∨ 2 ^ 63 ≤ value then none else some (value, rest.dropWhile Char.isDigit)

/-- The decimal number of a text, when the text is one and it lies between the bounds.  The
text of the library function ends at the first zero character. -/
def str2num (numstr : String) (minval maxval : ℤ) : Option ℤ :=
  if minval > maxval then none
  else
    match strtol (numstr.toList.takeWhile (· ≠ '\x00')) with
    | some (l, []) => if l < minval ∨ l > maxval then none else some l
    | _ => none

/-- A number of 64 bits that is not negative, cut to 32 bits. -/
def str2i (str : String) : Option ℤ := (str2num str 0 (2 ^ 63 - 1)).map fun tmp => tmp.bmod (2 ^ 32)

/-- A flag. -/
def str2b (boolstr : String) : Option Bool :=
  if iequal boolstr "true" || boolstr == "1" then some true
  else if iequal boolstr "false" || boolstr == "0" then some false
  else none

example : split "a ; b; ;c" ';' = ["a ", " b", "c"] := by decide

end RulesAnalyzer
