/-
Strings as the service sees them: sequences of UTF-16 code units, which
may hold half of a surrogate pair, compared unit by unit.

`qs` reads a literal. The operations below are the ones the modelled code
calls, under their Qt names; positions are unit positions, and a position
of -1 is `none`.
-/
import Mathlib

namespace LocalLLM

/-- A UTF-16 code unit (`QChar`). -/
abbrev QChar := UInt16

/-- A string of UTF-16 code units (`QString`). -/
abbrev QString := List QChar

/-- Membership in a list of strings is decided by their comparison. -/
instance instLawfulBEqQString : LawfulBEq QString := inferInstance

/-- The code units of one character. -/
def utf16 (c : Char) : QString :=
  if c.toNat < 0x10000 then [UInt16.ofNat c.toNat]
  else [UInt16.ofNat (0xD800 + (c.toNat - 0x10000) / 0x400),
    UInt16.ofNat (0xDC00 + (c.toNat - 0x10000) % 0x400)]

/-- A string literal. -/
def qs (text : String) : QString := text.toList.flatMap utf16

/-- The unit of an ASCII character. -/
def qc (c : Char) : QChar := UInt16.ofNat c.toNat

/-- A `std::string`. -/
abbrev Bytes := List UInt8

/-- The bytes of an ASCII text. -/
def asciiBytes (text : String) :
    Bytes := text.toList.map fun c => UInt8.ofNat c.toNat

/-- `QChar::isSpace`: the ASCII controls, NEL, NBSP and the Unicode
separators, all of them single units. -/
def isSpace (u : QChar) : Bool :=
  (9 ≤ u && u ≤ 13) || u == 0x20 || u == 0x85 || u == 0xA0 || u == 0x1680
    || (0x2000 ≤ u && u ≤ 0x200A) || u == 0x2028 || u == 0x2029 || u == 0x202F
    || u == 0x205F || u == 0x3000

/-- `QChar::isHighSurrogate`. -/
def isHighSurrogate (u : QChar) : Bool := 0xD800 ≤ u && u ≤ 0xDBFF

/-- `QChar::isLowSurrogate`. -/
def isLowSurrogate (u : QChar) : Bool := 0xDC00 ≤ u && u ≤ 0xDFFF

/-- Every surrogate has its other half. -/
def paired : QString → Bool
  | [] => true
  | [u] => !isHighSurrogate u && !isLowSurrogate u
  | u :: v :: rest =>
      if isHighSurrogate u then isLowSurrogate v && paired rest
      else !isLowSurrogate u && paired (v :: rest)

/-- `QString::fromUtf8(text.toUtf8()) == text`: half of a pair is replaced
on the way, and a byte order mark at the front is dropped. -/
def roundTripsUtf8 (text : QString) : Bool :=
  paired text && text.head? != some 0xFEFF

namespace QString

/-- `QString::trimmed`. -/
def trimmed (s : QString) : QString :=
  ((s.dropWhile isSpace).reverse.dropWhile isSpace).reverse

/-- `QString::startsWith`. -/
def startsWith (s p : QString) : Bool := p.isPrefixOf s

/-- `QString::endsWith`. -/
def endsWith (s p : QString) : Bool := p.isSuffixOf s

/-- `QString::indexOf`: the first position at which `pattern` occurs. -/
def indexOf (s pattern : QString) : Option Nat :=
  if pattern.isPrefixOf s then some 0
  else match s with
    | [] => none
    | _ :: rest => (indexOf rest pattern).map (· + 1)

/-- `QStringList::join`. -/
def join (parts : List QString) (separator : QString) : QString :=
  (parts.intersperse separator).flatten

/-- `QString::number`. -/
def number (n : Int) : QString :=
  let digits := if n = 0 then [0] else (Nat.digits 10 n.natAbs).reverse
  (if n < 0 then [qc '-'] else []) ++ digits.map fun d =>
    UInt16.ofNat (0x30 + d)

/-- The number that decimal digits denote. -/
def digitsValue (digits : QString) : Option Nat :=
  if digits ≠ [] ∧ digits.all fun u => 0x30 ≤ u && u ≤ 0x39 then
    some (digits.foldl (fun n u => n * 10 + (u.toNat - 0x30)) 0)
  else none

/-- `QString::toLongLong`: decimal digits, with a sign or without, and white
space around them. -/
def toLongLong (s : QString) : Option Int :=
  let text := trimmed s
  let value : Option Int :=
    if text.head? = some (qc '-') then
      (digitsValue text.tail).map fun n : Nat => -(n : Int)
    else if text.head? = some (qc '+')
      then (digitsValue text.tail).map Int.ofNat
    else (digitsValue text).map Int.ofNat
  value.filter fun n => -2 ^ 63 ≤ n ∧ n < 2 ^ 63

end QString

/-- `QDir(directory).filePath(name)`: an absolute name stands for itself. -/
def filePath (directory name : QString) : QString :=
  if name.head? = some (qc '/') then name
  else if directory = [] then name
  else if directory.getLast? = some (qc '/') ∨ name = [] then directory ++ name
  else directory ++ [qc '/'] ++ name

end LocalLLM
