/-
Reading a lifetime (`hardware/Memory.cpp`, `parseKeepAlive`).

A number is seconds, and a text is a decimal with a unit, seconds if it has
none. Both are doubles before they are milliseconds: a decimal is rounded to
the nearest double, and so is its product with the unit.
-/
import LocalLLM.Core.JsonText
import LocalLLM.Lib.Rounding
import LocalLLM.Models.ModelManifest

namespace LocalLLM

open Json

-- ================================================================== doubles

/-- The doubles below 2^1024, and what is rounded as if there were more. -/
def binary64 : Rounding.Format := ⟨53, -1074⟩

/-- The double that a number is rounded to. -/
def Double.ofRat (q : ℚ) : Double :=
  if |binary64.round q| < 2 ^ 1024 then .finite (binary64.round q)
  else .infinite (decide (q < 0))

/-- The product of a double and a factor that is positive. -/
def Double.scaled (factor : Nat) : Double → Double
  | .finite q => .ofRat (q * factor)
  | .infinite negative => .infinite negative
  | .nan => .nan

-- ==================================================================== texts

/-- The digits, the digits of the fraction, and the unit, as
`^([0-9]+(?:\.[0-9]+)?)(ms|s|m|h)?$` takes a text apart. -/
def lifetimeParts (text : QString) : QString × QString × QString :=
  let body := dollarBody text
  let rest := body.dropWhile isDigit
  let fraction := (rest.drop 1).takeWhile isDigit
  if rest.head? = some (qc '.') ∧ fraction ≠ [] then
    (body.takeWhile isDigit, fraction, (rest.drop 1).dropWhile isDigit)
  else (body.takeWhile isDigit, [], rest)

/-- The milliseconds of a unit; `none` for what is no unit. -/
def unitFactor (unit : QString) : Option Nat :=
  if unit = qs "ms" then some 1
  else if unit = qs "m" then some 60000
  else if unit = qs "h" then some 3600000
  else if unit = qs "s" ∨ unit = [] then some 1000
  else none

/-- `match.captured(1)` as the number it denotes, and the unit; `none`
without a match. -/
def lifetimeText (text : QString) : Option (ℚ × Nat) :=
  let (whole, fraction, unit) := lifetimeParts text
  if whole = [] then none
  else match QString.digitsValue (whole ++ fraction), unitFactor unit with
    | some n, some factor => some (n / 10 ^ fraction.length, factor)
    | _, _ => none

-- ================================================================= lifetimes

/-- `ms`, before it is checked. -/
def lifetimeOf : Json → Double
  | .number d => (toDouble (.finite 0) (some (.number d))).scaled 1000
  | .string text => match lifetimeText text with
      | some (value, factor) => (Double.ofRat value).scaled factor
      | none => .finite (-1)
  | _ => .finite (-1)

def badLifetime : Exn :=
  err .InvalidArgument ("keep_alive must be 0..7 days in seconds or ms/s/m/h, "
    ++ "with millisecond precision")

/-- `parseKeepAlive`. -/
def parseKeepAlive : Option Json → Except Exn Int
  | none => .ok (-1)
  | some value => match lifetimeOf value with
      | .finite q =>
          if 0 ≤ q ∧ q ≤ 604800000 ∧ q.den = 1 then .ok q.num
            else .error badLifetime
      | _ => .error badLifetime

end LocalLLM
