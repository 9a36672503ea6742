import CallResolution.Toml.Quoted
import CallResolution.Toml.Value

/-!
# Values without quotes

Booleans, integers, floats, dates and times.  Such a value runs up to the first
character that can belong to none of them, and the whole run has to be a value.

Integers have 64 bits and a sign.  A float must not be so large that it would be
read as positive infinity.  Dates have to exist in the calendar.
-/

namespace CallResolution
namespace Toml

/-- Characters that can belong to a value without quotes. -/
def isBareChar (c : Char) : Bool :=
  c.isAlphanum || c == '_' || c == '+' || c == '-' || c == '.' || c == ':'

/-! ## Numbers -/

/-- The value of a digit below a base. -/
def digitValue? (base : Nat) (c : Char) : Option Nat :=
  (hexValue? c).filter (· < base)

/-- Digits of a base; an underscore may stand between two of them. -/
def digitRun? (base : Nat) : List Char → Option (List Nat)
  | [] => none
  | [c] => do
      let digit ← digitValue? base c
      some [digit]
  | c :: '_' :: rest => do
      let digit ← digitValue? base c
      let more ← digitRun? base rest
      some (digit :: more)
  | c :: rest => do
      let digit ← digitValue? base c
      let more ← digitRun? base rest
      some (digit :: more)

/-- Split off a sign; the flag says whether it is a minus. -/
def splitSign : List Char → Bool × List Char
  | '+' :: rest => (false, rest)
  | '-' :: rest => (true, rest)
  | text => (false, text)

/-- Decimal digits without a superfluous leading zero. -/
def decimalRun? (text : List Char) : Option (List Nat) := do
  let digits ← digitRun? 10 text
  if text.head? = some '0' ∧ text ≠ ['0'] then none else some digits

/-- The signed 64-bit numbers. -/
def inIntegerRange (number : Int) : Bool :=
  -9223372036854775808 ≤ number && number ≤ 9223372036854775807

/-- An integer, decimal with an optional sign or with a base and no sign. -/
def integer? (token : List Char) : Option Int := do
  let number : Int ←
    match token with
    | '0' :: 'x' :: digits => (digitRun? 16 digits).map fun run => Int.ofNat (numeral 16 run)
    | '0' :: 'o' :: digits => (digitRun? 8 digits).map fun run => Int.ofNat (numeral 8 run)
    | '0' :: 'b' :: digits => (digitRun? 2 digits).map fun run => Int.ofNat (numeral 2 run)
    | _ =>
        let (negative, digits) := splitSign token
        (decimalRun? digits).map fun run =>
          if negative then -Int.ofNat (numeral 10 run) else Int.ofNat (numeral 10 run)
  if inIntegerRange number then some number else none

/-- Half a unit in the last place above the greatest finite double: what is not below
this rounds to infinity. -/
def overflowThreshold : Nat :=
  Nat.pow 2 1024 - Nat.pow 2 970

/-- Whether `mantissa * 10 ^ exponent` rounds to infinity. -/
def overflows (mantissa : Nat) (exponent : Int) : Bool :=
  if mantissa = 0 then
    false
  else
    let magnitude : Int := exponent + (Nat.toDigits 10 mantissa).length
    if magnitude ≤ 308 then
      false
    else if 310 ≤ magnitude then
      true
    else if 0 ≤ exponent then
      overflowThreshold ≤ mantissa * Nat.pow 10 exponent.toNat
    else
      overflowThreshold * Nat.pow 10 (-exponent).toNat ≤ mantissa

/-- Split at the first character that satisfies `stop`; the character itself is dropped. -/
def splitAtFirst (stop : Char → Bool) (text : List Char) : List Char × Option (List Char) :=
  match text.dropWhile (fun c => !stop c) with
  | [] => (text, none)
  | _ :: rest => (text.takeWhile (fun c => !stop c), some rest)

/-- An exponent: decimal digits after an optional sign. -/
def exponent? (text : List Char) : Option Int := do
  let (negative, digits) := splitSign text
  let run ← digitRun? 10 digits
  some (if negative then -Int.ofNat (numeral 10 run) else Int.ofNat (numeral 10 run))

/-- Whether a token is a float: an integer part, then a fraction or an exponent or both. -/
def isDecimalFloat (token : List Char) : Bool :=
  let (negative, unsigned) := splitSign token
  let (significand, power) := splitAtFirst (fun c => c == 'e' || c == 'E') unsigned
  let (whole, fraction) := splitAtFirst (· == '.') significand
  let parts : Option (List Nat × List Nat × Int) := do
    let wholeDigits ← decimalRun? whole
    let fractionDigits ←
      match fraction with
      | some digits => digitRun? 10 digits
      | none => some []
    let exponent ←
      match power with
      | some digits => exponent? digits
      | none => some 0
    some (wholeDigits, fractionDigits, exponent)
  match parts with
  | none => false
  | some (wholeDigits, fractionDigits, exponent) =>
      (fraction.isSome || power.isSome) &&
        (negative ||
          !overflows (numeral 10 (wholeDigits ++ fractionDigits))
            (exponent - fractionDigits.length))

def isSpecialFloat (token : List Char) : Bool :=
  let (_, name) := splitSign token
  name == ['i', 'n', 'f'] || name == ['n', 'a', 'n']

/-! ## Dates and times -/

/-- Exactly `width` decimal digits. -/
def fixedNumber (width : Nat) (text : List Char) : Option (Nat × List Char) := do
  let digits ← (text.take width).mapM (digitValue? 10)
  if digits.length = width then some (numeral 10 digits, text.drop width) else none

/-- The number of days of a month. -/
def daysInMonth (year month : Nat) : Nat :=
  if month = 2 then
    if year % 4 = 0 ∧ (year % 100 ≠ 0 ∨ year % 400 = 0) then 29 else 28
  else if month = 4 ∨ month = 6 ∨ month = 9 ∨ month = 11 then 30
  else 31

/-- A day of the calendar, as `year-month-day`. -/
def fullDate (text : List Char) : Option (List Char) := do
  let (year, text) ← fixedNumber 4 text
  let text ← expect '-' text
  let (month, text) ← fixedNumber 2 text
  let text ← expect '-' text
  let (day, text) ← fixedNumber 2 text
  if 1 ≤ month ∧ month ≤ 12 ∧ 1 ≤ day ∧ day ≤ daysInMonth year month then some text else none

/-- Hours and minutes, as `hours:minutes`. -/
def hoursMinutes (text : List Char) : Option (List Char) := do
  let (hours, text) ← fixedNumber 2 text
  let text ← expect ':' text
  let (minutes, text) ← fixedNumber 2 text
  if hours ≤ 23 ∧ minutes ≤ 59 then some text else none

/-- A time of day, with a leap second and a fraction of a second allowed. -/
def timeOfDay (text : List Char) : Option (List Char) := do
  let text ← hoursMinutes text
  let text ← expect ':' text
  let (seconds, text) ← fixedNumber 2 text
  if seconds ≤ 60 then
    match text with
    | '.' :: fraction =>
        if (fraction.head?).any Char.isDigit then some (fraction.dropWhile Char.isDigit)
        else none
    | _ => some text
  else
    none

/-- Whether a text is a time of day with an optional distance from universal time. -/
def isOffsetTime (text : List Char) : Bool :=
  match timeOfDay text with
  | none => false
  | some [] => true
  | some ['Z'] => true
  | some ['z'] => true
  | some (sign :: distance) =>
      (sign == '+' || sign == '-') && (hoursMinutes distance).any (·.isEmpty)

/-- Whether a token is a date, a time, or a date and a time joined by a letter. -/
def isDateTime (token : List Char) : Bool :=
  match fullDate token with
  | some [] => true
  | some (letter :: time) => (letter == 'T' || letter == 't') && isOffsetTime time
  | none => (timeOfDay token).any (·.isEmpty)

/-! ## All together -/

/-- The value that a whole token stands for. -/
def bareValue? (token : List Char) : Option Value :=
  if token = ['t', 'r', 'u', 'e'] then some (.boolean true)
  else if token = ['f', 'a', 'l', 's', 'e'] then some (.boolean false)
  else if isDateTime token then some (.dateTime (String.ofList token))
  else if isSpecialFloat token || isDecimalFloat token then some (.float (String.ofList token))
  else (integer? token).map .integer

/-- Whether a text goes on with a blank and then a digit: the time after a date. -/
def startsWithTime : List Char → Bool
  | ' ' :: c :: _ => c.isDigit
  | _ => false

/-- A value without quotes.  A blank may join a date and a time. -/
def bare (text : List Char) : Option (Value × List Char) :=
  let token := text.takeWhile isBareChar
  let rest := text.dropWhile isBareChar
  if (fullDate token).any (·.isEmpty) && startsWithTime rest then
    let time := (rest.drop 1).takeWhile isBareChar
    if isOffsetTime time then
      some (.dateTime (String.ofList (token ++ ' ' :: time)), rest.drop (1 + time.length))
    else
      none
  else
    (bareValue? token).map fun value => (value, rest)

end Toml
end CallResolution
