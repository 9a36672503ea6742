import CallResolution.Toml.Reader

/-!
# Quoted strings

Four forms: basic and literal, each on one line or on several.  Basic strings know
escapes, literal strings do not.  On several lines a line end is read as a line
feed, the first one directly after the opening quotes is dropped, and up to two
quotes may stand next to the closing ones.
-/

namespace CallResolution
namespace Toml

def quote : Char := '\x22'

def apostrophe : Char := '\x27'

def backslash : Char := '\x5c'

/-- The value of a hexadecimal digit. -/
def hexValue? (c : Char) : Option Nat :=
  if '0' ≤ c ∧ c ≤ '9' then some (c.toNat - '0'.toNat)
  else if 'a' ≤ c ∧ c ≤ 'f' then some (c.toNat - 'a'.toNat + 10)
  else if 'A' ≤ c ∧ c ≤ 'F' then some (c.toNat - 'A'.toNat + 10)
  else none

/-- The number that digits of a base spell, most significant first. -/
def numeral (base : Nat) (digits : List Nat) : Nat :=
  digits.foldl (fun number digit => number * base + digit) 0

/-- A character given by exactly `width` hexadecimal digits. -/
def codePoint (width : Nat) (text : List Char) : Option (Char × List Char) := do
  let digits ← (text.take width).mapM hexValue?
  if digits.length = width then
    let code := numeral 16 digits
    if code.isValidChar then some (Char.ofNat code, text.drop width) else none
  else
    none

/-- What follows the backslash of an escape. -/
def escape : Reader Char
  | [] => none
  | c :: rest =>
      if c = 'b' then some ('\x08', rest)
      else if c = 't' then some ('\t', rest)
      else if c = 'n' then some ('\n', rest)
      else if c = 'f' then some ('\x0c', rest)
      else if c = 'r' then some ('\r', rest)
      else if c = quote then some (quote, rest)
      else if c = backslash then some (backslash, rest)
      else if c = 'u' then codePoint 4 rest
      else if c = 'U' then codePoint 8 rest
      else none

/-- A backslash at the end of a line: the line end and all blank space after it. -/
def foldedLine (text : List Char) : Option (List Char) := do
  let rest ← newline (skipBlanks text)
  some (skipFolded rest)
where
  /-- Skip blanks and line ends. -/
  skipFolded : List Char → List Char
    | [] => []
    | '\r' :: '\n' :: rest => skipFolded rest
    | c :: rest => if isBlank c || c == '\n' then skipFolded rest else c :: rest

/-- One character of a basic string. -/
def basicPiece : Reader (List Char)
  | [] => none
  | c :: rest =>
      if c = backslash then (escape rest).map fun (decoded, rest) => ([decoded], rest)
      else if c ≠ quote ∧ isPrintable c then some ([c], rest)
      else none

/-- One character of a literal string. -/
def literalPiece : Reader (List Char)
  | [] => none
  | c :: rest => if c ≠ apostrophe ∧ isPrintable c then some ([c], rest) else none

/-- A piece of a string on several lines: a piece of one line, a line end, or one or
two quotes that do not close the string. -/
def multilinePiece (mark : Char) (piece : Reader (List Char)) : Reader (List Char) := fun text =>
  match newline text with
  | some rest => some (['\n'], rest)
  | none =>
      let marks := text.takeWhile (· == mark)
      if marks.isEmpty then piece text
      else if marks.length < 3 then some (marks, text.drop marks.length)
      else none

/-- A piece of a basic string on several lines. -/
def multilineBasicPiece : Reader (List Char) := fun text =>
  match (expect backslash text).bind foldedLine with
  | some rest => some ([], rest)
  | none => multilinePiece quote basicPiece text

/-- A string on one line, after its opening quote. -/
def singleLine (mark : Char) (piece : Reader (List Char)) (text : List Char) :
    Option (String × List Char) := do
  let (pieces, rest) := readMany piece text
  let rest ← expect mark rest
  some (String.ofList pieces.flatten, rest)

/-- A string on several lines, after its opening quotes. -/
def multiline (mark : Char) (piece : Reader (List Char)) (text : List Char) :
    Option (String × List Char) :=
  let text := (newline text).getD text
  let (pieces, rest) := readMany piece text
  let marks := (rest.takeWhile (· == mark)).length
  if 3 ≤ marks then
    let extra := min (marks - 3) 2
    some (String.ofList (pieces.flatten ++ List.replicate extra mark), rest.drop (extra + 3))
  else
    none

/-- A quoted string on one line. -/
def quotedLine : Reader String
  | [] => none
  | c :: rest =>
      if c = quote then singleLine quote basicPiece rest
      else if c = apostrophe then singleLine apostrophe literalPiece rest
      else none

/-- A quoted string of any form. -/
def quoted (text : List Char) : Option (String × List Char) :=
  if text.take 3 = [quote, quote, quote] then
    multiline quote multilineBasicPiece (text.drop 3)
  else if text.take 3 = [apostrophe, apostrophe, apostrophe] then
    multiline apostrophe (multilinePiece apostrophe literalPiece) (text.drop 3)
  else
    quotedLine text

end Toml
end CallResolution
