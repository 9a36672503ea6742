/-!
# Reading characters

A reader takes what it needs from the front of a text and returns the rest, or
refuses.  Blanks, line ends and comments are read here; they are the same
everywhere in a document.
-/

namespace CallResolution
namespace Toml

/-- Read a value from the front of a text. -/
abbrev Reader (α : Type) := List Char → Option (α × List Char)

/-- Read as often as possible, at most `count` times. -/
def readUpTo {α : Type} (read : Reader α) : Nat → List Char → List α × List Char
  | 0, text => ([], text)
  | count + 1, text =>
      match read text with
      | none => ([], text)
      | some (a, rest) =>
          let (more, rest) := readUpTo read count rest
          (a :: more, rest)

/-- Read as often as possible.  Each reading takes at least one character, so the
length of the text bounds their number. -/
def readMany {α : Type} (read : Reader α) (text : List Char) : List α × List Char :=
  readUpTo read text.length text

/-- Read one given character. -/
def expect (c : Char) : List Char → Option (List Char)
  | [] => none
  | first :: rest => if first = c then some rest else none

/-! ## Blanks, line ends, comments -/

def isBlank (c : Char) : Bool :=
  c == ' ' || c == '\t'

def skipBlanks (text : List Char) : List Char :=
  text.dropWhile isBlank

/-- Characters that need no escape on one line, as far as control codes go. -/
def isPrintable (c : Char) : Bool :=
  c == '\t' || (0x20 ≤ c.toNat && c.toNat ≤ 0x7E) || 0x80 ≤ c.toNat

/-- A line ends with a line feed, before which one carriage return may stand. -/
def newline : List Char → Option (List Char)
  | '\n' :: rest => some rest
  | '\r' :: '\n' :: rest => some rest
  | _ => none

/-- The rest of a line after its contents: blanks, a comment, and the end of the line
or of the text. -/
def lineEnd (text : List Char) : Option (List Char) :=
  let text := skipBlanks text
  let text :=
    match text with
    | '#' :: comment => comment.dropWhile isPrintable
    | _ => text
  match text with
  | [] => some []
  | _ => newline text

/-- Skip blanks, line ends and comments.  `inComment` says whether the text starts
inside a comment. -/
def skipSpace : Bool → List Char → List Char
  | _, [] => []
  | inComment, c :: rest =>
      if inComment && isPrintable c then
        skipSpace true rest
      else if isBlank c || c == '\n' then
        skipSpace false rest
      else if c == '#' then
        skipSpace true rest
      else if c == '\r' then
        match rest with
        | '\n' :: tail => skipSpace false tail
        | _ => c :: rest
      else
        c :: rest

end Toml
end CallResolution
