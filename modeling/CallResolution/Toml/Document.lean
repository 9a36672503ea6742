import CallResolution.Toml.Bare
import CallResolution.Toml.Table

/-!
# TOML documents

Keys, arrays, inline tables, headers, and the document as a whole.  Arrays and
inline tables nest, and dotted keys are long, up to a fixed limit.
-/

namespace CallResolution
namespace Toml

/-- Nesting of values and length of dotted keys stay below this. -/
def nestingLimit : Nat := 80

/-! ## Keys -/

def isKeyChar (c : Char) : Bool :=
  c.isAlphanum || c == '_' || c == '-'

/-- One part of a key: quoted on one line, or without quotes. -/
def simpleKey : Reader String := fun text =>
  match quotedLine text with
  | some result => some result
  | none =>
      let name := text.takeWhile isKeyChar
      if name.isEmpty then none else some (String.ofList name, text.dropWhile isKeyChar)

/-- A point and the next part of a dotted key, blanks around both. -/
def keyTail : Reader String := fun text => do
  let rest ← expect '.' text
  let (part, rest) ← simpleKey (skipBlanks rest)
  some (part, skipBlanks rest)

/-- A key: the parts that lead to it, and its last part. -/
structure Key where
  path : List String
  last : String

/-- A key with the blanks around it. -/
def key (text : List Char) : Option (Key × List Char) := do
  let (first, rest) ← simpleKey (skipBlanks text)
  let (more, rest) := readMany keyTail (skipBlanks rest)
  let parts := first :: more
  if parts.length < nestingLimit then
    some (⟨parts.dropLast, parts.getLast?.getD first⟩, rest)
  else
    none

/-! ## Values -/

/-- A key, an equals sign, and a value. -/
def keyValue (value : Reader Value) : Reader (Key × Value) := fun text => do
  let (name, rest) ← key text
  let rest ← expect '=' rest
  let (content, rest) ← value (skipBlanks rest)
  some ((name, content), rest)

/-- A comma and another item. -/
def separated {α : Type} (item : Reader α) : Reader α := fun text => do
  let rest ← expect ',' text
  item rest

/-- An item of an array, with the space around it. -/
def arrayItem (value : Reader Value) : Reader Value := fun text => do
  let (content, rest) ← value (skipSpace false text)
  some (content, skipSpace false rest)

/-- An array, after its opening bracket.  A comma may follow the last item. -/
def arrayBody (value : Reader Value) : Reader Value := fun text =>
  match arrayItem value text with
  | none => do
      let rest ← expect ']' (skipSpace false text)
      some (.array [], rest)
  | some (first, rest) => do
      let (more, rest) := readMany (separated (arrayItem value)) rest
      let rest := ((expect ',' rest).map (skipSpace false)).getD rest
      let rest ← expect ']' rest
      some (.array (first :: more), rest)

/-- One entry of an inline table, with the blanks after it. -/
def inlineEntry (value : Reader Value) : Reader (Key × Value) := fun text => do
  let (entry, rest) ← keyValue value text
  some (entry, skipBlanks rest)

/-- The inline table of these entries. -/
def inlineTable? (entries : List (Key × Value)) : Option Value := do
  let table ← entries.foldlM
    (fun table (name, content) => OpenTable.insert name.path name.last content table)
    (OpenTable.empty .header)
  some (.table (closeEntries table.entries))

/-- An inline table, after its opening brace.  It stays on one line, and no comma
follows the last entry. -/
def inlineBody (value : Reader Value) : Reader Value := fun text => do
  let (entries, rest) :=
    match inlineEntry value text with
    | none => ([], skipBlanks text)
    | some (first, rest) =>
        let (more, rest) := readMany (separated (inlineEntry value)) rest
        (first :: more, rest)
  let rest ← expect '\x7d' rest
  let table ← inlineTable? entries
  some (table, rest)

/-- A value in which arrays and inline tables nest at most `depth` deep. -/
def value : Nat → Reader Value
  | _, [] => none
  | depth, c :: rest =>
      if c = quote ∨ c = apostrophe then
        (quoted (c :: rest)).map fun (text, rest) => (.string text, rest)
      else if c = '[' then
        match depth with
        | 0 => none
        | depth + 1 => arrayBody (value depth) rest
      else if c = '\x7b' then
        match depth with
        | 0 => none
        | depth + 1 => inlineBody (value depth) rest
      else
        bare (c :: rest)

/-! ## Lines -/

/-- A document while it is read: what has been built, and the path of the table that
the next keys belong to. -/
structure Draft where
  table : OpenTable
  current : List String

namespace Draft

/-- Nothing has been read. -/
def start : Draft where
  table := OpenTable.empty .header
  current := []

/-- Set a key of the current table. -/
def set (draft : Draft) (name : Key) (content : Value) : Option Draft := do
  let table ← draft.table.alter false (OpenTable.insert name.path name.last content) draft.current
  some { draft with table := table }

/-- Go on with the table that a header opens. -/
def openTable (draft : Draft) (name : Key) : Option Draft := do
  let path := name.path ++ [name.last]
  let table ← draft.table.openTable path
  some ⟨table, path⟩

/-- Go on with a new table of an array of tables. -/
def appendTable (draft : Draft) (name : Key) : Option Draft := do
  let path := name.path ++ [name.last]
  let table ← draft.table.appendTable path
  some ⟨table, path⟩

end Draft

/-- One line that is not blank: a comment, a header, or a key and its value. -/
def line (draft : Draft) (text : List Char) : Option (Draft × List Char) :=
  match text with
  | [] => some (draft, [])
  | '#' :: _ | '\n' :: _ | '\r' :: _ => (lineEnd text).map fun rest => (draft, rest)
  | '[' :: '[' :: header => do
      let (name, rest) ← key header
      let rest ← expect ']' rest
      let rest ← expect ']' rest
      let rest ← lineEnd rest
      let draft ← draft.appendTable name
      some (draft, rest)
  | '[' :: header => do
      let (name, rest) ← key header
      let rest ← expect ']' rest
      let rest ← lineEnd rest
      let draft ← draft.openTable name
      some (draft, rest)
  | _ => do
      let ((name, content), rest) ← keyValue (value (nestingLimit - 1)) text
      let rest ← lineEnd rest
      let draft ← draft.set name content
      some (draft, rest)

/-- Read at most `count` lines, which have to use the text up. -/
def lines : Nat → Draft → List Char → Option Draft
  | 0, draft, text => if text.isEmpty then some draft else none
  | count + 1, draft, text =>
      match skipBlanks text with
      | [] => some draft
      | c :: rest => do
          let (draft, rest) ← line draft (c :: rest)
          lines count draft rest

/-- Drop a byte order mark. -/
def dropMark : List Char → List Char
  | '\uFEFF' :: rest => rest
  | text => text

/-- The entries of a document, or nothing if it is not one.  A line takes at least one
character, so the length of the text bounds their number. -/
def parse? (document : String) : Option (List (String × Value)) := do
  let text := dropMark document.toList
  let draft ← lines text.length Draft.start text
  some (closeEntries draft.table.entries)

end Toml
end CallResolution
