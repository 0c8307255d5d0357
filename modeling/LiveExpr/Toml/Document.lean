import LiveExpr.Toml.Lexeme

/-!
Reading a TOML document line by line: headers, which choose the table that the
following lines add to, and keys with their values. Values nest to a fixed depth.
-/
namespace LiveExpr.Toml

/-- How deep arrays and inline tables may nest. -/
def deepest : Nat := 79

/-- The elements of an array behind its opening bracket, each read by `element`. -/
def elements (element : Reader Value) : Nat → List Value → Reader (List Value)
  | 0, _ => failure
  | fuel + 1, before => do
    skipGap
    if ← accept "]" then return before.reverse
    let v ← element
    skipGap
    if ← accept "," then elements element fuel (v :: before)
    else
      expect "]"
      return (v :: before).reverse

def assignment (element : Reader Value) : Reader (List String × String × Value) := do
  let (path, name) ← key
  expect "="
  skipIndent
  let v ← element
  return (path, name, v)

/-- The assignments of an inline table behind its opening brace; the last one has no comma. -/
def assignments (element : Reader Value) : Nat → Entries → Reader Entries
  | 0, _ => failure
  | fuel + 1, before => do
    let (path, name, v) ← assignment element
    let entries ← (put path name v .header before : Option Entries)
    skipIndent
    if ← accept "," then assignments element fuel entries
    else
      expect "\x7d"
      return entries

/-- A value that holds no other values. -/
def simple : Reader Value := do
  match ← peek with
  | some '"' => return .text (← text '"')
  | some '\'' => return .text (← text '\'')
  | _ => scalar

/-- A value in which arrays and inline tables nest at most `depth` deep. -/
def valueWithin : Nat → Reader Value
  | 0 => simple
  | depth + 1 => do
    match ← peek with
    | some '[' =>
      expect "["
      return .array (← elements (valueWithin depth) (← budget) [])
    | some '\x7b' =>
      expect "\x7b"
      skipIndent
      if ← accept "\x7d" then return .table []
      return .table (entriesValue (← assignments (valueWithin depth) (← budget) []))
    | _ => simple

/-- The tables read so far and the path of the header that is in force. -/
structure Draft where
  entries : Entries
  header : List String

/-- The header of a table, or of one more table of a name. -/
def header (d : Draft) : Reader Draft := do
  let repeated ← accept "[["
  if !repeated then expect "["
  let (path, name) ← key
  expect (if repeated then "]]" else "]")
  let opened := if repeated then openElement path name d.entries else openTable path name d.entries
  return ⟨← (opened : Option Entries), path ++ [name]⟩

def line (d : Draft) : Reader Draft := do
  match ← peek with
  | none => return d
  | some '#' => return d
  | some '\n' => return d
  | some '\r' => return d
  | some '[' => header d
  | some _ =>
    let (path, name, v) ← assignment (valueWithin deepest)
    return { d with entries := ← (putUnder d.header path name v d.entries : Option Entries) }

def lines : Nat → Draft → Reader Draft
  | 0, _ => failure
  | fuel + 1, d => do
    skipIndent
    let d ← line d
    skipIndent
    skipComment
    if ← acceptNewline then lines fuel d
    else
      match ← peek with
      | none => return d
      | some _ => failure

/-- The top-level entries of a document, if it is well formed. A byte order mark may lead it. -/
def read (s : String) : Option (List (String × Value)) := do
  let cs := match s.toList with
    | '\uFEFF' :: rest => rest
    | cs => cs
  let d ← (do lines (← budget) ⟨[], []⟩ : Reader Draft).parse cs
  some (entriesValue d.entries)

end LiveExpr.Toml
