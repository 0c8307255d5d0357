import LiveExpr.Table

/-!
The values of a TOML document and the tables under construction. A table is opened
by a header, by a dotted key, or only as part of the path to another table, and
the rules for adding to it depend on which. A table opened by a header is defined
once, and a table opened by dotted keys is closed to headers.
-/
namespace LiveExpr.Toml

inductive Value where
  | integer (n : Int)
  | float (x : Float)
  | text (s : String)
  | boolean (b : Bool)
  | array (items : List Value)
  | table (entries : List (String × Value))

inductive Origin where
  | header
  | dotted
  | implied
deriving DecidableEq

inductive Node where
  | leaf (v : Value)
  | table (origin : Origin) (entries : List (String × Node))
  /-- Tables of one name, the last one of which is still open. -/
  | tables (closed : List (List (String × Node))) (last : List (String × Node))

abbrev Entries := Table Node

mutual

def Node.value : Node → Value
  | .leaf v => v
  | .table _ entries => .table (entriesValue entries)
  | .tables closed last => .array (tablesValue closed ++ [.table (entriesValue last)])

def entriesValue : List (String × Node) → List (String × Value)
  | [] => []
  | (key, node) :: rest => (key, node.value) :: entriesValue rest

def tablesValue : List (List (String × Node)) → List Value
  | [] => []
  | entries :: rest => .table (entriesValue entries) :: tablesValue rest

end

/-- Changes the table at the end of a path, making tables of the given origin where there are none.
Dotted keys do not reach into tables that a header defined. -/
def within (made : Origin) (f : Origin → Entries → Option Entries) :
    List String → Origin → Entries → Option Entries
  | [], origin, entries => f origin entries
  | key :: path, _, entries =>
    match entries.get? key with
    | none => do
      let inner ← within made f path made []
      some (entries.set key (.table made inner))
    | some (.table origin inner) =>
      if made = .dotted ∧ origin = .header then none
      else do
        let inner ← within made f path origin inner
        some (entries.set key (.table origin inner))
    | some (.tables closed last) => do
      let last ← within made f path .header last
      some (entries.set key (.tables closed last))
    | some (.leaf _) => none

/-- Adds a value under a key of one or more parts; each key is defined once. -/
def put (path : List String) (key : String) (v : Value) (origin : Origin) (entries : Entries) :
    Option Entries :=
  within .dotted (fun origin entries =>
    if decide (origin = .dotted) == path.isEmpty || entries.contains key then none
    else some (entries.set key (.leaf v))) path origin entries

/-- Opens the table of a header. -/
def openTable (path : List String) (key : String) (entries : Entries) : Option Entries :=
  within .implied (fun _ entries =>
    match entries.get? key with
    | none => some (entries.set key (.table .header []))
    | some (.table .implied inner) => some (entries.set key (.table .header inner))
    | some _ => none) path .header entries

/-- Opens one more table of a name. -/
def openElement (path : List String) (key : String) (entries : Entries) : Option Entries :=
  within .implied (fun _ entries =>
    match entries.get? key with
    | none => some (entries.set key (.tables [] []))
    | some (.tables closed last) => some (entries.set key (.tables (closed ++ [last]) []))
    | some _ => none) path .header entries

/-- Adds a value to the table that was opened last. -/
def putUnder (header path : List String) (key : String) (v : Value) (entries : Entries) :
    Option Entries :=
  within .implied (put path key v) header .header entries

end LiveExpr.Toml
