import LiveExpr.Number.Digits
import LiveExpr.Text.Split

/-!
Identifiers that a producer hands out for its own entities, written
`@tag-kind-index`. The tag ends at the first dash and the index starts after the
last one, so a kind may contain dashes itself.
-/
namespace LiveExpr

structure Identifier where
  tag : String
  kind : String
  index : UInt32
deriving DecidableEq, Repr

namespace Identifier

inductive ParseError where
  | missingSigil
  | shape (text : String)
  | index (text : String)
deriving DecidableEq, Repr

def ParseError.message : ParseError → String
  | .missingSigil => "synthetic id must start with '@'"
  | .shape text => "synthetic id '" ++ text ++ "' is not of the form @tag-kind-index"
  | .index text => "synthetic id index '" ++ text ++ "' is not a number"

def chars (id : Identifier) : List Char :=
  '@' :: id.tag.toList ++ '-' :: id.kind.toList ++ '-' :: Number.decimalText id.index.toNat

def render (id : Identifier) : String := String.ofList id.chars

/-- The tag, the kind and the digits of the index, none of them checked yet. -/
def fields? (body : List Char) : Option (List Char × List Char × List Char) := do
  let (tag, rest) ← Text.splitFirst? '-' body
  let (kind, index) ← Text.splitLast? '-' rest
  if tag.isEmpty || kind.isEmpty then none else some (tag, kind, index)

def parse (s : String) : Except ParseError Identifier :=
  match s.toList with
  | '@' :: body =>
    match fields? body with
    | none => .error (.shape s)
    | some (tag, kind, index) =>
      match Number.readIndex? index with
      | some n => .ok ⟨String.ofList tag, String.ofList kind, n⟩
      | none => .error (.index (String.ofList index))
  | _ => .error .missingSigil

/-- Whether a text starts as the identifiers of the tag do. -/
def hasTag (s tag : String) : Bool := ('@' :: tag.toList ++ ['-']).isPrefixOf s.toList

end Identifier

end LiveExpr
