import LiveExpr.Limits
import LiveExpr.Toml.Document

/-!
The limits of an engine as read from a configuration file. The file has one table
`vm` with any of the three limits; what it leaves out has its standard value, and
what it does not know is refused. The table may also be given as an array of the
limits in order, of which further elements are ignored.
-/
namespace LiveExpr.Settings

inductive Error where
  /-- The file cannot be found. -/
  | missing
  /-- The file is not UTF-8 text. -/
  | notText
  /-- The text is no TOML document of the right shape. -/
  | malformed
  | invalid (cause : Limits.Invalid)
deriving DecidableEq

def natural : Toml.Value → Option Nat
  | .integer n => if 0 ≤ n then some n.toNat else none
  | _ => none

def setField (l : Limits) : String × Toml.Value → Option Limits
  | ("max_stack", v) => (natural v).map fun n => { l with maxStack := n }
  | ("max_call_depth", v) => (natural v).map fun n => { l with maxCallDepth := n }
  | ("instruction_budget", v) => (natural v).map fun n => { l with instructionBudget := n }
  | _ => none

def limits : Toml.Value → Option Limits
  | .table entries => entries.foldlM setField .standard
  | .array items =>
    (["max_stack", "max_call_depth", "instruction_budget"].zip items).foldlM setField .standard
  | _ => none

def document : List (String × Toml.Value) → Option Limits
  | [] => some .standard
  | [("vm", v)] => limits v
  | _ => none

def read (s : String) : Except Error Limits :=
  match (Toml.read s).bind document with
  | none => .error .malformed
  | some l => l.check.mapError .invalid

/-- The settings in the bytes of a file, if there is one. -/
def load : Option ByteArray → Except Error Limits
  | none => .error .missing
  | some bytes =>
    match String.fromUTF8? bytes with
    | none => .error .notText
    | some s => read s

end LiveExpr.Settings
