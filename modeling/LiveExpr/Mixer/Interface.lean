import LiveExpr.Identifier

/-!
The three interfaces of an audio mixer: output sinks, input sources, and the
playback streams of client programs. Queries and commands start with the word of
an interface, then one separating character, then what is asked.
-/
namespace LiveExpr.Mixer

inductive Interface where
  | sink
  | source
  | client
deriving DecidableEq, Repr

/-- The tag of all identifiers of a mixer. -/
def tag : String := "mixer"

namespace Interface

def all : List Interface := [.sink, .source, .client]

def word : Interface → String
  | .sink => "sink"
  | .source => "source"
  | .client => "client"

def identifier (i : Interface) (index : UInt32) : Identifier := ⟨tag, i.word, index⟩

def read (s : String) : Except String Interface :=
  match all.find? fun i => i.word == s with
  | some i => .ok i
  | none => .error ("unknown mixer interface '" ++ s ++ "'")

/-- What follows the word of the interface and the separator behind it. -/
def after? (i : Interface) (s : String) : Option String :=
  let cs := s.toList
  let n := i.word.toList.length
  if i.word.toList.isPrefixOf cs then some (String.ofList (cs.drop (n + 1))) else none

/-- Any character separates, and so does the end of the text. -/
def split? (s : String) : Option (Interface × String) :=
  all.findSome? fun i => (i.after? s).map fun rest => (i, rest)

end Interface

end LiveExpr.Mixer
