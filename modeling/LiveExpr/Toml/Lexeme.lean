import LiveExpr.Number.Reading
import LiveExpr.Toml.Tree

/-!
The smallest parts of a TOML document: blanks and comments, quoted texts, keys,
and the words that stand for numbers and booleans. A reader takes what it reads
from the front of the remaining characters, or fails. Every round of a reader's loop
takes a character, so a number above the length of the document bounds them all.
-/
namespace LiveExpr.Toml

abbrev Reader (α : Type) := ReaderT Nat (StateT (List Char) Option) α

/-- The bound on the rounds of a loop. -/
def budget : Reader Nat := read

/-- Reads from the start of a document. -/
def Reader.parse {α : Type} (r : Reader α) (cs : List Char) : Option α :=
  ((r.run (cs.length + 1)).run cs).map Prod.fst

def peek : Reader (Option Char) := do return (← get).head?

def takeWhile (p : Char → Bool) : Reader (List Char) :=
  modifyGet fun cs => (cs.takeWhile p, cs.dropWhile p)

/-- Takes the given characters, or takes nothing and says so. -/
def accept (s : String) : Reader Bool := do
  let cs ← get
  if s.toList.isPrefixOf cs then
    set (cs.drop s.toList.length)
    return true
  else return false

def expect (s : String) : Reader Unit := do
  if !(← accept s) then failure

def isIndent (c : Char) : Bool := c == ' ' || c == '\t'

def skipIndent : Reader Unit := do
  let _ ← takeWhile isIndent

/-- Control characters other than the tab stand nowhere in a document. -/
def isPlain (c : Char) : Bool := c == '\t' || (' ' ≤ c && c != '\x7f')

def acceptNewline : Reader Bool := do
  if ← accept "\n" then return true else accept "\r\n"

def skipComment : Reader Unit := do
  if ← accept "#" then
    let _ ← takeWhile isPlain

/-- What follows the blanks and line ends in front. -/
def dropLines : List Char → List Char
  | '\n' :: rest => dropLines rest
  | '\r' :: '\n' :: rest => dropLines rest
  | c :: rest => if isIndent c then dropLines rest else c :: rest
  | [] => []

/-- What follows the blanks, line ends and comments in front; a comment may have begun already. -/
def dropGap : Bool → List Char → List Char
  | _, '\n' :: rest => dropGap false rest
  | _, '\r' :: '\n' :: rest => dropGap false rest
  | true, c :: rest => if isPlain c then dropGap true rest else c :: rest
  | false, c :: rest =>
    if c = '#' then dropGap true rest else if isIndent c then dropGap false rest else c :: rest
  | _, [] => []

/-- What may stand between the elements of an array. -/
def skipGap : Reader Unit := modify (dropGap false)

def hexDigit? (c : Char) : Option Nat :=
  if '0' ≤ c ∧ c ≤ '9' then some (c.toNat - '0'.toNat)
  else if 'a' ≤ c ∧ c ≤ 'f' then some (c.toNat - 'a'.toNat + 10)
  else if 'A' ≤ c ∧ c ≤ 'F' then some (c.toNat - 'A'.toNat + 10)
  else none

/-- A character given by the hexadecimal digits of its code point. -/
def codePoint (width : Nat) : Reader Char := do
  let cs ← get
  let ds := cs.take width
  set (cs.drop width)
  if ds.length ≠ width then failure
  let n ← (ds.foldlM (fun n c => (hexDigit? c).map (16 * n + ·)) 0 : Option Nat)
  if n.isValidChar then return Char.ofNat n else failure

/-- What stands after a backslash. -/
def escaped : Reader Char := do
  match ← get with
  | [] => failure
  | c :: rest =>
    set rest
    match c with
    | 'b' => return '\x08'
    | 't' => return '\t'
    | 'n' => return '\n'
    | 'f' => return '\x0c'
    | 'r' => return '\r'
    | '"' => return '"'
    | '\\' => return '\\'
    | 'u' => codePoint 4
    | 'U' => codePoint 8
    | _ => failure

/-- A backslash at the end of a line, if that is what stands here, goes with the blanks and line
ends after it. -/
def lineJoin : Reader Bool := do
  let cs ← get
  match cs.dropWhile isIndent with
  | '\n' :: rest =>
    set (dropLines rest)
    return true
  | '\r' :: '\n' :: rest =>
    set (dropLines rest)
    return true
  | _ => return false

/-- The rest of a text on one line, up to its closing quote. -/
def quotedLine (quote : Char) : Nat → List Char → Reader String
  | 0, _ => failure
  | fuel + 1, seen => do
    match ← get with
    | [] => failure
    | c :: rest =>
      set rest
      if c = quote then return String.ofList seen.reverse
      else if c = '\\' ∧ quote = '"' then quotedLine quote fuel ((← escaped) :: seen)
      else if isPlain c then quotedLine quote fuel (c :: seen)
      else failure

/-- The rest of a text over several lines. Up to two quotes may stand right before the three that
close it. -/
def quotedLines (quote : Char) : Nat → List Char → Reader String
  | 0, _ => failure
  | fuel + 1, seen => do
    if ← acceptNewline then quotedLines quote fuel ('\n' :: seen)
    else
      match ← get with
      | [] => failure
      | c :: rest =>
        set rest
        if c = quote then
          let run := (c :: rest).takeWhile (· == quote)
          if run.length < 3 then quotedLines quote fuel (c :: seen)
          else if run.length ≤ 5 then
            set ((c :: rest).drop run.length)
            return String.ofList (List.replicate (run.length - 3) quote ++ seen).reverse
          else failure
        else if c = '\\' ∧ quote = '"' then
          if ← lineJoin then quotedLines quote fuel seen
          else quotedLines quote fuel ((← escaped) :: seen)
        else if isPlain c then quotedLines quote fuel (c :: seen)
        else failure

def text (quote : Char) : Reader String := do
  let fuel ← budget
  if ← accept (String.ofList [quote, quote, quote]) then
    let _ ← acceptNewline
    quotedLines quote fuel []
  else
    expect (String.ofList [quote])
    quotedLine quote fuel []

def isBareKey (c : Char) : Bool := c.isAlphanum || c == '_' || c == '-'

def keyPart : Reader String := do
  match ← peek with
  | some '"' => expect "\""; quotedLine '"' (← budget) []
  | some '\'' => expect "'"; quotedLine '\'' (← budget) []
  | _ =>
    let cs ← takeWhile isBareKey
    if cs.isEmpty then failure
    return String.ofList cs

def keyParts : Nat → List String → Reader (List String)
  | 0, _ => failure
  | fuel + 1, before => do
    skipIndent
    let part ← keyPart
    skipIndent
    if ← accept "." then keyParts fuel (part :: before)
    else return (part :: before).reverse

/-- How many parts a key may have. -/
def mostParts : Nat := 79

/-- A key as the path to a table and the name in it. -/
def key : Reader (List String × String) := do
  let parts ← keyParts (← budget) []
  if mostParts < parts.length then failure
  match parts.getLast? with
  | some name => return (parts.dropLast, name)
  | none => failure

/-- Digits with single underscores between them. -/
def ungroup (isDigit : Char → Bool) : List Char → Option (List Char)
  | [] => none
  | [c] => if isDigit c then some [c] else none
  | c :: '_' :: rest => if isDigit c then (ungroup isDigit rest).map (c :: ·) else none
  | c :: rest => if isDigit c then (ungroup isDigit rest).map (c :: ·) else none

/-- Integers have 64 bits. -/
def inRange (n : Int) : Option Int :=
  if -9223372036854775808 ≤ n ∧ n ≤ 9223372036854775807 then some n else none

def isBelow (base : Nat) (c : Char) : Bool := (hexDigit? c).any (· < base)

def radixInteger (base : Nat) (cs : List Char) : Option Int := do
  let ds ← ungroup (isBelow base) cs
  inRange (ds.foldl (fun n c => base * n + (hexDigit? c).getD 0) 0 : Nat)

/-- The digits of a decimal integer, which has no zeros in front. -/
def decimalDigits (cs : List Char) : Option (List Char) := do
  let ds ← ungroup Number.isDigit cs
  if ds.head? = some '0' ∧ 1 < ds.length then none else some ds

def integer? (cs : List Char) : Option Int :=
  match cs with
  | '0' :: 'x' :: rest => radixInteger 16 rest
  | '0' :: 'o' :: rest => radixInteger 8 rest
  | '0' :: 'b' :: rest => radixInteger 2 rest
  | _ => do
    let (negative, rest) := Number.splitSign cs
    let n := Number.digitsValue (← decimalDigits rest)
    inRange (if negative then -n else n)

/-- Whether the part of a float behind its integer digits is well formed. -/
def isFloatTail (cs : List Char) : Bool :=
  let (mantissa, power) := (cs.takeWhile fun c => c != 'e' && c != 'E',
    cs.dropWhile fun c => c != 'e' && c != 'E')
  let fractionOk := match mantissa with
    | [] => !power.isEmpty
    | '.' :: ds => (ungroup Number.isDigit ds).isSome
    | _ => false
  let powerOk := match power with
    | [] => true
    | _ :: ds => (ungroup Number.isDigit (Number.splitSign ds).2).isSome
  fractionOk && powerOk

/-- A float has a fraction or an exponent, or is one of the two special words. -/
def float? (cs : List Char) : Option Float := do
  let (_, magnitude) := Number.splitSign cs
  if magnitude = ['i', 'n', 'f'] ∨ magnitude = ['n', 'a', 'n'] then
    Number.read (String.ofList cs)
  else
    let isInside := fun c : Char => Number.isDigit c || c == '_'
    let _ ← decimalDigits (magnitude.takeWhile isInside)
    if isFloatTail (magnitude.dropWhile isInside) then
      let x ← Number.read (String.ofList (cs.filter (· != '_')))
      if x == Float.ofBits 0x7FF0000000000000 then none else some x
    else none

def isWordChar (c : Char) : Bool := isBareKey c || c == '+' || c == '.'

/-- A number or a boolean. -/
def scalar : Reader Value := do
  let cs ← takeWhile isWordChar
  if cs = ['t', 'r', 'u', 'e'] then return .boolean true
  else if cs = ['f', 'a', 'l', 's', 'e'] then return .boolean false
  else
    match integer? cs with
    | some n => return .integer n
    | none => return .float (← (float? cs : Option Float))

end LiveExpr.Toml
