import ACGlass.Shell.Quoting

/-!
# Simple commands of bash

Words, assignments in front of them, tilde and parameter expansion, and the splitting of what
is expanded. Commands with operators or with another kind of expansion have no result.
-/

namespace ACGlass
namespace Shell

/-- The values of parameters, and the home directories for login names; the empty name stands
for the user's own. -/
structure State where
  param : Chars → Chars
  home : Chars → Option Chars

/-- An assignment; a target that ends in `+` is appended to. -/
def State.set (sh : State) (target value : Chars) : State :=
  let appends := target.getLast? = some '+'
  let name := if appends then target.dropLast else target
  let value := if appends then sh.param name ++ value else value
  { param := Function.update sh.param name value
    home := if name = ['H', 'O', 'M', 'E'] then Function.update sh.home [] (some value) else sh.home }

section Parameters

/-- Quoted in a way that leaves `$` and a backquote special. -/
def Quoting.opens : Quoting → Bool
  | .plain | .double => true
  | _ => false

def isNameStart (c : Char) : Bool := c.isAlpha || c = '_'

def isNameChar (c : Char) : Bool := c.isAlphanum || c = '_'

/-- The parameters of one character. -/
def isSpecial (c : Char) : Bool := c.isDigit || c ∈ ['#', '?', '$', '!', '-']

def isName : Chars → Bool
  | [] => false
  | c :: cs => isNameStart c && cs.all isNameChar

/-- What can stand between the braces of `${}`. -/
def isParameter (name : Chars) : Bool :=
  isName name || (!name.isEmpty && name.all Char.isDigit) || (name.length = 1 && name.all isSpecial)

/-- A mark that stands for itself, or a parameter. -/
inductive Piece
  | mark (m : Mark)
  | param (name : Chars) (q : Quoting)
  deriving DecidableEq, Repr

/-- Inside of what has been read of a parameter. -/
inductive Reading
  | text
  | dollar (q : Quoting)
  | name (q : Quoting) (name : Chars)
  | brace (q : Quoting) (name : Chars)
  deriving DecidableEq, Repr

def readText (ps : List Piece) (m : Mark) : Option (Reading × List Piece) :=
  match m with
  | .quote => some (.text, ps ++ [.mark m])
  | .char c q =>
    if q.opens = true ∧ c = '`' then none
    else if q.opens = true ∧ c = '$' then some (.dollar q, ps)
    else some (.text, ps ++ [.mark m])

/-- One mark behind the others; no result stands for an expansion of another kind. -/
def read : Reading → Mark → Option (Reading × List Piece)
  | .text, m => readText [] m
  | .dollar q, .quote => if q = .plain then none else readText [.mark (.char '$' q)] .quote
  | .dollar q, .char c q' =>
    if q' ≠ q then readText [.mark (.char '$' q)] (.char c q')
    else if isNameStart c then some (.name q [c], [])
    else if isSpecial c then some (.text, [.param [c] q])
    else if c = '{' then some (.brace q [], [])
    else if c ∈ ['@', '*', '(', '['] then none
    else readText [.mark (.char '$' q)] (.char c q')
  | .name q name, .quote => readText [.param name q] .quote
  | .name q name, .char c q' =>
    if q' = q ∧ isNameChar c = true then some (.name q (name ++ [c]), [])
    else readText [.param name q] (.char c q')
  | .brace _ _, .quote => none
  | .brace q name, .char c q' =>
    if q' ≠ q then none
    else if isNameChar c || isSpecial c then some (.brace q (name ++ [c]), [])
    else if c = '}' ∧ isParameter name = true then some (.text, [.param name q])
    else none

def readEnd : Reading → Option (List Piece)
  | .text => some []
  | .dollar q => some [.mark (.char '$' q)]
  | .name q name => some [.param name q]
  | .brace _ _ => none

def pieces : Reading → List Mark → Option (List Piece)
  | r, [] => readEnd r
  | r, m :: ms => (read r m).bind fun x => (pieces x.1 ms).map (x.2 ++ ·)

end Parameters

section Tildes

def Mark.plainChar : Mark → Option Char
  | .char c .plain => some c
  | _ => none

def slash : Mark := .char '/' .plain

/-- The login name behind a tilde, if no part of it is quoted. -/
def tildeName : List Mark → Option Chars
  | .char '~' .plain :: ms => (ms.takeWhile (· ≠ slash)).mapM Mark.plainChar
  | _ => none

def tilde (sh : State) (w : List Mark) : List Mark :=
  match (tildeName w).bind sh.home with
  | some dir => .quote :: dir.map (.char · .single) ++ w.tail.dropWhile (· ≠ slash)
  | none => w

/-- The parts of a value between unquoted colons. -/
def segments (ms : List Mark) : List (List Mark) := ms.splitOn (.char ':' .plain)

/-- In the value of an assignment a tilde may also follow a colon. -/
def tildes (sh : State) (ms : List Mark) : List Mark :=
  [.char ':' .plain].intercalate ((segments ms).map (tilde sh))

end Tildes

section Assignments

/-- What can stand in front of the `=`: a name or an element of an array, and a `+`. -/
def isTarget (t : Chars) : Bool :=
  let t := if t.getLast? = some '+' then t.dropLast else t
  let index := t.dropWhile isNameChar
  isName (t.takeWhile isNameChar) &&
    (index.isEmpty || (index.head? = some '[' && index.getLast? = some ']'))

def equals : Mark := .char '=' .plain

/-- The target and the value of an assignment. -/
def assignment (w : List Mark) : Option (Chars × List Mark) :=
  match w.dropWhile (· ≠ equals) with
  | [] => none
  | _ :: value =>
    ((w.takeWhile (· ≠ equals)).mapM Mark.plainChar).bind fun target =>
      if isTarget target then some (target, value) else none

/-- A word with its tildes; an argument that looks like an assignment is one in this. -/
def tildeWord (sh : State) (w : List Mark) : List Mark :=
  match assignment w with
  | some (target, value) =>
    target.map (.char · .plain) ++ equals :: tildes sh value
  | none => tilde sh w

/-- A tilde of the word may be expanded. -/
def hasTilde (w : List Mark) : Bool :=
  match assignment w with
  | some (_, value) => (segments value).any fun s => (tildeName s).isSome
  | none => (tildeName w).isSome

end Assignments

section Fields

/-- A character of a field, or a sign that the field is there although it may be empty. -/
inductive Glyph
  | quote
  | char (c : Char) (splits : Bool)
  deriving DecidableEq, Repr

def bashSpecials : List Char := ['$', '`', '"', '\\']

def bashText (w : List Mark) : Chars := w.flatMap (markText bashSpecials)

def Piece.glyphs (sh : State) : Piece → List Glyph
  | .mark .quote => [.quote]
  | .mark (.char c q) => (markText bashSpecials (.char c q)).map (.char · false)
  | .param name q => (sh.param name).map (.char · (q = .plain))

def Glyph.separates : Glyph → Bool
  | .char c true => c ∈ [' ', '\t', '\n']
  | _ => false

def Glyph.text : Glyph → Chars
  | .quote => []
  | .char c _ => [c]

def fields (gs : List Glyph) : List Chars :=
  ((gs.splitOnP Glyph.separates).filter (!·.isEmpty)).map fun g => g.flatMap Glyph.text

def expand (sh : State) (ms : List Mark) : Option (List Glyph) :=
  (pieces .text ms).map fun ps => ps.flatMap (Piece.glyphs sh)

def expandWord (sh : State) (w : List Mark) : Option (List Chars) :=
  (expand sh (tildeWord sh w)).map fields

def expandValue (sh : State) (ms : List Mark) : Option Chars :=
  (expand sh (tildes sh ms)).map fun gs => gs.flatMap Glyph.text

end Fields

/-- The assignments in front of a command, and its words. -/
structure Simple where
  assigns : List (Chars × Chars)
  argv : List Chars
  deriving DecidableEq, Repr

/-- Each assignment sees those in front of it. -/
def assign (sh : State) : List (List Mark) → Option (List (Chars × Chars))
  | [] => some []
  | w :: ws => do
    let (target, value) ← assignment w
    let value ← expandValue sh value
    let assigns ← assign (sh.set target value) ws
    return (target, value) :: assigns

def isAssignment (w : List Mark) : Bool := (assignment w).isSome

/-- The words are expanded before the assignments are made. -/
def command (sh : State) (ws : List (List Mark)) : Option Simple := do
  let argv ← (ws.dropWhile isAssignment).mapM (expandWord sh)
  let assigns ← assign sh (ws.takeWhile isAssignment)
  return ⟨assigns, argv.flatten⟩

def bashBlanks : List Char := [' ', '\t']

def isOperator : Mark → Bool
  | .char c .plain => c ∈ ['\n', ';', '|', '&', '<', '>', '(', ')']
  | _ => false

def isComment (w : List Mark) : Bool := w.head? = some (.char '#' .plain)

/-- The reserved words that begin another kind of command. -/
def reservedWords : List Chars :=
  [['!'], ['c', 'a', 's', 'e'], ['c', 'o', 'p', 'r', 'o', 'c'], ['d', 'o'],
    ['d', 'o', 'n', 'e'], ['e', 'l', 'i', 'f'], ['e', 'l', 's', 'e'], ['e', 's', 'a', 'c'],
    ['f', 'i'], ['f', 'o', 'r'], ['f', 'u', 'n', 'c', 't', 'i', 'o', 'n'], ['i', 'f'],
    ['s', 'e', 'l', 'e', 'c', 't'], ['t', 'h', 'e', 'n'], ['t', 'i', 'm', 'e'],
    ['u', 'n', 't', 'i', 'l'], ['w', 'h', 'i', 'l', 'e'], ['[', '['], ['{'], ['}']]

def isReserved (w : List Mark) : Bool :=
  (w.mapM Mark.plainChar).any reservedWords.contains

/-- The words of a simple command in front of a comment. -/
def bashWords (ms : List Mark) : Option (List (List Mark)) :=
  let ws := (words bashBlanks ms).takeWhile (!isComment ·)
  if ws.any (·.any isOperator) ∨ ws.head?.any isReserved = true then none else some ws

/-- What `bash -c` makes of a command. -/
def run (sh : State) (cmd : Chars) : Option Simple :=
  ((scan .plain cmd).bind bashWords).bind (command sh)

end Shell
end ACGlass
