import Columnlet.Yaml.BlockScalar
import Columnlet.Yaml.Token

/-!
From the characters of a text to its tokens. Two things are told only by what follows: that a node
is a key, by the colon behind it, and that a collection by indentation is over, by a line that is
indented less. So the lexer keeps the last node that could be a key, and the margins of the
collections that are open.
-/

namespace Columnlet.Yaml

/-- A node that is a key if a colon follows it: where it begins, in the text and among the tokens,
and whether it has to be one. -/
structure Candidate where
  mark : Mark
  position : Nat
  required : Bool

/-- The most bytes from the start of a key to its colon. -/
def maxKey : Nat := 1024

/-- Whether a candidate is too far back to be a key: on another line, or behind too many bytes. -/
def Candidate.isStale (c : Candidate) (m : Mark) : Bool :=
  c.mark.line < m.line || c.mark.index + maxKey < m.index

/-- How far a text has been read, and the tokens so far, the latest first. -/
structure Lexer where
  rest : List Char
  mark : Mark := {}
  tokens : List Token := []
  /-- The number of tokens so far. -/
  count : Nat := 0
  /-- Whether a key or a collection by indentation may begin here. -/
  fresh : Bool := true
  /-- One more than the column of the innermost collection by indentation; zero if there is none. -/
  margin : Nat := 0
  /-- The margins of the collections around it, inside out. -/
  outerMargins : List Nat := []
  candidate : Option Candidate := none
  /-- The candidates around each pair of brackets that is open, inside out. -/
  outerCandidates : List (Option Candidate) := []

namespace Lexer

/-- Whether a pair of brackets is open, so that indentation does not count. -/
def flow (s : Lexer) : Bool := !s.outerCandidates.isEmpty

/-- Add a token. -/
def push (s : Lexer) (t : Token) : Lexer :=
  { s with tokens := t :: s.tokens, count := s.count + 1 }

/-- Add a token in front of those from a position on. -/
def insert (s : Lexer) (position : Nat) (t : Token) : Lexer :=
  { s with tokens := s.tokens.insertIdx (s.count - position) t, count := s.count + 1 }

/-- Go over characters of one line. -/
def skip (s : Lexer) (count : Nat) : Lexer :=
  { s with rest := s.rest.drop count, mark := s.mark.behind (s.rest.take count) }

/-! ## Between tokens -/

/-- Go over the byte order mark at the start of a line, blanks, comments and ends of lines. Where a
collection by indentation may begin, tabs are not gone over. -/
def gapFrom (flow fresh comment : Bool) (m : Mark) : List Char → Read Bool
  | [] => ⟨fresh, m, []⟩
  | c :: rest =>
    if isBreak c then gapFrom flow (fresh || !flow) false m.newline rest
    else if comment then gapFrom flow fresh true (m.after c) rest
    else if (c = byteOrderMark && m.column = 0) || c = ' ' || (c = '\t' && (flow || !fresh)) then
      gapFrom flow fresh false (m.after c) rest
    else if c = '#' then gapFrom flow fresh true (m.after c) rest
    else ⟨fresh, m, c :: rest⟩

/-- Go to the next token. -/
def skipGap (s : Lexer) : Lexer :=
  let gap := gapFrom s.flow s.fresh false s.mark s.rest
  { s with rest := gap.rest, mark := gap.mark, fresh := gap.value }

/-! ## Keys -/

/-- Give up the candidate, unless it has to be a key. -/
def forget (s : Lexer) : Option Lexer :=
  if s.candidate.any (·.required) then none else some { s with candidate := none }

/-- Give up a candidate that is too far back. -/
def forgetStale (s : Lexer) : Option Lexer :=
  if s.candidate.any (·.isStale s.mark) then s.forget else some s

/-- Make the node that begins here the candidate, if a key may begin here. At the margin of a
collection by indentation it has to be one. -/
def remember (s : Lexer) : Option Lexer :=
  if s.fresh then
    let candidate : Candidate := {
      mark := s.mark
      position := s.count
      required := !s.flow && s.margin = s.mark.column + 1 }
    s.forget.map fun s => { s with candidate := some candidate }
  else some s

/-! ## Indentation -/

/-- Begin a collection by indentation at a column and at a place among the tokens, if it is
indented more than the one around it. -/
def indent (s : Lexer) (column position : Nat) (t : Token) : Lexer :=
  if s.flow || column < s.margin then s
  else { s.insert position t with margin := column + 1, outerMargins := s.margin :: s.outerMargins }

/-- End the collections whose margin is greater than the given one; the margins around them are
taken from a list. -/
def dedentFrom (s : Lexer) (bound : Nat) : List Nat → Lexer
  | [] => { s with outerMargins := [] }
  | outer :: more =>
    if bound < s.margin then { s.push .blockEnd with margin := outer }.dedentFrom bound more
    else { s with outerMargins := outer :: more }

/-- End the collections whose margin is greater than the given one, outside of brackets. -/
def dedent (s : Lexer) (bound : Nat) : Lexer :=
  if s.flow then s else s.dedentFrom bound s.outerMargins

/-! ## Punctuation -/

/-- A directive, which takes the whole line. -/
def directive? (s : Lexer) : Option Lexer := do
  let s ← (s.dedent 0).forget
  let line := takeFront (!isBreak ·) (s.rest.drop 1)
  let directive ← Yaml.directive? line.value
  let s := { s.push (.directive directive) with fresh := false }.skip (line.count + 1)
  match s.rest with
  | [] => return s
  | _ :: rest => return { s with rest, mark := s.mark.newline }

/-- The marker of a document. -/
def marker? (s : Lexer) (t : Token) : Option Lexer := do
  let s ← (s.dedent 0).forget
  return { (s.push t).skip 3 with fresh := false }

/-- An opening bracket, which may begin a key. -/
def openFlow? (s : Lexer) (t : Token) : Option Lexer := do
  let s ← s.remember
  return { (s.push t).skip 1 with
    fresh := true
    candidate := none
    outerCandidates := s.candidate :: s.outerCandidates }

/-- A closing bracket. -/
def closeFlow? (s : Lexer) (t : Token) : Option Lexer := do
  let s ← s.forget
  let s := { (s.push t).skip 1 with fresh := false }
  match s.outerCandidates with
  | [] => return s
  | candidate :: outerCandidates => return { s with candidate, outerCandidates }

/-- A comma. -/
def comma? (s : Lexer) : Option Lexer := do
  let s ← s.forget
  return { (s.push .comma).skip 1 with fresh := true }

/-- The dash in front of an item. -/
def dash? (s : Lexer) : Option Lexer := do
  if !s.flow && !s.fresh then none
  let s ← (s.indent s.mark.column s.count .blockSequence).forget
  return { (s.push .dash).skip 1 with fresh := true }

/-- The question mark in front of a key. -/
def key? (s : Lexer) : Option Lexer := do
  if !s.flow && !s.fresh then none
  let s ← (s.indent s.mark.column s.count .blockMapping).forget
  return { (s.push .key).skip 1 with fresh := !s.flow }

/-- The colon in front of a value. If there is a candidate, it is the key. -/
def value? (s : Lexer) : Option Lexer :=
  match s.candidate with
  | some key =>
    let s := { s.insert key.position .key with candidate := none }
    let s := s.indent key.mark.column key.position .blockMapping
    some { (s.push .value).skip 1 with fresh := false }
  | none =>
    if !s.flow && !s.fresh then none
    else
      let s := s.indent s.mark.column s.count .blockMapping
      some { (s.push .value).skip 1 with fresh := !s.flow }

/-! ## Nodes -/

/-- A node within a line, which may be a key or the front of one. -/
def property? {α : Type} (s : Lexer) (read : List Char → Option (Taken α)) (t : α → Token) :
    Option Lexer := do
  let s ← s.remember
  let taken ← read (s.rest.drop 1)
  return { (s.push (t taken.value)).skip (taken.count + 1) with fresh := false }

/-- A tag, which ends at a blank or, inside brackets, at a comma. -/
def tag? (s : Lexer) : Option Lexer :=
  s.property? (fun cs => (Yaml.tag? cs).filter (endsTag s.flow ·.rest)) .tag

/-- The state behind a scalar that has been read. -/
def scalar (s : Lexer) (style : Style) (r : Read String) : Lexer :=
  { s.push (.scalar style r.value) with rest := r.rest, mark := r.mark }

/-- A block scalar, which is no key; a line begins behind it. -/
def block? (s : Lexer) (style : Style) : Option Lexer := do
  let s ← s.forget
  let r ← blockScalar? (style = .literal) s.margin (s.mark.behind (s.rest.take 1)) (s.rest.drop 1)
  return { s.scalar style r with fresh := true }

/-- A scalar in quotes. -/
def quoted? (s : Lexer) (read : Mark → List Char → Option (Read String)) : Option Lexer := do
  let s ← s.remember
  let r ← read (s.mark.behind (s.rest.take 1)) (s.rest.drop 1)
  return { s.scalar .quoted r with fresh := false }

/-- A bare scalar. If the gap behind it ended a line, a line begins behind it. -/
def bare? (s : Lexer) : Option Lexer := do
  if !startsBare s.flow s.rest then none
  let s ← s.remember
  let r ← bareFrom s.flow s.margin [] {} s.mark s.rest
  return { s.scalar .bare (r.map (·.1)) with fresh := r.value.2 }

/-! ## Texts -/

/-- Read the token that begins here. -/
def token? (s : Lexer) : Option Lexer :=
  match s.rest with
  | [] => none
  | c :: rest =>
    if s.mark.column = 0 && c = '%' then s.directive?
    else if s.mark.atMarker s.rest then
      s.marker? (if c = '-' then .documentStart else .documentEnd)
    else
      match c with
      | '[' => s.openFlow? .flowSequence
      | '\x7b' => s.openFlow? .flowMapping
      | ']' => s.closeFlow? .flowSequenceEnd
      | '\x7d' => s.closeFlow? .flowMappingEnd
      | ',' => s.comma?
      | '-' => if endsWord rest then s.dash? else s.bare?
      | '?' => if s.flow || endsWord rest then s.key? else s.bare?
      | ':' => if s.flow || endsWord rest then s.value? else s.bare?
      | '*' => s.property? anchorName? .alias
      | '&' => s.property? anchorName? .anchor
      | '!' => s.tag?
      | '|' => if s.flow then none else s.block? .literal
      | '>' => if s.flow then none else s.block? .folded
      | '\x27' => s.quoted? (singleFrom [] {})
      | '"' => s.quoted? (doubleFrom [] {} none)
      | _ => s.bare?

/-- The tokens of a text that is read up to its end. -/
def finish (s : Lexer) : Option (List Token) := (s.dedent 0).forget.map (·.tokens.reverse)

/-- Read tokens up to the end of a text; each takes a character at least. -/
def readFrom (fuel : Nat) (s : Lexer) : Option (List Token) :=
  match fuel with
  | 0 => none
  | fuel + 1 =>
    match s.skipGap.forgetStale with
    | none => none
    | some s =>
      let s := s.dedent (s.mark.column + 1)
      if s.rest.isEmpty then s.finish
      else
        match s.token? with
        | none => none
        | some s => readFrom fuel s

end Lexer

/-- The tokens of a text, if it consists of tokens. -/
def tokens? (text : String) : Option (List Token) :=
  let cs := text.toList
  if cs.all isAllowed then
    let rest := unifyBreaks cs
    Lexer.readFrom (rest.length + 1) { rest }
  else none

end Columnlet.Yaml
