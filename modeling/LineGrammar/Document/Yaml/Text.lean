/-
The text of scalars.  A document is a list of characters that know their line and
column.  Inside a scalar, a break between two lines becomes a space, and every
further break stays; blanks around breaks are dropped.
-/
import LineGrammar.Number.Hexadecimal

namespace LineGrammar

namespace Yaml

/-- A character at its place. -/
structure Placed where
  char : Char
  line : Nat
  column : Nat

def isBlank (char : Char) : Bool :=
  char == ' ' || char == '\t'

/-- A byte order mark means nothing where a line starts with it, and is a character
like any other elsewhere. -/
def isOrderMark (char : Char) : Bool :=
  char == '\ufeff'

def isBreak (char : Char) : Bool :=
  char == '\n' || char == '\u2028' || char == '\u2029'

def isPrintable (char : Char) : Bool :=
  let code := char.toNat
  code == 0x09 || code == 0x0a || code == 0x0d || (0x20 ≤ code && code ≤ 0x7e)
    || code == 0x85 || (0xa0 ≤ code && code ≤ 0xfffd) || 0x10000 ≤ code

/-- Write every break between lines as one character. -/
def unifyBreaks : List Char → List Char
  | '\r' :: '\n' :: rest => '\n' :: unifyBreaks rest
  | '\r' :: rest | '\u0085' :: rest => '\n' :: unifyBreaks rest
  | char :: rest => char :: unifyBreaks rest
  | [] => []

/-- Give the characters of a text their places. -/
def place (line column : Nat) : List Char → List Placed
  | [] => []
  | char :: rest =>
      ⟨char, line, column⟩ ::
        if isBreak char then place (line + 1) 0 rest else place line (column + 1) rest

/-- Whether a text is over or goes on with a blank or a break. -/
def blankAhead : List Placed → Bool
  | [] => true
  | here :: _ => isBlank here.char || isBreak here.char

/-- Whether a line starts with three equal marks that stand alone. -/
def isMarker (mark : Char) : List Placed → Bool
  | first :: second :: third :: rest =>
      first.column == 0 && first.char == mark && second.char == mark && third.char == mark
        && blankAhead rest
  | _ => false

def isDocumentMarker (text : List Placed) : Bool :=
  isMarker '-' text || isMarker '.' text

/-- A part of a scalar. -/
inductive Piece where
  | solid (char : Char)
  | blank (char : Char)
  | newline (char : Char)
  | joint
deriving DecidableEq, Repr

/-- The piece that a character stands for where it has no other meaning. -/
def Piece.ofChar (char : Char) : Piece :=
  if isBreak char then .newline char else if isBlank char then .blank char else .solid char

def Piece.isGap : Piece → Bool
  | blank _ | newline _ => true
  | solid _ | joint => false

/-- What has been met since the last solid piece: only blanks, which still count,
or a first break with the breaks that follow it.  After a joint there is no first
break. -/
inductive Gap where
  | blanks (reversed : List Char)
  | breaks (first : Option Char) (reversed : List Char)

def Gap.text : Gap → List Char
  | blanks reversed => reversed.reverse
  | breaks (some '\n') [] => [' ']
  | breaks (some '\n') reversed => reversed.reverse
  | breaks (some first) reversed => first :: reversed.reverse
  | breaks none reversed => reversed.reverse

def Gap.addBlank (char : Char) : Gap → Gap
  | blanks reversed => .blanks (char :: reversed)
  | breaks first reversed => .breaks first reversed

def Gap.addBreak (char : Char) : Gap → Gap
  | blanks _ => .breaks (some char) []
  | breaks first reversed => .breaks first (char :: reversed)

/-- The text that pieces make up. -/
def join : Gap → List Piece → List Char
  | gap, [] => gap.text
  | gap, .solid char :: rest => gap.text ++ char :: join (.blanks []) rest
  | gap, .joint :: rest => gap.text ++ join (.breaks none []) rest
  | gap, .blank char :: rest => join (gap.addBlank char) rest
  | gap, .newline char :: rest => join (gap.addBreak char) rest

/-- The text of pieces, of which the latest comes first. -/
def joinReversed (pieces : List Piece) : String :=
  String.ofList (join (.blanks []) pieces.reverse)

inductive Quote where
  | single
  | double
deriving DecidableEq, Repr

def Quote.mark : Quote → Char
  | single => '\''
  | double => '"'

/-- The character a letter after a backslash stands for. -/
def simpleEscape? : Char → Option Char
  | '0' => some '\x00'
  | 'a' => some '\x07'
  | 'b' => some '\x08'
  | 't' | '\t' => some '\t'
  | 'n' => some '\n'
  | 'v' => some '\x0b'
  | 'f' => some '\x0c'
  | 'r' => some '\r'
  | 'e' => some '\x1b'
  | ' ' => some ' '
  | '"' => some '"'
  | '/' => some '/'
  | '\\' => some '\\'
  | 'N' => some '\u0085'
  | '_' => some '\u00a0'
  | 'L' => some '\u2028'
  | 'P' => some '\u2029'
  | _ => none

/-- The number of hexadecimal digits after a letter that calls for them. -/
def codeWidth? : Char → Option Nat
  | 'x' => some 2
  | 'u' => some 4
  | 'U' => some 8
  | _ => none

/-- What the text after a backslash stands for, and its length. -/
def escape? : List Placed → Option (Piece × Nat)
  | [] => none
  | here :: rest =>
      if isBreak here.char then some (.joint, 1)
      else
        match codeWidth? here.char with
        | some width => do
            let digits := (rest.take width).map (·.char)
            if digits.length < width then none
            else
              let code ← Hexadecimal.number? digits
              if code.isValidChar then some (.solid (Char.ofNat code), width + 1) else none
        | none => do return (.solid (← simpleEscape? here.char), 1)

/-- The pieces up to a closing quote, latest first, given those before, and the text
after it.  The next `skip` characters belong to an escape. -/
def quoted (quote : Quote) : Nat → List Piece → List Placed → Option (List Piece × List Placed)
  | _, _, [] => none
  | skip + 1, pieces, _ :: rest => quoted quote skip pieces rest
  | 0, pieces, here :: rest =>
      if isDocumentMarker (here :: rest) then none
      else if here.char = quote.mark then
        if quote = .single ∧ (rest.head?.map (·.char)) = some '\'' then
          quoted quote 1 (.solid '\'' :: pieces) rest
        else some (pieces, rest)
      else if quote = .double ∧ here.char = '\\' then
        match escape? rest with
        | some (piece, length) => quoted quote length (piece :: pieces) rest
        | none => none
      else quoted quote 0 (.ofChar here.char :: pieces) rest

/-- Marks with a meaning of their own among the items of a flow collection. -/
def isFlowMark (char : Char) : Bool :=
  [',', '[', ']', '\x7b', '\x7d'].contains char

/-- Whether a colon in a flow collection stands where none can. -/
def isStrayColon : List Placed → Bool
  | here :: next :: _ => here.char == ':' && (isFlowMark next.char || next.char == '?')
  | _ => false

/-- Whether a plain scalar ends before a character that is neither a blank nor a
break. -/
def endsPlain (flow : Bool) : List Placed → Bool
  | [] => true
  | here :: rest => (here.char == ':' && blankAhead rest) || (flow && isFlowMark here.char)

/-- Where a plain scalar stands: in a word, after blanks, or after a break. -/
inductive PlainState where
  | word
  | blanks
  | breaks
deriving DecidableEq, Repr

def PlainState.gap (state : PlainState) (char : Char) : PlainState :=
  if isBreak char then .breaks
  else
    match state with
    | word | blanks => .blanks
    | breaks => .breaks

/-- Whether a new line or a comment ends a plain scalar after a gap. -/
def PlainState.ends (flow : Bool) (indent : Nat) (state : PlainState) : List Placed → Bool
  | [] => true
  | here :: rest =>
      match state with
      | word => false
      | blanks => here.char == '#'
      | breaks =>
          (!flow && here.column < indent) || here.char == '#' || isDocumentMarker (here :: rest)

/-- What was read of a plain scalar: its pieces, latest first, whether a break came
after it, and the text that follows. -/
structure PlainRead where
  pieces : List Piece
  breaks : Bool
  rest : List Placed

/-- The pieces of a plain scalar, given those before.  New lines of it start at a
column not less than `indent`. -/
def plain (flow : Bool) (indent : Nat) : PlainState → List Piece → List Placed → Option PlainRead
  | state, pieces, [] => some ⟨pieces, state = .breaks, []⟩
  | state, pieces, here :: rest =>
      if isBlank here.char || isBreak here.char then
        if state = .breaks ∧ here.char = '\t' ∧ here.column < indent then none
        else plain flow indent (state.gap here.char) (.ofChar here.char :: pieces) rest
      else if state.ends flow indent (here :: rest) then
        some ⟨pieces, state = .breaks, here :: rest⟩
      else if flow && isStrayColon (here :: rest) then none
      else if endsPlain flow (here :: rest) then some ⟨pieces, state = .breaks, here :: rest⟩
      else plain flow indent .word (.solid here.char :: pieces) rest

/-- The text of a plain scalar, without the gap after it. -/
def PlainRead.text (read : PlainRead) : String :=
  joinReversed (read.pieces.dropWhile Piece.isGap)

end Yaml

end LineGrammar
