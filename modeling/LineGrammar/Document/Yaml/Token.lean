/-
Tokens of a document.  Block collections have no marks of their own: they begin
where a key or a dash stands deeper than those around it, and end where a line
starts less deep.  Whether a scalar or a flow collection is a key shows only at the
colon after it, so every token has a slot, in front of which marks can still be
put.
-/
import LineGrammar.Document.Value
import LineGrammar.Document.Yaml.Text

namespace LineGrammar

namespace Yaml

inductive Token where
  | documentStart
  | documentEnd
  | blockSeq
  | blockMap
  | blockEnd
  | dash
  | key
  | value
  | flowSeq
  | flowSeqEnd
  | flowMap
  | flowMapEnd
  | comma
  | scalar (value : Value)

def Token.isDocumentEnd : Token → Bool
  | documentEnd => true
  | _ => false

/-- A place where a key may have begun.  In a block mapping every line at its
column has to begin with a key. -/
structure Site where
  slot : Nat
  line : Nat
  column : Nat
  required : Bool

/-- Keys have to end on the line they begin on, and not too far to the right. -/
def Site.covers (site : Site) (here : Placed) : Bool :=
  site.line == here.line && here.column ≤ site.column + 1024

/-- The tokens found so far and what their layout demands next.  The columns of
open block collections stand in `indents`, innermost first.  There is one place
for a key outside of flow collections and one more in each open one. -/
structure Scanner where
  slots : Array (List Token)
  indents : List Nat
  site : Option Site
  outer : List (Option Site)
  keyAllowed : Bool

namespace Scanner

def start : Scanner :=
  ⟨#[], [], none, [], true⟩

def inFlow (scanner : Scanner) : Bool :=
  !scanner.outer.isEmpty

def push (scanner : Scanner) (token : Token) : Scanner :=
  { scanner with slots := scanner.slots.push [token] }

def allow (scanner : Scanner) (keyAllowed : Bool) : Scanner :=
  { scanner with keyAllowed }

/-- Whether a column lies deeper than all open block collections. -/
def isDeeper (scanner : Scanner) (column : Nat) : Bool :=
  scanner.indents.all (· < column)

/-- Give up a place for a key, if that may be. -/
def waive : Option Site → Option (Option Site)
  | some site => if site.required then none else some none
  | none => some none

def dropSite (scanner : Scanner) : Option Scanner := do
  return { scanner with site := ← waive scanner.site }

def markSite (scanner : Scanner) (here : Placed) : Option Scanner :=
  if scanner.keyAllowed then do
    let required := !scanner.inFlow && scanner.indents.head? == some here.column
    let scanner ← scanner.dropSite
    return { scanner with
      site := some ⟨scanner.slots.size, here.line, here.column, required⟩ }
  else some scanner

/-- Give up all places for keys that are too far away. -/
def expire (scanner : Scanner) (here : Placed) : Option Scanner := do
  let check (site : Option Site) : Option (Option Site) :=
    match site with
    | some site => if site.covers here then some (some site) else waive (some site)
    | none => some none
  return { scanner with site := ← check scanner.site, outer := ← scanner.outer.mapM check }

/-- End the block collections that a predicate on their columns picks. -/
def closeWhile (scanner : Scanner) (ends : Nat → Bool) : Scanner :=
  if scanner.inFlow then scanner
  else
    let closed := (scanner.indents.takeWhile ends).map fun _ => Token.blockEnd
    { scanner with
      slots := scanner.slots.push closed
      indents := scanner.indents.dropWhile ends }

/-- Begin a block collection here, unless it is open already. -/
def openBlock (scanner : Scanner) (here : Placed) (token : Token) : Scanner :=
  if !scanner.inFlow && scanner.isDeeper here.column then
    { scanner.push token with indents := here.column :: scanner.indents }
  else scanner

/-- A dash or a question mark, which begin an item where a block collection may
stand. -/
def indicator (scanner : Scanner) (here : Placed) (opens token : Token) (allowed : Bool) :
    Option Scanner := do
  if !scanner.inFlow && !scanner.keyAllowed then none
  else
    let scanner ← (scanner.openBlock here opens).dropSite
    return (scanner.push token).allow allowed

def dash (scanner : Scanner) (here : Placed) : Option Scanner :=
  if scanner.inFlow then none else scanner.indicator here .blockSeq .dash true

def question (scanner : Scanner) (here : Placed) : Option Scanner :=
  scanner.indicator here .blockMap .key (!scanner.inFlow)

/-- A colon, which makes a key of what stands at the place for one. -/
def colon (scanner : Scanner) (here : Placed) : Option Scanner :=
  match scanner.site with
  | some site =>
      let opens := !scanner.inFlow && scanner.isDeeper site.column
      let marks := if opens then [Token.blockMap, .key] else [.key]
      some { scanner with
        slots := (scanner.slots.modify site.slot (marks ++ ·)).push [.value]
        indents := if opens then site.column :: scanner.indents else scanner.indents
        site := none
        keyAllowed := false }
  | none =>
      if !scanner.inFlow && !scanner.keyAllowed then none
      else some (((scanner.openBlock here .blockMap).push .value).allow !scanner.inFlow)

def openFlow (scanner : Scanner) (here : Placed) (token : Token) : Option Scanner := do
  let scanner ← scanner.markSite here
  return { scanner.push token with
    site := none
    outer := scanner.site :: scanner.outer
    keyAllowed := true }

def closeFlow (scanner : Scanner) (token : Token) : Option Scanner := do
  let scanner := ((← scanner.dropSite).push token).allow false
  match scanner.outer with
  | [] => return scanner
  | site :: outer => return { scanner with site, outer }

def comma (scanner : Scanner) : Option Scanner := do
  return ((← scanner.dropSite).push .comma).allow true

/-- A scalar that begins here, after which a key can begin only on a new line. -/
def scalar (scanner : Scanner) (here : Placed) (value : Value) (newLine : Bool) :
    Option Scanner := do
  return ((← scanner.markSite here).push (.scalar value)).allow newLine

/-- A line that stands between documents. -/
def marker (scanner : Scanner) (token : Token) : Option Scanner := do
  return ((← (scanner.closeWhile fun _ => true).dropSite).push token).allow false

/-- Go on to the next token, past blanks, comments, breaks and a byte order mark that
starts a line.  Outside of flow collections a break makes room for a key, and a tab
cannot stand in front of one. -/
def skipGap (flow : Bool) : Bool → Bool → List Placed → Bool × List Placed
  | _, keyAllowed, [] => (keyAllowed, [])
  | comment, keyAllowed, here :: rest =>
      if isBreak here.char then skipGap flow false (keyAllowed || !flow) rest
      else if comment || here.char == ' ' || (here.char == '\t' && (flow || !keyAllowed))
          || (isOrderMark here.char && here.column == 0) then
        skipGap flow comment keyAllowed rest
      else if here.char == '#' then skipGap flow true keyAllowed rest
      else (keyAllowed, here :: rest)

/-- Marks that no plain scalar begins with. -/
def isMark (char : Char) : Bool :=
  ['-', '?', ':', ',', '[', ']', '\x7b', '\x7d', '#', '&', '*', '!', '|', '>', '\'', '"',
    '%', '@', '\x60'].contains char

/-- Whether a plain scalar begins with a character that is not an indicator where it
stands. -/
def beginsPlain (flow : Bool) (char : Char) : Bool :=
  !(isMark char || isBlank char) || char == '-' || (!flow && (char == '?' || char == ':'))

/-- The scanner and the text after a scalar in quotes. -/
def quotedScalar (scanner : Scanner) (quote : Quote) (here : Placed) (rest : List Placed) :
    Option (Scanner × List Placed) := do
  let (pieces, rest) ← quoted quote 0 [] rest
  return (← scanner.scalar here (.text (joinReversed pieces)) false, rest)

def plainScalar (scanner : Scanner) (here : Placed) (rest : List Placed) :
    Option (Scanner × List Placed) := do
  let indent := (scanner.indents.head?.map (· + 1)).getD 0
  let read ← plain scanner.inFlow indent .word [] (here :: rest)
  return (← scanner.scalar here (.plain read.text) read.breaks, read.rest)

/-- The scanner and the text after the token that begins here. -/
def token (scanner : Scanner) (here : Placed) (rest : List Placed) :
    Option (Scanner × List Placed) := do
  let scanner ← scanner.expire here
  let scanner := scanner.closeWhile (here.column < ·)
  let flow := scanner.inFlow
  let alone := blankAhead rest
  if isMarker '-' (here :: rest) then return (← scanner.marker .documentStart, rest.drop 2)
  else if isMarker '.' (here :: rest) then return (← scanner.marker .documentEnd, rest.drop 2)
  else
    match here.char with
    | '[' => return (← scanner.openFlow here .flowSeq, rest)
    | '\x7b' => return (← scanner.openFlow here .flowMap, rest)
    | ']' => return (← scanner.closeFlow .flowSeqEnd, rest)
    | '\x7d' => return (← scanner.closeFlow .flowMapEnd, rest)
    | ',' => return (← scanner.comma, rest)
    | '\'' => scanner.quotedScalar .single here rest
    | '"' => scanner.quotedScalar .double here rest
    | char =>
        if char = '-' ∧ alone then return (← scanner.dash here, rest)
        else if char = '?' ∧ (flow ∨ alone) then return (← scanner.question here, rest)
        else if char = ':' ∧ (flow ∨ alone) then return (← scanner.colon here, rest)
        else if beginsPlain flow char then scanner.plainScalar here rest
        else none

/-- The tokens of the rest of a text.  Every token takes at least one character. -/
def run : Nat → Scanner → List Placed → Option (List Token)
  | 0, _, _ => none
  | fuel + 1, scanner, text =>
      let (keyAllowed, text) := skipGap scanner.inFlow false scanner.keyAllowed text
      match text with
      | [] => do
          let scanner ← (scanner.closeWhile fun _ => true).dropSite
          return scanner.slots.toList.flatten
      | here :: rest => do
          let (scanner, text) ← (scanner.allow keyAllowed).token here rest
          run fuel scanner text

end Scanner

def tokens? (text : String) : Option (List Token) :=
  let chars := text.toList
  if chars.all isPrintable then
    Scanner.run (chars.length + 1) .start (place 0 0 (unifyBreaks chars))
  else none

end Yaml

end LineGrammar
