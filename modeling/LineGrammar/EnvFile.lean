/-
Files that set variables, one `NAME=value` to a line.  A value may be quoted, may
go on over several lines inside quotes, and may refer to variables with a dollar
sign.  The first line that cannot be read ends the file.
-/
import LineGrammar.Alphanumeric

namespace LineGrammar

/-- A part of a value: characters, or the name of a variable. -/
inductive ValuePart where
  | text (chars : List Char)
  | variable (name : String)
deriving DecidableEq, Repr

/-- A variable and the parts of its value. -/
structure Assignment where
  name : String
  value : List ValuePart
deriving DecidableEq, Repr

/-- Variables with their values; earlier entries win. -/
abbrev Environment := List (String × String)

namespace EnvFile

/-- Characters that show nothing. -/
def isBlank (char : Char) : Bool :=
  let code := char.toNat
  (0x09 ≤ code && code ≤ 0x0d) || code == 0x20 || code == 0x85 || code == 0xa0
    || code == 0x1680 || (0x2000 ≤ code && code ≤ 0x200a) || code == 0x2028
    || code == 0x2029 || code == 0x202f || code == 0x205f || code == 0x3000

def trimStart (text : List Char) : List Char :=
  text.dropWhile isBlank

def trimEnd (text : List Char) : List Char :=
  (text.reverse.dropWhile isBlank).reverse

/-- Where a line stands: between its parts, after a blank, after a backslash, or in
quotes. -/
inductive LineState where
  | plain
  | blank
  | escape
  | quoted (mark : Char)
  | quotedEscape (mark : Char)
deriving DecidableEq, Repr

/-- The state after a character that begins no comment. -/
def LineState.next (state : LineState) (char : Char) : LineState :=
  let opening : LineState :=
    if char = '\\' then .escape else if char = '"' ∨ char = '\'' then .quoted char else .plain
  match state with
  | plain =>
      if isBlank char && char != '\n' && char != '\r' then .blank else opening
  | blank => opening
  | escape => .plain
  | quoted mark =>
      if char = '\\' then .quotedEscape mark else if char = mark then .plain else .quoted mark
  | quotedEscape mark => .quoted mark

def afterLine : List Char → List Char
  | [] => []
  | char :: rest => if char = '\n' then rest else afterLine rest

/-- One assignment's line, which goes on while quotes are open, and the text after
it.  The characters before come latest first. -/
def line? : LineState → List Char → List Char → Option (List Char × List Char)
  | state, read, [] => if state = .plain then some (read.reverse, []) else none
  | state, read, char :: rest =>
      if state = .blank ∧ char = '#' then some (read.reverse, afterLine rest)
      else
        let state := state.next char
        if char = '\n' ∧ state = .plain then some (read.reverse, rest)
        else line? state (char :: read) rest

/-- How a character of a value is read. -/
inductive ValueState where
  | plain
  | ended
  | escape
  | strong
  | reference (name : List Char)
  | braced (name : List Char)

/-- What has been read of a value, the latest first, and whether a double quote is
open. -/
structure ValueReading where
  parts : List ValuePart
  weak : Bool

namespace ValueReading

def put (reading : ValueReading) (char : Char) : ValueReading :=
  { reading with parts := .text [char] :: reading.parts }

def refer (reading : ValueReading) (name : List Char) : ValueReading :=
  { reading with parts := .variable (String.ofList name.reverse) :: reading.parts }

end ValueReading

/-- The character a backslash and a character stand for. -/
def escaped? (char : Char) : Option Char :=
  if ['\\', '\'', '"', '$', ' '].contains char then some char
  else if char = 'n' then some '\n'
  else none

/-- The parts of a value.  After a blank outside of quotes only a comment may
follow.  The name after a dollar sign consists of letters and digits, or of anything
between braces. -/
def value? : ValueState → ValueReading → List Char → Option (List ValuePart)
  | state, reading, [] =>
      if reading.weak then none
      else
        match state with
        | .strong | .braced _ => none
        | .reference name => some (reading.refer name).parts.reverse
        | .plain | .ended | .escape => some reading.parts.reverse
  | state, reading, char :: rest =>
      match state with
      | .ended =>
          if char = ' ' ∨ char = '\t' then value? .ended reading rest
          else if char = '#' then some reading.parts.reverse
          else none
      | .escape =>
          match escaped? char with
          | some char => value? .plain (reading.put char) rest
          | none => none
      | .strong =>
          if char = '\'' then value? .plain reading rest
          else value? .strong (reading.put char) rest
      | .reference name =>
          if Alphanumeric.contains char then value? (.reference (char :: name)) reading rest
          else if char = '\x7b' ∧ name = [] then value? (.braced []) reading rest
          else if char = '$' then value? (.reference []) (reading.refer name) rest
          else value? .plain ((reading.refer name).put char) rest
      | .braced name =>
          if char = '\x7d' then value? .plain (reading.refer name) rest
          else value? (.braced (char :: name)) reading rest
      | .plain =>
          if char = '$' then value? (.reference []) reading rest
          else if char = '\\' then value? .escape reading rest
          else if char = '"' then value? .plain { reading with weak := !reading.weak } rest
          else if reading.weak then value? .plain (reading.put char) rest
          else if char = '\'' then value? .strong reading rest
          else if char = ' ' ∨ char = '\t' then value? .ended reading rest
          else value? .plain (reading.put char) rest

/-- A name at the start of a text and what follows it. -/
def name? (text : List Char) : Option (List Char × List Char) :=
  match text with
  | [] => none
  | first :: _ =>
      if first.isAlpha || first == '_' then
        let isName (char : Char) : Bool := char.isAlphanum || char == '_' || char == '.'
        some (text.takeWhile isName, text.dropWhile isName)
      else none

def afterEquals? : List Char → Option (List Char)
  | '=' :: rest => some (trimStart rest)
  | _ => none

/-- The name that is set and the text of its value.  The word `export` may stand in
front of the name. -/
def split? (text : List Char) : Option (List Char × List Char) := do
  let (name, rest) ← name? text
  match afterEquals? (trimStart rest) with
  | some value => return (name, value)
  | none =>
      if name = "export".toList then
        let (name, rest) ← name? (trimStart rest)
        return (name, ← afterEquals? (trimStart rest))
      else none

/-- The assignment of a line; blank lines and comments have none. -/
def assignment? (line : List Char) : Option (Option Assignment) :=
  match trimStart (trimEnd line) with
  | [] | '#' :: _ => some none
  | text => do
      let (name, value) ← split? text
      let parts ←
        match value with
        | [] | '#' :: _ => some []
        | value => value? .plain ⟨[], false⟩ value
      return some ⟨String.ofList name, parts⟩

/-- The assignments of a text up to the first line that cannot be read.  Every line
takes at least one character. -/
def assignments : Nat → List Char → List Assignment
  | 0, _ | _, [] => []
  | fuel + 1, text =>
      if (trimStart (text.takeWhile (· != '\n'))).head? = some '#' then
        assignments fuel (afterLine text)
      else
        match line? .plain [] text with
        | none => []
        | some (line, rest) =>
            match assignment? line with
            | none => []
            | some none => assignments fuel rest
            | some (some assignment) => assignment :: assignments fuel rest

/-- Read a file, after a byte order mark. -/
def read (text : String) : List Assignment :=
  let chars := match text.toList with
    | '\ufeff' :: rest => rest
    | chars => chars
  assignments chars.length chars

/-- The value of an assignment, given the variables known before it.  Unknown
variables are empty. -/
def expand (known : Environment) (value : List ValuePart) : String :=
  value.foldl (fun text part =>
    match part with
    | .text chars => text ++ String.ofList chars
    | .variable name => text ++ (known.lookup name).getD "") ""

/-- Whether an environment can hold a value. -/
def isStorable (value : String) : Bool :=
  value.toList.all (· != '\x00')

/-- The environment with the variables of a file.  Variables that are known already
stay as they are.  The name of the first variable whose value cannot be held is an
error. -/
def extend : Environment → List Assignment → Except String Environment
  | known, [] => .ok known
  | known, assignment :: rest =>
      if (known.lookup assignment.name).isSome then extend known rest
      else
        let value := expand known assignment.value
        if isStorable value then extend (known ++ [(assignment.name, value)]) rest
        else .error assignment.name

/-- The variables whose values can matter to a file. -/
def mentions (file : List Assignment) : List String :=
  file.flatMap fun assignment =>
    assignment.name :: assignment.value.filterMap fun part =>
      match part with
      | .variable name => some name
      | .text _ => none

theorem lookup_append {known more : Environment} {name value : String}
    (h : known.lookup name = some value) : (known ++ more).lookup name = some value := by
  induction known with
  | nil => simp at h
  | cons entry known ih =>
      obtain ⟨key, other⟩ := entry
      rw [List.cons_append]
      simp only [List.lookup_cons] at h ⊢
      split at h
      · exact h
      · exact ih h

/-- A file never changes a variable that is known. -/
theorem lookup_extend {known all : Environment} {file : List Assignment} {name value : String}
    (h : known.lookup name = some value) (hall : extend known file = .ok all) :
    all.lookup name = some value := by
  induction file generalizing known with
  | nil =>
      injection hall with hall
      exact hall ▸ h
  | cons assignment file ih =>
      rw [extend] at hall
      split at hall
      · exact ih h hall
      · dsimp only at hall
        split at hall
        · exact ih (lookup_append h) hall
        · cases hall

end EnvFile

end LineGrammar
