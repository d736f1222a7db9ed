/-
The arguments of the program: first a task, then its switches in any order.  A
switch has a long name, and some have a short one.  The value of a switch is joined
to it or is the next argument, which then must not look like a switch.
-/
import LineGrammar.Command.Basic
import LineGrammar.Number.Numeral

namespace LineGrammar

namespace Command

inductive Switch where
  | preset
  | scene
  | iterations
  | output
  | size
  | background
  | recursion
  | help
deriving DecidableEq, Repr

namespace Switch

def name : Switch → String
  | preset => "preset"
  | scene => "scene"
  | iterations => "iterations"
  | output => "output"
  | size => "size"
  | background => "background"
  | recursion => "recursion"
  | help => "help"

def letter? : Switch → Option Char
  | preset => some 'p'
  | scene => some 's'
  | iterations => some 'n'
  | output => some 'o'
  | help => some 'h'
  | size | background | recursion => none

def hasValue : Switch → Bool
  | recursion | help => false
  | preset | scene | iterations | output | size | background => true

/-- The size of an image in pixels, which has 32 bits. -/
def imageSize? (text : String) : Option Nat :=
  ((Numeral.integer? text).filter fun number => 0 ≤ number && number < 0x100000000).map Int.toNat

/-- The values a switch takes.  A path has at least one character. -/
def accepts (switch : Switch) (value : String) : Bool :=
  match switch with
  | scene | output => !value.isEmpty
  | iterations => (Numeral.count? value).isSome
  | size => (imageSize? value).isSome
  | preset | background | recursion | help => true

end Switch

inductive Verb where
  | render
  | dump
  | estimate
  | produce
  | scene
  | list
deriving DecidableEq, Repr

namespace Verb

def all : List Verb :=
  [render, dump, estimate, produce, scene, list]

def name : Verb → String
  | render => "render"
  | dump => "dump"
  | estimate => "estimate"
  | produce => "produce"
  | scene => "scene"
  | list => "list"

def ofName? (name : String) : Option Verb :=
  all.find? fun verb => verb.name == name

def switches : Verb → List Switch
  | render => [.preset, .scene, .iterations, .output, .size, .background, .help]
  | dump => [.preset, .scene, .iterations, .output, .help]
  | estimate => [.preset, .scene, .iterations, .help]
  | produce => [.preset, .scene, .iterations, .recursion, .help]
  | scene => [.preset, .scene, .iterations, .output, .help]
  | list => [.help]

end Verb

/-- What arguments ask for. -/
inductive Request where
  | run (command : Command)
  | help
  | refused
deriving DecidableEq, Repr

/-- The switches given, with their values. -/
abbrev Given := List (Switch × String)

/-- What comes of reading switches. -/
inductive Reading where
  | given (switches : Given)
  | help
  | refused

/-- What an argument says: which switch it names, and the value joined to it. -/
inductive Spelling where
  | switch (switch : Switch) (value : Option String)
  | finish
  | other

/-- The text after an equals sign, if the text begins with one. -/
def joined? : List Char → Option String
  | '=' :: value => some (String.ofList value)
  | _ => none

/-- Read an argument as one of some switches. -/
def spelling (switches : List Switch) (argument : String) : Spelling :=
  match argument.toList with
  | '-' :: '-' :: [] => .finish
  | '-' :: '-' :: rest =>
      let name := String.ofList (rest.takeWhile (· != '='))
      match switches.find? (·.name == name) with
      | some switch => .switch switch (joined? (rest.dropWhile (· != '=')))
      | none => .other
  | '-' :: letter :: rest =>
      match switches.find? (·.letter? == some letter) with
      | some switch =>
          if rest.isEmpty || !switch.hasValue then .switch switch none
          else .switch switch ((joined? rest).getD (String.ofList rest))
      | none => .other
  | _ => .other

/-- Whether an argument can be the value of the switch before it. -/
def isValue (argument : String) : Bool :=
  match argument.toList with
  | '-' :: _ :: _ => false
  | _ => true

/-- Add a switch that was not given before. -/
def give? (given : Given) (switch : Switch) (value : String) : Option Given :=
  if (given.lookup switch).isSome || !switch.accepts value then none
  else some ((switch, value) :: given)

/-- Read switches up to the first that asks for help or cannot be read. -/
def readSwitches (switches : List Switch) : Given → List String → Reading
  | given, [] => .given given
  | given, argument :: rest =>
      match spelling switches argument with
      | .finish => if rest.isEmpty then .given given else .refused
      | .other => .refused
      | .switch .help none => .help
      | .switch switch (some value) =>
          if switch.hasValue then
            match give? given switch value with
            | some given => readSwitches switches given rest
            | none => .refused
          else .refused
      | .switch switch none =>
          if switch.hasValue then
            match rest with
            | [] => .refused
            | value :: rest =>
                if isValue value then
                  match give? given switch value with
                  | some given => readSwitches switches given rest
                  | none => .refused
                else .refused
          else
            match give? given switch "" with
            | some given => readSwitches switches given rest
            | none => .refused

/-- The scene that switches select; a preset and a file exclude each other. -/
def selection? (given : Given) : Option Selection :=
  let iterations := (given.lookup .iterations).bind Numeral.count?
  match given.lookup .preset, given.lookup .scene with
  | some _, some _ => none
  | some name, none => some ⟨.preset name, iterations⟩
  | none, some path => some ⟨.file path, iterations⟩
  | none, none => some ⟨.standard, iterations⟩

/-- The command of a task and its switches. -/
def assemble? (verb : Verb) (given : Given) : Option Command := do
  let selection ← selection? given
  let output (other : String) : String := (given.lookup .output).getD other
  match verb with
  | .render =>
      let size := ((given.lookup .size).bind Switch.imageSize?).getD 1024
      return .render selection (output "lsystem.png") size
        ((given.lookup .background).getD "#ffffff")
  | .dump => return .dump selection (output "lsystem.json")
  | .estimate => return .estimate selection
  | .produce => return .produce selection (given.lookup .recursion).isSome
  | .scene => return .scene selection (output "scene.yaml")
  | .list => return .list

def parse : List String → Request
  | [] => .refused
  | "help" :: rest =>
      match rest with
      | [] | ["help"] => .help
      | [name] => if (Verb.ofName? name).isSome then .help else .refused
      | _ => .refused
  | first :: rest =>
      match Verb.ofName? first with
      | some verb =>
          match readSwitches verb.switches [] rest with
          | .given given =>
              match assemble? verb given with
              | some command => .run command
              | none => .refused
          | .help => .help
          | .refused => .refused
      | none =>
          match spelling [.help] first with
          | .switch .help none => .help
          | _ => .refused

example : parse ["estimate", "-p", "koch", "--iterations=5"]
    = .run (.estimate ⟨.preset "koch", some 5⟩) := by decide +kernel
example : parse ["render", "-pkoch", "--scene", "s.yaml"] = .refused := by decide +kernel
example : parse ["produce", "-n", "-1"] = .refused := by decide +kernel

end Command

end LineGrammar
