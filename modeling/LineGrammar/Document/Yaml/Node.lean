/-
Values from tokens.  Where a collection lacks a key or a value, there is an empty
plain scalar.
-/
import LineGrammar.Document.Yaml.Token

namespace LineGrammar

namespace Yaml

def missing : Value :=
  .plain ""

/-- Whether the node after a dash or a mark of a mapping is missing. -/
def lacksBlock (inMapping : Bool) : List Token → Bool
  | .dash :: _ => !inMapping
  | .blockEnd :: _ => true
  | .key :: _ | .value :: _ => inMapping
  | _ => false

/-- Whether the node at the end of a sequence item is missing, where the sequence has
no marks of its own. -/
def lacksItem : List Token → Bool
  | .dash :: _ | .key :: _ | .value :: _ | .blockEnd :: _ => true
  | _ => false

/-- Whether the key or the value of an entry is missing, where the entry is an item of
a flow sequence or stands in a flow mapping. -/
def lacksFlow (isItem : Bool) : List Token → Bool
  | .value :: _ | .comma :: _ => true
  | .flowSeqEnd :: _ => isItem
  | .flowMapEnd :: _ => !isItem
  | _ => false

mutual

/-- A node and the tokens after it.  Inside a mapping, dashes may stand at the
column of the keys.  Each step costs one unit of `fuel`. -/
def node? (block inMapping : Bool) : Nat → List Token → Option (Value × List Token)
  | 0, _ => none
  | fuel + 1, tokens =>
      match tokens with
      | .scalar value :: rest => some (value, rest)
      | .flowSeq :: rest => flowItems? fuel [] rest
      | .flowMap :: rest => flowEntries? fuel [] rest
      | .blockSeq :: rest => if block then blockItems? fuel [] rest else none
      | .blockMap :: rest => if block then blockEntries? fuel [] rest else none
      | .dash :: _ => if inMapping then bareItems? fuel [] tokens else none
      | _ => none

/-- A node of a block collection, or none. -/
def blockNode? (inMapping : Bool) : Nat → List Token → Option (Value × List Token)
  | 0, _ => none
  | fuel + 1, tokens =>
      if lacksBlock inMapping tokens then some (missing, tokens)
      else node? true inMapping fuel tokens

/-- The key or the value of an entry of a flow collection, or none. -/
def flowNode? (isItem : Bool) : Nat → List Token → Option (Value × List Token)
  | 0, _ => none
  | fuel + 1, tokens =>
      if lacksFlow isItem tokens then some (missing, tokens) else node? false false fuel tokens

/-- The items of a block sequence; those read before come latest first. -/
def blockItems? : Nat → List Value → List Token → Option (Value × List Token)
  | 0, _, _ => none
  | fuel + 1, read, .dash :: rest => do
      let (item, rest) ← blockNode? false fuel rest
      blockItems? fuel (item :: read) rest
  | _ + 1, read, .blockEnd :: rest => some (.seq read.reverse, rest)
  | _ + 1, _, _ => none

/-- The items of a sequence that ends where no dash follows. -/
def bareItems? : Nat → List Value → List Token → Option (Value × List Token)
  | 0, _, _ => none
  | fuel + 1, read, .dash :: rest => do
      let (item, rest) ←
        if lacksItem rest then some (missing, rest) else node? true false fuel rest
      bareItems? fuel (item :: read) rest
  | _ + 1, read, rest => some (.seq read.reverse, rest)

def blockEntries? : Nat → List (Value × Value) → List Token → Option (Value × List Token)
  | 0, _, _ => none
  | fuel + 1, read, .key :: rest => do
      let (key, rest) ← blockNode? true fuel rest
      match rest with
      | .value :: rest =>
          let (value, rest) ← blockNode? true fuel rest
          blockEntries? fuel ((key, value) :: read) rest
      | rest => blockEntries? fuel ((key, missing) :: read) rest
  | _ + 1, read, .blockEnd :: rest => some (.map read.reverse, rest)
  | _ + 1, _, _ => none

/-- The items of a flow sequence, of which a single entry is a mapping of its own. -/
def flowItems? : Nat → List Value → List Token → Option (Value × List Token)
  | 0, _, _ => none
  | fuel + 1, read, tokens =>
      match tokens with
      | .flowSeqEnd :: rest => some (.seq read.reverse, rest)
      | tokens => do
          let (item, rest) ←
            match tokens with
            | .key :: rest => do
                let (entry, rest) ← flowEntry? true fuel rest
                some (.map [entry], rest)
            | tokens => node? false false fuel tokens
          match rest with
          | .comma :: rest => flowItems? fuel (item :: read) rest
          | .flowSeqEnd :: rest => some (.seq (item :: read).reverse, rest)
          | _ => none

/-- The entries of a flow mapping; a node that is no key has no value. -/
def flowEntries? : Nat → List (Value × Value) → List Token → Option (Value × List Token)
  | 0, _, _ => none
  | fuel + 1, read, tokens =>
      match tokens with
      | .flowMapEnd :: rest => some (.map read.reverse, rest)
      | tokens => do
          let (entry, rest) ←
            match tokens with
            | .key :: rest => flowEntry? false fuel rest
            | tokens => do
                let (key, rest) ← node? false false fuel tokens
                some ((key, missing), rest)
          match rest with
          | .comma :: rest => flowEntries? fuel (entry :: read) rest
          | .flowMapEnd :: rest => some (.map (entry :: read).reverse, rest)
          | _ => none

/-- The key and the value of an entry of a flow collection.  A missing key of an item
of a sequence uses up the mark in its place. -/
def flowEntry? (isItem : Bool) : Nat → List Token → Option ((Value × Value) × List Token)
  | 0, _ => none
  | fuel + 1, tokens => do
      let (key, rest) ← flowNode? isItem fuel tokens
      let rest := if isItem && lacksFlow isItem tokens then rest.drop 1 else rest
      match rest with
      | .value :: rest => do
          let (value, rest) ← flowNode? isItem fuel rest
          some ((key, value), rest)
      | rest => some ((key, missing), rest)

end

/-- The first document among the tokens and the tokens after it. -/
def document? (tokens : List Token) : Option (Value × List Token) :=
  let node := node? true false (4 * tokens.length + 4)
  match tokens with
  | .documentStart :: rest =>
      match rest with
      | [] | .documentStart :: _ | .documentEnd :: _ => some (missing, rest)
      | rest => node rest
  | tokens => node tokens

/-- The value of a text that is one document. -/
def read? (text : String) : Option Value := do
  let (value, rest) ← document? (← tokens? text)
  if rest.all Token.isDocumentEnd then some value else none

end Yaml

end LineGrammar
