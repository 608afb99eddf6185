import FlightScript.Document.Token

/-!
# Nodes

A node is a text, a sequence or a mapping, written with levels of lines or between
brackets, or an alias, which stands for a node elsewhere. Before a node other than an
alias an anchor and a tag may stand, in either order; with one of them the node
itself may be left out, and then it is the empty plain text.

Nodes are read from tokens. The functions that do so are given an amount of fuel; each
of them uses up a token for every few units of it, so that a small multiple of the
number of tokens is always enough.
-/

namespace FlightScript

namespace Document

/-- What may stand before a node. -/
structure Properties (α : Type) where
  /-- What the node is called in aliases. -/
  anchor : Option α
  tag : Option String

/-- A part of a document, where nodes are called by the members of a type. -/
inductive Node (α : Type) where
  | scalar (properties : Properties α) (form : Form) (text : String)
  | sequence (properties : Properties α) (items : List (Node α))
  | mapping (properties : Properties α) (entries : List (Node α × Node α))
  | alias (called : α)

namespace Properties

def empty {α : Type} : Properties α :=
  ⟨none, none⟩

def isEmpty {α : Type} (p : Properties α) : Bool :=
  p.anchor.isNone && p.tag.isNone

end Properties

def Node.absent {α : Type} (p : Properties α) : Node α :=
  .scalar p .plain ""

abbrev WithRest (α : Type) := α × List Token

/-- A node may be left out before one of some tokens. -/
def isBefore (marks : List Token) : List Token → Bool
  | [] => false
  | t :: _ => t ∈ marks

/-- The properties at the beginning of some tokens: at most one anchor and one tag. -/
def properties? (handles : Handles) : List Token → Option (WithRest (Properties String))
  | .anchor name :: .tag t :: rest =>
    (t.expand? handles).map fun tag => (⟨some name, some tag⟩, rest)
  | .tag t :: .anchor name :: rest =>
    (t.expand? handles).map fun tag => (⟨some name, some tag⟩, rest)
  | .anchor name :: rest => some (⟨some name, none⟩, rest)
  | .tag t :: rest => (t.expand? handles).map fun tag => (⟨none, some tag⟩, rest)
  | tokens => some (.empty, tokens)

section

variable (handles : Handles)

mutual

/-- A node. With `hasLines` it may have levels of lines of its own, with `hanging` it
may be a sequence whose items begin no level. -/
def node? : Nat → (hasLines hanging : Bool) → List Token → Option (WithRest (Node String))
  | 0, _, _, _ => none
  | _ + 1, _, _, .alias name :: rest => some (.alias name, rest)
  | fuel + 1, hasLines, hanging, tokens => do
    let (p, tokens) ← properties? handles tokens
    match tokens, hasLines, hanging with
    | .item :: _, _, true => (hangingItems? fuel tokens).map fun r => (.sequence p r.1, r.2)
    | .text form text :: rest, _, _ => some (.scalar p form text, rest)
    | .sequenceStart :: rest, _, _ =>
      (bracketedItems? fuel rest).map fun r => (.sequence p r.1, r.2)
    | .mappingStart :: rest, _, _ =>
      (bracketedEntries? fuel rest).map fun r => (.mapping p r.1, r.2)
    | .lineSequence :: rest, true, _ => (lineItems? fuel rest).map fun r => (.sequence p r.1, r.2)
    | .lineMapping :: rest, true, _ => (lineEntries? fuel rest).map fun r => (.mapping p r.1, r.2)
    | _, _, _ => if p.isEmpty then none else some (.absent p, tokens)

/-- A node, unless it is left out before one of some tokens. -/
def nodeBefore? : Nat → (marks : List Token) → (hasLines hanging : Bool) → List Token →
    Option (WithRest (Node String))
  | 0, _, _, _, _ => none
  | fuel + 1, marks, hasLines, hanging, tokens =>
    if isBefore marks tokens then some (.absent .empty, tokens)
    else node? fuel hasLines hanging tokens

def lineItems? : Nat → List Token → Option (WithRest (List (Node String)))
  | 0, _ => none
  | fuel + 1, .item :: tokens => do
    let (item, rest) ← nodeBefore? fuel [.item, .linesEnd] true false tokens
    let (items, last) ← lineItems? fuel rest
    some (item :: items, last)
  | _ + 1, .linesEnd :: rest => some ([], rest)
  | _ + 1, _ => none

def hangingItems? : Nat → List Token → Option (WithRest (List (Node String)))
  | 0, _ => none
  | fuel + 1, .item :: tokens => do
    let (item, rest) ← nodeBefore? fuel [.item, .key, .value, .linesEnd] true false tokens
    let (items, last) ← hangingItems? fuel rest
    some (item :: items, last)
  | _ + 1, tokens => some ([], tokens)

def lineEntries? : Nat → List Token → Option (WithRest (List (Node String × Node String)))
  | 0, _ => none
  | fuel + 1, .key :: tokens => do
    let (key, rest) ← nodeBefore? fuel [.key, .value, .linesEnd] true true tokens
    let (value, rest) ←
      match rest with
      | .value :: rest => nodeBefore? fuel [.key, .value, .linesEnd] true true rest
      | _ => some (.absent .empty, rest)
    let (entries, last) ← lineEntries? fuel rest
    some ((key, value) :: entries, last)
  | _ + 1, .linesEnd :: rest => some ([], rest)
  | _ + 1, _ => none

def bracketedValue? : Nat → (closing : Token) → List Token → Option (WithRest (Node String))
  | 0, _, _ => none
  | fuel + 1, closing, .value :: rest => nodeBefore? fuel [.separator, closing] false false rest
  | _ + 1, _, tokens => some (.absent .empty, tokens)

/-- The items up to a closing bracket. A key and its value are a mapping of their own;
where the key is left out, the token in its place is passed over. -/
def bracketedItems? : Nat → List Token → Option (WithRest (List (Node String)))
  | 0, _ => none
  | _ + 1, .sequenceEnd :: rest => some ([], rest)
  | fuel + 1, tokens => do
    let (item, rest) ←
      match tokens with
      | .key :: rest => do
        let marks := [.value, .separator, .sequenceEnd]
        let (key, after) ← nodeBefore? fuel marks false false rest
        let after := if isBefore marks rest then rest.drop 1 else after
        let (value, last) ← bracketedValue? fuel .sequenceEnd after
        some (.mapping .empty [(key, value)], last)
      | _ => node? fuel false false tokens
    match rest with
    | .separator :: rest =>
      let (items, last) ← bracketedItems? fuel rest
      some (item :: items, last)
    | .sequenceEnd :: rest => some ([item], rest)
    | _ => none

def bracketedEntries? : Nat → List Token → Option (WithRest (List (Node String × Node String)))
  | 0, _ => none
  | _ + 1, .mappingEnd :: rest => some ([], rest)
  | fuel + 1, tokens => do
    let (entry, rest) ←
      match tokens with
      | .key :: rest => do
        let (key, after) ← nodeBefore? fuel [.value, .separator, .mappingEnd] false false rest
        let (value, last) ← bracketedValue? fuel .mappingEnd after
        some ((key, value), last)
      | _ => (node? fuel false false tokens).map fun r => ((r.1, .absent .empty), r.2)
    match rest with
    | .separator :: rest =>
      let (entries, last) ← bracketedEntries? fuel rest
      some (entry :: entries, last)
    | .mappingEnd :: rest => some ([entry], rest)
    | _ => none

end

end

end Document

end FlightScript
