import FlightScript.Document.Anchor
import FlightScript.Document.Prologue
import FlightScript.Document.Reading

/-!
# Documents

A document is a node, together with what the aliases in it stand for. It is written
in YAML: a text is read as tokens, and the tokens as one node. There is one document
in a text, and it may be left out. With directives its beginning is marked.
-/

namespace FlightScript

/-- A document: its node, and the nodes with anchors in the order in which they
begin. -/
structure Document where
  root : Document.Node Nat
  anchored : List (Nat × Document.Node Nat)

namespace Document

/-- The node that a node of a document stands for; it is no alias. -/
def target (d : Document) : Node Nat → Node Nat
  | .alias number => (d.anchored.reverse.lookup number).getD (.absent .empty)
  | node => node

def ofFirst? (handles : Handles) (tokens : List Token) : Option (WithRest (Node String)) :=
  node? handles (4 * tokens.length + 4) true false tokens

def ofTokens? (tokens : List Token) : Option (Node String) := do
  let (prologue, rest) ← Prologue.empty.read? tokens
  let (node, after) ←
    match rest with
    | [] => if tokens.isEmpty then some (.absent .empty, []) else none
    | .documentStart :: rest =>
      if rest.isEmpty || rest.head? = some .documentEnd then some (.absent .empty, rest)
      else ofFirst? prologue.handles rest
    | _ => if prologue = .empty then ofFirst? prologue.handles rest else none
  if after.all (· = .documentEnd) then some node else none

def read? (text : String) : Option Document :=
  let cs := text.toList
  if cs.all isPrintable then do
    let node ← ofTokens? (← tokens? (Line.ofChars 1 cs))
    let (root, _) ← node.link? []
    some ⟨root, root.anchored⟩
  else none

end Document

end FlightScript
