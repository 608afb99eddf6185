import FlightScript.Document.Node

/-!
# Anchors and aliases

An alias stands for the node that has its name as an anchor and was begun last
before it. To find that node again the anchors are numbered: an anchor's number is
the number of different names of anchors before it, and an alias has the number of
the last anchor of its name. A number that was given more than once belongs to the
node that got it last.
-/

namespace FlightScript

namespace Document

/-- The names of the anchors so far, each with the number it was given last. -/
abbrev Names := List (String × Nat)

/-- The names after an anchor, which has the number of names before. -/
def Names.declare (names : Names) (name : String) : Names :=
  (name, names.length) :: names.filter fun entry => entry.1 ≠ name

def Properties.link (p : Properties String) (names : Names) : Properties Nat × Names :=
  match p.anchor with
  | none => (⟨none, p.tag⟩, names)
  | some name => (⟨some names.length, p.tag⟩, names.declare name)

mutual

/-- A node with numbers for names, and the names after it, if every alias in it stands
for something. -/
def Node.link? : Node String → Names → Option (Node Nat × Names)
  | .scalar p form text, names =>
    let (p, names) := p.link names
    some (.scalar p form text, names)
  | .sequence p items, names =>
    let (p, names) := p.link names
    (linkItems? items names).map fun (items, names) => (.sequence p items, names)
  | .mapping p entries, names =>
    let (p, names) := p.link names
    (linkEntries? entries names).map fun (entries, names) => (.mapping p entries, names)
  | .alias name, names => (names.lookup name).map fun number => (.alias number, names)

def linkItems? : List (Node String) → Names → Option (List (Node Nat) × Names)
  | [], names => some ([], names)
  | item :: items, names => do
    let (item, names) ← item.link? names
    let (items, names) ← linkItems? items names
    some (item :: items, names)

def linkEntries? : List (Node String × Node String) → Names →
    Option (List (Node Nat × Node Nat) × Names)
  | [], names => some ([], names)
  | (key, value) :: entries, names => do
    let (key, names) ← key.link? names
    let (value, names) ← value.link? names
    let (entries, names) ← linkEntries? entries names
    some ((key, value) :: entries, names)

end

def Properties.anchored (p : Properties Nat) (node : Node Nat) : List (Nat × Node Nat) :=
  (p.anchor.map fun number => (number, node)).toList

mutual

/-- The nodes with anchors in a node, in the order in which they begin. -/
def Node.anchored : Node Nat → List (Nat × Node Nat)
  | .scalar p form text => p.anchored (.scalar p form text)
  | .sequence p items => p.anchored (.sequence p items) ++ anchoredItems items
  | .mapping p entries => p.anchored (.mapping p entries) ++ anchoredEntries entries
  | .alias _ => []

def anchoredItems : List (Node Nat) → List (Nat × Node Nat)
  | [] => []
  | item :: items => item.anchored ++ anchoredItems items

def anchoredEntries : List (Node Nat × Node Nat) → List (Nat × Node Nat)
  | [] => []
  | (key, value) :: entries => key.anchored ++ value.anchored ++ anchoredEntries entries

end

end Document

end FlightScript
