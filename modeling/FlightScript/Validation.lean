import FlightScript.Script

/-!
# Validation

A script is valid when every line of it is read and every assignment and every
propagation names what an earlier line introduces. Validation walks over the
statements with a `Scope`: the names introduced so far and the blocks that are
open. `Scope.findings` says what a statement gives rise to in a scope,
`Scope.after` how the statement changes the scope. Blocks that do not pair up,
names created twice and names saved without having been created give warnings,
and warnings leave the script valid.
-/

namespace FlightScript

inductive Block where
  | ifThen
  | whileDo
  deriving DecidableEq, Repr

/-- What the statements before a line have introduced. -/
structure Scope where
  /-- The names of the objects created. -/
  objects : List String
  /-- The names of the variables assigned to. -/
  assigned : List String
  /-- The blocks that are open, with the statements that open them, the innermost
  one first. -/
  blocks : List (Block × Statement)
  deriving DecidableEq

namespace Scope

def empty : Scope :=
  ⟨[], [], []⟩

def isInside (scope : Scope) (block : Block) : Bool :=
  scope.blocks.head?.map Prod.fst = some block

def unlessHolds (holds : Bool) (f : Finding) : List Finding :=
  if holds then [] else [f]

def findings (scope : Scope) : Command → List Finding
  | .create _ name => unlessHolds (name ∉ scope.objects) (.duplicateObject name)
  | .set object _ _ =>
    unlessHolds (object ∈ scope.objects ∨ object ∈ scope.assigned) (.undeclaredTarget object)
  | .propagate propagator spacecraft _ =>
    unlessHolds (propagator ∈ scope.objects) (.undeclaredPropagator propagator) ++
      unlessHolds (spacecraft ∈ scope.objects) (.undeclaredSpacecraft spacecraft)
  | .save object => unlessHolds (object ∈ scope.objects) (.savedUndeclared object)
  | .otherwise => unlessHolds (scope.isInside .ifThen) .strayElse
  | .endIf => unlessHolds (scope.isInside .ifThen) .strayEndIf
  | .endWhile => unlessHolds (scope.isInside .whileDo) .strayEndWhile
  | .report _ | .variable _ _ | .ifThen _ | .whileDo _ | .comment _ | .unknown => []

/-- The scope without its innermost block, if that is of a given kind. -/
def close (scope : Scope) (block : Block) : Scope :=
  if scope.isInside block then { scope with blocks := scope.blocks.tail } else scope

def after (scope : Scope) (s : Statement) : Scope :=
  match s.command with
  | .create _ name => { scope with objects := scope.objects.insert name }
  | .variable name _ => { scope with assigned := scope.assigned.insert name }
  | .ifThen _ => { scope with blocks := (.ifThen, s) :: scope.blocks }
  | .whileDo _ => { scope with blocks := (.whileDo, s) :: scope.blocks }
  | .endIf => scope.close .ifThen
  | .endWhile => scope.close .whileDo
  | _ => scope

def unclosed : Block → Finding
  | .ifThen => .unclosedIf
  | .whileDo => .unclosedWhile

/-- The diagnostics of the blocks that are open at the end, in the order in which
they were opened. -/
def closing (scope : Scope) : List Diagnostic :=
  scope.blocks.reverse.map fun b => (unclosed b.1).diagnostic b.2.line b.2.text

/-- The diagnostics of a list of statements that follows what a scope describes. -/
def diagnostics : Scope → List Statement → List Diagnostic
  | scope, [] => scope.closing
  | scope, s :: rest =>
    (scope.findings s.command).map (fun f => f.diagnostic s.line s.text) ++
      diagnostics (scope.after s) rest

@[simp] theorem diagnostics_nil (scope : Scope) : diagnostics scope [] = scope.closing := rfl

theorem diagnostics_cons (scope : Scope) (s : Statement) (rest : List Statement) :
    diagnostics scope (s :: rest) =
      (scope.findings s.command).map (fun f => f.diagnostic s.line s.text) ++
        diagnostics (scope.after s) rest := rfl

end Scope

structure Validation where
  errors : List Diagnostic
  warnings : List Diagnostic
  deriving DecidableEq

namespace Validation

def isValid (v : Validation) : Bool :=
  v.errors.isEmpty

/-- The diagnostics sorted by severity, their order kept. -/
def ofDiagnostics (ds : List Diagnostic) : Validation :=
  ⟨ds.filter (·.severity = .error), ds.filter (·.severity = .warning)⟩

def ofStatements (statements : List Statement) : Validation :=
  ofDiagnostics (Scope.empty.diagnostics statements)

/-- The validation of a script: what was found on reading it comes first. -/
def ofScript (s : Script) : Validation :=
  let v := ofStatements s.statements
  ⟨s.errors ++ v.errors, s.warnings ++ v.warnings⟩

end Validation

def validate (text : String) : Validation :=
  Validation.ofScript (Script.read text)

end FlightScript
