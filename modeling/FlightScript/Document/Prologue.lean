import FlightScript.Document.Tag
import FlightScript.Document.Token

/-!
# Before a document

The directives before a document name the version of the notation, which is `1.1` or
`1.2`, and declare handles. Nothing is declared twice, but what is known in every
document may be declared anew.
-/

namespace FlightScript

namespace Document

/-- What the directives before a document say. -/
structure Prologue where
  /-- A version was named. -/
  isVersioned : Bool
  declared : Handles
  deriving DecidableEq

namespace Prologue

def empty : Prologue :=
  ⟨false, []⟩

def handles (p : Prologue) : Handles :=
  p.declared ++ Handles.standard

def read? (p : Prologue) : List Token → Option (Prologue × List Token)
  | .version major minor :: rest =>
    if !p.isVersioned && major = 1 && (minor = 1 || minor = 2) then
      read? { p with isVersioned := true } rest
    else none
  | .handle name start :: rest =>
    if (p.declared.lookup name).isSome then none
    else read? { p with declared := (name, start) :: p.declared } rest
  | tokens => some (p, tokens)

end Prologue

end Document

end FlightScript
