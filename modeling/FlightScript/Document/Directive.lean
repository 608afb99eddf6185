import FlightScript.Document.Cursor
import FlightScript.Document.Token

/-!
# Directives

A directive stands on a line of its own before a document whose beginning is marked.
One names the version of the notation, the others declare handles.
-/

namespace FlightScript

namespace Document

/-- A number of a version, and what follows it; it has at most nine digits. -/
def versionNumber? (cs : List Char) : Option (Nat × List Char) :=
  let digits := cs.takeWhile Char.isDigit
  if digits.isEmpty || 9 < digits.length then none
  else some (digits.foldl (fun n d => 10 * n + (d.toNat - '0'.toNat)) 0, cs.drop digits.length)

def version? (cs : List Char) : Option (Token × List Char) := do
  let (major, rest) ← versionNumber? cs
  match rest with
  | '.' :: rest =>
    let (minor, after) ← versionNumber? rest
    some (.version major minor, after)
  | _ => none

/-- A handle, what it stands for, and what follows. The mark alone is a handle too. -/
def declaration? (cs : List Char) : Option (Token × List Char) := do
  let (handle, rest) ←
    match cs, handle? cs with
    | _, some r => some r
    | '!' :: rest, none => some (['!'], rest)
    | _, none => none
  let start := rest.dropWhile Text.isBlank
  if start.length = rest.length then none
  else
    let (text, after) ← tagText? true start
    if isApart after then some (.handle (String.ofList handle) (String.ofList text), after)
    else none

def directive? (cs : List Char) : Option Token := do
  let name := cs.takeWhile isNameChar
  let rest := cs.drop name.length
  let arguments := rest.dropWhile Text.isBlank
  let (token, after) ←
    if !isApart rest then none
    else if name = "YAML".toList then version? arguments
    else if name = "TAG".toList then declaration? arguments
    else none
  if Cursor.isBlankLine (Cursor.afterBlanks true after) then some token else none

example : directive? "YAML 1.2 # c".toList = some (.version 1 2) := by decide +kernel
example : directive? "TAG !e! tag:".toList = some (.handle "!e!" "tag:") := by decide +kernel
example : directive? "OTHER".toList = none := by decide +kernel

end Document

end FlightScript
