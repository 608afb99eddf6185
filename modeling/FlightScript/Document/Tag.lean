import FlightScript.Document.Cursor

/-!
# Tags and handles

A tag says of what type a node is. It is written out between angle brackets, or with
a handle that stands for its beginning: two handles are known in every document,
others are declared before it. In a tag any octet may stand as two hexadecimal
digits after a percent sign; the octets of one character stand together.
-/

namespace FlightScript

namespace Document

abbrev Handles := List (String × String)

namespace Tag

/-- The name under which the tags of the common types are registered. -/
def authority : String :=
  ".".intercalate ["yaml", "org"]

def registered : String :=
  "2002"

def ofType (name : String) : String :=
  "tag:" ++ authority ++ "," ++ registered ++ ":" ++ name

end Tag

def Handles.standard : Handles :=
  [("!", "!"), ("!!", Tag.ofType "")]

/-- The characters of tags. Commas and square brackets are among them where a tag
cannot end at them. -/
def isTagChar (enclosed : Bool) (c : Char) : Bool :=
  isNameChar c || c ∈ ";/?:@&=+$.!~*'()".toList || (enclosed && (c = ',' || c = '[' || c = ']'))

/-- The number of octets that follow the first one of a character. -/
def octetsAfter? (octet : Nat) : Option Nat :=
  if octet < 0x80 then some 0
  else if octet < 0xC0 then none
  else if octet < 0xE0 then some 1
  else if octet < 0xF0 then some 2
  else if octet < 0xF8 then some 3
  else none

/-- The characters of a tag from here on, and what follows them. `more` octets are
still to come that belong to a character begun before; each octet that is written as
digits is a character of its own. -/
def tagChars? (enclosed : Bool) : (more : Nat) → List Char → Option (List Char × List Char)
  | more, '%' :: a :: b :: rest =>
    match hexValue? a, hexValue? b with
    | some high, some low =>
      let octet := 16 * high + low
      let more? :=
        if more = 0 then octetsAfter? octet
        else if 0x80 ≤ octet ∧ octet < 0xC0 then some (more - 1)
        else none
      more?.bind fun more => (tagChars? enclosed more rest).map fun (text, after) =>
        (Char.ofNat octet :: text, after)
    | _, _ => none
  | 0, c :: rest =>
    if isTagChar enclosed c then
      (tagChars? enclosed 0 rest).map fun (text, after) => (c :: text, after)
    else if c = '%' then none
    else some ([], c :: rest)
  | 0, [] => some ([], [])
  | _ + 1, _ => none

def tagText? (enclosed : Bool) (cs : List Char) : Option (List Char × List Char) :=
  (tagChars? enclosed 0 cs).filter fun r => !r.1.isEmpty

/-- A handle with a mark at both ends, and what follows it. -/
def handle? : List Char → Option (List Char × List Char)
  | '!' :: rest =>
    let name := rest.takeWhile isNameChar
    match rest.drop name.length with
    | '!' :: after => some ('!' :: name ++ ['!'], after)
    | _ => none
  | _ => none

structure WrittenTag where
  handle : Option String
  rest : String
  deriving DecidableEq, Repr

def WrittenTag.expand? (handles : Handles) (t : WrittenTag) : Option String :=
  match t.handle with
  | none => some t.rest
  | some handle => (handles.lookup handle).map (· ++ t.rest)

/-- The tag that begins with a mark here, and what follows it. The mark alone is a tag
without a type. -/
def writtenTag? (cs : List Char) : Option (WrittenTag × List Char) :=
  match cs with
  | '!' :: '<' :: rest => do
    let (text, after) ← tagText? true rest
    match after with
    | '>' :: after => some (⟨none, String.ofList text⟩, after)
    | _ => none
  | '!' :: rest =>
    match handle? cs with
    | some (handle, after) => do
      let (text, after) ← tagText? false after
      some (⟨some (String.ofList handle), String.ofList text⟩, after)
    | none => do
      let (text, after) ← tagChars? false 0 rest
      if text.isEmpty then some (⟨none, "!"⟩, after)
      else some (⟨some "!", String.ofList text⟩, after)
  | _ => none

/-- The tag that stands here, and the place after it, where nothing follows directly;
between brackets a comma may. -/
def tag? (bracketed : Bool) (c : Cursor) : Option (WrittenTag × Cursor) := do
  let (tag, after) ← writtenTag? c.rest
  if isApart after || (bracketed && after.head? = some ',') then some (tag, c.moveTo after)
  else none

example : writtenTag? "!!int 5".toList = some (⟨some "!!", "int"⟩, " 5".toList) := by
  decide +kernel
example : writtenTag? "!<%69nt>".toList = some (⟨none, "int"⟩, []) := by decide +kernel
example : (WrittenTag.mk (some "!!") "int").expand? Handles.standard = some (Tag.ofType "int") := by
  decide +kernel
example : (WrittenTag.mk (some "!e!") "int").expand? Handles.standard = none := by decide +kernel

end Document

end FlightScript
