/-!
# Files

What the program sees of files: under every path there is a text, or a reason why
there is none. A path may stand for something that is there and still is no text.
-/

namespace FlightScript

inductive ReadError where
  | notFound
  /-- A part of the path is no directory. -/
  | notDirectory
  | isDirectory
  | nameTooLong
  | denied
  /-- The path holds the character that ends paths. -/
  | nullInPath
  /-- The contents are no text. -/
  | notText
  | other (detail : String)
  deriving DecidableEq, Repr

namespace ReadError

def message : ReadError → String
  | .notFound => "No such file or directory (os error 2)"
  | .notDirectory => "Not a directory (os error 20)"
  | .isDirectory => "Is a directory (os error 21)"
  | .nameTooLong => "File name too long (os error 36)"
  | .denied => "Permission denied (os error 13)"
  | .nullInPath => "file name contained an unexpected NUL byte"
  | .notText => "stream did not contain valid UTF-8"
  | .other detail => detail

end ReadError

abbrev Files := String → Except ReadError String

namespace Files

def holds (files : Files) (path : String) : Bool :=
  match files path with
  | .ok _ => true
  | .error e => e ∉ [.notFound, .notDirectory, .nameTooLong, .nullInPath]

end Files

end FlightScript
