import FlightScript.Files

/-!
# Trees of directories

The files that the program sees may be given as a tree of directories. A path leads
through the tree part by part, from the root or from the directory in which the
program works: a part that is empty or a single point leads nowhere else, two points
lead back, and every other part is the name of something in the directory. Nothing is
left to follow after a file.
-/

namespace FlightScript

/-- Where something is in a tree: the names on the way from the root. -/
abbrev Location := List String

structure Tree where
  /-- The directory in which the program works. -/
  current : Location
  /-- The directories apart from the root. -/
  directories : List Location
  /-- What is read from the files. -/
  files : List (Location × Except ReadError String)

namespace Tree

inductive Target where
  | directory (location : Location)
  | file (contents : Except ReadError String)

/-- The largest number of bytes of a name. -/
def nameLimit : Nat := 255

/-- The largest number of bytes of a path. -/
def pathLimit : Nat := 4095

def child (t : Tree) (directory : Location) (name : String) : Except ReadError Target :=
  let location := directory ++ [name]
  if nameLimit < name.utf8ByteSize then .error .nameTooLong
  else if location ∈ t.directories then .ok (.directory location)
  else
    match t.files.lookup location with
    | some contents => .ok (.file contents)
    | none => .error .notFound

def follow (t : Tree) : Target → List String → Except ReadError Target
  | target, [] => .ok target
  | .file _, _ :: _ => .error .notDirectory
  | .directory d, part :: rest =>
    if part = "" ∨ part = "." then t.follow (.directory d) rest
    else if part = ".." then t.follow (.directory d.dropLast) rest
    else
      match t.child d part with
      | .ok target => t.follow target rest
      | .error e => .error e

def origin (t : Tree) (path : String) : Location :=
  if path.startsWith "/" then [] else t.current

def find (t : Tree) (path : String) : Except ReadError Target :=
  if '\x00' ∈ path.toList then .error .nullInPath
  else if pathLimit < path.utf8ByteSize then .error .nameTooLong
  else if path.isEmpty then .error .notFound
  else t.follow (.directory (t.origin path)) (path.splitOn "/")

def contents (t : Tree) : Files := fun path =>
  match t.find path with
  | .ok (.file contents) => contents
  | .ok (.directory _) => .error .isDirectory
  | .error e => .error e

/-! ### What is written -/

/-- The tree with a directory, and with those on the way to it. -/
def withDirectory (t : Tree) (location : Location) : Tree :=
  let onTheWay := (List.range location.length).map fun n => location.take (n + 1)
  let missing := onTheWay.filter (· ∉ t.directories)
  { t with directories := missing ++ t.directories }

/-- The tree with a file, and with the directories on the way to it. -/
def withFile (t : Tree) (location : Location) (contents : Except ReadError String) : Tree :=
  let t := t.withDirectory location.dropLast
  { t with files := (location, contents) :: t.files }

/-- The tree after the directories on a path were made where they were missing, and
where the path leads to. -/
def make (t : Tree) : Location → List String → Tree × Location
  | d, [] => (t, d)
  | d, part :: rest =>
    if part = "" ∨ part = "." then t.make d rest
    else if part = ".." then t.make d.dropLast rest
    else (t.withDirectory (d ++ [part])).make (d ++ [part]) rest

/-- The tree with an empty file in the directory of a path, which is made where it is
missing. -/
def withLog (t : Tree) (directory name : String) : Tree :=
  let (t, d) := t.make (t.origin directory) (directory.splitOn "/")
  t.withFile (d ++ [name]) (.ok "")

def fileNames (t : Tree) (directory : String) : List String :=
  match t.find directory with
  | .ok (.directory d) =>
    t.files.filterMap fun f => if f.1.dropLast = d then f.1.getLast? else none
  | _ => []

end Tree

end FlightScript
