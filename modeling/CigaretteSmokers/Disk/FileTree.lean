import CigaretteSmokers.Disk

/-!
A tree of files with a working directory. A path is walked name by name from the root or from the
working directory; every name on the way must be one of a directory.
-/

namespace CigaretteSmokers

inductive FileNode
  | text (content : String)
  /-- Bytes that are no text. -/
  | bytes
  | directory
  /-- A device that has nothing to read, and swallows or refuses what is written. -/
  | device (accepts : Bool)
  deriving DecidableEq

/-- The nodes below the root, each by the names that lead to it. -/
structure FileTree where
  nodes : List (List String × FileNode) := []
  workingDirectory : List String := []
  deriving DecidableEq

namespace FileTree

def node? (t : FileTree) : List String → Option FileNode
  | [] => some .directory
  | place => t.nodes.lookup place

def put (place : List String) (n : FileNode) (t : FileTree) : FileTree :=
  { t with nodes := (place, n) :: t.nodes.filter (·.1 ≠ place) }

/-- The names of a path. A slash at either end leaves an empty one. -/
def names (path : String) : Except FileError (List String) :=
  if path.contains '\x00' then .error (.other "file name contained an unexpected NUL byte")
  else if path.isEmpty then .error .notFound
  else if 4096 ≤ path.utf8ByteSize then .error .nameTooLong
  else .ok (path.splitOn "/")

def start (t : FileTree) (path : String) : List String :=
  if path.startsWith "/" then [] else t.workingDirectory

/-- Where names lead. There need not be anything at the end. -/
def walk (t : FileTree) (here : List String) : List String → Except FileError (List String)
  | [] => .ok here
  | name :: rest =>
      match t.node? here with
      | none => .error .notFound
      | some .directory =>
          if name = "" ∨ name = "." then walk t here rest
          else if name = ".." then walk t here.dropLast rest
          else if 255 < name.utf8ByteSize then .error .nameTooLong
          else walk t (here ++ [name]) rest
      | some _ => .error .notDirectory

def read (path : String) (t : FileTree) : Except FileError String := do
  let place ← t.walk (t.start path) (← names path)
  match t.node? place with
  | none => throw .notFound
  | some (.text content) => return content
  | some .bytes => throw .notText
  | some .directory => throw .isDirectory
  | some (.device _) => return ""

/-- The last name of a path, the names before it, and whether a slash follows. -/
def lastName (path : List String) : Option (List String × String) × Bool :=
  match path.reverse.dropWhile (· = "") with
  | [] => (none, true)
  | name :: above => (some (above.reverse, name), path.getLast? = some "")

def create (path : String) (t : FileTree) : Except FileError FileTree := do
  match lastName (← names path) with
  | (none, _) => throw .isDirectory
  | (some (above, name), slash) =>
      let folder ← t.walk (t.start path) above
      match t.node? folder with
      | none => throw .notFound
      | some .directory =>
          if slash then throw .isDirectory
          let place ← t.walk folder [name]
          match t.node? place with
          | some .directory => throw .isDirectory
          | some (.device _) => return t
          | _ => return t.put place (.text "")
      | some _ => throw .notDirectory

def append (path text : String) (t : FileTree) : Except FileError FileTree := do
  let place ← t.walk (t.start path) (← names path)
  match t.node? place with
  | none => throw .notFound
  | some (.text content) => return t.put place (.text (content ++ text))
  | some .bytes => throw .notText
  | some .directory => throw .isDirectory
  | some (.device accepts) => if accepts then return t else throw .noSpace

/-- A change that an error leaves undone. -/
def change (f : FileTree → Except FileError FileTree) : StateM FileTree (Except FileError Unit) :=
  fun t => match f t with
    | .ok changed => (.ok (), changed)
    | .error e => (.error e, t)

instance : Disk (StateM FileTree) where
  read path := fun t => (t.read path, t)
  create path := change (create path)
  append path text := change (append path text)

end FileTree

end CigaretteSmokers
