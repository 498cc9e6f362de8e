import CodeMap.Failure
import CodeMap.Text.Lines

/-! # Trees of files

Files lie in folders, and a path leads to one of them from the current folder or from the root. A
path is followed name by name, and every place on the way has to be a folder. A folder may be empty.
Whatever lies above the current folder has no other files than the tree says, and every file has one
place. The tree refuses what has no place in it; who may read or write is left to the world around.
-/

namespace CodeMap

/-- Why a path leads to no file that can be read, written or started. -/
inductive PathFault where
  | missing
  | denied
  | notFolder
  | isFolder
  | noSpace
  | nameTooLong
deriving DecidableEq, Repr

def PathFault.message : PathFault → String
  | .missing => "No such file or directory (os error 2)"
  | .denied => "Permission denied (os error 13)"
  | .notFolder => "Not a directory (os error 20)"
  | .isFolder => "Is a directory (os error 21)"
  | .noSpace => "No space left on device (os error 28)"
  | .nameTooLong => "File name too long (os error 36)"

/-! ## Places -/

/-- A place: the names on the way to it from the current folder. Each `..` at the front is one
folder further up, and a `/` at the front is the root. -/
abbrev Place := List String

namespace Place

/-- The place that a name leads to. -/
def enter (p : Place) (name : String) : Place :=
  if name = "" ∨ name = "." then p
  else if name = ".." then
    match p.getLast? with
    | none | some ".." => p ++ [".."]
    | some "/" => p
    | some _ => p.dropLast
  else p ++ [name]

/-- The place is the current folder, a folder that it lies in, or the root. -/
def isTop (p : Place) : Bool := p == ["/"] || p.all (· == "..")

/-- Where a path begins. -/
def start (path : String) : Place := if path.toList.head? = some '/' then ["/"] else []

/-- The names in a path. -/
def names (path : String) : List String := (path.toList.splitOn '/').map String.ofList

/-- The place of a path, whether anything is there or not. -/
def ofPath (path : String) : Place := (names path).foldl enter (start path)

end Place

/-! ## Files -/

/-- A file that is empty and keeps nothing of what is written to it. -/
inductive Device where
  /-- Everything can be written to it. -/
  | sink
  /-- Nothing can be written to it. -/
  | full
deriving DecidableEq, Repr

/-- Files and folders at their places. What something lies in is a folder too, and so are the places
at the top. -/
structure FileTree where
  files : List (Place × Text.Bytes)
  devices : List (Place × Device)
  folders : List Place
deriving DecidableEq, Repr

namespace FileTree

/-- No files. -/
def empty : FileTree := ⟨[], [], []⟩

/-- The device at a place. -/
def device? (t : FileTree) (p : Place) : Option Device := t.devices.lookup p

/-- The file at a place. -/
def file? (t : FileTree) (p : Place) : Option Text.Bytes :=
  match t.device? p with
  | some _ => some []
  | none => t.files.lookup p

/-- The places of all files. -/
def places (t : FileTree) : List Place := t.files.map (·.1) ++ t.devices.map (·.1)

/-- The place is a folder. -/
def isFolder (t : FileTree) (p : Place) : Bool :=
  p.isTop || t.folders.any (p.isPrefixOf ·) || t.places.any fun q => p.isPrefixOf q && p != q

/-- The place that names lead to. The last one need not lead to anything that is there. -/
def walk (t : FileTree) (p : Place) : List String → Except PathFault Place
  | [] => .ok p
  | name :: rest =>
    if !t.isFolder p then .error (if (t.file? p).isSome then .notFolder else .missing)
    else if 255 < name.utf8ByteSize then .error .nameTooLong
    else t.walk (p.enter name) rest

/-- The place that names in a path lead to. -/
def follow (t : FileTree) (path : String) (names : List String) : Except PathFault Place :=
  if path = "" then .error .missing
  else if 4095 < path.utf8ByteSize then .error .nameTooLong
  else t.walk (Place.start path) names

/-- The place that a path leads to. -/
def find (t : FileTree) (path : String) : Except PathFault Place :=
  t.follow path (Place.names path)

/-- The contents of the file that a path leads to. -/
def contents (t : FileTree) (path : String) : Except PathFault Text.Bytes :=
  match t.find path with
  | .error fault => .error fault
  | .ok p =>
    match t.file? p with
    | some bytes => .ok bytes
    | none => .error (if t.isFolder p then .isFolder else .missing)

/-- What reading at a path gives. -/
def read (t : FileTree) (path : String) : FileRead := (t.contents path).mapError PathFault.message

/-- The place where a file can be written, in a folder that is there and not to a full device. A
slash at the end makes the path one of a folder, whatever its last name is. -/
def target (t : FileTree) (path : String) : Except PathFault Place :=
  let stem := String.ofList (Text.dropTrailing (· == '/') path.toList)
  if stem = path then
    match t.find path with
    | .error fault => .error fault
    | .ok p =>
      if t.isFolder p then .error .isFolder
      else if t.device? p = some .full then .error .noSpace
      else .ok p
  else
    match t.follow path ((Place.names stem).dropLast ++ [""]) with
    | .error fault => .error fault
    | .ok _ => .error .isFolder

/-- Why no file can be written at a path. -/
def refusal? (t : FileTree) (path : String) : Option String :=
  match t.target path with
  | .error fault => some fault.message
  | .ok _ => none

/-- The tree with a file written. It stays as it is if the file cannot be written. -/
def write (t : FileTree) (path : String) (content : Text.Bytes) : FileTree :=
  match t.target path with
  | .error _ => t
  | .ok p =>
    if (t.device? p).isSome then t
    else { t with files := (p, content) :: t.files.filter (·.1 != p) }

/-- The tree of files and devices at these paths, in the folders that they need. -/
def ofFiles (files : List (String × Text.Bytes)) (devices : List (String × Device)) : FileTree :=
  ⟨files.map fun f => (Place.ofPath f.1, f.2), devices.map fun d => (Place.ofPath d.1, d.2), []⟩

/-- The tree with a folder at a path, in the folders that it needs. -/
def addFolder (t : FileTree) (path : String) : FileTree :=
  { t with folders := Place.ofPath path :: t.folders }

/-- Why a command cannot be started that is no program. With a slash it is a path, else a name that
is looked for elsewhere; no file of the tree is a program. -/
def startFault (t : FileTree) (command : String) : PathFault :=
  let around := if command.toList.contains '/' then t else empty
  match around.find command with
  | .error fault => fault
  | .ok p => if around.isFolder p || (around.file? p).isSome then .denied else .missing

end FileTree

end CodeMap
