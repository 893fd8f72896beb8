import NativeHeaders.Files.Access

/-!
# File trees

A tree maps locations, lists of names below the root, to files and directories. A path is walked
piece by piece, from the root if it is absolute and from the working directory if it is not: every
piece but the last has to lead to a directory. A file may refuse to be read or to be written, and
one kind of file keeps nothing of what it is given.
-/

set_option autoImplicit false

namespace NativeHeaders

/-- What a file lets its user do. -/
structure FileMode where
  isReadable : Bool := true
  isWritable : Bool := true
deriving DecidableEq

/-- What a location holds. -/
inductive FileNode where
  | file (content : Bytes) (mode : FileMode)
  /-- The null device, which is always empty, whatever is written to it. -/
  | null
  | directory
deriving DecidableEq

/-- The files and directories below the root, by location, and the working directory. -/
structure FileTree where
  nodes : List (List String × FileNode)
  here : List String := []
deriving DecidableEq

namespace FileNode

/-- What is read from a node. -/
def content : FileNode → Except FileFault Bytes
  | file content mode => if mode.isReadable then .ok content else .error .permissionDenied
  | null => .ok []
  | directory => .error .isADirectory

/-- What a location holds when a content was written to it. A file keeps its mode. -/
def overwrite (content : Bytes) : Option FileNode → Except FileFault FileNode
  | none => .ok (file content {})
  | some (file _ mode) =>
    if mode.isWritable then .ok (file content mode) else .error .permissionDenied
  | some null => .ok null
  | some directory => .error .isADirectory

end FileNode

namespace FileTree

/-! ## Locations -/

/-- What a location holds. -/
def nodeAt (t : FileTree) (location : List String) : Option FileNode :=
  if location = [] then some .directory else t.nodes.lookup location

/-- Nodes with one of them changed, or added if it is missing. -/
def replace (location : List String) (node : FileNode) :
    List (List String × FileNode) → List (List String × FileNode)
  | [] => [(location, node)]
  | entry :: others =>
    if entry.1 = location then (location, node) :: others
    else entry :: replace location node others

/-- A tree with a location changed. -/
def insert (t : FileTree) (location : List String) (node : FileNode) : FileTree :=
  { t with nodes := replace location node t.nodes }

/-! ## Walking -/

/-- The location that pieces lead to from a location, and what it holds. Every piece, also one that
leads nowhere else, asks for the directory that it starts from. -/
def walk (t : FileTree) (here : List String) :
    List String → Except FileFault (List String × Option FileNode)
  | [] => .ok (here, t.nodeAt here)
  | piece :: rest =>
    match t.nodeAt here with
    | none => .error .notFound
    | some .directory => walk t (Path.step here piece) rest
    | some _ => .error .notADirectory

/-- The location that some pieces of a path lead to, and what it holds. -/
def locate (t : FileTree) (p : Path) (pieces : List String) :
    Except FileFault (List String × Option FileNode) :=
  if p = "" then .error .notFound else t.walk (Path.start t.here p) pieces

/-- Whether a path leads to a directory. -/
def isDirectory (t : FileTree) (p : Path) : Bool :=
  match t.locate p (Path.pieces p) with
  | .ok (_, some .directory) => true
  | _ => false

/-- The pieces of a path up to its last name; the separators at its end are dropped. -/
def withoutSlash (p : Path) : List String :=
  ((Path.pieces p).reverse.dropWhile (· == "")).reverse

/-! ## Operations -/

/-- The content of the file that a path leads to. -/
def read (t : FileTree) (p : Path) : Except FileFault Bytes :=
  match t.locate p (Path.pieces p) with
  | .error e => .error e
  | .ok (_, none) => .error .notFound
  | .ok (_, some node) => node.content

/-- Makes one directory. -/
def makeDirectory (t : FileTree) (p : Path) : Except FileFault FileTree :=
  match t.locate p (withoutSlash p) with
  | .error e => .error e
  | .ok (_, some _) => .error .alreadyExists
  | .ok (location, none) => .ok (t.insert location .directory)

/-- Makes the first of some directories, each of which is below the next, and before it those that
are missing. A directory that is there already is as good as one that is made. -/
def makeChain (t : FileTree) : List Path → FileTree × Except FileFault Unit
  | [] => (t, .ok ())
  | p :: above =>
    match t.makeDirectory p with
    | .ok made => (made, .ok ())
    -- the directory above is missing: make it and try once more
    | .error .notFound =>
      match makeChain t above with
      | (t, .error e) => (t, .error e)
      | (t, .ok ()) =>
        match t.makeDirectory p with
        | .ok made => (made, .ok ())
        | .error e => (t, if t.isDirectory p then .ok () else .error e)
    | .error e => (t, if t.isDirectory p then .ok () else .error e)

/-- Makes a directory and those above it, as far as they are missing. -/
def makeDirectories (t : FileTree) (p : Path) : FileTree × Except FileFault Unit :=
  if p = "" then (t, .ok ()) else t.makeChain (p :: Path.above p)

/-- Gives the file that a path leads to a content. A path that ends in a separator names no
file. -/
def write (t : FileTree) (p : Path) (content : Bytes) : Except FileFault FileTree :=
  match t.locate p (withoutSlash p) with
  | .error e => .error e
  | .ok (location, node) =>
    if p.toList.getLast? = some '/' then .error .isADirectory
    else
      match FileNode.overwrite content node with
      | .error e => .error e
      | .ok node => .ok (t.insert location node)

/-- The operations on a tree in memory. -/
def access : FileAccess (StateM FileTree) where
  read := fun p t => (t.read p, t)
  makeDirectories := fun p t => let (t, made) := t.makeDirectories p; (made, t)
  write := fun p content t =>
    match t.write p content with
    | .ok t => (.ok (), t)
    | .error e => (.error e, t)

end FileTree

end NativeHeaders
