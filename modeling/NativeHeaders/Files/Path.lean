import NativeHeaders.Text.Split

/-!
# Paths

A path is a text whose pieces are separated by `/`. An empty piece means nothing, and neither does
`.` except where a path starts. What a path leads to is for a file system to say; here is only
what its text says.
-/

set_option autoImplicit false

namespace NativeHeaders

/-- A path as text. -/
abbrev Path := String

namespace Path

/-- The pieces of a path between separators. -/
def pieces (p : Path) : List String := (Text.splitOn '/' p.toList).map String.ofList

/-- The path of some pieces. -/
def ofPieces (ps : List String) : Path :=
  String.ofList (Text.joinWith '/' (ps.map String.toList))

/-- Whether a path starts at the root rather than at the working directory. -/
def isAbsolute (p : Path) : Bool := p.toList.head? == some '/'

/-- Where a path starts: at the root, which has no name, or at the working directory. -/
def start (here : List String) (p : Path) : List String := if isAbsolute p then [] else here

/-- A piece that leads nowhere else, unless it starts the path. -/
def isIdle (piece : String) : Bool := piece == "" || piece == "."

/-- Where a piece leads to from a location. Nothing is above the root. -/
def step (here : List String) (piece : String) : List String :=
  if isIdle piece then here else if piece = ".." then here.dropLast else here ++ [piece]

/-- The pieces of a path from its end, without idle ones there. -/
def trimIdle : List String → List String
  | [] => []
  | [first] => [first]
  | piece :: rest => if isIdle piece then trimIdle rest else piece :: rest

/-! ## Joining and parting -/

/-- A path below a directory. -/
def join (directory name : Path) : Path :=
  if isAbsolute name || directory == "" then name
  else if directory.toList.getLast? = some '/' then directory ++ name
  else directory ++ "/" ++ name

/-- The directories above some pieces, which are given from their end: each is what is left when
the path is cut behind a piece that is not idle. -/
def cuts : List String → List Path
  | [] => []
  | [first] => if first = "" then [] else [first]
  | piece :: rest =>
    if isIdle piece then cuts rest else ofPieces (piece :: rest).reverse :: cuts rest

/-- The directories that a path names above its last piece, nearest first. The root is left out,
since it is always there. -/
def above (p : Path) : List Path := cuts (trimIdle (pieces p).reverse).tail

/-! ## Extensions -/

/-- The last piece of a path, unless it leads upwards or nowhere else. -/
def fileName? (p : Path) : Option String :=
  match trimIdle (pieces p).reverse with
  | [] => none
  | name :: _ => if isIdle name || name == ".." then none else some name

/-- What stands behind the last dot of a path's last piece, unless the piece starts with it. -/
def extension? (p : Path) : Option String := do
  let name ← fileName? p
  let reversed := name.toList.reverse
  let stem := (reversed.dropWhile (· != '.')).tail
  if stem.isEmpty then none else some (String.ofList (reversed.takeWhile (· != '.')).reverse)

end Path

end NativeHeaders
