import Telecommand.Text.Utf8

/-! # Paths

    A path is a text whose pieces stand between slashes.  Read piece by
    piece it is a list of steps through directories.  Two spellings name the
    same path when they have the same components: repeated slashes, slashes
    at the end and inner `.` pieces do not count. -/

namespace Telecommand

/-- Whether a text can name a directory entry. -/
def isEntryName (text : Text) : Bool :=
  text ≠ [] && text ≠ "." && text ≠ ".." && '/' ∉ text

/-- The name of a directory entry. -/
structure Name where
  text : Text
  isEntryName_text : isEntryName text = true
  deriving DecidableEq, Repr

/-- A text as a name, if it can be one. -/
def Name.ofText? (text : Text) : Option Name :=
  if h : isEntryName text = true then some ⟨text, h⟩ else none

/-- A step along a path. -/
inductive Step
  /-- Stay: the piece `.`. -/
  | here
  /-- Go to the directory above: the piece `..`. -/
  | up
  /-- Go to the entry with a name. -/
  | name (name : Name)
  /-- A slash at the end: what it follows has to be a directory. -/
  | slash
  deriving DecidableEq, Repr

/-- The step that a piece between slashes asks for; an empty piece asks for
    none. -/
def Step.ofPiece? (piece : Text) : Option Step :=
  if piece = "." then some .here
  else if piece = ".." then some .up
  else (Name.ofText? piece).map .name

/-- A path, as it is spelled. -/
structure Path where
  text : Text
  deriving DecidableEq, Repr

namespace Path

/-- Whether a path holds the character that is a zero byte. -/
def hasZeroByte (path : Path) : Bool := '\x00' ∈ path.text

/-- The texts between the slashes of a path. -/
def pieces (path : Path) : List Text := path.text.splitOn '/'

/-- Whether a path starts at the root. -/
def isAbsolute (path : Path) : Bool := path.text.head? = some '/'

/-- The steps along a path. -/
def steps (path : Path) : List Step :=
  path.pieces.filterMap Step.ofPiece?
    ++ (if path.text.getLast? = some '/' then [.slash] else [])

/-- The components of a path: its steps, but a `.` only where a relative path
    starts with it. -/
def components (path : Path) : List Step :=
  let moves := path.steps.filter fun step => step = .up ∨ step matches .name _
  if path.pieces.head? = some "." then .here :: moves else moves

/-- Whether two spellings name the same path. -/
def sameAs (a b : Path) : Bool :=
  a.isAbsolute = b.isAbsolute && a.components = b.components

/-- The name at the end of a path, if it ends in one. -/
def fileName? (path : Path) : Option Name :=
  match path.components.getLast? with
  | some (.name name) => some name
  | _ => none

/-- A component in print. -/
def pieceOf : Step → Text
  | .here => "."
  | .up => ".."
  | .name name => name.text
  | .slash => []

/-- The path with the given components. -/
def ofComponents (absolute : Bool) (components : List Step) : Path :=
  ⟨(if absolute then ['/'] else []) ++ ['/'].intercalate (components.map pieceOf)⟩

/-- The path without its last component, if it has one. -/
def parent? (path : Path) : Option Path :=
  if path.components = [] then none
  else some (ofComponents path.isAbsolute path.components.dropLast)

/-- The path of an entry in a directory. -/
def join (directory : Path) (name : Name) : Path :=
  if directory.text.getLast? = some '/' then ⟨directory.text ++ name.text⟩
  else ⟨directory.text ++ '/' :: name.text⟩

end Path

end Telecommand
