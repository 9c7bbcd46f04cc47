import Telecommand.Path.Basic

/-! # File name extensions

    A file name has an extension when it holds a dot that is not its first
    character; the stem is what stands before the last dot.  Changing the
    extension of a path first shortens the whole text by the length of the
    old extension, and then cuts what is left behind the stem of its file
    name. -/

namespace Telecommand

/-- The stem of a file name, and its extension if it has one. -/
def splitExtension (name : Text) : Text × Option Text :=
  match Text.cut? '.' name.reverse with
  | none => (name, none)
  | some (_, []) => (name, none)
  | some (extension, stem) => (stem.reverse, some extension.reverse)

namespace Path

/-- The file name of a path without its extension. -/
def stem? (path : Path) : Option Text :=
  path.fileName?.map fun name => (splitExtension name.text).1

/-- The extension of the file name of a path. -/
def extension? (path : Path) : Option Text :=
  path.fileName?.bind fun name => (splitExtension name.text).2

/-- A text without the characters that fill a number of bytes at its front; a
    character that is only partly covered stays. -/
def dropBytes : Nat → Text → Text
  | 0, text => text
  | _ + 1, [] => []
  | n + 1, c :: rest =>
      if c.utf8Size ≤ n + 1 then dropBytes (n + 1 - c.utf8Size) rest else c :: rest

/-- A text shortened at its end by a number of bytes. -/
def shorten (bytes : Nat) (text : Text) : Text :=
  (dropBytes bytes text.reverse).reverse

/-- What an extension adds to a stem: a dot and itself, unless it is
    empty. -/
def suffix (extension : Text) : Text :=
  if extension = [] then [] else '.' :: extension

/-- The path cut behind the stem of its file name, with an extension added; a
    path without a file name stays. -/
def replaceExtension (path : Path) (extension : Text) : Path :=
  match path.pieces.reverse.dropWhile fun piece => piece = [] ∨ piece = "." with
  | [] => path
  | last :: front =>
      if last = ".." then path
      else
        let named := (splitExtension last).1 ++ suffix extension
        ⟨['/'].intercalate (front.reverse ++ [named])⟩

/-- The path with another extension.  There is none for an extension that
    holds a slash. -/
def withExtension? (path : Path) (extension : Text) : Option Path :=
  if '/' ∈ extension then none
  else
    let old := (path.extension?.getD []).utf8Length
    some (replaceExtension ⟨shorten old path.text⟩ extension)

example : (withExtension? ⟨"dir/a.scr"⟩ "byte").map text
    = some "dir/a.byte".toList := by decide

example : (withExtension? ⟨"dir.d/.a"⟩ "byte").map text
    = some "dir.d/.a.byte".toList := by decide

end Path

end Telecommand
