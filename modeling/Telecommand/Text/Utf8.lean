import Telecommand.Text.Basic

/-! # Texts as bytes

    Files and sinks hold bytes; a text becomes bytes by UTF-8, and bytes
    are a text only if they are valid UTF-8.  Slices by byte offset exist
    only where both ends fall between characters. -/

namespace Telecommand

/-- A sequence of bytes. -/
abbrev Bytes := List UInt8

namespace Text

/-- The UTF-8 bytes of a text. -/
def toUtf8 (text : Text) : Bytes :=
  text.flatMap String.utf8EncodeChar

/-- The text that bytes encode, if they are valid UTF-8. -/
def ofUtf8? (bytes : Bytes) : Option Text :=
  bytes.toByteArray.utf8Decode?.map Array.toList

/-- The number of bytes of a text. -/
def utf8Length (text : Text) : Nat :=
  text.foldr (fun c rest => c.utf8Size + rest) 0

/-- What is left after a number of bytes, if that offset exists and falls
    between characters. -/
def dropUtf8? : Nat → Text → Option Text
  | 0, text => some text
  | _ + 1, [] => none
  | n + 1, c :: rest =>
      if c.utf8Size ≤ n + 1 then dropUtf8? (n + 1 - c.utf8Size) rest else none

/-- The first characters that fill a number of bytes exactly, if there are
    such. -/
def takeUtf8? : Nat → Text → Option Text
  | 0, _ => some []
  | _ + 1, [] => none
  | n + 1, c :: rest =>
      if c.utf8Size ≤ n + 1 then
        (takeUtf8? (n + 1 - c.utf8Size) rest).map (c :: ·)
      else none

/-- The slice between two byte offsets, if both exist and fall between
    characters. -/
def utf8Slice? (start stop : Nat) (text : Text) : Option Text :=
  (dropUtf8? start text).bind (takeUtf8? (stop - start))

/-- The bytes of a text read back as the text. -/
@[simp] theorem ofUtf8?_toUtf8 (text : Text) : ofUtf8? text.toUtf8 = some text := by
  have h := @List.utf8Decode?_utf8Encode text
  simp only [List.utf8Encode] at h
  simp [ofUtf8?, toUtf8, h]

end Text

end Telecommand
