import Telecommand.Toml.Quoted
import Telecommand.Toml.Table

/-! # Reading TOML

    A settings text is read line by line into a table.  Strings, booleans,
    tables and empty arrays are read; no setting takes a number, a date, a
    filled array or an array of tables, and a text with one of these is
    refused like one that is no TOML at all. -/

namespace Telecommand.Toml

/-- What is behind blanks, line ends and comments; `comment` says that the
    text starts inside a comment. -/
def skipTrivia : Bool → Text → Option Text
  | _, [] => some []
  | _, '\n' :: rest => skipTrivia false rest
  | _, '\r' :: '\n' :: rest => skipTrivia false rest
  | true, c :: rest => if isPlain c then skipTrivia true rest else none
  | false, '#' :: rest => skipTrivia true rest
  | false, c :: rest => if isSpace c then skipTrivia false rest else some (c :: rest)

/-- What is behind the end of a line that has only blanks and a comment
    left. -/
def endLine? (text : Text) : Option Text :=
  let rest := match text.dropWhile isSpace with
    | '#' :: comment => comment.dropWhile isPlain
    | rest => rest
  if rest = [] then some [] else newline? rest

/-- Whether a character may stand in a key without quotes. -/
def isBare (c : Char) : Bool := c.isAlphanum || c = '_' || c = '-'

/-- One part of a key: in quotes on one line, or bare. -/
def keyPart? (text : Text) : Option (Text × Text) :=
  match text with
  | '"' :: rest => basic rest
  | '\'' :: rest => literal rest
  | _ =>
      let bare := text.takeWhile isBare
      if bare = [] then none else some (bare, text.dropWhile isBare)

/-- A key: parts with dots between them, blanks around the dots.  The number
    bounds the parts. -/
def key? : Nat → Text → Option (List Text × Text)
  | 0, _ => none
  | parts + 1, text => do
      let (part, rest) ← keyPart? (text.dropWhile isSpace)
      match rest.dropWhile isSpace with
      | '.' :: more => do
          let (path, rest) ← key? parts more
          some (part :: path, rest)
      | rest => some ([part], rest)

mutual

/-- A value at the front of a text.  The number bounds how deep it goes and how
    many parts its keys have; the length of the text is enough for both. -/
def value? : Nat → Text → Option (Value × Text)
  | 0, _ => none
  | depth + 1, text =>
      match text with
      | 't' :: 'r' :: 'u' :: 'e' :: rest => some (.boolean true, rest)
      | 'f' :: 'a' :: 'l' :: 's' :: 'e' :: rest => some (.boolean false, rest)
      | '[' :: rest =>
          match skipTrivia false rest with
          | some (']' :: rest) => some (.emptyArray, rest)
          | _ => none
      | '\x7b' :: rest =>
          (inlineEntries? depth [] rest).map fun (entries, rest) =>
            (.table .braces entries, rest)
      | _ => (quoted? text).map fun (string, rest) => (.string string, rest)

/-- The entries of a table in braces behind the opening brace, up to and with
    the closing one; commas stand between entries and may stand behind the
    last.  Lines may end anywhere but inside a key. -/
def inlineEntries? : Nat → Entries → Text → Option (Entries × Text)
  | 0, _, _ => none
  | depth + 1, entries, text => do
      match ← skipTrivia false text with
      | '\x7d' :: rest => some (entries, rest)
      | start => do
          let (path, rest) ← key? (depth + 1) start
          match ← skipTrivia false rest with
          | '=' :: rest => do
              let (value, rest) ← value? depth (← skipTrivia false rest)
              let entries ← entries.assign path value
              match ← skipTrivia false rest with
              | ',' :: rest => inlineEntries? depth entries rest
              | '\x7d' :: rest => some (entries, rest)
              | _ => none
          | _ => none

end

/-- A line of a settings text. -/
inductive Statement
  | blank
  /-- A header opens a table for the lines behind it. -/
  | header (path : List Text)
  | assign (path : List Text) (value : Value)

/-- The statement on the first line of a text, and the lines behind it. -/
def statement? (text : Text) : Option (Statement × Text) :=
  match text.dropWhile isSpace with
  | [] => some (.blank, [])
  | '#' :: rest => (endLine? ('#' :: rest)).map fun rest => (.blank, rest)
  | '\n' :: rest => some (.blank, rest)
  | '\r' :: '\n' :: rest => some (.blank, rest)
  | '[' :: rest => do
      let (path, rest) ← key? rest.length rest
      match rest with
      | ']' :: rest => (endLine? rest).map fun rest => (.header path, rest)
      | _ => none
  | start => do
      let (path, rest) ← key? start.length start
      match rest with
      | '=' :: rest => do
          let (value, rest) ← value? rest.length (rest.dropWhile isSpace)
          (endLine? rest).map fun rest => (.assign path value, rest)
      | _ => none

/-- Reads statements into a table; `header` is the table they are for, and
    the number bounds the statements. -/
def readInto : Nat → List Text → Entries → Text → Option Entries
  | _, _, entries, [] => some entries
  | 0, _, _, _ :: _ => none
  | lines + 1, header, entries, text => do
      let (statement, rest) ← statement? text
      match statement with
      | .blank => readInto lines header entries rest
      | .header path => do
          let entries ← entries.openTable path
          readInto lines path entries rest
      | .assign path value => do
          let entries ← entries.assignIn header path value
          readInto lines header entries rest

/-- The table of a settings text; a byte order mark in front does not
    count. -/
def read? (text : Text) : Option Entries :=
  let text := match text with
    | '\uFEFF' :: rest => rest
    | _ => text
  readInto text.length [] [] text

end Telecommand.Toml
