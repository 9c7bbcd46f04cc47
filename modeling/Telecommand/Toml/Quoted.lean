import Telecommand.Text.Hex

/-! # Quoted strings of TOML

    The four ways to quote a string: with double quotes, where a backslash
    escapes, or with single quotes, where it does not; on one line, or over
    several between triple quotes.  Each reader starts behind the opening
    quotes and gives the string with the text behind the closing ones. -/

namespace Telecommand.Toml

/-- Whether a character may stand for itself in a string or comment: a tab,
    or no control character of the ASCII range. -/
def isPlain (c : Char) : Bool :=
  c = '\t' || (0x20 ≤ c.toNat && c.toNat ≠ 0x7F)

/-- Whether a character is blank inside a line. -/
def isSpace (c : Char) : Bool := c = ' ' || c = '\t'

/-- What is behind a line end, if the text starts with one. -/
def newline? : Text → Option Text
  | '\n' :: rest => some rest
  | '\r' :: '\n' :: rest => some rest
  | _ => none

/-- The character with a code point in hexadecimal digits. -/
def codePoint? (digits : Text) : Option Char :=
  if Text.isHexadecimal digits ∧ (Text.hexValue digits).isValidChar then
    some (Char.ofNat (Text.hexValue digits))
  else none

/-- The character that one letter behind a backslash stands for. -/
def simpleEscape? : Char → Option Char
  | '"' => some '"'
  | '\\' => some '\\'
  | 'b' => some '\x08'
  | 'e' => some '\x1b'
  | 'f' => some '\x0c'
  | 'n' => some '\n'
  | 'r' => some '\r'
  | 't' => some '\t'
  | _ => none

/-- A string read so far with one more character in front. -/
def withChar (c : Char) (read : Option (Text × Text)) : Option (Text × Text) :=
  read.map fun (string, rest) => (c :: string, rest)

/-- A string in double quotes. -/
def basic : Text → Option (Text × Text)
  | '"' :: rest => some ([], rest)
  | '\\' :: 'x' :: a :: b :: rest =>
      (codePoint? [a, b]).bind fun c => withChar c (basic rest)
  | '\\' :: 'u' :: a :: b :: c :: d :: rest =>
      (codePoint? [a, b, c, d]).bind fun c => withChar c (basic rest)
  | '\\' :: 'U' :: a :: b :: c :: d :: e :: f :: g :: h :: rest =>
      (codePoint? [a, b, c, d, e, f, g, h]).bind fun c => withChar c (basic rest)
  | '\\' :: letter :: rest =>
      (simpleEscape? letter).bind fun c => withChar c (basic rest)
  | c :: rest => if isPlain c && c ≠ '\\' then withChar c (basic rest) else none
  | [] => none

/-- A string in single quotes. -/
def literal : Text → Option (Text × Text)
  | '\'' :: rest => some ([], rest)
  | c :: rest => if isPlain c then withChar c (literal rest) else none
  | [] => none

/-- A string in triple double quotes.  A backslash at the end of a line drops
    the blanks and line ends behind it; `dropping` says that this is going
    on.  One or two quotes may stand right before the closing ones. -/
def multilineBasic : Bool → Text → Option (Text × Text)
  | true, ' ' :: rest => multilineBasic true rest
  | true, '\t' :: rest => multilineBasic true rest
  | true, '\n' :: rest => multilineBasic true rest
  | true, '\r' :: '\n' :: rest => multilineBasic true rest
  | _, '"' :: '"' :: '"' :: '"' :: '"' :: rest => some (['"', '"'], rest)
  | _, '"' :: '"' :: '"' :: '"' :: rest => some (['"'], rest)
  | _, '"' :: '"' :: '"' :: rest => some ([], rest)
  | _, '\\' :: 'x' :: a :: b :: rest =>
      (codePoint? [a, b]).bind fun c => withChar c (multilineBasic false rest)
  | _, '\\' :: 'u' :: a :: b :: c :: d :: rest =>
      (codePoint? [a, b, c, d]).bind fun c => withChar c (multilineBasic false rest)
  | _, '\\' :: 'U' :: a :: b :: c :: d :: e :: f :: g :: h :: rest =>
      (codePoint? [a, b, c, d, e, f, g, h]).bind fun c =>
        withChar c (multilineBasic false rest)
  | _, '\\' :: letter :: rest =>
      if (newline? ((letter :: rest).dropWhile isSpace)).isSome then
        multilineBasic true (letter :: rest)
      else (simpleEscape? letter).bind fun c => withChar c (multilineBasic false rest)
  | _, '\r' :: '\n' :: rest =>
      withChar '\r' (withChar '\n' (multilineBasic false rest))
  | _, c :: rest =>
      if (isPlain c && c ≠ '\\') || c = '\n' then withChar c (multilineBasic false rest)
      else none
  | _, [] => none

/-- A string in triple single quotes.  One or two quotes may stand right
    before the closing ones. -/
def multilineLiteral : Text → Option (Text × Text)
  | '\'' :: '\'' :: '\'' :: '\'' :: '\'' :: rest => some (['\'', '\''], rest)
  | '\'' :: '\'' :: '\'' :: '\'' :: rest => some (['\''], rest)
  | '\'' :: '\'' :: '\'' :: rest => some ([], rest)
  | '\r' :: '\n' :: rest => withChar '\r' (withChar '\n' (multilineLiteral rest))
  | c :: rest =>
      if isPlain c || c = '\n' then withChar c (multilineLiteral rest) else none
  | [] => none

/-- A string in quotes of any kind, at the front of a text.  A line end right
    behind triple quotes does not count. -/
def quoted? : Text → Option (Text × Text)
  | '"' :: '"' :: '"' :: rest => multilineBasic false ((newline? rest).getD rest)
  | '"' :: rest => basic rest
  | '\'' :: '\'' :: '\'' :: rest => multilineLiteral ((newline? rest).getD rest)
  | '\'' :: rest => literal rest
  | _ => none

example : quoted? "\"a\\u00e9\\t\" # rest" = some ("aé\t".toList, " # rest".toList) := by
  decide

example : quoted? "'''\na''''," = some ("a'".toList, ",".toList) := by decide

end Telecommand.Toml
