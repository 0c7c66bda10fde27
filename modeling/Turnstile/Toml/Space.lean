/-
What stands between the parts of a TOML document: blanks, line ends,
comments.

Readers here and in the modules that follow take the characters that are
left and give back those that are left then, so `skip…` functions map
texts to texts and functions with a question mark may fail.
-/

namespace Turnstile.Toml

/-- A blank: the space or the tab. -/
def isSpace (c : Char) : Bool :=
  c == ' ' || c == '\t'

/-- A character that may stand in a comment, or unescaped in a string:
neither a control character, the tab excepted, nor DEL. -/
def isPrintable (c : Char) : Bool :=
  c == '\t' || (' ' ≤ c && c != '\x7f')

/-- Drops blanks. -/
def skipSpace (cs : List Char) : List Char :=
  cs.dropWhile isSpace

/-- Drops a line end, a line feed with or without a carriage return. -/
def newline? : List Char → Option (List Char)
  | '\n' :: rest => some rest
  | '\r' :: '\n' :: rest => some rest
  | _ => none

/-- Drops a comment, if one begins here. -/
def skipComment : List Char → List Char
  | '#' :: rest => rest.dropWhile isPrintable
  | cs => cs

/-- Drops what may end a line: blanks, a comment, and then a line end or
nothing at all. -/
def lineEnd? (cs : List Char) : Option (List Char) :=
  match skipComment (skipSpace cs) with
  | [] => some []
  | rest => newline? rest

/-- Drops blanks, line ends and comments, as between the elements of an
array. The flag says that a comment is under way. -/
def skipGap (inComment : Bool) : List Char → List Char
  | [] => []
  | '\n' :: rest => skipGap false rest
  | '\r' :: '\n' :: rest => skipGap false rest
  | c :: rest =>
      if inComment then
        if isPrintable c then skipGap true rest else c :: rest
      else if c = '#' then skipGap true rest
      else if isSpace c then skipGap false rest
      else c :: rest

end Turnstile.Toml
