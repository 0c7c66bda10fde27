/-
TOML strings and keys.

There are four kinds of strings: basic ones with escapes and literal ones
without, each on one line or, with tripled quotes, on several. In the
latter a line end right after the opening is dropped, every line end
reads as a line feed, up to two quotes may stand before the closing, and
in basic ones a backslash at the end of a line drops all space up to the
next visible character.

The `…Body?` readers start after the opening quotes.
-/
import Turnstile.Text.Character
import Turnstile.Toml.Space

namespace Turnstile.Toml

open Text (isDigit isHexDigit positional)

-- ====================================================================== escapes

/-- The character with the given hexadecimal code. Codes of surrogates and
codes beyond the last character name none. -/
def scalar? (digits : List Char) : Option Char :=
  let code := positional 16 digits
  if digits.all isHexDigit ∧ code.isValidChar then some (Char.ofNat code) else none

/-- The character that stands for itself or another after a backslash. -/
def escaped? : Char → Option Char
  | 'b' => some '\x08'
  | 't' => some '\t'
  | 'n' => some '\n'
  | 'f' => some '\x0c'
  | 'r' => some '\r'
  | '"' => some '"'
  | '\\' => some '\\'
  | _ => none

/-- A character read, in front of the text read after it. -/
def before? (c : Option Char) (rest : Option (List Char × List Char)) :
    Option (List Char × List Char) := do
  let c ← c
  let (text, rest) ← rest
  return (c :: text, rest)

-- ============================================================= strings on a line

/-- A basic string on one line, up to its closing quote. -/
def basicBody? : List Char → Option (List Char × List Char)
  | [] => none
  | '"' :: rest => some ([], rest)
  | '\\' :: 'u' :: a :: b :: c :: d :: rest =>
      before? (scalar? [a, b, c, d]) (basicBody? rest)
  | '\\' :: 'U' :: a :: b :: c :: d :: e :: f :: g :: h :: rest =>
      before? (scalar? [a, b, c, d, e, f, g, h]) (basicBody? rest)
  | '\\' :: c :: rest => before? (escaped? c) (basicBody? rest)
  | c :: rest => before? (some c |>.filter isPrintable) (basicBody? rest)

/-- A literal string on one line, up to its closing quote. -/
def literalBody? : List Char → Option (List Char × List Char)
  | [] => none
  | '\'' :: rest => some ([], rest)
  | c :: rest => before? (some c |>.filter isPrintable) (literalBody? rest)

-- ======================================================== strings on several lines

/-- Drops the line end right after an opening. -/
def skipFirstNewline (cs : List Char) : List Char :=
  (newline? cs).getD cs

/-- The quotes that stand right after the first three of a closing, no
more than two: they belong to the string. -/
def extraQuotes (quote : Char) : List Char → List Char × List Char
  | c :: d :: rest =>
      if c = quote ∧ d = quote then ([c, d], rest)
      else if c = quote then ([c], d :: rest)
      else ([], c :: d :: rest)
  | [c] => if c = quote then ([c], []) else ([], [c])
  | [] => ([], [])

/-- A basic string on several lines, up to its closing quotes. The flag
says that a line was continued, so that space is being dropped. -/
def basicLines? (dropping : Bool) : List Char → Option (List Char × List Char)
  | [] => none
  | '"' :: '"' :: '"' :: rest => some (extraQuotes '"' rest)
  | '\\' :: 'u' :: a :: b :: c :: d :: rest =>
      before? (scalar? [a, b, c, d]) (basicLines? false rest)
  | '\\' :: 'U' :: a :: b :: c :: d :: e :: f :: g :: h :: rest =>
      before? (scalar? [a, b, c, d, e, f, g, h]) (basicLines? false rest)
  | '\\' :: c :: rest =>
      if (newline? (skipSpace (c :: rest))).isSome then basicLines? true (c :: rest)
      else before? (escaped? c) (basicLines? false rest)
  | '\r' :: '\n' :: rest =>
      if dropping then basicLines? true rest
      else before? (some '\n') (basicLines? false rest)
  | c :: rest =>
      if dropping && (c == '\n' || isSpace c) then basicLines? true rest
      else before? (some c |>.filter fun c => c == '\n' || isPrintable c)
        (basicLines? false rest)

/-- A literal string on several lines, up to its closing quotes. -/
def literalLines? : List Char → Option (List Char × List Char)
  | [] => none
  | '\'' :: '\'' :: '\'' :: rest => some (extraQuotes '\'' rest)
  | '\r' :: '\n' :: rest => before? (some '\n') (literalLines? rest)
  | c :: rest =>
      before? (some c |>.filter fun c => c == '\n' || isPrintable c) (literalLines? rest)

/-- A string of any kind. -/
def text? (cs : List Char) : Option (String × List Char) :=
  let body := match cs with
    | '"' :: '"' :: '"' :: rest => basicLines? false (skipFirstNewline rest)
    | '"' :: rest => basicBody? rest
    | '\'' :: '\'' :: '\'' :: rest => literalLines? (skipFirstNewline rest)
    | '\'' :: rest => literalBody? rest
    | _ => none
  body.map fun (text, rest) => (String.ofList text, rest)

-- ========================================================================= keys

/-- A character of a bare key. -/
def isBare (c : Char) : Bool :=
  isDigit c || ('a' ≤ c && c ≤ 'z') || ('A' ≤ c && c ≤ 'Z') || c == '_' || c == '-'

/-- One part of a key: bare, or a string on one line. -/
def keyPart? (cs : List Char) : Option (String × List Char) :=
  match cs with
  | '"' :: rest => (basicBody? rest).map fun (text, rest) => (String.ofList text, rest)
  | '\'' :: rest => (literalBody? rest).map fun (text, rest) => (String.ofList text, rest)
  | _ =>
      let bare := cs.takeWhile isBare
      if bare = [] then none else some (String.ofList bare, cs.dropWhile isBare)

/-- A key has fewer than eighty parts. -/
def longestKey : Nat := 79

/-- A key: at most `limit` parts with points between them, and blanks
around each. -/
def keyUpTo? (limit : Nat) (cs : List Char) : Option (List String × List Char) :=
  match limit with
  | 0 => none
  | limit + 1 => do
      let (part, rest) ← keyPart? (skipSpace cs)
      match skipSpace rest with
      | '.' :: rest => do
          let (parts, rest) ← keyUpTo? limit rest
          return (part :: parts, rest)
      | rest => return ([part], rest)

/-- A key. -/
def key? (cs : List Char) : Option (List String × List Char) :=
  keyUpTo? longestKey cs

end Turnstile.Toml
