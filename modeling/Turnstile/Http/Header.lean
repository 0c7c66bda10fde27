/-
Header fields.

A field is a name and the bytes of its value. Names are compared without
regard to case, and of several fields of one name only the first counts.
A value is text if all its bytes are visible ASCII, blanks or tabs.
-/

namespace Turnstile.Http

/-- The bytes of a field's value. -/
abbrev Bytes := List UInt8

/-- The bytes of a text. -/
def bytesOf (text : String) : Bytes :=
  text.toUTF8.data.toList

/-- A header field. -/
structure Header where
  name : String
  value : Bytes
deriving DecidableEq

namespace Header

/-- A field whose value is a text. -/
def ofText (name text : String) : Header :=
  ⟨name, bytesOf text⟩

/-- A name with its capitals made small. -/
def lowered (name : String) : List Char :=
  name.toList.map Char.toLower

/-- The value of the first field of a name. -/
def first? (name : String) (headers : List Header) : Option Bytes :=
  (headers.find? fun header => lowered header.name == lowered name).map Header.value

end Header

/-- The byte is a visible ASCII character, a blank or a tab. -/
def isTextByte (b : UInt8) : Bool :=
  b == 0x09 || (0x20 ≤ b && b ≤ 0x7e)

/-- The value as text, if it is text. -/
def textOf? (value : Bytes) : Option String :=
  if value.all isTextByte then
    some (String.ofList (value.map fun b => Char.ofNat b.toNat))
  else none

/-- The byte may stand in a field's value: no control character but the
tab, and not DEL. -/
def isValueByte (b : UInt8) : Bool :=
  b == 0x09 || (0x20 ≤ b && b != 0x7f)

/-- The bytes of a text, if they may be a field's value. -/
def valueOf? (text : String) : Option Bytes :=
  let value := bytesOf text
  if value.all isValueByte then some value else none

end Turnstile.Http
