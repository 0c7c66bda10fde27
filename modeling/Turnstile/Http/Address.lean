/-
Network addresses and their text.

An address of the older kind is four bytes, written in decimal with
points. One of the newer kind is eight groups of sixteen bits, written in
hexadecimal with colons; the longest run of at least two zero groups, the
first of several, is written as two colons, and an address that stands
for an older one shows that one at its end.

`ofPeer?` reads the address of a peer, which comes with a port and for
the newer kind in brackets, perhaps with the number of an interface.
-/
import Turnstile.Text.Character

namespace Turnstile.Http

open Text (isDigit isHexDigit positional decimalDigits hexDigits natural?)

/-- A network address. -/
inductive Address where
  | v4 (bytes : Vector UInt8 4)
  | v6 (groups : Vector UInt16 8)
deriving DecidableEq

namespace Address

-- ====================================================================== writing

/-- Texts with a separator between them. -/
def join (separator : Char) : List (List Char) → List Char
  | [] => []
  | [last] => last
  | part :: rest => part ++ separator :: join separator rest

/-- Four bytes in decimal. -/
def dotted (bytes : List UInt8) : List Char :=
  join '.' (bytes.map fun b => decimalDigits b.toNat)

/-- Groups in hexadecimal. -/
def coloned (groups : List UInt16) : List Char :=
  join ':' (groups.map fun g => hexDigits g.toNat)

/-- Number of zero groups from a place on. -/
def zerosFrom (groups : List UInt16) (place : Nat) : Nat :=
  ((groups.drop place).takeWhile (· == 0)).length

/-- Place and length of the longest run of zero groups, the first of
several. -/
def longestZeros (groups : List UInt16) : Nat × Nat :=
  (List.range groups.length).foldl (fun best place =>
    if best.2 < zerosFrom groups place then (place, zerosFrom groups place) else best) (0, 0)

/-- The two bytes of a group. -/
def bytesOfGroup (g : UInt16) : List UInt8 :=
  [UInt8.ofNat (g.toNat / 256), UInt8.ofNat (g.toNat % 256)]

/-- Eight groups as text. -/
def groupsText (groups : List UInt16) : List Char :=
  if groups.take 6 = [0, 0, 0, 0, 0, 0xffff] then
    [':', ':', 'f', 'f', 'f', 'f', ':'] ++ dotted ((groups.drop 6).flatMap bytesOfGroup)
  else
    let (place, length) := longestZeros groups
    if 2 ≤ length then
      coloned (groups.take place) ++ [':', ':'] ++ coloned (groups.drop (place + length))
    else coloned groups

/-- The text of an address. -/
def text : Address → String
  | .v4 bytes => String.ofList (dotted bytes.toList)
  | .v6 groups => String.ofList (groupsText groups.toList)

-- ====================================================================== reading

/-- The parts of a text between separators. -/
def partsAt (separator : Char) (cs : List Char) : List (List Char) :=
  cs.foldr (fun c parts =>
    if c = separator then [] :: parts
    else match parts with
      | [] => [[c]]
      | part :: rest => (c :: part) :: rest) [[]]

/-- A byte in decimal, without leading zeros. -/
def byte? (cs : List Char) : Option UInt8 :=
  match natural? cs with
  | some n => if n < 256 ∧ decimalDigits n = cs then some (UInt8.ofNat n) else none
  | none => none

/-- Four bytes with points between them. -/
def dotted? (cs : List Char) : Option (Vector UInt8 4) := do
  match ← (partsAt '.' cs).mapM byte? with
  | [a, b, c, d] => some #v[a, b, c, d]
  | _ => none

/-- A group of one to four hexadecimal digits. -/
def group? (cs : List Char) : Option UInt16 :=
  if cs ≠ [] ∧ cs.length ≤ 4 ∧ cs.all isHexDigit then
    some (UInt16.ofNat (positional 16 cs))
  else none

/-- Two groups from four bytes. -/
def groupsOfBytes (bytes : Vector UInt8 4) : List UInt16 :=
  [UInt16.ofNat (bytes[0].toNat * 256 + bytes[1].toNat),
    UInt16.ofNat (bytes[2].toNat * 256 + bytes[3].toNat)]

/-- Groups with colons between them; four bytes may stand for the last two. -/
def groups? : List (List Char) → Option (List UInt16)
  | [] => some []
  | [last] => ((group? last).map fun g => [g]).or ((dotted? last).map groupsOfBytes)
  | first :: rest => do return (← group? first) :: (← groups? rest)

/-- The groups of a text that may be empty. -/
def groupList? (cs : List Char) : Option (List UInt16) :=
  if cs = [] then some [] else groups? (partsAt ':' cs)

/-- The texts before and after the first two colons. -/
def splitGap? : List Char → Option (List Char × List Char)
  | ':' :: ':' :: rest => some ([], rest)
  | c :: rest => (splitGap? rest).map fun (before, after) => (c :: before, after)
  | [] => none

/-- Eight groups, some zero ones perhaps left out. -/
def v6? (cs : List Char) : Option Address := do
  let groups ← match splitGap? cs with
    | some (before, after) => do
        let front ← groupList? before
        let back ← groupList? after
        if front.length + back.length < 8 then
          some (front ++ List.replicate (8 - front.length - back.length) 0 ++ back)
        else none
    | none => groupList? cs
  if h : groups.length = 8 then some (.v6 ⟨groups.toArray, by simp [h]⟩) else none

/-- The address of a peer. -/
def ofPeer? (peer : String) : Option Address :=
  match peer.toList with
  | '[' :: rest => v6? (rest.takeWhile fun c => c != ']' && c != '%')
  | cs => (dotted? (cs.takeWhile (· != ':'))).map .v4

end Address

end Turnstile.Http
