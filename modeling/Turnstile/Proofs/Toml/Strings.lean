/-
How strings and keys are written, and that they read back.

`Escaped` says which texts stand for a string between the quotes of a basic
string: a character may stand for itself, unless it is a control character, a
quote or a backslash, or be written as an escape of any kind. `SpellsPart` and
`SpellsKey` say how keys are written. Each reader takes what is written and
leaves what follows, as long as that does not go on with a character of the
same run (`Escaped.basicBody?`, `Quoted.text?`, `SpellsKey.keyUpTo?`).

Chain (toml): Text/Runs.lean and Text/Digits.lean below; Toml/Written.lean above.
-/
import Mathlib
import Turnstile.Proofs.Text.Digits
import Turnstile.Proofs.Text.Runs
import Turnstile.Toml.Quoted

namespace Turnstile.Toml

open Text (isDigit isHexDigit positional Stops)

variable {written body text rest : List Char} {name : String} {path : List String}

-- ============================================================== strings

/-- The escapes of one letter, each with the character it stands for. -/
def shortEscapes : List (Char × Char) :=
  [('b', '\x08'), ('t', '\t'), ('n', '\n'), ('f', '\x0c'), ('r', '\r'), ('"', '"'),
   ('\\', '\\')]

/-- The digits are the hexadecimal code of the character. -/
def IsCode (digits : List Char) (c : Char) : Prop :=
  digits.all isHexDigit = true ∧ positional 16 digits = c.toNat

/-- What may stand between the quotes of a basic string, and the string. -/
inductive Escaped : List Char → List Char → Prop where
  | nil : Escaped [] []
  | plain {written text : List Char} {c : Char} (hprintable : isPrintable c = true)
      (hquote : c ≠ '"') (hslash : c ≠ '\\') (hrest : Escaped written text) :
      Escaped (c :: written) (c :: text)
  | short {written text : List Char} {mark c : Char} (hmark : (mark, c) ∈ shortEscapes)
      (hrest : Escaped written text) : Escaped ('\\' :: mark :: written) (c :: text)
  | four {written text : List Char} {d₁ d₂ d₃ d₄ c : Char}
      (hcode : IsCode [d₁, d₂, d₃, d₄] c) (hrest : Escaped written text) :
      Escaped ('\\' :: 'u' :: d₁ :: d₂ :: d₃ :: d₄ :: written) (c :: text)
  | eight {written text : List Char} {d₁ d₂ d₃ d₄ d₅ d₆ d₇ d₈ c : Char}
      (hcode : IsCode [d₁, d₂, d₃, d₄, d₅, d₆, d₇, d₈] c) (hrest : Escaped written text) :
      Escaped ('\\' :: 'U' :: d₁ :: d₂ :: d₃ :: d₄ :: d₅ :: d₆ :: d₇ :: d₈ :: written)
        (c :: text)

theorem IsCode.scalar? {digits : List Char} {c : Char} (hcode : IsCode digits c) :
    scalar? digits = some c := by
  obtain ⟨hhex, hvalue⟩ := hcode
  unfold Toml.scalar?
  dsimp only
  rw [if_pos ⟨hhex, hvalue ▸ c.valid⟩, hvalue, Char.ofNat_toNat]

/-- The characters that stand for themselves. -/
theorem basicBody?_plain {c : Char} (hprintable : isPrintable c = true) (hquote : c ≠ '"')
    (hslash : c ≠ '\\') (rest : List Char) :
    basicBody? (c :: rest) = before? (some c) (basicBody? rest) := by
  have hkept : (some c).filter isPrintable = some c := by simp [Option.filter, hprintable]
  rw [Toml.basicBody?, hkept]
  · exact hquote
  · exact fun _ _ _ _ _ h => absurd h hslash
  · exact fun _ _ _ _ _ _ _ _ _ h => absurd h hslash
  · exact fun _ _ h => absurd h hslash

/-- The escapes of one letter; `u` and `U` are none. -/
theorem basicBody?_short {mark c : Char} (hmark : (mark, c) ∈ shortEscapes)
    (rest : List Char) :
    basicBody? ('\\' :: mark :: rest) = before? (some c) (basicBody? rest) := by
  have hletter : mark ≠ 'u' ∧ mark ≠ 'U' ∧ escaped? mark = some c := by
    simp only [shortEscapes, List.mem_cons, Prod.mk.injEq, List.not_mem_nil,
      or_false] at hmark
    rcases hmark with h | h | h | h | h | h | h <;> obtain ⟨rfl, rfl⟩ := h <;>
      simp [escaped?]
  obtain ⟨hfour, height, hescaped⟩ := hletter
  rw [Toml.basicBody?, hescaped]
  · exact fun _ _ _ _ _ h => absurd h hfour
  · exact fun _ _ _ _ _ _ _ _ _ h => absurd h height

/-- A string reads back up to its closing quote. -/
theorem Escaped.basicBody? (hescaped : Escaped body text) (rest : List Char) :
    basicBody? (body ++ '"' :: rest) = some (text, rest) := by
  induction hescaped with
  | nil => rfl
  | plain hprintable hquote hslash hrest ih =>
      rw [List.cons_append, basicBody?_plain hprintable hquote hslash, ih]
      rfl
  | short hmark hrest ih =>
      rw [List.cons_append, List.cons_append, basicBody?_short hmark, ih]
      rfl
  | four hcode hrest ih =>
      simp only [List.cons_append, Toml.basicBody?]
      rw [ih, hcode.scalar?]
      rfl
  | eight hcode hrest ih =>
      simp only [List.cons_append, Toml.basicBody?]
      rw [ih, hcode.scalar?]
      rfl

/-- Printable characters stand for themselves. -/
theorem Escaped.of_plain
    (hplain : ∀ c ∈ text, isPrintable c = true ∧ c ≠ '"' ∧ c ≠ '\\') : Escaped text text := by
  induction text with
  | nil => exact .nil
  | cons c text ih =>
      obtain ⟨⟨hprintable, hquote, hslash⟩, hrest⟩ := List.forall_mem_cons.mp hplain
      exact .plain hprintable hquote hslash (ih hrest)
/-- The eight digits of a character's code. -/
def codeOf (c : Char) : List Char :=
  [7, 6, 5, 4, 3, 2, 1, 0].map fun place => (c.toNat / 16 ^ place % 16).digitChar

theorem isCode_codeOf (c : Char) : IsCode (codeOf c) c := by
  have hdigit (place : ℕ) := Text.digitValue_digitChar
    (Nat.mod_lt (c.toNat / 16 ^ place) (by omega : 0 < 16))
  have hlt : c.toNat < 16 ^ 8 := by
    have hvalid : c.toNat.isValidChar := c.valid
    unfold Nat.isValidChar at hvalid
    omega
  unfold IsCode codeOf positional
  simp only [List.map_cons, List.map_nil, List.all_cons, List.all_nil, List.foldl_cons,
    List.foldl_nil, hdigit, Bool.and_true, true_and]
  omega

/-- Every string can be written, with an escape for each character. -/
theorem exists_escaped (text : List Char) : ∃ written, Escaped written text := by
  induction text with
  | nil => exact ⟨[], .nil⟩
  | cons c text ih =>
      obtain ⟨written, hwritten⟩ := ih
      exact ⟨_, .eight (isCode_codeOf c) hwritten⟩

/-- A basic string with its quotes. -/
inductive Quoted : List Char → List Char → Prop where
  | quoted {body text : List Char} (hescaped : Escaped body text) :
      Quoted ('"' :: (body ++ ['"'])) text

/-- No body begins with a quote. -/
theorem Escaped.head_ne (hescaped : Escaped body text) (rest : List Char) :
    body = [] ∨ ∀ tail, body ++ rest ≠ '"' :: tail := by
  cases hescaped with
  | nil => exact Or.inl rfl
  | plain hprintable hquote hslash hrest => exact Or.inr fun tail h => hquote (List.cons.inj h).1
  | short | four | eight => exact Or.inr fun tail h => by cases h

/-- A string reads back, unless a third quote follows two. -/
theorem Quoted.text? (hquoted : Quoted written text) (hrest : Stops (· == '"') rest) :
    text? (written ++ rest) = some (String.ofList text, rest) := by
  obtain ⟨hescaped⟩ := hquoted
  have hread := hescaped.basicBody? rest
  unfold Toml.text?
  rw [List.cons_append, List.append_assoc, List.singleton_append]
  dsimp only
  split
  case h_1 tail htail =>
    exfalso
    obtain ⟨-, htail⟩ := List.cons.inj htail
    rcases hescaped.head_ne ('"' :: rest) with rfl | hnot
    · obtain ⟨-, htail⟩ := List.cons.inj htail
      subst htail
      simp [Text.stops_cons] at hrest
    · exact hnot _ htail
  case h_2 tail hnot htail =>
    obtain ⟨-, rfl⟩ := List.cons.inj htail
    rw [hread]
    rfl
  case h_3 tail htail => cases htail
  case h_4 tail _ htail => cases htail
  case h_5 hnot _ _ => exact absurd rfl (hnot _)

-- ================================================================= keys

/-- How one part of a key may be written. -/
inductive SpellsPart : List Char → String → Prop where
  | bare {cs : List Char} (nonempty : cs ≠ []) (hbare : ∀ c ∈ cs, isBare c = true) :
      SpellsPart cs (String.ofList cs)
  | basic {cs text : List Char} (hquoted : Quoted cs text) :
      SpellsPart cs (String.ofList text)
  | literal {cs : List Char} (hplain : ∀ c ∈ cs, isPrintable c = true ∧ c ≠ '\'') :
      SpellsPart ('\'' :: (cs ++ ['\''])) (String.ofList cs)

/-- A key is written as its parts, with points between them. -/
inductive SpellsKey : List Char → List String → Prop where
  | last {cs : List Char} {name : String} (hpart : SpellsPart cs name) :
      SpellsKey cs [name]
  | more {cs others : List Char} {name : String} {path : List String}
      (hpart : SpellsPart cs name) (hothers : SpellsKey others path) :
      SpellsKey (cs ++ '.' :: others) (name :: path)

theorem literalBody?_of_plain (hplain : ∀ c ∈ body, isPrintable c = true ∧ c ≠ '\'')
    (rest : List Char) : literalBody? (body ++ '\'' :: rest) = some (body, rest) := by
  induction body with
  | nil => rfl
  | cons c body ih =>
      obtain ⟨⟨hprintable, hquote⟩, hmore⟩ := List.forall_mem_cons.mp hplain
      have hkept : (some c).filter isPrintable = some c := by
        simp [Option.filter, hprintable]
      rw [List.cons_append, literalBody?, hkept, ih hmore]
      · rfl
      · exact hquote

/-- A part of a key reads back, if no character of a bare key follows. -/
theorem SpellsPart.keyPart? (hpart : SpellsPart written name) (hrest : Stops isBare rest) :
    keyPart? (written ++ rest) = some (name, rest) := by
  cases hpart with
  | bare nonempty hbare =>
      unfold Toml.keyPart?
      split
      case h_1 tail htail =>
        cases written with
        | nil => exact absurd rfl nonempty
        | cons c cs =>
            obtain ⟨rfl, -⟩ := List.cons.inj htail
            exact absurd (hbare _ (List.mem_cons_self ..)) (by simp [isBare, isDigit])
      case h_2 tail htail =>
        cases written with
        | nil => exact absurd rfl nonempty
        | cons c cs =>
            obtain ⟨rfl, -⟩ := List.cons.inj htail
            exact absurd (hbare _ (List.mem_cons_self ..)) (by simp [isBare, isDigit])
      case h_3 =>
        dsimp only
        rw [Text.takeWhile_run hbare hrest, Text.dropWhile_run hbare hrest, if_neg nonempty]
  | basic hquoted =>
      obtain ⟨hescaped⟩ := hquoted
      rw [List.cons_append, List.append_assoc, List.singleton_append]
      show (Toml.basicBody? _).map _ = _
      rw [hescaped.basicBody? rest]
      rfl
  | literal hplain =>
      rw [List.cons_append, List.append_assoc, List.singleton_append]
      show (literalBody? _).map _ = _
      rw [literalBody?_of_plain hplain rest]
      rfl

/-- A key begins with a character of a bare key or a quote. -/
def startsKey (c : Char) : Bool :=
  isBare c || c == '"' || c == '\''

theorem SpellsPart.starts (hpart : SpellsPart written name) :
    ∃ c cs, written = c :: cs ∧ startsKey c = true := by
  cases hpart with
  | bare nonempty hbare =>
      obtain ⟨c, cs, rfl⟩ := List.exists_cons_of_ne_nil nonempty
      exact ⟨c, cs, rfl, by simp [startsKey, hbare c (List.mem_cons_self ..)]⟩
  | basic hquoted =>
      obtain ⟨hescaped⟩ := hquoted
      exact ⟨_, _, rfl, by simp [startsKey]⟩
  | literal hplain => exact ⟨_, _, rfl, by simp [startsKey]⟩

theorem SpellsKey.starts (hkey : SpellsKey written path) :
    ∃ c cs, written = c :: cs ∧ startsKey c = true := by
  cases hkey with
  | last hpart => exact hpart.starts
  | more hpart hothers =>
      obtain ⟨c, cs, rfl, hstarts⟩ := hpart.starts
      exact ⟨c, cs ++ '.' :: _, rfl, hstarts⟩

theorem SpellsKey.path_ne_nil (hkey : SpellsKey written path) : path ≠ [] := by
  cases hkey <;> simp

theorem skipSpace_of_stops (hstops : Stops isSpace rest) : skipSpace rest = rest :=
  hstops.dropWhile

theorem not_isSpace_of_startsKey {c : Char} (hstarts : startsKey c = true) :
    isSpace c = false := by
  by_contra hspace
  rw [Bool.not_eq_false] at hspace
  unfold isSpace at hspace
  rw [Bool.or_eq_true, beq_iff_eq, beq_iff_eq] at hspace
  rcases hspace with rfl | rfl <;> simp [startsKey, isBare, isDigit] at hstarts

theorem SpellsKey.stops_isSpace (hkey : SpellsKey written path) (rest : List Char) :
    Stops isSpace (written ++ rest) := by
  obtain ⟨c, cs, rfl, hstarts⟩ := hkey.starts
  exact Text.stops_cons.mpr (not_isSpace_of_startsKey hstarts)

/-- A key reads back, with the blanks after it, if no further part follows. -/
theorem SpellsKey.keyUpTo? (hkey : SpellsKey written path) {limit : ℕ}
    (hlimit : path.length ≤ limit) (hrest : Stops isBare rest)
    (hpoint : Stops (· == '.') (skipSpace rest)) :
    keyUpTo? limit (written ++ rest) = some (path, skipSpace rest) := by
  induction hkey generalizing limit with
  | @last cs name hpart =>
      obtain ⟨limit, rfl⟩ := Nat.exists_eq_succ_of_ne_zero (Nat.pos_iff_ne_zero.mp hlimit)
      have hspace : skipSpace (cs ++ rest) = cs ++ rest :=
        skipSpace_of_stops ((SpellsKey.last hpart).stops_isSpace rest)
      unfold Toml.keyUpTo?
      rw [hspace, hpart.keyPart? hrest]
      simp only [Option.bind_eq_bind, Option.bind_some]
      split
      case h_1 tail htail => simp [htail, Text.stops_cons] at hpoint
      case h_2 => rfl
  | @more cs others name path hpart hothers ih =>
      obtain ⟨limit, rfl⟩ := Nat.exists_eq_succ_of_ne_zero
        (Nat.pos_iff_ne_zero.mp (Nat.zero_lt_of_lt hlimit))
      have hspace : skipSpace (cs ++ '.' :: (others ++ rest)) = cs ++ '.' :: (others ++ rest) :=
        skipSpace_of_stops ((SpellsKey.last hpart).stops_isSpace _)
      have hstop : Stops isBare ('.' :: (others ++ rest)) := Text.stops_cons.mpr rfl
      unfold Toml.keyUpTo?
      rw [List.append_assoc, List.cons_append, hspace, hpart.keyPart? hstop]
      show ((Toml.keyUpTo? limit (others ++ rest)).bind _) = _
      rw [ih (Nat.le_of_succ_le_succ hlimit)]
      rfl

end Turnstile.Toml
