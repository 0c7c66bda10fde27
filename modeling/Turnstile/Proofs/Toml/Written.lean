/-
How values and lines are written, and that documents read back.

A text stands for a value if the reader takes it for that value wherever a value
may end (`Reads`). From such texts arrays and tables in braces are put together,
with a comma and a blank between their parts (`reads_array`, `reads_braces`), and
from keys and values the lines of a document. Each line reads back as one
statement, so a document reads back as the statements of its lines
(`parse?_of_lines`).

Chain (toml): Strings.lean and Numbers.lean below; Settings/Layout.lean above.
-/
import Mathlib
import Turnstile.Proofs.Toml.Numbers
import Turnstile.Proofs.Toml.Strings

namespace Turnstile.Toml

open Text (isDigit Stops)

variable {written string rest key : List Char} {value : Value} {depth : ℕ}
  {path : List String} {texts : List (List Char)} {values : List Value}

-- =============================================================== values

/-- The text stands for the value, wherever a value may end. -/
def Reads (depth : ℕ) (written : List Char) (value : Value) : Prop :=
  ∀ rest, Ends rest → value? depth (written ++ rest) = some (value, rest)

/-- The characters with which a value may begin. -/
def startsValue (c : Char) : Bool :=
  isDigit c || c == '"' || c == '\'' || c == '[' || c == '\x7b' || c == '+' || c == '-'
    || c == 't' || c == 'f' || c == 'i' || c == 'n'

theorem decimal?_eq_none {c : Char} (hdigit : isDigit c = false) (negative : Bool)
    (rest : List Char) : decimal? negative (c :: rest) = none := by
  have hzero : c ≠ '0' := by
    rintro rfl
    simp [isDigit] at hdigit
  rw [decimal?, whole?, digits?, if_neg (by simp [hdigit])]
  · rfl
  · exact fun _ h => hzero (List.cons.inj h).1

/-- A value begins with a character that tells of which kind it is. -/
theorem startsValue_of_value? {c : Char}
    (hread : value? depth (c :: rest) = some (value, string)) : startsValue c = true := by
  by_contra hnot
  have hmarks : isDigit c = false ∧ c ≠ '"' ∧ c ≠ '\'' ∧ c ≠ '[' ∧ c ≠ '\x7b' ∧ c ≠ '+'
      ∧ c ≠ '-' ∧ c ≠ 't' ∧ c ≠ 'f' ∧ c ≠ 'i' ∧ c ≠ 'n' := by
    simpa [startsValue, and_assoc] using hnot
  obtain ⟨hdigit, hbasic, hliteral, harray, hbrace, hplus, hminus, ht, hf, hi, hn⟩ := hmarks
  have hne {mark : Char} (hmark : c ≠ mark) (more : List Char) : c :: rest ≠ mark :: more :=
    fun h => hmark (List.cons.inj h).1
  have hstops : Stops isDigit (c :: rest) := Text.stops_cons.mpr hdigit
  have hsigned : signed (c :: rest) = (false, c :: rest) := by
    rw [signed]
    · exact hne hminus
    · exact hne hplus
  have hspecial : special? false (c :: rest) = none := by
    rw [special?]
    · exact fun _ => hne hi _
    · exact fun _ => hne hn _
  have hzero : c ≠ '0' := by
    rintro rfl
    simp [isDigit] at hdigit
  have hnumber : number? (c :: rest) = none := by
    rw [number?, hsigned]
    · dsimp only
      rw [hspecial, decimal?_eq_none hdigit]
      rfl
    · exact fun _ => hne hzero _
    · exact fun _ => hne hzero _
    · exact fun _ => hne hzero _
  have hmoment : moment? (c :: rest) = none := by
    rw [moment?, date?_eq_none (Or.inl hstops), time?_eq_none (Or.inl hstops)]
    rfl
  have hscalar : value? depth (c :: rest) = none := by
    rw [value?, scalarValue?, text?_eq_none hbasic hliteral, hmoment, hnumber]
    · rfl
    · exact fun _ => hne ht _
    · exact fun _ => hne hf _
    · exact fun _ _ _ => hne harray _
    · exact fun _ _ _ => hne hbrace _
  rw [hscalar] at hread
  cases hread

theorem value?_nil (depth : ℕ) : value? depth [] = none := by
  cases depth <;> rfl

theorem Reads.starts (hreads : Reads depth written value) :
    ∃ c cs, written = c :: cs ∧ startsValue c = true := by
  have hread := hreads [] Text.stops_nil
  rw [List.append_nil] at hread
  cases written with
  | nil => rw [value?_nil] at hread; cases hread
  | cons c cs => exact ⟨c, cs, rfl, startsValue_of_value? hread⟩

theorem reads_boolean (b : Bool) (depth : ℕ) :
    Reads depth (if b then ['t', 'r', 'u', 'e'] else ['f', 'a', 'l', 's', 'e'])
      (.boolean b) := by
  intro rest hrest
  cases b <;> cases depth <;> rfl

theorem reads_quoted (hquoted : Quoted written string) (depth : ℕ) :
    Reads depth written (.text (String.ofList string)) := by
  intro rest hrest
  have hread := hquoted.text? (hrest.stops (by simp))
  obtain ⟨hescaped⟩ := hquoted
  rw [value?, scalarValue?, hread]
  · rfl
  · exact fun _ h => by cases h
  · exact fun _ h => by cases h
  · exact fun _ _ _ h => by cases h
  · exact fun _ _ _ h => by cases h

theorem reads_natural {number : ℕ} (hspelled : SpellsNatural written number)
    (hfits : number ≤ 9223372036854775807) (depth : ℕ) :
    Reads depth written (.integer number) :=
  fun _ hrest => hspelled.value? hfits hrest depth

theorem reads_float {d : Decimal} (hspelled : SpellsFloat written d)
    (hfits : d.toBinary64 ≠ .infinity false) (depth : ℕ) :
    Reads depth written (.float d.toBinary64) :=
  fun _ hrest => hspelled.value? hfits hrest depth

-- ================================================================ arrays

/-- Texts with a comma and a blank between any two. -/
def commas : List (List Char) → List Char
  | [] => []
  | [last] => last
  | first :: others => first ++ (',' :: ' ' :: commas others)

theorem length_le_commas (htexts : ∀ text ∈ texts, text ≠ []) :
    texts.length ≤ (commas texts).length := by
  induction texts with
  | nil => exact Nat.zero_le _
  | cons first others ih =>
      obtain ⟨hfirst, hothers⟩ := List.forall_mem_cons.mp htexts
      have hpos := List.length_pos_iff.mpr hfirst
      cases others with
      | nil => exact hpos
      | cons second others =>
          have hmore := ih hothers
          simp only [commas, List.length_append, List.length_cons] at hmore ⊢
          omega

theorem ne_of_startsValue {c mark : Char} (hstarts : startsValue c = true)
    (hmark : startsValue mark = false) : c ≠ mark := by
  rintro rfl
  rw [hstarts] at hmark
  cases hmark

theorem not_isSpace_of_startsValue {c : Char} (hstarts : startsValue c = true) :
    isSpace c = false := by
  unfold isSpace
  rw [Bool.or_eq_false_iff, beq_eq_false_iff_ne, beq_eq_false_iff_ne]
  exact ⟨ne_of_startsValue hstarts (by simp [startsValue, isDigit]),
    ne_of_startsValue hstarts (by simp [startsValue, isDigit])⟩

theorem skipGap_of_startsValue {c : Char} (hstarts : startsValue c = true)
    (rest : List Char) : skipGap false (c :: rest) = c :: rest := by
  have hcomment : c ≠ '#' := ne_of_startsValue hstarts (by simp [startsValue, isDigit])
  rw [skipGap, if_neg (by simp), if_neg hcomment,
    if_neg (by simp [not_isSpace_of_startsValue hstarts])]
  · exact ne_of_startsValue hstarts (by simp [startsValue, isDigit])
  · exact fun _ h => absurd h
      (ne_of_startsValue hstarts (by simp [startsValue, isDigit]))

theorem elements?_space (read : List Char → Option (Value × List Char)) (limit : ℕ)
    (rest : List Char) : elements? read limit (' ' :: rest) = elements? read limit rest := by
  cases limit <;> rfl

/-- One element of an array, and what is done after it. -/
theorem elements?_of_reads (hreads : Reads depth written value) (hrest : Ends rest)
    (limit : ℕ) :
    elements? (value? depth) (limit + 1) (written ++ rest)
      = match skipGap false rest with
        | ',' :: rest => do
            let (values, rest) ← elements? (value? depth) limit rest
            return (value :: values, rest)
        | ']' :: rest => return ([value], rest)
        | _ => none := by
  have hread := hreads rest hrest
  obtain ⟨c, cs, rfl, hstarts⟩ := hreads.starts
  have hclosing : c ≠ ']' := ne_of_startsValue hstarts (by simp [startsValue, isDigit])
  rw [List.cons_append] at hread ⊢
  rw [elements?, skipGap_of_startsValue hstarts]
  split
  case h_1 htail => exact absurd (List.cons.inj htail).1 hclosing
  case h_2 =>
    rw [hread]
    rfl

/-- The elements of an array read back. -/
theorem elements?_commas (hreads : List.Forall₂ (Reads depth) texts values) {limit : ℕ}
    (hlimit : texts.length < limit) (rest : List Char) :
    elements? (value? depth) limit (commas texts ++ ']' :: rest) = some (values, rest) := by
  induction hreads generalizing limit with
  | nil =>
      obtain ⟨limit, rfl⟩ := Nat.exists_eq_succ_of_ne_zero (Nat.ne_zero_of_lt hlimit)
      rfl
  | @cons first value others values hfirst hothers ih =>
      obtain ⟨limit, rfl⟩ := Nat.exists_eq_succ_of_ne_zero (Nat.ne_zero_of_lt hlimit)
      cases hothers with
      | nil => exact elements?_of_reads hfirst (Text.stops_cons.mpr rfl) limit
      | @cons second value' others values' hsecond hothers =>
          have hcommas : commas (first :: second :: others)
              = first ++ (',' :: ' ' :: commas (second :: others)) := rfl
          have hmore := ih (Nat.lt_of_succ_lt_succ hlimit)
          rw [hcommas, List.append_assoc, List.cons_append, List.cons_append,
            elements?_of_reads hfirst (Text.stops_cons.mpr rfl)]
          show (elements? (value? depth) limit (' ' :: _)).bind _ = _
          rw [elements?_space, hmore]
          rfl

theorem ne_nil_of_reads (hreads : List.Forall₂ (Reads depth) texts values) :
    ∀ text ∈ texts, text ≠ [] := by
  induction hreads with
  | nil => exact fun _ hmem => nomatch hmem
  | cons hfirst hothers ih =>
      refine List.forall_mem_cons.mpr ⟨?_, ih⟩
      obtain ⟨c, cs, rfl, -⟩ := hfirst.starts
      exact List.cons_ne_nil c cs

/-- An array in brackets. -/
theorem reads_array (hreads : List.Forall₂ (Reads depth) texts values) :
    Reads (depth + 1) ('[' :: (commas texts ++ [']'])) (.array values) := by
  intro rest hrest
  have hlength := length_le_commas (ne_nil_of_reads hreads)
  rw [List.cons_append, List.append_assoc, List.singleton_append, value?]
  rw [elements?_commas hreads (by simp; omega)]
  rfl

-- ================================================================= pairs

/-- A key and a value as they are written, and what they stand for. -/
structure Pair where
  key : List Char
  path : List String
  text : List Char
  value : Value

namespace Pair

/-- The key, the sign of equality, and the value. -/
def line (pair : Pair) : List Char :=
  pair.key ++ (' ' :: '=' :: ' ' :: pair.text)

/-- The key and the value that a pair stands for. -/
def content (pair : Pair) : List String × Value :=
  (pair.path, pair.value)

/-- The texts stand for the key and the value. -/
structure Spelled (depth : ℕ) (pair : Pair) : Prop where
  key : SpellsKey pair.key pair.path
  short : pair.path.length ≤ longestKey
  value : Reads depth pair.text pair.value

variable {pair : Pair} {pairs : List Pair}

theorem line_ne_nil (pair : Pair) : pair.line ≠ [] := by
  simp [line]

theorem Spelled.starts (hspelled : pair.Spelled depth) (rest : List Char) :
    ∃ c cs, pair.line ++ rest = c :: cs ∧ startsKey c = true := by
  obtain ⟨c, cs, hkey, hstarts⟩ := hspelled.key.starts
  refine ⟨c, cs ++ (' ' :: '=' :: ' ' :: pair.text) ++ rest, ?_, hstarts⟩
  rw [line, hkey]
  rfl

/-- A pair reads back. -/
theorem Spelled.pair? (hspelled : pair.Spelled depth) (hrest : Ends rest) :
    pair? (value? depth) (pair.line ++ rest) = some (pair.content, rest) := by
  have hkey : key? (pair.line ++ rest) = some (pair.path, '=' :: ' ' :: (pair.text ++ rest)) := by
    rw [line, List.append_assoc]
    exact hspelled.key.keyUpTo? hspelled.short (Text.stops_cons.mpr rfl)
      (Text.stops_cons.mpr rfl)
  have hvalue := hspelled.value rest hrest
  have hspace : skipSpace (' ' :: (pair.text ++ rest)) = pair.text ++ rest := by
    obtain ⟨c, cs, htext, hstarts⟩ := hspelled.value.starts
    show skipSpace (pair.text ++ rest) = _
    rw [htext, List.cons_append]
    exact skipSpace_of_stops (Text.stops_cons.mpr (not_isSpace_of_startsValue hstarts))
  unfold Toml.pair?
  rw [hkey]
  simp only [Option.bind_eq_bind, Option.bind_some]
  rw [hspace, hvalue]
  rfl

theorem keyUpTo?_space (limit : ℕ) (rest : List Char) :
    keyUpTo? limit (' ' :: rest) = keyUpTo? limit rest := by
  cases limit <;> rfl

theorem bracePairs?_space (read : List Char → Option (Value × List Char)) (limit : ℕ)
    (rest : List Char) :
    bracePairs? read limit (' ' :: rest) = bracePairs? read limit rest := by
  cases limit with
  | zero => rfl
  | succ limit =>
      rw [bracePairs?, bracePairs?, Toml.pair?, Toml.pair?, key?, key?, keyUpTo?_space]

/-- One pair of a table in braces, and what is done after it. -/
theorem Spelled.bracePairs? (hspelled : pair.Spelled depth) (hrest : Ends rest) (limit : ℕ) :
    bracePairs? (value? depth) (limit + 1) (pair.line ++ rest)
      = match skipSpace rest with
        | ',' :: rest => do
            let (pairs, rest) ← bracePairs? (value? depth) limit rest
            return (pair.content :: pairs, rest)
        | '\x7d' :: rest => return ([pair.content], rest)
        | _ => none := by
  rw [Toml.bracePairs?, hspelled.pair? hrest]
  rfl

/-- The pairs of a table in braces read back. -/
theorem bracePairs?_commas (nonempty : pairs ≠ [])
    (hspelled : ∀ pair ∈ pairs, pair.Spelled depth) {limit : ℕ}
    (hlimit : pairs.length ≤ limit) (rest : List Char) :
    Toml.bracePairs? (value? depth) limit (commas (pairs.map line) ++ '\x7d' :: rest)
      = some (pairs.map content, rest) := by
  induction pairs generalizing limit with
  | nil => exact absurd rfl nonempty
  | cons first others ih =>
      obtain ⟨limit, rfl⟩ := Nat.exists_eq_succ_of_ne_zero
        (Nat.pos_iff_ne_zero.mp (Nat.zero_lt_of_lt hlimit))
      obtain ⟨hfirst, hothers⟩ := List.forall_mem_cons.mp hspelled
      cases others with
      | nil => exact hfirst.bracePairs? (Text.stops_cons.mpr rfl) limit
      | cons second others =>
          have hcommas : commas ((first :: second :: others).map line)
              = first.line ++ (',' :: ' ' :: commas ((second :: others).map line)) := rfl
          have hmore := ih (List.cons_ne_nil second others) hothers
            (Nat.le_of_succ_le_succ hlimit)
          rw [hcommas, List.append_assoc, List.cons_append, List.cons_append,
            hfirst.bracePairs? (Text.stops_cons.mpr rfl)]
          show (Toml.bracePairs? (value? depth) limit (' ' :: _)).bind _ = _
          rw [bracePairs?_space, hmore]
          rfl

end Pair

theorem ne_of_startsKey {c mark : Char} (hstarts : startsKey c = true)
    (hmark : startsKey mark = false) : c ≠ mark := by
  rintro rfl
  rw [hstarts] at hmark
  cases hmark

/-- A table in braces. -/
theorem reads_braces {pairs : List Pair} {entries : Entries}
    (hspelled : ∀ pair ∈ pairs, pair.Spelled depth)
    (hentries : Entries.defineAll (pairs.map Pair.content) [] = some entries) :
    Reads (depth + 1) ('\x7b' :: (commas (pairs.map Pair.line) ++ ['\x7d']))
      (.table .braces entries) := by
  intro rest hrest
  rw [List.cons_append, List.append_assoc, List.singleton_append, value?]
  cases pairs with
  | nil =>
      rw [← Option.some.inj hentries]
      rfl
  | cons first others =>
      have hlength : (first :: others).length
          ≤ (commas ((first :: others).map Pair.line) ++ '\x7d' :: rest).length := by
        have hne : ∀ text ∈ (first :: others).map Pair.line, text ≠ [] := by
          intro text hmem
          obtain ⟨pair, -, rfl⟩ := List.mem_map.mp hmem
          exact pair.line_ne_nil
        have hle := length_le_commas hne
        rw [List.length_map] at hle
        rw [List.length_append]
        omega
      have hread := Pair.bracePairs?_commas (List.cons_ne_nil first others) hspelled hlength
        rest
      obtain ⟨c, cs, hcs, hstarts⟩ : ∃ c cs,
          commas ((first :: others).map Pair.line) ++ '\x7d' :: rest = c :: cs
            ∧ startsKey c = true := by
        have hfirst := hspelled first (List.mem_cons_self ..)
        cases others with
        | nil => exact hfirst.starts _
        | cons second others =>
            obtain ⟨c, cs, hcs, hstarts⟩ := hfirst.starts
              (',' :: ' ' :: commas ((second :: others).map Pair.line) ++ '\x7d' :: rest)
            refine ⟨c, cs, ?_, hstarts⟩
            rw [← hcs]
            exact List.append_assoc ..
      rw [hcs] at hread ⊢
      have hspace : skipSpace (c :: cs) = c :: cs :=
        skipSpace_of_stops (Text.stops_cons.mpr (not_isSpace_of_startsKey hstarts))
      rw [braceTable?, hspace]
      split
      case h_1 htail =>
        exact absurd (List.cons.inj htail).1
          (ne_of_startsKey hstarts (by simp [startsKey, isBare, isDigit]))
      case h_2 =>
        rw [hread]
        simp only [Option.bind_eq_bind, Option.bind_some]
        rw [hentries]
        rfl

-- ================================================================= lines

/-- A line of a document: a pair, or the header of a table or of an element. -/
inductive Line where
  | pair (pair : Pair)
  | tableHeader (key : List Char) (path : List String)
  | elementHeader (key : List Char) (path : List String)

namespace Line

/-- The text of a line, with its end. -/
def text : Line → List Char
  | .pair p => p.line ++ ['\n']
  | .tableHeader key _ => '[' :: (key ++ [']', '\n'])
  | .elementHeader key _ => '[' :: '[' :: (key ++ [']', ']', '\n'])

/-- What a line says. -/
def statement : Line → Statement
  | .pair p => .pair p.path p.value
  | .tableHeader _ path => .tableHeader path
  | .elementHeader _ path => .elementHeader path

/-- The parts of a line stand for what it says. -/
def Spelled : Line → Prop
  | .pair p => p.Spelled deepestNesting
  | .tableHeader key path => SpellsKey key path ∧ path.length ≤ longestKey
  | .elementHeader key path => SpellsKey key path ∧ path.length ≤ longestKey

variable {line : Line} {lines : List Line}

/-- What begins like a key is not an empty line. -/
theorem lineEnd?_eq_none {c : Char} (hstarts : startsKey c = true) (rest : List Char) :
    lineEnd? (c :: rest) = none := by
  have hne {mark : Char} (hmark : startsKey mark = false) (more : List Char) :
      c :: rest ≠ mark :: more :=
    fun h => ne_of_startsKey hstarts hmark (List.cons.inj h).1
  have hspace : skipSpace (c :: rest) = c :: rest :=
    skipSpace_of_stops (Text.stops_cons.mpr (not_isSpace_of_startsKey hstarts))
  have hcomment : skipComment (c :: rest) = c :: rest := by
    rw [skipComment]
    exact fun _ => hne (by simp [startsKey, isBare, isDigit]) _
  rw [lineEnd?, hspace, hcomment]
  dsimp only
  rw [newline?]
  · exact fun _ => hne (by simp [startsKey, isBare, isDigit]) _
  · exact fun _ => hne (by simp [startsKey, isBare, isDigit]) _

/-- The key of a header reads back. -/
theorem key?_header (hkey : SpellsKey key path) (hshort : path.length ≤ longestKey)
    (rest : List Char) : key? (key ++ ']' :: rest) = some (path, ']' :: rest) :=
  hkey.keyUpTo? hshort (Text.stops_cons.mpr rfl) (Text.stops_cons.mpr rfl)

/-- A line reads back, and leaves the lines after it. -/
theorem Spelled.line? (hspelled : line.Spelled) (rest : List Char) :
    line? (line.text ++ rest) = some (some line.statement, rest) := by
  cases line with
  | pair pair =>
      have hpair : pair.Spelled deepestNesting := hspelled
      have hends : Ends ('\n' :: rest) := Text.stops_cons.mpr rfl
      have hread := hpair.pair? hends
      obtain ⟨c, cs, hcs, hstarts⟩ := hpair.starts ('\n' :: rest)
      have hspace : skipSpace (c :: cs) = c :: cs :=
        skipSpace_of_stops (Text.stops_cons.mpr (not_isSpace_of_startsKey hstarts))
      have hbracket : c ≠ '[' :=
        ne_of_startsKey hstarts (by simp [startsKey, isBare, isDigit])
      rw [text, List.append_assoc, List.singleton_append]
      rw [hcs] at hread ⊢
      rw [Toml.line?, hspace]
      split
      case h_1 htail => exact absurd (List.cons.inj htail).1 hbracket
      case h_2 htail => exact absurd (List.cons.inj htail).1 hbracket
      case h_3 =>
        rw [lineEnd?_eq_none hstarts]
        dsimp only
        rw [hread]
        rfl
  | tableHeader key path =>
      obtain ⟨hkey, hshort⟩ := hspelled
      have hread := key?_header hkey hshort ('\n' :: rest)
      obtain ⟨c, cs, rfl, hstarts⟩ := hkey.starts
      have hbracket : c ≠ '[' :=
        ne_of_startsKey hstarts (by simp [startsKey, isBare, isDigit])
      have htext : text (.tableHeader (c :: cs) path) ++ rest
          = '[' :: (c :: cs ++ ']' :: '\n' :: rest) := by simp [text]
      rw [htext, Toml.line?, skipSpace_of_stops (Text.stops_cons.mpr rfl)]
      split
      case h_1 htail => exact absurd (List.cons.inj (List.cons.inj htail).2).1 hbracket
      case h_2 htail =>
        rw [← (List.cons.inj htail).2, hread]
        rfl
      case h_3 hnot => exact absurd rfl (hnot _)
  | elementHeader key path =>
      obtain ⟨hkey, hshort⟩ := hspelled
      have hread := key?_header hkey hshort (']' :: '\n' :: rest)
      have htext : text (.elementHeader key path) ++ rest
          = '[' :: '[' :: (key ++ ']' :: ']' :: '\n' :: rest) := by simp [text]
      rw [htext, Toml.line?, skipSpace_of_stops (Text.stops_cons.mpr rfl)]
      show (key? (key ++ ']' :: ']' :: '\n' :: rest)).bind _ = _
      rw [hread]
      rfl

theorem text_ne_nil (line : Line) : line.text ≠ [] := by
  cases line <;> simp [text]

theorem length_le_text (lines : List Line) :
    lines.length ≤ (lines.flatMap text).length := by
  induction lines with
  | nil => exact Nat.zero_le _
  | cons line lines ih =>
      have hpos := List.length_pos_iff.mpr line.text_ne_nil
      rw [List.flatMap_cons, List.length_append, List.length_cons]
      omega

/-- Lines read back as their statements. -/
theorem statementsUpTo?_text (hspelled : ∀ line ∈ lines, line.Spelled) {limit : ℕ}
    (hlimit : lines.length ≤ limit) :
    statementsUpTo? limit (lines.flatMap text) = some (lines.map statement) := by
  induction lines generalizing limit with
  | nil => cases limit <;> rfl
  | cons line lines ih =>
      obtain ⟨limit, rfl⟩ := Nat.exists_eq_succ_of_ne_zero
        (Nat.pos_iff_ne_zero.mp (Nat.zero_lt_of_lt hlimit))
      obtain ⟨hline, hlines⟩ := List.forall_mem_cons.mp hspelled
      have hrest := ih hlines (Nat.le_of_succ_le_succ hlimit)
      have hread := hline.line? (lines.flatMap text)
      obtain ⟨c, cs, hcs⟩ := List.exists_cons_of_ne_nil
        (List.append_ne_nil_of_left_ne_nil line.text_ne_nil (lines.flatMap text))
      rw [List.flatMap_cons]
      rw [hcs] at hread ⊢
      show (line? (c :: cs)).bind _ = _
      rw [hread, Option.bind_some]
      dsimp only
      rw [hrest]
      rfl

/-- No line begins with a byte order mark. -/
theorem skipByteOrderMark_text (hspelled : ∀ line ∈ lines, line.Spelled) :
    skipByteOrderMark (lines.flatMap text) = lines.flatMap text := by
  cases lines with
  | nil => rfl
  | cons line lines =>
      obtain ⟨c, cs, hcs, hmark⟩ : ∃ c cs, line.text = c :: cs ∧ c ≠ '\ufeff' := by
        have hline := hspelled line (List.mem_cons_self ..)
        cases line with
        | pair pair =>
            obtain ⟨c, cs, hcs, hstarts⟩ := Pair.Spelled.starts hline ['\n']
            exact ⟨c, cs, hcs, ne_of_startsKey hstarts (by simp [startsKey, isBare, isDigit])⟩
        | tableHeader key path => exact ⟨_, _, rfl, by simp⟩
        | elementHeader key path => exact ⟨_, _, rfl, by simp⟩
      rw [List.flatMap_cons, hcs, List.cons_append, skipByteOrderMark]
      exact fun _ h => hmark (List.cons.inj h).1

/-- A document reads back as the tables that its lines build. -/
theorem parse?_of_lines (hspelled : ∀ line ∈ lines, line.Spelled) :
    parse? (String.ofList (lines.flatMap text)) = tableOf? (lines.map statement) := by
  have hread := statementsUpTo?_text hspelled
    (Nat.le_trans (length_le_text lines) (Nat.le_succ _))
  unfold parse?
  rw [String.toList_ofList, skipByteOrderMark_text hspelled]
  dsimp only
  rw [hread]
  rfl

-- ============================================================== sections

theorem sections_pair (path : List String) (value : Value) (statements : List Statement) :
    sections (.pair path value :: statements)
      = ((path, value) :: (sections statements).1, (sections statements).2) :=
  rfl

theorem sections_tableHeader (path : List String) (statements : List Statement) :
    sections (.tableHeader path :: statements)
      = ([], ⟨false, path, (sections statements).1⟩ :: (sections statements).2) :=
  rfl

theorem sections_elementHeader (path : List String) (statements : List Statement) :
    sections (.elementHeader path :: statements)
      = ([], ⟨true, path, (sections statements).1⟩ :: (sections statements).2) :=
  rfl

/-- The pairs under a header are those up to the next one. -/
theorem sections_pairs (pairs : List Pair) (statements : List Statement) :
    sections ((pairs.map Line.pair).map statement ++ statements)
      = (pairs.map Pair.content ++ (sections statements).1, (sections statements).2) := by
  induction pairs with
  | nil => rfl
  | cons first pairs ih =>
      rw [List.map_cons, List.map_cons, List.cons_append]
      refine (sections_pair first.path first.value _).trans ?_
      rw [ih]
      rfl

end Line

end Turnstile.Toml
