/-
Tidy documents.

No key stands twice in the top table of a document, nor in a table there
(`parse?_tidy`), so what a document says of a setting does not depend on the
order in which its keys are gone through. Every line keeps the top table tidy.
A line may change tables far below, but for the keys of a table it is enough
that each change is an update, whatever it does to the value; so nothing has
to be said of the tables further down, and no proof here goes down with a
path.

Chain (toml): Toml/Entries.lean below; Settings/Fields.lean above.
-/
import Mathlib
import Turnstile.Proofs.Toml.Entries
import Turnstile.Toml.Document

namespace Turnstile.Toml

/-- If the value is a table, its keys are distinct. -/
def Value.Tidy : Value → Prop
  | .table _ entries => Entries.Distinct entries
  | _ => True

namespace Entries

variable {entries changed filled : Entries} {key name : String} {value : Value}
  {change : Option Value → Option Value} {path : List String}
  {act : String → Entries → Option Entries}
  {pairs : List (List String × Value)}

/-- The keys are distinct, and so are those of the tables in it. -/
structure Tidy (entries : Entries) : Prop where
  distinct : entries.Distinct
  values : ∀ entry ∈ entries, entry.2.Tidy

theorem tidy_nil : Tidy [] :=
  ⟨distinct_nil, fun _ hmem => nomatch hmem⟩

theorem Tidy.find? (htidy : entries.Tidy) (hfind : entries.find? name = some value) :
    value.Tidy :=
  htidy.values _ (mem_of_find? hfind)

theorem Tidy.put (htidy : entries.Tidy) (hvalue : value.Tidy) (key : String) :
    (entries.put key value).Tidy where
  distinct := htidy.distinct.put key value
  values entry hmem := by
    rcases mem_put hmem with rfl | hmem
    · exact hvalue
    · exact htidy.values entry hmem

/-- An update keeps a table tidy if its change does so. -/
theorem Tidy.update (htidy : entries.Tidy)
    (hchange : ∀ old? new, (∀ old ∈ old?, old.Tidy) → change old? = some new → new.Tidy)
    (hupdate : entries.update key change = some changed) : changed.Tidy := by
  obtain ⟨value, hvalue, rfl⟩ := update_eq_some hupdate
  exact htidy.put (hchange _ _ (fun old hold => htidy.find? hold) hvalue) key

-- ========================================================= keys with values

theorem Distinct.define (hdistinct : entries.Distinct)
    (hdefine : entries.define value path = some changed) : changed.Distinct := by
  match path, hdefine with
  | [name], hdefine => exact hdistinct.update hdefine
  | name :: next :: rest, hdefine => exact hdistinct.update hdefine

theorem Tidy.define (htidy : entries.Tidy) (hvalue : value.Tidy)
    (hdefine : entries.define value path = some changed) : changed.Tidy := by
  match path, hdefine with
  | [name], hdefine =>
      refine htidy.update (fun old? new _ hnew => ?_) hdefine
      cases old? with
      | none => exact Option.some.inj hnew ▸ hvalue
      | some old => cases hnew
  | name :: next :: rest, hdefine =>
      refine htidy.update (fun old? new hold hnew => ?_) hdefine
      rcases old? with _ | old
      · obtain ⟨inner, hinner, rfl⟩ := Option.map_eq_some_iff.mp hnew
        exact distinct_nil.define hinner
      · have hold : old.Tidy := hold old rfl
        cases old with
        | table origin inner =>
            dsimp only at hnew
            split at hnew
            · obtain ⟨inner', hinner, rfl⟩ := Option.map_eq_some_iff.mp hnew
              exact Distinct.define (show Distinct inner from hold) hinner
            · cases hnew
        | tables elements =>
            dsimp only at hnew
            split at hnew
            · cases hnew
            · obtain ⟨elements', -, rfl⟩ := Option.map_eq_some_iff.mp hnew
              trivial
        | _ => cases hnew

theorem Distinct.defineAll (hdistinct : entries.Distinct)
    (hdefine : defineAll pairs entries = some changed) : changed.Distinct := by
  induction pairs generalizing entries with
  | nil => exact Option.some.inj hdefine ▸ hdistinct
  | cons pair pairs ih =>
      obtain ⟨next, hnext, hrest⟩ := Option.bind_eq_some_iff.mp hdefine
      exact ih (hdistinct.define hnext) hrest

theorem Tidy.defineAll (htidy : entries.Tidy) (hpairs : ∀ pair ∈ pairs, pair.2.Tidy)
    (hdefine : Entries.defineAll pairs entries = some changed) : changed.Tidy := by
  induction pairs generalizing entries with
  | nil => exact Option.some.inj hdefine ▸ htidy
  | cons pair pairs ih =>
      obtain ⟨next, hnext, hrest⟩ := Option.bind_eq_some_iff.mp hdefine
      refine ih (htidy.define (hpairs pair (List.mem_cons_self ..)) hnext)
        (fun other hother => hpairs other (List.mem_cons_of_mem _ hother)) hrest

-- ================================================================ headers

theorem keys_erase (name : String) (entries : Entries) :
    (entries.erase name).keys = entries.keys.filter (· != name) := by
  unfold erase keys
  rw [List.filter_map]
  rfl

/-- A header opens a table that is missing or only implied, at the end. -/
theorem openTable_eq_some (hopen : openTable pairs name entries = some changed) :
    ∃ inner filled, (entries.find? name = none ∧ inner = []
        ∨ entries.find? name = some (.table .implied inner))
      ∧ defineAll pairs inner = some filled
      ∧ changed = entries.erase name ++ [(name, .table .header filled)] := by
  unfold openTable at hopen
  dsimp only at hopen
  split at hopen
  case h_1 hnone =>
    obtain ⟨filled, hfilled, rfl⟩ := Option.map_eq_some_iff.mp hopen
    exact ⟨[], filled, Or.inl ⟨hnone, rfl⟩, hfilled, rfl⟩
  case h_2 inner himplied =>
    obtain ⟨filled, hfilled, rfl⟩ := Option.map_eq_some_iff.mp hopen
    exact ⟨inner, filled, Or.inr himplied, hfilled, rfl⟩
  case h_3 => cases hopen

theorem Distinct.snoc_erase (hdistinct : entries.Distinct) (name : String)
    (value : Value) : Distinct (entries.erase name ++ [(name, value)]) := by
  have hkeys : keys (entries.erase name ++ [(name, value)])
      = entries.keys.filter (· != name) ++ [name] := by
    rw [← keys_erase]
    exact List.map_append
  unfold Distinct
  rw [hkeys]
  refine List.nodup_append.mpr ⟨hdistinct.filter _, List.nodup_singleton _, ?_⟩
  intro key hkey other hother
  rw [List.mem_singleton.mp hother]
  simpa using (List.mem_filter.mp hkey).2

theorem Tidy.openTable (htidy : entries.Tidy)
    (hopen : Entries.openTable pairs name entries = some changed) : changed.Tidy := by
  obtain ⟨inner, filled, hinner, hfilled, rfl⟩ := openTable_eq_some hopen
  have hdistinct : Distinct inner := by
    rcases hinner with ⟨-, rfl⟩ | hfind
    · exact distinct_nil
    · exact htidy.find? hfind
  refine ⟨htidy.distinct.snoc_erase .., fun entry hmem => ?_⟩
  rcases List.mem_append.mp hmem with hmem | hmem
  · exact htidy.values entry (List.mem_filter.mp hmem).1
  · rw [List.mem_singleton.mp hmem]
    exact hdistinct.defineAll hfilled

theorem Tidy.openElement (htidy : entries.Tidy)
    (hopen : Entries.openElement pairs name entries = some changed) : changed.Tidy := by
  obtain ⟨filled, -, hupdate⟩ := Option.bind_eq_some_iff.mp hopen
  refine htidy.update (fun old? new _ hnew => ?_) hupdate
  rcases old? with _ | old
  · exact Option.some.inj hnew ▸ trivial
  · cases old with
    | tables elements => exact Option.some.inj hnew ▸ trivial
    | _ => cases hnew

/-- What a header does at its end it does to no other table. -/
theorem Tidy.atHeader (htidy : entries.Tidy)
    (hact : ∀ name entries changed, entries.Tidy → act name entries = some changed →
      changed.Tidy)
    (hdistinct : ∀ name entries changed, entries.Distinct →
      act name entries = some changed → changed.Distinct)
    (hheader : Entries.atHeader act path entries = some changed) : changed.Tidy := by
  match path, hheader with
  | [name], hheader => exact hact name entries changed htidy hheader
  | name :: next :: rest, hheader =>
      have hinner : ∀ inner inner', Distinct inner →
          Entries.atHeader act (next :: rest) inner = some inner' → Distinct inner' := by
        intro inner inner' hinner hinner'
        match rest, hinner' with
        | [], hinner' => exact hdistinct next inner inner' hinner hinner'
        | _ :: _, hinner' => exact hinner.update hinner'
      refine htidy.update (fun old? new hold hnew => ?_) hheader
      rcases old? with _ | old
      · obtain ⟨inner', hinner', rfl⟩ := Option.map_eq_some_iff.mp hnew
        exact hinner [] inner' distinct_nil hinner'
      · have hold : old.Tidy := hold old rfl
        cases old with
        | table origin inner =>
            dsimp only at hnew
            split at hnew
            · cases hnew
            · obtain ⟨inner', hinner', rfl⟩ := Option.map_eq_some_iff.mp hnew
              exact hinner inner inner' hold hinner'
        | tables elements =>
            obtain ⟨elements', -, rfl⟩ := Option.map_eq_some_iff.mp hnew
            trivial
        | _ => cases hnew

end Entries

-- ============================================================== documents

section

variable {value : Value} {cs rest : List Char} {depth : ℕ} {statement : Statement}
  {statements : List Statement}

theorem integer?_tidy {n : ℤ} (hread : integer? n = some value) : value.Tidy := by
  unfold integer? at hread
  split at hread
  · exact Option.some.inj hread ▸ trivial
  · cases hread

theorem float?_tidy {d : Decimal} (hread : float? d = some value) : value.Tidy := by
  unfold float? at hread
  dsimp only at hread
  split at hread
  · cases hread
  · exact Option.some.inj hread ▸ trivial

theorem inBase?_tidy {base : ℕ} {isDigit : Char → Bool}
    (hread : inBase? base isDigit cs = some (value, rest)) : value.Tidy := by
  obtain ⟨⟨digits, rest'⟩, -, hread⟩ := Option.bind_eq_some_iff.mp hread
  obtain ⟨value', hvalue, heq⟩ := Option.bind_eq_some_iff.mp hread
  cases heq
  exact integer?_tidy hvalue

theorem special?_tidy {negative : Bool}
    (hread : special? negative cs = some (value, rest)) : value.Tidy := by
  unfold special? at hread
  split at hread <;> cases hread <;> trivial

theorem decimal?_tidy {negative : Bool}
    (hread : decimal? negative cs = some (value, rest)) : value.Tidy := by
  obtain ⟨⟨whole, rest'⟩, -, hread⟩ := Option.bind_eq_some_iff.mp hread
  dsimp only at hread
  split at hread
  · obtain ⟨⟨fraction, rest₁⟩, -, hread⟩ := Option.bind_eq_some_iff.mp hread
    obtain ⟨⟨scale, rest₂⟩, -, hread⟩ := Option.bind_eq_some_iff.mp hread
    obtain ⟨value', hvalue, heq⟩ := Option.bind_eq_some_iff.mp hread
    cases heq
    exact float?_tidy hvalue
  · split at hread
    · obtain ⟨⟨scale, rest₁⟩, -, hread⟩ := Option.bind_eq_some_iff.mp hread
      obtain ⟨value', hvalue, heq⟩ := Option.bind_eq_some_iff.mp hread
      cases heq
      exact float?_tidy hvalue
    · obtain ⟨value', hvalue, heq⟩ := Option.bind_eq_some_iff.mp hread
      cases heq
      exact integer?_tidy hvalue
  · obtain ⟨value', hvalue, heq⟩ := Option.bind_eq_some_iff.mp hread
    cases heq
    exact integer?_tidy hvalue

theorem number?_tidy (hread : number? cs = some (value, rest)) : value.Tidy := by
  unfold number? at hread
  split at hread
  · exact inBase?_tidy hread
  · exact inBase?_tidy hread
  · exact inBase?_tidy hread
  · rcases Option.or_eq_some_iff.mp hread with hspecial | ⟨-, hdecimal⟩
    · exact special?_tidy hspecial
    · exact decimal?_tidy hdecimal

theorem scalarValue?_tidy (hread : scalarValue? cs = some (value, rest)) :
    value.Tidy := by
  unfold scalarValue? at hread
  split at hread
  · cases hread; trivial
  · cases hread; trivial
  · rcases Option.or_eq_some_iff.mp hread with htext | ⟨-, hread⟩
    · obtain ⟨_, -, heq⟩ := Option.map_eq_some_iff.mp htext
      cases heq; trivial
    · rcases Option.or_eq_some_iff.mp hread with hmoment | ⟨-, hnumber⟩
      · obtain ⟨_, -, heq⟩ := Option.map_eq_some_iff.mp hmoment
        cases heq; trivial
      · exact number?_tidy hnumber

theorem pair?_eq_some {read : List Char → Option (Value × List Char)}
    {key : List String} (hread : pair? read cs = some ((key, value), rest)) :
    ∃ rest', key? cs = some (key, '=' :: rest')
      ∧ read (skipSpace rest') = some (value, rest) := by
  obtain ⟨⟨key', rest'⟩, hkey, hread⟩ := Option.bind_eq_some_iff.mp hread
  dsimp only at hread
  split at hread
  case h_1 _ rest' =>
    obtain ⟨⟨value', rest''⟩, hvalue, heq⟩ := Option.bind_eq_some_iff.mp hread
    cases heq
    exact ⟨rest', hkey, hvalue⟩
  case h_2 => cases hread

/-- Of the values only tables have keys, and those in braces are built like any
other. -/
theorem value?_tidy (hread : value? depth cs = some (value, rest)) : value.Tidy := by
  unfold value? at hread
  split at hread
  · obtain ⟨_, -, heq⟩ := Option.map_eq_some_iff.mp hread
    cases heq; trivial
  · unfold braceTable? at hread
    split at hread
    · cases hread
      exact Entries.distinct_nil
    · obtain ⟨⟨pairs, rest'⟩, -, hread⟩ := Option.bind_eq_some_iff.mp hread
      obtain ⟨entries, hentries, hread⟩ := Option.bind_eq_some_iff.mp hread
      cases hread
      exact Entries.distinct_nil.defineAll hentries
  · exact scalarValue?_tidy hread

/-- A statement gives its key a tidy value, if it gives one. -/
def Statement.Tidy : Statement → Prop
  | .pair _ value => value.Tidy
  | _ => True

theorem line?_tidy (hread : line? cs = some (some statement, rest)) :
    statement.Tidy := by
  unfold line? at hread
  split at hread
  · obtain ⟨⟨key, rest'⟩, -, hread⟩ := Option.bind_eq_some_iff.mp hread
    dsimp only at hread
    split at hread
    · obtain ⟨_, -, hread⟩ := Option.bind_eq_some_iff.mp hread
      cases hread; trivial
    · cases hread
  · obtain ⟨⟨key, rest'⟩, -, hread⟩ := Option.bind_eq_some_iff.mp hread
    dsimp only at hread
    split at hread
    · obtain ⟨_, -, hread⟩ := Option.bind_eq_some_iff.mp hread
      cases hread; trivial
    · cases hread
  · split at hread
    · cases hread
    · obtain ⟨⟨⟨key, value⟩, rest'⟩, hpair, hread⟩ := Option.bind_eq_some_iff.mp hread
      obtain ⟨_, -, hread⟩ := Option.bind_eq_some_iff.mp hread
      cases hread
      obtain ⟨_, -, hvalue⟩ := pair?_eq_some hpair
      exact value?_tidy hvalue

theorem statements_tidy {limit : ℕ} (hread : statementsUpTo? limit cs = some statements) :
    ∀ statement ∈ statements, statement.Tidy := by
  induction limit generalizing cs statements with
  | zero =>
      cases cs with
      | nil => cases hread; simp
      | cons c cs => cases hread
  | succ limit ih =>
      cases cs with
      | nil => cases hread; simp
      | cons c cs =>
          obtain ⟨⟨first?, rest⟩, hline, hread⟩ := Option.bind_eq_some_iff.mp hread
          obtain ⟨others, hothers, heq⟩ := Option.bind_eq_some_iff.mp hread
          cases heq
          intro statement hmem
          rcases List.mem_append.mp hmem with hmem | hmem
          · rw [Option.mem_toList] at hmem
            rw [hmem] at hline
            exact line?_tidy hline
          · exact ih hothers statement hmem

theorem sections_tidy (hstatements : ∀ statement ∈ statements, statement.Tidy) :
    ∀ pair ∈ (sections statements).1, pair.2.Tidy := by
  induction statements with
  | nil => simp [sections]
  | cons statement rest ih =>
      have hrest := ih fun other hother => hstatements other (List.mem_cons_of_mem _ hother)
      cases statement with
      | pair key value =>
          intro pair hmem
          rcases List.mem_cons.mp hmem with rfl | hmem
          · exact hstatements (.pair key value) (List.mem_cons_self ..)
          · exact hrest pair hmem
      | tableHeader key => simp [sections]
      | elementHeader key => simp [sections]

theorem Section.addTo?_tidy {part : Section} {entries changed : Entries}
    (htidy : entries.Tidy) (hadd : part.addTo? entries = some changed) :
    changed.Tidy := by
  unfold Section.addTo? at hadd
  dsimp only at hadd
  split at hadd
  · refine htidy.atHeader (fun _ _ _ htidy hopen => htidy.openElement hopen)
      (fun _ _ _ hdistinct hopen => ?_) hadd
    obtain ⟨filled, -, hupdate⟩ := Option.bind_eq_some_iff.mp hopen
    exact hdistinct.update hupdate
  · refine htidy.atHeader (fun _ _ _ htidy hopen => htidy.openTable hopen)
      (fun name _ _ hdistinct hopen => ?_) hadd
    obtain ⟨inner, filled, -, -, rfl⟩ := Entries.openTable_eq_some hopen
    exact hdistinct.snoc_erase name _

/-- No key stands twice in the top table of a document, nor in a table there. -/
theorem parse?_tidy {text : String} {entries : Entries}
    (hparse : parse? text = some entries) : entries.Tidy := by
  obtain ⟨statements, hread, htable⟩ := Option.bind_eq_some_iff.mp hparse
  obtain ⟨top, htop, hparts⟩ := Option.bind_eq_some_iff.mp htable
  have htidy : top.Tidy :=
    Entries.tidy_nil.defineAll (sections_tidy (statements_tidy hread)) htop
  generalize (sections statements).2 = parts at hparts
  clear htop
  induction parts generalizing top with
  | nil => exact Option.some.inj hparts ▸ htidy
  | cons part parts ih =>
      obtain ⟨next, hnext, hrest⟩ := Option.bind_eq_some_iff.mp hparts
      exact ih next (part.addTo?_tidy htidy hnext) hrest

end

end Turnstile.Toml
