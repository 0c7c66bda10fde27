/-
Runs of characters.

Readers take the longest run of characters of a kind and go on with what is
left. A run is longest if what is left begins with another kind, or not at
all (`Stops`), and then the run and the rest are told by that alone
(`takeWhile_run`, `dropWhile_run`). In bytes, a run ends at the offset of the first
character of another kind (`CutsAt`, `cutsAt_run`). What trimming leaves stops at
blanks from either side, and it is all that can be left (`trims_trim`,
`Trims.eq_trim`).

Chain (text): below every reader of settings.
-/
import Mathlib
import Turnstile.Text.Character

namespace Turnstile.Text

/-- The text does not begin with a character of the kind. -/
def Stops (kind : Char → Bool) (cs : List Char) : Prop :=
  ∀ c ∈ cs.head?, kind c = false

variable {kind : Char → Bool} {c : Char} {cs run rest : List Char}

theorem stops_nil : Stops kind [] := by
  simp [Stops]

theorem stops_cons : Stops kind (c :: cs) ↔ kind c = false := by
  simp [Stops]

theorem stops_dropWhile (kind : Char → Bool) (cs : List Char) :
    Stops kind (cs.dropWhile kind) := by
  intro c hc
  have hnot := List.head?_dropWhile_not kind cs
  rw [Option.mem_def.mp hc] at hnot
  simpa using hnot

theorem Stops.takeWhile (hrest : Stops kind rest) : rest.takeWhile kind = [] := by
  cases rest with
  | nil => rfl
  | cons c rest => exact List.takeWhile_cons_of_neg (by simp [stops_cons.mp hrest])

theorem Stops.dropWhile (hrest : Stops kind rest) : rest.dropWhile kind = rest := by
  cases rest with
  | nil => rfl
  | cons c rest => exact List.dropWhile_cons_of_neg (by simp [stops_cons.mp hrest])

theorem takeWhile_run (hrun : ∀ c ∈ run, kind c = true) (hrest : Stops kind rest) :
    (run ++ rest).takeWhile kind = run := by
  rw [List.takeWhile_append_of_pos hrun, hrest.takeWhile, List.append_nil]

theorem dropWhile_run (hrun : ∀ c ∈ run, kind c = true) (hrest : Stops kind rest) :
    (run ++ rest).dropWhile kind = rest := by
  rw [List.dropWhile_append_of_pos hrun, hrest.dropWhile]

-- ============================================================== offsets

/-- The offset, in bytes, of the first character of the text that is not of the
kind, or of its end if all are. -/
structure CutsAt (kind : Char → Bool) (cs : List Char) (offset : String.Pos.Raw) :
    Prop where
  valid : offset.IsValid (String.ofList cs)
  before : ∀ earlier < offset, earlier.IsValid (String.ofList cs) →
    kind (earlier.get (String.ofList cs)) = true
  after : offset = (String.ofList cs).rawEndPos
    ∨ kind (offset.get (String.ofList cs)) = false

/-- A character is found at the offset where those before it end. -/
theorem get_rawEndPos (front : List Char) (c : Char) (back : List Char) :
    (String.ofList front).rawEndPos.get (String.ofList (front ++ c :: back)) = c := by
  rw [String.rawEndPos_ofList, String.get_of_valid]
  rfl

/-- A text is cut where its longest run ends. -/
theorem cutsAt_run (hrun : ∀ c ∈ run, kind c = true) (hrest : Stops kind rest) :
    CutsAt kind (run ++ rest) (String.ofList run).rawEndPos where
  valid := by
    rw [String.ofList_append]
    exact String.Pos.Raw.isValid_iff_exists_append.mpr ⟨_, _, rfl, rfl⟩
  before := by
    intro earlier hless hvalid
    -- the offset is that of a character, and this one belongs to the run
    obtain ⟨i, hi⟩ := String.Pos.Raw.isValid_ofList.mp hvalid
    have hsize : (String.ofList ((run ++ rest).take i)).utf8ByteSize
        < (String.ofList run).utf8ByteSize := hi ▸ hless
    have hinside : i < run.length := by
      by_contra hbeyond
      rw [List.take_append, List.take_of_length_le (not_lt.mp hbeyond),
        String.ofList_append, String.utf8ByteSize_append] at hsize
      omega
    rw [List.take_append_of_le_length hinside.le] at hi
    have hearlier : earlier = (String.ofList (run.take i)).rawEndPos :=
      String.Pos.Raw.ext hi
    have hsplit : run ++ rest = run.take i ++ run[i] :: (run.drop (i + 1) ++ rest) := by
      rw [← List.cons_append, ← List.drop_eq_getElem_cons hinside, ← List.append_assoc,
        List.take_append_drop]
    rw [hearlier, hsplit, get_rawEndPos]
    exact hrun _ (List.getElem_mem hinside)
  after := by
    cases rest with
    | nil => exact .inl (by rw [List.append_nil])
    | cons c rest =>
        refine .inr ?_
        rw [get_rawEndPos]
        exact stops_cons.mp hrest

-- ============================================================= trimming

/-- The part of a text between the blanks at its ends. -/
def Trims (cs core : List Char) : Prop :=
  ∃ before after, cs = before ++ (core ++ after)
    ∧ (∀ c ∈ before, isBlank c = true) ∧ (∀ c ∈ after, isBlank c = true)
    ∧ Stops isBlank core ∧ Stops isBlank core.reverse

theorem trims_trim (cs : List Char) : Trims cs (trim cs) := by
  have hstart := List.takeWhile_append_dropWhile (p := isBlank) (l := cs)
  have hend := List.takeWhile_append_dropWhile (p := isBlank)
    (l := (trimStart cs).reverse)
  have hsplit : trimStart cs
      = trim cs ++ ((trimStart cs).reverse.takeWhile isBlank).reverse := by
    conv_lhs => rw [← List.reverse_reverse (trimStart cs), ← hend, List.reverse_append]
    rfl
  refine ⟨cs.takeWhile isBlank, ((trimStart cs).reverse.takeWhile isBlank).reverse,
    ?_, fun c hc => List.mem_takeWhile_imp hc,
    fun c hc => List.mem_takeWhile_imp (List.mem_reverse.mp hc), ?_, ?_⟩
  · rw [← hsplit]
    exact hstart.symm
  · have hstop := stops_dropWhile isBlank cs
    intro c hc
    refine hstop c ?_
    show c ∈ (trimStart cs).head?
    rw [hsplit, List.head?_append, Option.mem_def.mp hc]
    rfl
  · have hstop := stops_dropWhile isBlank (trimStart cs).reverse
    unfold trim trimEnd
    rwa [List.reverse_reverse]

/-- There is one such part only. -/
theorem Trims.eq_trim {core : List Char} (htrims : Trims cs core) : core = trim cs := by
  obtain ⟨before, after, rfl, hbefore, hafter, hstart, hend⟩ := htrims
  cases core with
  | nil =>
      -- then the whole text is one run of blanks
      have hblank : ∀ c ∈ before ++ after, isBlank c = true := by
        intro c hc
        exact (List.mem_append.mp hc).elim (hbefore c) (hafter c)
      have hnone := dropWhile_run hblank stops_nil
      rw [List.append_nil] at hnone
      show [] = trimEnd ((before ++ after).dropWhile isBlank)
      rw [hnone]
      rfl
  | cons c core =>
      have hstop : Stops isBlank (c :: core ++ after) :=
        stops_cons.mpr (stops_cons.mp hstart)
      have hafter_reverse : ∀ c ∈ after.reverse, isBlank c = true := by
        intro c hc
        exact hafter c (List.mem_reverse.mp hc)
      unfold trim trimStart trimEnd
      rw [dropWhile_run hbefore hstop, List.reverse_append, dropWhile_run hafter_reverse hend,
        List.reverse_reverse]

end Turnstile.Text
