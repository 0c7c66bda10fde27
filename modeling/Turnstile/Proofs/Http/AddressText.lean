/-
The text of an address tells the address.

What is written reads back: four bytes (`dotted?_dotted`), eight groups
(`v6?_groupsText`), and a peer with its port, of which only the address is read
(`Peer.ofPeer?_text`). So different addresses have different texts
(`text_injective`), and none is empty.

# Why eight groups read back

There are three forms, told apart by where the first two colons in a row stand.

- Groups alone have none: within them each colon is followed by a digit
  (`splitGap?_coloned_append`).
- If a run of zeros is left out, the first two colons stand in its place, for the
  same reason (`splitGap?_gap`). Reading puts back as many zeros as are missing from
  eight, so it matters that what was left out was a run of zeros (`split_zeros`,
  `longestZeros_le`); that it was the longest one, or the first, does not.
- The form that ends in an older address begins with two colons. Its last part has a
  point in it, so it is no group (`groupList?_mapped`).

Chain (service): Text/Digits.lean and Text/Runs.lean below; Http/Identity.lean above.
-/
import Mathlib
import Turnstile.Http.Address
import Turnstile.Proofs.Text.Digits
import Turnstile.Proofs.Text.Runs

namespace Turnstile.Http.Address

open Text

variable {separator c : Char} {part rest cs : List Char} {parts : List (List Char)}
  {groups front back : List UInt16}

-- ============================================================ parts

theorem partsAt_separator (separator : Char) (cs : List Char) :
    partsAt separator (separator :: cs) = [] :: partsAt separator cs := by
  unfold partsAt
  rw [List.foldr_cons, if_pos rfl]

/-- Any other character belongs to the first part. -/
theorem partsAt_cons (hc : c ≠ separator) (hcs : partsAt separator cs = part :: parts) :
    partsAt separator (c :: cs) = (c :: part) :: parts := by
  unfold partsAt at hcs ⊢
  rw [List.foldr_cons, if_neg hc, hcs]

theorem partsAt_of_not_mem (hpart : separator ∉ part) : partsAt separator part = [part] := by
  induction part with
  | nil => rfl
  | cons c part ih =>
      obtain ⟨hc, hrest⟩ := not_or.mp (mt List.mem_cons.mpr hpart)
      exact partsAt_cons (Ne.symm hc) (ih hrest)

theorem partsAt_append (hpart : separator ∉ part) (rest : List Char) :
    partsAt separator (part ++ separator :: rest) = part :: partsAt separator rest := by
  induction part with
  | nil => exact partsAt_separator separator rest
  | cons c part ih =>
      obtain ⟨hc, hrest⟩ := not_or.mp (mt List.mem_cons.mpr hpart)
      exact partsAt_cons (Ne.symm hc) (ih hrest)

theorem partsAt_join (hne : parts ≠ []) (hparts : ∀ part ∈ parts, separator ∉ part) :
    partsAt separator (join separator parts) = parts := by
  induction parts with
  | nil => exact absurd rfl hne
  | cons part parts ih =>
      obtain ⟨hpart, hrest⟩ := List.forall_mem_cons.mp hparts
      cases parts with
      | nil => exact partsAt_of_not_mem hpart
      | cons next parts =>
          show partsAt separator (part ++ separator :: join separator (next :: parts)) = _
          rw [partsAt_append hpart, ih (by simp) hrest]

/-- Written out in parts that are free of the separator, a list comes apart again. -/
theorem partsAt_join_map {α : Type} {write : α → List Char}
    (hwrite : ∀ x, separator ∉ write x) {xs : List α} (hne : xs ≠ []) :
    partsAt separator (join separator (xs.map write)) = xs.map write := by
  refine partsAt_join (mt List.map_eq_nil_iff.mp hne) fun part hpart => ?_
  obtain ⟨x, -, rfl⟩ := List.mem_map.mp hpart
  exact hwrite x

/-- What is joined consists of the parts and the separator. -/
theorem mem_join (hmem : c ∈ join separator parts) :
    c = separator ∨ ∃ part ∈ parts, c ∈ part := by
  induction parts with
  | nil => cases hmem
  | cons part parts ih =>
      cases parts with
      | nil => exact .inr ⟨part, List.mem_singleton_self part, hmem⟩
      | cons next parts =>
          have hsplit : c ∈ part ++ separator :: join separator (next :: parts) := hmem
          rw [List.mem_append, List.mem_cons] at hsplit
          rcases hsplit with hpart | rfl | hrest
          · exact .inr ⟨part, List.mem_cons_self .., hpart⟩
          · exact .inl rfl
          · refine (ih hrest).imp_right ?_
            rintro ⟨found, hfound, hc⟩
            exact ⟨found, List.mem_cons_of_mem _ hfound, hc⟩

-- ============================================================ bytes

theorem byte?_decimalDigits (b : UInt8) : byte? (decimalDigits b.toNat) = some b := by
  have hread : natural? (decimalDigits b.toNat) = some b.toNat :=
    natural?_eq_some_iff.mpr ⟨decimalDigits_ne_nil _,
      fun _ hmem => isDigit_of_mem_decimalDigits hmem, positional_decimalDigits _⟩
  unfold byte?
  rw [hread]
  dsimp only
  rw [if_pos ⟨b.toNat_lt, rfl⟩, UInt8.ofNat_toNat]

theorem point_not_mem_decimalDigits (n : ℕ) : '.' ∉ decimalDigits n := by
  intro hpoint
  exact absurd (isDigit_of_mem_decimalDigits hpoint) (by decide)

theorem mapM_byte?_digits (bytes : List UInt8) :
    (bytes.map fun b => decimalDigits b.toNat).mapM byte? = some bytes := by
  induction bytes with
  | nil => rfl
  | cons b bytes ih =>
      rw [List.map_cons, List.mapM_cons, ih, byte?_decimalDigits]
      rfl

/-- Four bytes read back. -/
theorem dotted?_dotted (bytes : Vector UInt8 4) : dotted? (dotted bytes.toList) = some bytes := by
  obtain ⟨⟨list⟩, hlength⟩ := bytes
  match list, hlength with
  | [a, b, c, d], _ =>
      have hparts := partsAt_join_map (fun b : UInt8 => point_not_mem_decimalDigits b.toNat)
        (List.cons_ne_nil a [b, c, d])
      have hread : (partsAt '.' (dotted [a, b, c, d])).mapM byte? = some [a, b, c, d] :=
        (congrArg (List.mapM byte?) hparts).trans (mapM_byte?_digits _)
      show dotted? (dotted [a, b, c, d]) = _
      unfold dotted?
      rw [hread]
      rfl

-- ============================================================ groups

theorem length_hexDigits_le (g : UInt16) : (hexDigits g.toNat).length ≤ 4 :=
  (Nat.length_toDigits_le_iff (by omega) (by omega)).mpr g.toNat_lt

theorem group?_hexDigits (g : UInt16) : group? (hexDigits g.toNat) = some g := by
  have hdigits : (hexDigits g.toNat).all isHexDigit = true :=
    List.all_eq_true.mpr fun _ hmem => isHexDigit_of_mem_hexDigits hmem
  unfold group?
  rw [if_pos ⟨hexDigits_ne_nil _, length_hexDigits_le g, hdigits⟩, positional_hexDigits,
    UInt16.ofNat_toNat]

theorem colon_not_mem_hexDigits (n : ℕ) : ':' ∉ hexDigits n := by
  intro hcolon
  exact absurd (isHexDigit_of_mem_hexDigits hcolon) (by decide)

theorem groups?_digits (groups : List UInt16) :
    groups? (groups.map fun g => hexDigits g.toNat) = some groups := by
  induction groups with
  | nil => rfl
  | cons g groups ih =>
      cases groups with
      | nil =>
          show ((group? (hexDigits g.toNat)).map fun g => [g]).or _ = _
          rw [group?_hexDigits]
          rfl
      | cons next groups =>
          show (do return (← group? (hexDigits g.toNat)) ::
            (← groups? ((next :: groups).map fun g : UInt16 => hexDigits g.toNat))) = _
          rw [group?_hexDigits, ih]
          rfl

/-- Groups begin with a digit, if there are any. -/
theorem coloned_cons (g : UInt16) (groups : List UInt16) :
    ∃ digit more, coloned (g :: groups) = digit :: more ∧ digit ≠ ':' := by
  obtain ⟨digit, more, hdigits⟩ := List.exists_cons_of_ne_nil (hexDigits_ne_nil g.toNat)
  have hdigit : digit ≠ ':' := by
    rintro rfl
    exact colon_not_mem_hexDigits g.toNat (hdigits ▸ List.mem_cons_self ..)
  cases groups with
  | nil => exact ⟨digit, more, hdigits, hdigit⟩
  | cons next groups =>
      refine ⟨digit, more ++ ':' :: coloned (next :: groups), ?_, hdigit⟩
      show hexDigits g.toNat ++ ':' :: coloned (next :: groups) = _
      rw [hdigits]
      rfl

theorem groupList?_coloned (groups : List UInt16) :
    groupList? (coloned groups) = some groups := by
  cases groups with
  | nil => rfl
  | cons g groups =>
      obtain ⟨digit, more, hcoloned, -⟩ := coloned_cons g groups
      have hne : coloned (g :: groups) ≠ [] := by
        rw [hcoloned]
        exact List.cons_ne_nil digit more
      have hparts := partsAt_join_map (fun g : UInt16 => colon_not_mem_hexDigits g.toNat)
        (List.cons_ne_nil g groups)
      unfold groupList?
      rw [if_neg hne]
      unfold coloned
      rw [hparts, groups?_digits]

-- ============================================================ the gap

theorem splitGap?_cons (hc : c ≠ ':') (cs : List Char) :
    splitGap? (c :: cs) = (splitGap? cs).map fun (before, after) => (c :: before, after) := by
  rw [splitGap?]
  intro rest hcolon
  exact absurd hcolon hc

theorem splitGap?_colon (hc : c ≠ ':') (cs : List Char) :
    splitGap? (':' :: c :: cs)
      = (splitGap? (c :: cs)).map fun (before, after) => (':' :: before, after) := by
  rw [splitGap?]
  intro rest _ hcolon
  exact absurd (List.cons.inj hcolon).1 hc

theorem splitGap?_append (hpart : ':' ∉ part) (cs : List Char) :
    splitGap? (part ++ cs)
      = (splitGap? cs).map fun (before, after) => (part ++ before, after) := by
  induction part with
  | nil => simp
  | cons c part ih =>
      obtain ⟨hc, hrest⟩ := not_or.mp (mt List.mem_cons.mpr hpart)
      rw [List.cons_append, splitGap?_cons (Ne.symm hc), ih hrest, Option.map_map]
      rfl

/-- The first gap is not within groups: each colon there is followed by a digit. -/
theorem splitGap?_coloned_append (groups : List UInt16) (cs : List Char) :
    splitGap? (coloned groups ++ cs)
      = (splitGap? cs).map fun (before, after) => (coloned groups ++ before, after) := by
  induction groups with
  | nil => simp [coloned, join]
  | cons g groups ih =>
      cases groups with
      | nil => exact splitGap?_append (colon_not_mem_hexDigits _) cs
      | cons next groups =>
          obtain ⟨digit, more, hcoloned, hdigit⟩ := coloned_cons next groups
          have hsplit : coloned (g :: next :: groups)
              = hexDigits g.toNat ++ ':' :: coloned (next :: groups) := rfl
          rw [hsplit, List.append_assoc, splitGap?_append (colon_not_mem_hexDigits _),
            List.cons_append]
          rw [hcoloned] at ih ⊢
          rw [List.cons_append, splitGap?_colon hdigit, ← List.cons_append, ih,
            Option.map_map, Option.map_map]
          congr 1
          funext ⟨before, after⟩
          simp

/-- The gap is after groups that stand before it. -/
theorem splitGap?_gap (groups : List UInt16) (rest : List Char) :
    splitGap? (coloned groups ++ [':', ':'] ++ rest) = some (coloned groups, rest) := by
  have hgap : splitGap? (':' :: ':' :: rest) = some ([], rest) := rfl
  rw [List.append_assoc, splitGap?_coloned_append]
  show (splitGap? (':' :: ':' :: rest)).map _ = _
  rw [hgap]
  simp

theorem splitGap?_coloned (groups : List UInt16) : splitGap? (coloned groups) = none := by
  have hgap := splitGap?_coloned_append groups []
  rwa [List.append_nil] at hgap

-- ============================================================ the zeros

/-- What counts as the longest run is a run of zeros, if it is not empty. -/
theorem longestZeros_le (groups : List UInt16) :
    (longestZeros groups).2 ≤ zerosFrom groups (longestZeros groups).1 := by
  refine List.foldlRecOn (motive := fun best : ℕ × ℕ => best.2 ≤ zerosFrom groups best.1) _ _
    (Nat.zero_le _) fun best hbest place _ => ?_
  split
  case isTrue => exact le_rfl
  case isFalse => exact hbest

/-- The groups around a run of zeros, and the run. -/
theorem split_zeros {place length : ℕ} (hrun : length ≤ zerosFrom groups place) :
    groups = groups.take place ++ List.replicate length 0 ++ groups.drop (place + length)
      ∧ (0 < length → place + length ≤ groups.length) := by
  have hzeros : (groups.drop place).take length = List.replicate length 0 := by
    have hprefix := (List.takeWhile_prefix (l := groups.drop place) (· == 0))
    refine List.eq_replicate_iff.mpr ⟨?_, ?_⟩
    · rw [List.length_take]
      exact Nat.min_eq_left (hrun.trans hprefix.length_le)
    · intro g hg
      have hmem : g ∈ (groups.drop place).takeWhile (· == 0) := by
        rw [List.prefix_iff_eq_take.mp hprefix]
        exact List.take_subset_take_left _ hrun hg
      simpa using List.mem_takeWhile_imp hmem
  constructor
  · conv_lhs => rw [← List.take_append_drop place groups,
      ← List.take_append_drop length (groups.drop place), hzeros, List.drop_drop]
    rw [List.append_assoc]
  · intro hpos
    have hlength := congrArg List.length hzeros
    rw [List.length_take, List.length_drop, List.length_replicate] at hlength
    omega

-- ============================================================ eight groups

variable {place length : ℕ}

theorem v6?_of_gap {before after : List Char} (hgap : splitGap? cs = some (before, after))
    (hfront : groupList? before = some front) (hback : groupList? after = some back)
    (hzeros : groups = front ++ List.replicate (8 - front.length - back.length) 0 ++ back)
    (hshort : front.length + back.length < 8) (hlength : groups.length = 8) :
    v6? cs = some (.v6 ⟨groups.toArray, by simp [hlength]⟩) := by
  subst hzeros
  unfold v6?
  rw [hgap]
  simp only [hfront, hback, Option.bind_eq_bind, Option.bind_some, if_pos hshort]
  rw [dif_pos hlength]

theorem v6?_of_no_gap (hgap : splitGap? cs = none) (hlist : groupList? cs = some groups)
    (hlength : groups.length = 8) :
    v6? cs = some (.v6 ⟨groups.toArray, by simp [hlength]⟩) := by
  unfold v6?
  rw [hgap]
  simp only [hlist, Option.bind_eq_bind, Option.bind_some]
  rw [dif_pos hlength]

/-- Only a text with a point in it is not a group. -/
theorem group?_dotted {bytes : List UInt8} (hpoint : '.' ∈ dotted bytes) :
    group? (dotted bytes) = none := by
  unfold group?
  rw [if_neg]
  rintro ⟨-, -, hdigits⟩
  exact absurd (List.all_eq_true.mp hdigits '.' hpoint) (by decide)

theorem mem_dotted {bytes : List UInt8} (hmem : c ∈ dotted bytes) :
    c = '.' ∨ isDigit c = true := by
  refine (mem_join hmem).imp_right ?_
  rintro ⟨part, hpart, hc⟩
  obtain ⟨b, -, rfl⟩ := List.mem_map.mp hpart
  exact isDigit_of_mem_decimalDigits hc

theorem point_mem_dotted (a b : UInt8) (bytes : List UInt8) :
    '.' ∈ dotted (a :: b :: bytes) := by
  show '.' ∈ decimalDigits a.toNat ++ '.' :: dotted (b :: bytes)
  exact List.mem_append_right _ (List.mem_cons_self ..)

theorem colon_not_mem_dotted (bytes : List UInt8) : ':' ∉ dotted bytes := by
  intro hcolon
  exact absurd (mem_dotted hcolon) (by decide)

/-- A group is made of its two bytes. -/
theorem ofNat_bytesOfGroup (g : UInt16) :
    UInt16.ofNat ((UInt8.ofNat (g.toNat / 256)).toNat * 256 + (UInt8.ofNat (g.toNat % 256)).toNat)
      = g := by
  have hg := g.toNat_lt
  have hhigh : (UInt8.ofNat (g.toNat / 256)).toNat = g.toNat / 256 :=
    UInt8.toNat_ofNat_of_lt' (by unfold UInt8.size; omega)
  have hlow : (UInt8.ofNat (g.toNat % 256)).toNat = g.toNat % 256 :=
    UInt8.toNat_ofNat_of_lt' (Nat.mod_lt _ (by decide))
  rw [hhigh, hlow, Nat.div_add_mod' g.toNat 256, UInt16.ofNat_toNat]

/-- The last two groups may be written as four bytes. -/
theorem groupList?_mapped (bytes : Vector UInt8 4) :
    groupList? (['f', 'f', 'f', 'f'] ++ ':' :: dotted bytes.toList)
      = some (0xffff :: groupsOfBytes bytes) := by
  have hpoint : '.' ∈ dotted bytes.toList := by
    obtain ⟨⟨list⟩, hlength⟩ := bytes
    match list, hlength with
    | [a, b, c, d], _ => exact point_mem_dotted a b [c, d]
  unfold groupList?
  rw [if_neg (by simp), partsAt_append (by decide), partsAt_of_not_mem (colon_not_mem_dotted _)]
  show (do return (← group? ['f', 'f', 'f', 'f']) ::
    (← ((group? (dotted bytes.toList)).map fun g => [g]).or
      ((dotted? (dotted bytes.toList)).map groupsOfBytes))) = _
  rw [group?_dotted hpoint, dotted?_dotted]
  rfl

/-- An older address at the end of a newer one reads back. -/
theorem v6?_mapped (a b : UInt16) :
    v6? ([':', ':', 'f', 'f', 'f', 'f', ':'] ++ dotted ([a, b].flatMap bytesOfGroup))
      = some (.v6 #v[0, 0, 0, 0, 0, 0xffff, a, b]) := by
  have hback := groupList?_mapped #v[UInt8.ofNat (a.toNat / 256), UInt8.ofNat (a.toNat % 256),
    UInt8.ofNat (b.toNat / 256), UInt8.ofNat (b.toNat % 256)]
  have hgroups : groupsOfBytes #v[UInt8.ofNat (a.toNat / 256), UInt8.ofNat (a.toNat % 256),
      UInt8.ofNat (b.toNat / 256), UInt8.ofNat (b.toNat % 256)] = [a, b] :=
    congrArg₂ (fun first last => [first, last]) (ofNat_bytesOfGroup a) (ofNat_bytesOfGroup b)
  rw [hgroups] at hback
  have hfront : groupList? [] = some [] := rfl
  exact v6?_of_gap rfl hfront hback rfl (show 0 + 3 < 8 by omega) rfl

/-- Eight groups read back. -/
theorem v6?_groupsText (groups : Vector UInt16 8) :
    v6? (groupsText groups.toList) = some (.v6 groups) := by
  obtain ⟨⟨list⟩, hlength⟩ := groups
  replace hlength : list.length = 8 := hlength
  show v6? (groupsText list) = _
  unfold groupsText
  split
  case isTrue hmapped =>
    match list, hlength with
    | [_, _, _, _, _, _, a, b], _ =>
        obtain ⟨rfl, rfl, rfl, rfl, rfl, rfl⟩ : _ ∧ _ ∧ _ ∧ _ ∧ _ ∧ _ := by
          simpa using hmapped
        exact v6?_mapped a b
  case isFalse =>
    dsimp only
    split
    case isTrue hlong =>
      obtain ⟨hsplit, hplace⟩ := split_zeros (longestZeros_le list)
      have hbound := hplace (by omega)
      refine v6?_of_gap (splitGap?_gap ..) (groupList?_coloned _) (groupList?_coloned _)
        ?_ ?_ hlength
      · rw [List.length_take, List.length_drop, hlength,
          show 8 - min (longestZeros list).1 8 - (8 - ((longestZeros list).1
            + (longestZeros list).2)) = (longestZeros list).2 by omega]
        exact hsplit
      · rw [List.length_take, List.length_drop, hlength]
        omega
    case isFalse =>
      exact v6?_of_no_gap (splitGap?_coloned list) (groupList?_coloned list) hlength

-- ============================================================ what is written

theorem mem_coloned (hmem : c ∈ coloned groups) : c = ':' ∨ isHexDigit c = true := by
  refine (mem_join hmem).imp_right ?_
  rintro ⟨part, hpart, hc⟩
  obtain ⟨g, -, rfl⟩ := List.mem_map.mp hpart
  exact isHexDigit_of_mem_hexDigits hc

theorem mem_groupsText (hmem : c ∈ groupsText groups) :
    c = ':' ∨ c = '.' ∨ isHexDigit c = true := by
  unfold groupsText at hmem
  split at hmem
  case isTrue =>
    rcases List.mem_append.mp hmem with hfront | hback
    · have hchar : c = ':' ∨ c = 'f' ∨ c = ':' := by simpa using hfront
      rcases hchar with rfl | rfl | rfl
      · exact .inl rfl
      · exact .inr (.inr (by decide))
      · exact .inl rfl
    · exact .inr ((mem_dotted hback).imp_right isHexDigit_of_isDigit)
  case isFalse =>
    dsimp only at hmem
    split at hmem
    case isTrue =>
      rw [List.mem_append, List.mem_append] at hmem
      rcases hmem with (hfront | hgap) | hback
      · exact (mem_coloned hfront).imp_right .inr
      · exact .inl (by simpa using hgap)
      · exact (mem_coloned hback).imp_right .inr
    case isFalse => exact (mem_coloned hmem).imp_right .inr

theorem colon_mem_groupsText (hlength : 2 ≤ groups.length) : ':' ∈ groupsText groups := by
  unfold groupsText
  split
  case isTrue => exact List.mem_append_left _ (List.mem_cons_self ..)
  case isFalse =>
    dsimp only
    split
    case isTrue =>
      exact List.mem_append_left _ (List.mem_append_right _ (List.mem_cons_self ..))
    case isFalse =>
      match groups, hlength with
      | g :: next :: groups, _ =>
          show ':' ∈ hexDigits g.toNat ++ ':' :: coloned (next :: groups)
          exact List.mem_append_right _ (List.mem_cons_self ..)

theorem mem_text {address : Address} (hmem : c ∈ address.text.toList) :
    c = ':' ∨ c = '.' ∨ isHexDigit c = true := by
  cases address with
  | v4 bytes =>
      rw [text, String.toList_ofList] at hmem
      exact .inr ((mem_dotted hmem).imp_right isHexDigit_of_isDigit)
  | v6 groups =>
      rw [text, String.toList_ofList] at hmem
      exact mem_groupsText hmem

theorem text_ne_empty (address : Address) : address.text ≠ "" := by
  have hne : address.text.toList ≠ [] := by
    cases address with
    | v4 bytes =>
        obtain ⟨⟨list⟩, hlength⟩ := bytes
        match list, hlength with
        | [a, b, c, d], _ =>
            rw [text, String.toList_ofList]
            exact List.ne_nil_of_mem (point_mem_dotted a b [c, d])
    | v6 groups =>
        rw [text, String.toList_ofList]
        exact List.ne_nil_of_mem (colon_mem_groupsText (by simp))
  intro hempty
  rw [hempty] at hne
  exact hne rfl

/-- Different addresses have different texts. -/
theorem text_injective : Function.Injective text := by
  have happart : ∀ (bytes : Vector UInt8 4) (groups : Vector UInt16 8),
      dotted bytes.toList ≠ groupsText groups.toList := by
    intro bytes groups hsame
    refine colon_not_mem_dotted bytes.toList ?_
    rw [hsame]
    exact colon_mem_groupsText (by simp)
  intro address other hsame
  cases address with
  | v4 bytes =>
      cases other with
      | v4 bytes' =>
          have hread := dotted?_dotted bytes
          rw [String.ofList_inj.mp hsame, dotted?_dotted] at hread
          rw [Option.some.inj hread]
      | v6 groups => exact absurd (String.ofList_inj.mp hsame) (happart bytes groups)
  | v6 groups =>
      cases other with
      | v4 bytes => exact absurd (String.ofList_inj.mp hsame).symm (happart bytes groups)
      | v6 groups' =>
          have hread := v6?_groupsText groups
          rw [String.ofList_inj.mp hsame, v6?_groupsText] at hread
          exact (Option.some.inj hread).symm

end Turnstile.Http.Address

namespace Turnstile.Http

open Text (isHexDigit decimalDigits)

-- ============================================================ peers

/-- The other end of a connection: an address and a port, and for the newer kind the
number of an interface, zero if there is none. -/
inductive Peer where
  | v4 (bytes : Vector UInt8 4) (port : UInt16)
  | v6 (groups : Vector UInt16 8) (interface : UInt32) (port : UInt16)
deriving DecidableEq

namespace Peer

def address : Peer → Address
  | .v4 bytes _ => .v4 bytes
  | .v6 groups _ _ => .v6 groups

/-- A port after an address. -/
def portText (port : UInt16) : List Char :=
  ':' :: decimalDigits port.toNat

/-- A peer as it is written. -/
def text : Peer → String
  | .v4 bytes port => String.ofList (Address.dotted bytes.toList ++ portText port)
  | .v6 groups interface port =>
      let zone := if interface = 0 then [] else '%' :: decimalDigits interface.toNat
      String.ofList ('[' :: Address.groupsText groups.toList ++ (zone ++ ']' :: portText port))

/-- Of a peer only the address is read. -/
theorem ofPeer?_text (peer : Peer) : Address.ofPeer? peer.text = some peer.address := by
  cases peer with
  | v4 bytes port =>
      have hplain : ∀ c ∈ Address.dotted bytes.toList, (c != ':') = true := by
        intro c hc
        rw [bne_iff_ne]
        rintro rfl
        exact Address.colon_not_mem_dotted _ hc
      have hstops : Text.Stops (· != ':') (portText port) := Text.stops_cons.mpr rfl
      have htake := Text.takeWhile_run hplain hstops
      have hread : Address.dotted? ((Address.dotted bytes.toList ++ portText port).takeWhile
          (· != ':')) = some bytes := by
        rw [htake, Address.dotted?_dotted]
      unfold Address.ofPeer? text
      rw [String.toList_ofList]
      split
      case h_1 rest hbracket =>
        -- no such address begins with a bracket
        have hmem : '[' ∈ Address.dotted bytes.toList ++ portText port := by
          rw [hbracket]
          exact List.mem_cons_self ..
        rcases List.mem_append.mp hmem with haddress | hport
        · exact absurd (Address.mem_dotted haddress) (by decide)
        · rcases List.mem_cons.mp hport with hcolon | hdigit
          · exact absurd hcolon (by decide)
          · exact absurd (Text.isDigit_of_mem_decimalDigits hdigit) (by decide)
      case h_2 =>
        rw [hread]
        rfl
  | v6 groups interface port =>
      have hplain : ∀ c ∈ Address.groupsText groups.toList, (c != ']' && c != '%') = true := by
        intro c hc
        rw [Bool.and_eq_true, bne_iff_ne, bne_iff_ne]
        constructor <;> rintro rfl <;> exact absurd (Address.mem_groupsText hc) (by decide)
      have hstops : Text.Stops (fun c => c != ']' && c != '%')
          ((if interface = 0 then [] else '%' :: decimalDigits interface.toNat)
            ++ ']' :: portText port) := by
        split
        · exact Text.stops_cons.mpr rfl
        · exact Text.stops_cons.mpr rfl
      unfold Address.ofPeer? text
      rw [String.toList_ofList]
      show Address.v6? ((Address.groupsText groups.toList ++ _).takeWhile _) = _
      rw [Text.takeWhile_run hplain hstops, Address.v6?_groupsText]
      rfl

end Peer

end Turnstile.Http
