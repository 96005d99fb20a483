import FragmentLifecycle.Identity.QueryId
import Mathlib.Algebra.Ring.Nat
import Mathlib.Data.List.Basic

/-!
# Texts of query identifiers

Digits that are written are read back, in groups or not.  A query identifier is read from exactly
its spellings (`QueryId.ofText_eq_some_iff`), of which the written one is the hyphenated one in
lower case (`QueryId.isHyphenated_text`).
-/

namespace FragmentLifecycle

namespace Text

/-! ## Hexadecimal digits -/

/-- The digits that are written. -/
def lowerHexDigits : List Char :=
  "0123456789abcdef".toList

theorem hexValue?_digitChar : ∀ digit < 16, hexValue? (Nat.digitChar digit) = some digit := by
  decide

theorem digitChar_mem_lowerHexDigits : ∀ digit < 16, Nat.digitChar digit ∈ lowerHexDigits := by
  decide

theorem length_hexDigits (count value : Nat) : (hexDigits count value).length = count := by
  induction count generalizing value with
  | zero => rfl
  | succ count ih => rw [hexDigits, List.length_append, ih, List.length_singleton]

theorem mem_lowerHexDigits {count value : Nat} {digit : Char}
    (hdigit : digit ∈ hexDigits count value) : digit ∈ lowerHexDigits := by
  induction count generalizing value with
  | zero => cases hdigit
  | succ count ih =>
    rw [hexDigits, List.mem_append, List.mem_singleton] at hdigit
    rcases hdigit with hdigit | rfl
    · exact ih hdigit
    · exact digitChar_mem_lowerHexDigits _ (Nat.mod_lt _ (by decide))

theorem readHexFrom_append (total : Nat) (first rest : List Char) :
    readHexFrom total (first ++ rest) =
      (readHexFrom total first).bind fun value => readHexFrom value rest := by
  induction first generalizing total with
  | nil => rfl
  | cons digit first ih =>
    rw [List.cons_append, readHexFrom, readHexFrom]
    cases hexValue? digit with
    | none => rfl
    | some value => exact ih (16 * total + value)

theorem readHexFrom_hexDigits (count value total : Nat) :
    readHexFrom total (hexDigits count value) =
      some (16 ^ count * total + value % 16 ^ count) := by
  induction count generalizing value with
  | zero => simp [hexDigits, readHexFrom, Nat.mod_one]
  | succ count ih =>
    have hlast := hexValue?_digitChar (value % 16) (Nat.mod_lt _ (by decide))
    rw [hexDigits, readHexFrom_append, ih, Option.bind_some, readHexFrom, hlast]
    change some _ = some _
    rw [Nat.pow_succ, Nat.mul_comm (16 ^ count) 16, Nat.mod_mul, Nat.mul_add, Nat.mul_assoc]
    congr 1
    omega

theorem readHex_hexDigits {count value : Nat} (hvalue : value < 16 ^ count) :
    readHex (hexDigits count value) = some value := by
  rw [readHex, readHexFrom_hexDigits, Nat.mul_zero, Nat.zero_add, Nat.mod_eq_of_lt hvalue]

theorem hexValue?_lt {digit : Char} {value : Nat} (hvalue : hexValue? digit = some value) :
    value < 16 := by
  have hle (low high : Char) (hrange : low ≤ digit ∧ digit ≤ high) :
      digit.toNat ≤ high.toNat := hrange.2
  unfold hexValue? at hvalue
  split_ifs at hvalue with hdecimal hlower hupper
  all_goals obtain rfl := Option.some.inj hvalue
  · have hbound : digit.toNat ≤ 57 := hle '0' '9' hdecimal
    change digit.toNat - 48 < 16
    omega
  · have hbound : digit.toNat ≤ 102 := hle 'a' 'f' hlower
    change digit.toNat - 97 + 10 < 16
    omega
  · have hbound : digit.toNat ≤ 70 := hle 'A' 'F' hupper
    change digit.toNat - 65 + 10 < 16
    omega

theorem readHexFrom_lt {total value : Nat} {digits : List Char}
    (hvalue : readHexFrom total digits = some value) :
    value < 16 ^ digits.length * (total + 1) := by
  induction digits generalizing total with
  | nil =>
    obtain rfl : total = value := Option.some.inj hvalue
    simp
  | cons digit digits ih =>
    rw [readHexFrom] at hvalue
    obtain ⟨first, hfirst, hrest⟩ := Option.bind_eq_some_iff.mp hvalue
    have hbound : 16 * total + first + 1 ≤ 16 * (total + 1) := by
      have hlt := hexValue?_lt hfirst
      omega
    calc value
        < 16 ^ digits.length * (16 * total + first + 1) := ih hrest
      _ ≤ 16 ^ digits.length * (16 * (total + 1)) := Nat.mul_le_mul_left _ hbound
      _ = 16 ^ (digits.length + 1) * (total + 1) := by rw [Nat.pow_succ, Nat.mul_assoc]

end Text

namespace QueryId

open Text

/-! ## Groups -/

theorem hyphenate_cons (size next : Nat) (sizes : List Nat) (digits : List Char) :
    hyphenate (size :: next :: sizes) digits =
      digits.take size ++ '-' :: hyphenate (next :: sizes) (digits.drop size) :=
  rfl

theorem joinGroups_cons {size next : Nat} {sizes : List Nat} {text digits : List Char} :
    joinGroups (size :: next :: sizes) text = some digits ↔
      ∃ others rest, text.drop size = '-' :: others ∧
        joinGroups (next :: sizes) others = some rest ∧ text.take size ++ rest = digits := by
  rw [joinGroups]
  · split
    next others hdrop =>
      rw [Option.map_eq_some_iff]
      constructor
      · rintro ⟨rest, hrest⟩
        exact ⟨others, rest, hdrop, hrest⟩
      · rintro ⟨others', rest, hothers, hrest⟩
        obtain rfl := (List.cons.inj (hdrop.symm.trans hothers)).2
        exact ⟨rest, hrest⟩
    next hdrop =>
      simp only [reduceCtorEq, false_iff]
      rintro ⟨others, rest, hothers, -⟩
      exact hdrop others hothers
  · exact List.cons_ne_nil next sizes

theorem joinGroups_eq_some_iff {sizes : List Nat} {text digits : List Char} :
    joinGroups sizes text = some digits ↔
      text = hyphenate sizes digits ∧ digits.length = sizes.sum := by
  induction sizes generalizing text digits with
  | nil =>
    rw [List.sum_nil, List.length_eq_zero_iff]
    cases text <;> simp [joinGroups, hyphenate, eq_comm]
  | cons size sizes ih =>
    cases sizes with
    | nil =>
      simp only [joinGroups, hyphenate, List.sum_singleton]
      constructor
      · intro hread
        obtain ⟨hlength, htext⟩ := Option.ite_none_right_eq_some.mp hread
        obtain rfl := Option.some.inj htext
        exact ⟨(List.take_of_length_le (Nat.le_of_eq hlength)).symm, hlength⟩
      · rintro ⟨rfl, hlength⟩
        rw [List.take_of_length_le (Nat.le_of_eq hlength), if_pos hlength]
    | cons next sizes =>
      rw [joinGroups_cons, hyphenate_cons, List.sum_cons]
      constructor
      · rintro ⟨others, rest, hdrop, hothers, rfl⟩
        obtain ⟨hgroups, hlength⟩ := ih.mp hothers
        have htake : (text.take size).length = size := by
          have hdropped := congrArg List.length hdrop
          rw [List.length_drop, List.length_cons] at hdropped
          rw [List.length_take]
          omega
        refine ⟨?_, by rw [List.length_append, htake, hlength]⟩
        rw [List.take_left' htake, List.drop_left' htake, ← hgroups, ← hdrop,
          List.take_append_drop]
      · rintro ⟨rfl, hlength⟩
        have htake : (digits.take size).length = size := by
          rw [List.length_take]
          omega
        refine ⟨_, digits.drop size, List.drop_left' htake, ih.mpr ⟨rfl, ?_⟩, ?_⟩
        · rw [List.length_drop]
          omega
        · rw [List.take_left' htake, List.take_append_drop]

theorem length_hyphenate {size : Nat} {sizes : List Nat} {digits : List Char}
    (hlength : digits.length = (size :: sizes).sum) :
    (hyphenate (size :: sizes) digits).length = digits.length + sizes.length := by
  induction sizes generalizing size digits with
  | nil =>
    rw [List.sum_singleton] at hlength
    exact congrArg List.length (List.take_of_length_le (Nat.le_of_eq hlength))
  | cons next sizes ih =>
    rw [List.sum_cons] at hlength
    have hrest : (digits.drop size).length = (next :: sizes).sum := by
      rw [List.length_drop]
      omega
    rw [hyphenate_cons, List.length_append, List.length_cons, ih hrest, List.length_take,
      List.length_drop, List.length_cons]
    omega

/-- Digits that are cut into groups are those of the groups, with a hyphen between two. -/
theorem exists_groups {sizes : List Nat} {digits : List Char}
    (hlength : digits.length = sizes.sum) :
    ∃ groups : List (List Char), groups.map List.length = sizes ∧ groups.flatten = digits ∧
      hyphenate sizes digits = ['-'].intercalate groups := by
  induction sizes generalizing digits with
  | nil =>
    obtain rfl := List.length_eq_zero_iff.mp hlength
    exact ⟨[], rfl, rfl, rfl⟩
  | cons size sizes ih =>
    rw [List.sum_cons] at hlength
    have htake : (digits.take size).length = size := by
      rw [List.length_take]
      omega
    have hdrop : (digits.drop size).length = sizes.sum := by
      rw [List.length_drop]
      omega
    obtain ⟨groups, rfl, hflatten, hgroups⟩ := ih hdrop
    refine ⟨digits.take size :: groups, by rw [List.map_cons, htake], ?_, ?_⟩
    · rw [List.flatten_cons, hflatten, List.take_append_drop]
    · cases groups with
      | nil => simp [hyphenate, List.intercalate]
      | cons group groups =>
        rw [List.map_cons, hyphenate_cons, ← List.map_cons, hgroups]
        simp [List.intercalate]

/-! ## Spellings -/

/-- The 32 digits of an identifier, in any letter case. -/
structure IsDigits (query : QueryId) (digits : List Char) : Prop where
  length : digits.length = 32
  value : readHex digits = some query.value.toNat

/-- The texts of an identifier: its digits bare, in groups with hyphens between them, so in
braces, and so behind a scheme in any letter case. -/
inductive Spells (query : QueryId) : List Char → Prop
  | bare {digits : List Char} (hdigits : query.IsDigits digits) : Spells query digits
  | hyphenated {digits : List Char} (hdigits : query.IsDigits digits) :
      Spells query (hyphenate groupSizes digits)
  | braced {digits : List Char} (hdigits : query.IsDigits digits) :
      Spells query ('\x7b' :: (hyphenate groupSizes digits ++ ['\x7d']))
  | named {digits name : List Char} (hdigits : query.IsDigits digits)
      (hname : name.map Char.toLower = scheme) :
      Spells query (name ++ hyphenate groupSizes digits)

section Spellings

variable {query : QueryId} {digits text : List Char}

theorem ofDigits_eq_some_iff : ofDigits digits = some query ↔ query.IsDigits digits := by
  rw [ofDigits]
  constructor
  · intro hread
    obtain ⟨hlength, hvalue⟩ := Option.ite_none_right_eq_some.mp hread
    obtain ⟨value, hdigits, rfl⟩ := Option.map_eq_some_iff.mp hvalue
    refine ⟨hlength, ?_⟩
    have hbound : value < 2 ^ 128 := by
      have hless := readHexFrom_lt hdigits
      rwa [hlength] at hless
    rw [hdigits, BitVec.toNat_ofNat, Nat.mod_eq_of_lt hbound]
  · rintro ⟨hlength, hvalue⟩
    rw [if_pos hlength, hvalue, Option.map_some, BitVec.ofNat_toNat, BitVec.setWidth_eq]

theorem ofGroups_eq_some_iff : ofGroups text = some query ↔
    ∃ digits, query.IsDigits digits ∧ text = hyphenate groupSizes digits := by
  rw [ofGroups, Option.bind_eq_some_iff]
  constructor
  · rintro ⟨digits, hgroups, hdigits⟩
    exact ⟨digits, ofDigits_eq_some_iff.mp hdigits, (joinGroups_eq_some_iff.mp hgroups).1⟩
  · rintro ⟨digits, hdigits, rfl⟩
    exact ⟨digits, joinGroups_eq_some_iff.mpr ⟨rfl, hdigits.length⟩,
      ofDigits_eq_some_iff.mpr hdigits⟩

theorem IsDigits.length_hyphenate (hdigits : query.IsDigits digits) :
    (hyphenate groupSizes digits).length = 36 :=
  (QueryId.length_hyphenate hdigits.length).trans (congrArg (· + 4) hdigits.length)

theorem ofCharacters_of_spells (hspells : query.Spells text) :
    ofCharacters text = some query := by
  cases hspells with
  | bare hdigits =>
    unfold ofCharacters
    rw [hdigits.length]
    exact ofDigits_eq_some_iff.mpr hdigits
  | hyphenated hdigits =>
    unfold ofCharacters
    rw [hdigits.length_hyphenate]
    exact ofGroups_eq_some_iff.mpr ⟨_, hdigits, rfl⟩
  | @braced digits hdigits =>
    have hlength : ('\x7b' :: (hyphenate groupSizes digits ++ ['\x7d'])).length = 38 := by
      rw [List.length_cons, List.length_append, hdigits.length_hyphenate, List.length_singleton]
    unfold ofCharacters
    rw [hlength]
    change (if _ then _ else _) = _
    rw [List.getLast?_concat, if_pos rfl, List.dropLast_concat]
    exact ofGroups_eq_some_iff.mpr ⟨_, hdigits, rfl⟩
  | @named digits name hdigits hname =>
    have hnine : name.length = 9 := (List.length_map _).symm.trans (congrArg List.length hname)
    have hlength : (name ++ hyphenate groupSizes digits).length = 45 := by
      rw [List.length_append, hdigits.length_hyphenate, hnine]
    unfold ofCharacters
    rw [hlength]
    change (if _ then _ else _) = _
    rw [List.take_left' hnine, List.drop_left' hnine, if_pos hname]
    exact ofGroups_eq_some_iff.mpr ⟨_, hdigits, rfl⟩

theorem spells_of_ofCharacters (hread : ofCharacters text = some query) : query.Spells text := by
  unfold ofCharacters at hread
  split at hread
  next => exact .bare (ofDigits_eq_some_iff.mp hread)
  next =>
    obtain ⟨digits, hdigits, rfl⟩ := ofGroups_eq_some_iff.mp hread
    exact .hyphenated hdigits
  next =>
    split at hread
    next rest =>
      obtain ⟨hlast, hgroups⟩ := Option.ite_none_right_eq_some.mp hread
      obtain ⟨digits, hdigits, hrest⟩ := ofGroups_eq_some_iff.mp hgroups
      rw [← List.dropLast_append_getLast? _ hlast, hrest]
      exact .braced hdigits
    next => cases hread
  next =>
    obtain ⟨hname, hgroups⟩ := Option.ite_none_right_eq_some.mp hread
    obtain ⟨digits, hdigits, hrest⟩ := ofGroups_eq_some_iff.mp hgroups
    rw [← List.take_append_drop 9 text, hrest]
    exact .named hdigits hname
  next => cases hread

/-- An identifier is read from its spellings. -/
theorem ofText_eq_some_iff {text : String} :
    ofText text = some query ↔ query.Spells text.toList :=
  ⟨spells_of_ofCharacters, ofCharacters_of_spells⟩

/-! ## The written text -/

theorem isDigits_hexDigits (query : QueryId) :
    query.IsDigits (hexDigits 32 query.value.toNat) :=
  ⟨length_hexDigits 32 _, readHex_hexDigits query.value.isLt⟩

theorem spells_text (query : QueryId) : query.Spells query.text.toList := by
  rw [text, String.toList_ofList]
  exact .hyphenated query.isDigits_hexDigits

theorem ofText_text (query : QueryId) : ofText query.text = some query :=
  ofText_eq_some_iff.mpr query.spells_text

theorem text_injective {left right : QueryId} (htext : left.text = right.text) : left = right := by
  have hread := left.ofText_text
  rw [htext, right.ofText_text] at hread
  exact (Option.some.inj hread).symm

theorem length_toList_text (query : QueryId) : query.text.toList.length = 36 := by
  rw [text, String.toList_ofList]
  exact query.isDigits_hexDigits.length_hyphenate

/-- Five groups of lower-case digits with hyphens between them, which together denote the
identifier. -/
def IsHyphenated (query : QueryId) (text : List Char) : Prop :=
  ∃ groups : List (List Char), groups.map List.length = [8, 4, 4, 4, 12] ∧
    text = ['-'].intercalate groups ∧ (∀ digit ∈ groups.flatten, digit ∈ lowerHexDigits) ∧
      readHex groups.flatten = some query.value.toNat

theorem isHyphenated_text (query : QueryId) : query.IsHyphenated query.text.toList := by
  obtain ⟨hlength, hvalue⟩ := query.isDigits_hexDigits
  have hsum : (hexDigits 32 query.value.toNat).length = groupSizes.sum := hlength
  obtain ⟨groups, hsizes, hflatten, hgroups⟩ := exists_groups hsum
  rw [text, String.toList_ofList]
  refine ⟨groups, hsizes, hgroups, ?_, hflatten.symm ▸ hvalue⟩
  rw [hflatten]
  exact fun digit => mem_lowerHexDigits

end Spellings

end QueryId

end FragmentLifecycle
