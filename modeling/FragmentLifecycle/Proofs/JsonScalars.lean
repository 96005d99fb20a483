import FragmentLifecycle.Json.Reader
import FragmentLifecycle.Json.Writer
import FragmentLifecycle.Proofs.Numerals
import FragmentLifecycle.Proofs.QueryTexts
import Mathlib.Algebra.Ring.Int.Defs

/-!
# Written strings and integers

What is written is read back, wherever it stands in a text.  A string comes back from its escapes
(`readString_quote`), an integer of 64 bits from its digits (`readNumber_write`), and a reader
that only skips takes the same characters (`skipString_quote`, `skipNumber_write`).
-/

namespace FragmentLifecycle.Json

/-- What can follow a value: a comma, a closing bracket or the end of the text. -/
def IsStop (rest : List Char) : Prop :=
  ∀ character ∈ rest.head?, character = ',' ∨ character = ']' ∨ character = '\x7d'

/-- The first character is none to skip and closes nothing. -/
def Begins (text : List Char) : Prop :=
  ∃ first more, text = first :: more ∧ isSpace first = false ∧ first ≠ ']' ∧ first ≠ '\x7d'

/-- `reader` takes exactly `text`, and `value` is what it makes of it. -/
structure Reads {α : Type} (reader : Reader α) (text : List Char) (value : α) : Prop where
  begins : Begins text
  reads : ∀ rest, IsStop rest → reader (text ++ rest) = some (value, rest)

theorem isStop_nil : IsStop [] := by
  intro character hhead
  cases hhead

theorem skipSpace_cons {first : Char} (hspace : isSpace first = false) (rest : List Char) :
    skipSpace (first :: rest) = first :: rest :=
  List.dropWhile_cons_of_neg (Bool.eq_false_iff.mp hspace)

/-! ## Strings -/

section Strings

variable {character : Char} {tail : List Char}

theorem readEscapeUnit_hexDigits {value : Nat} (hvalue : value < 16 ^ 4) (rest : List Char) :
    readEscapeUnit (Text.hexDigits 4 value ++ rest) = some (value, rest) := by
  have hread := Text.readHex_hexDigits hvalue
  have hlength := Text.length_hexDigits 4 value
  match hdigits : Text.hexDigits 4 value with
  | [first, second, third, fourth] =>
    rw [hdigits] at hread
    simp only [List.cons_append, List.nil_append, readEscapeUnit, hread, Option.map_some]
  | [] | [_] | [_, _] | [_, _, _] | _ :: _ :: _ :: _ :: _ :: _ =>
    rw [hdigits] at hlength
    simp at hlength

theorem escapeLetter?_eq_some {letter : Char} (hletter : escapeLetter? character = some letter) :
    letter ≠ 'u' ∧ escapedLetter? letter = some character := by
  have hcharacter := Char.ofNat_toNat character
  unfold escapeLetter? at hletter
  split at hletter
  all_goals cases hletter
  all_goals
    next hcode =>
      rw [hcode] at hcharacter
      exact ⟨by decide, congrArg some hcharacter⟩

theorem readEscape_letter {letter : Char} (hletter : letter ≠ 'u') (rest : List Char) :
    readEscape (letter :: rest) =
      (escapedLetter? letter).map fun character => (character, rest) := by
  unfold readEscape
  split
  next heq => exact absurd (List.cons.inj heq).1 hletter
  next heq =>
    obtain ⟨rfl, rfl⟩ := List.cons.inj heq
    rfl
  next heq => cases heq

theorem skipEscape_letter {letter : Char} (hletter : letter ≠ 'u') (rest : List Char) :
    skipEscape (letter :: rest) = (escapedLetter? letter).map fun _ => ((), rest) := by
  unfold skipEscape
  split
  next heq => exact absurd (List.cons.inj heq).1 hletter
  next heq =>
    obtain ⟨rfl, rfl⟩ := List.cons.inj heq
    rfl
  next heq => cases heq

/-- A character is written as itself, or as an escape: by a letter or by its number. -/
theorem escape_cases (character : Char) :
    (escape character = [character] ∧ character ≠ '"' ∧ character ≠ '\\' ∧
        ¬character.toNat < 0x20) ∨
      (∃ letter, escape character = ['\\', letter] ∧ letter ≠ 'u' ∧
        escapedLetter? letter = some character) ∨
      (escape character = '\\' :: 'u' :: Text.hexDigits 4 character.toNat ∧
        character.toNat < 0x20) := by
  unfold escape
  split
  next hquote =>
    subst hquote
    exact .inr (.inl ⟨'"', rfl, by decide, rfl⟩)
  next hquote =>
    split
    next hsolidus =>
      subst hsolidus
      exact .inr (.inl ⟨'\\', rfl, by decide, rfl⟩)
    next hsolidus =>
      split
      next letter hletter =>
        exact .inr (.inl ⟨letter, rfl, escapeLetter?_eq_some hletter⟩)
      next =>
        split
        next hcontrol => exact .inr (.inr ⟨rfl, hcontrol⟩)
        next hcontrol => exact .inl ⟨rfl, hquote, hsolidus, hcontrol⟩

theorem readEscapedCharacter_hexDigits (hcontrol : character.toNat < 0x20) (rest : List Char) :
    readEscapedCharacter (Text.hexDigits 4 character.toNat ++ rest) = some (character, rest) := by
  have hunit := readEscapeUnit_hexDigits (Nat.lt_trans hcontrol (by decide)) rest
  have hlow : isLowSurrogate character.toNat = false := by
    simp only [isLowSurrogate, Bool.and_eq_false_iff, decide_eq_false_iff_not]
    omega
  have hhigh : isHighSurrogate character.toNat = false := by
    simp only [isHighSurrogate, Bool.and_eq_false_iff, decide_eq_false_iff_not]
    omega
  simp [readEscapedCharacter, hunit, hlow, hhigh]

/-- A reader for escapes that makes of the escape of a character what `plain` makes of the
character itself. -/
def TakesEscapes {α : Type} (plain : Char → α) (escaped : Reader α) : Prop :=
  ∀ character tail, escape character = '\\' :: tail →
    ∀ rest, escaped (tail ++ rest) = some (plain character, rest)

/-- What follows the reverse solidus of an escape: a letter, or the number of a control
character. -/
theorem escape_tail (htail : escape character = '\\' :: tail) :
    (∃ letter, tail = [letter] ∧ letter ≠ 'u' ∧ escapedLetter? letter = some character) ∨
      (tail = 'u' :: Text.hexDigits 4 character.toNat ∧ character.toNat < 0x20) := by
  obtain ⟨hself, -, hsolidus, -⟩ | ⟨letter, hescape, hletter⟩ | ⟨hescape, hcontrol⟩ :=
    escape_cases character
  · exact absurd (List.cons.inj (hself.symm.trans htail)).1 hsolidus
  · exact .inl ⟨letter, (List.cons.inj (htail.symm.trans hescape)).2, hletter⟩
  · exact .inr ⟨(List.cons.inj (htail.symm.trans hescape)).2, hcontrol⟩

theorem readEscape_takesEscapes : TakesEscapes id readEscape := by
  intro character tail htail rest
  obtain ⟨letter, rfl, hletter, hstands⟩ | ⟨rfl, hcontrol⟩ := escape_tail htail
  · rw [List.singleton_append, readEscape_letter hletter, hstands]
    rfl
  · exact readEscapedCharacter_hexDigits hcontrol rest

theorem skipEscape_takesEscapes : TakesEscapes (fun _ => ()) skipEscape := by
  intro character tail htail rest
  obtain ⟨letter, rfl, hletter, hstands⟩ | ⟨rfl, hcontrol⟩ := escape_tail htail
  · rw [List.singleton_append, skipEscape_letter hletter, hstands]
    rfl
  · have hunit := readEscapeUnit_hexDigits (Nat.lt_trans hcontrol (by decide)) rest
    rw [List.cons_append, skipEscape, hunit]
    rfl

/-- The escapes of a text, up to the closing quotation mark. -/
theorem readCharacters_escapes {α : Type} {plain : Char → α} {escaped : Reader α}
    (hescaped : TakesEscapes plain escaped) (text rest : List Char) {rounds : Nat}
    (hrounds : text.length < rounds) :
    readCharacters plain escaped rounds (text.flatMap escape ++ '"' :: rest) =
      some (text.map plain, rest) := by
  induction text generalizing rounds with
  | nil =>
    obtain ⟨rounds, rfl⟩ := Nat.exists_eq_add_one.mpr hrounds
    rfl
  | cons character text ih =>
    obtain ⟨rounds, rfl⟩ := Nat.exists_eq_add_one.mpr (Nat.zero_lt_of_lt hrounds)
    have hothers := ih (Nat.lt_of_succ_lt_succ hrounds)
    rw [List.flatMap_cons, List.append_assoc, List.map_cons]
    have htail (tail : List Char) (hescape : escape character = '\\' :: tail) :
        readCharacters plain escaped (rounds + 1)
            (escape character ++ (text.flatMap escape ++ '"' :: rest)) =
          some (plain character :: text.map plain, rest) := by
      rw [hescape, List.cons_append, readCharacters, if_neg (by decide), if_pos rfl,
        hescaped character tail hescape]
      simp only [Option.bind_eq_bind, Option.bind_some, hothers]
    obtain ⟨hself, hquote, hsolidus, hcontrol⟩ | ⟨letter, hescape, -⟩ | ⟨hescape, -⟩ :=
      escape_cases character
    · rw [hself, List.singleton_append, readCharacters, if_neg hquote, if_neg hsolidus,
        if_neg hcontrol]
      simp only [Option.bind_eq_bind, Option.bind_some, hothers]
    · exact htail _ hescape
    · exact htail _ hescape

theorem length_le_length_escapes (text : List Char) :
    text.length ≤ (text.flatMap escape).length := by
  induction text with
  | nil => exact Nat.le_refl 0
  | cons character text ih =>
    have hpositive : 1 ≤ (escape character).length := by
      obtain ⟨hescape, -⟩ | ⟨letter, hescape, -⟩ | ⟨hescape, -⟩ := escape_cases character
      all_goals
        rw [hescape]
        exact Nat.le_add_left 1 _
    rw [List.flatMap_cons, List.length_append, List.length_cons]
    omega

theorem readCharacters_quote {α : Type} {plain : Char → α} {escaped : Reader α}
    (hescaped : TakesEscapes plain escaped) (text : String) (rest : List Char) :
    readCharacters plain escaped (text.toList.flatMap escape ++ '"' :: rest).length
        (text.toList.flatMap escape ++ '"' :: rest) = some (text.toList.map plain, rest) := by
  apply readCharacters_escapes hescaped
  have hlength := length_le_length_escapes text.toList
  rw [List.length_append, List.length_cons]
  omega

theorem quote_append (text : String) (rest : List Char) :
    quote text ++ rest = '"' :: (text.toList.flatMap escape ++ '"' :: rest) := by
  simp [quote]

theorem readStringBody_quote (text : String) (rest : List Char) :
    readStringBody (text.toList.flatMap escape ++ '"' :: rest) = some (text, rest) := by
  rw [readStringBody, readCharacters_quote readEscape_takesEscapes, Option.map_some, List.map_id,
    String.ofList_toList]

theorem skipStringBody_quote (text : String) (rest : List Char) :
    skipStringBody (text.toList.flatMap escape ++ '"' :: rest) = some ((), rest) := by
  rw [skipStringBody, readCharacters_quote skipEscape_takesEscapes, Option.map_some]

theorem readString_quote (text : String) (rest : List Char) :
    readString (quote text ++ rest) = some (text, rest) := by
  rw [quote_append, readString, skipSpace_cons rfl]
  exact readStringBody_quote text rest

theorem skipString_quote (text : String) (rest : List Char) :
    skipString (quote text ++ rest) = some ((), rest) := by
  rw [quote_append, skipString, skipSpace_cons rfl]
  exact skipStringBody_quote text rest

end Strings

/-! ## Integers -/

section Integers

variable {digits rest : List Char}

/-- An integer of 64 bits, with or without a sign. -/
def Number.IsInteger : Number → Prop
  | .integer value => -2 ^ 63 ≤ value ∧ value < 2 ^ 64
  | .binary _ => False

theorem isDigit_of_isStop (hstop : IsStop rest) :
    ∀ character ∈ rest.head?, character.isDigit = false := by
  intro character hhead
  rcases hstop character hhead with rfl | rfl | rfl
  all_goals rfl

theorem gatherDigits_of_isStop (hstop : IsStop rest) (total count : Nat) :
    gatherDigits total count rest = (total, count, rest) := by
  cases rest with
  | nil => rfl
  | cons character rest =>
    have hdigit := isDigit_of_isStop hstop character rfl
    rw [gatherDigits, if_neg (Bool.eq_false_iff.mp hdigit)]

/-- Digits of a number that stays exact are all gathered. -/
theorem gatherDigits_append (hstop : IsStop rest) (total count : Nat)
    (hdigits : Text.IsDigits digits)
    (hexact : Nat.ofDigitChars 10 digits total ≤ largestNatural) :
    gatherDigits total count (digits ++ rest) =
      (Nat.ofDigitChars 10 digits total, count + digits.length, rest) := by
  induction digits generalizing total count with
  | nil => exact gatherDigits_of_isStop hstop total count
  | cons character digits ih =>
    obtain ⟨hcharacter, hothers⟩ := List.forall_mem_cons.mp hdigits
    rw [Nat.ofDigitChars_cons] at hexact ⊢
    have hnext : 10 * total + (character.toNat - '0'.toNat) ≤ largestNatural := by
      refine Nat.le_trans ?_ hexact
      rw [Nat.ofDigitChars_eq_ofDigitChars_zero]
      have hpositive : 0 < 10 ^ digits.length := Nat.pow_pos (by decide)
      exact Nat.le_trans (Nat.le_mul_of_pos_left _ hpositive) (Nat.le_add_right _ _)
    rw [List.cons_append, gatherDigits, if_pos hcharacter]
    simp only [if_neg (Nat.not_lt.mpr hnext)]
    rw [ih _ _ hothers hexact, List.length_cons, Nat.add_assoc, Nat.add_comm 1]

theorem readAfterDigits_of_isStop (hstop : IsStop rest) (negative : Bool) (magnitude : Nat) :
    readAfterDigits negative magnitude 0 rest =
      (exactInteger negative magnitude).map fun number => (number, rest) := by
  unfold readAfterDigits
  split
  case h_4 => exact if_pos rfl
  all_goals
    rcases hstop _ rfl with hhead | hhead | hhead
    all_goals exact absurd hhead (by decide)

/-- The digits of a positive number do not start with a zero. -/
theorem head_toDigits {value : Nat} (hvalue : value ≠ 0) :
    (Nat.toDigits 10 value).head? ≠ some '0' := by
  induction value using Nat.strongRecOn with
  | _ value ih =>
    by_cases hlast : value < 10
    · have hdigit : ∀ digit < 10, digit ≠ 0 → Nat.digitChar digit ≠ '0' := by decide
      rw [Nat.toDigits_of_lt_base hlast, List.head?_cons]
      exact fun hzero => hdigit value hlast hvalue (Option.some.inj hzero)
    · have hrest : (Nat.toDigits 10 (value / 10)).head? ≠ some '0' := by
        apply ih
        · omega
        · omega
      rw [Nat.toDigits_of_base_le (by decide) (Nat.not_lt.mp hlast), List.head?_append]
      cases hhead : (Nat.toDigits 10 (value / 10)).head? with
      | none => exact absurd (List.head?_eq_none_iff.mp hhead) Nat.toDigits_ne_nil
      | some first =>
        rw [hhead] at hrest
        exact hrest

theorem isDigits_toDigits (value : Nat) : Text.IsDigits (Nat.toDigits 10 value) :=
  fun _ => Nat.isDigit_of_mem_toDigits (by decide) (by decide)

/-- A number starts with a digit, and with a zero only if it is zero. -/
theorem exists_toDigits (value : Nat) :
    ∃ first more, Nat.toDigits 10 value = first :: more ∧ first.isDigit = true ∧
      (value ≠ 0 → first ≠ '0') := by
  obtain ⟨first, more, hdigits⟩ :=
    List.exists_cons_of_ne_nil (Nat.toDigits_ne_nil (b := 10) (n := value))
  refine ⟨first, more, hdigits, ?_, ?_⟩
  · exact isDigits_toDigits value first (hdigits ▸ List.mem_cons_self)
  · rintro hvalue rfl
    exact head_toDigits hvalue (congrArg List.head? hdigits)

theorem dropDigits_of_isStop (hstop : IsStop rest) : dropDigits rest = rest := by
  cases rest with
  | nil => rfl
  | cons next rest =>
    exact List.dropWhile_cons_of_neg (Bool.eq_false_iff.mp (isDigit_of_isStop hstop next rfl))

theorem countDigits_of_isStop (hstop : IsStop rest) : countDigits rest = 0 := by
  cases rest with
  | nil => rfl
  | cons next rest =>
    have hnext := isDigit_of_isStop hstop next rfl
    rw [countDigits, List.takeWhile_cons_of_neg (Bool.eq_false_iff.mp hnext), List.length_nil]

/-- A magnitude that is kept exactly is read from its digits. -/
theorem readMagnitude_toDigits (hstop : IsStop rest) (negative : Bool) {magnitude : Nat}
    (hexact : magnitude ≤ largestNatural) :
    readMagnitude negative (Nat.toDigits 10 magnitude ++ rest) =
      (exactInteger negative magnitude).map fun number => (number, rest) := by
  rw [← readAfterDigits_of_isStop hstop]
  by_cases hzero : magnitude = 0
  · subst hzero
    cases rest with
    | nil => rfl
    | cons next rest => exact if_neg (Bool.eq_false_iff.mp (isDigit_of_isStop hstop next rfl))
  · have hvalue : Nat.ofDigitChars 10 (Nat.toDigits 10 magnitude) 0 = magnitude :=
      Nat.ofDigitChars_ten_toDigits
    have hgathered := gatherDigits_append hstop 0 0
      (isDigits_toDigits magnitude) (Nat.le_trans (Nat.le_of_eq hvalue) hexact)
    obtain ⟨first, more, hdigits, hfirst, hnonzero⟩ := exists_toDigits magnitude
    rw [hvalue, hdigits] at hgathered
    rw [hdigits]
    unfold readMagnitude
    split
    next heq => cases heq
    next heq => exact absurd (List.cons.inj heq).1 (hnonzero hzero)
    next heq =>
      obtain ⟨rfl, rfl⟩ := List.cons.inj heq
      rw [if_pos hfirst]
      simp only [hgathered, countDigits_of_isStop hstop, dropDigits_of_isStop hstop]

theorem skipAfterDigits_of_isStop (hstop : IsStop rest) :
    skipAfterDigits rest = some ((), rest) := by
  cases rest with
  | nil => rfl
  | cons next rest =>
    rcases hstop next rfl with rfl | rfl | rfl
    all_goals rfl

theorem skipMagnitude_toDigits (hstop : IsStop rest) (magnitude : Nat) :
    skipMagnitude (Nat.toDigits 10 magnitude ++ rest) = some ((), rest) := by
  rw [← skipAfterDigits_of_isStop hstop]
  by_cases hzero : magnitude = 0
  · subst hzero
    cases rest with
    | nil => rfl
    | cons next rest => exact if_neg (Bool.eq_false_iff.mp (isDigit_of_isStop hstop next rfl))
  · have hall := isDigits_toDigits magnitude
    obtain ⟨first, more, hdigits, hfirst, hnonzero⟩ := exists_toDigits magnitude
    rw [hdigits] at hall ⊢
    have hskip : skipDigits (first :: more ++ rest) = some ((), rest) := by
      have hmore := (List.forall_mem_cons.mp hall).2
      rw [List.cons_append, skipDigits, if_pos hfirst, dropDigits,
        List.dropWhile_append_of_pos hmore, ← dropDigits, dropDigits_of_isStop hstop]
    unfold skipMagnitude
    split
    next heq => exact absurd (List.cons.inj heq).1 (hnonzero hzero)
    next => simp only [hskip, Option.bind_eq_bind, Option.bind_some]

/-- The digits of an integer, behind a minus sign or bare. -/
theorem write_integer (value : Int) :
    (∃ magnitude : Nat, value = magnitude ∧
        Number.write (.integer value) = Nat.toDigits 10 magnitude) ∨
      ∃ predecessor : Nat, value = -(predecessor + 1 : Nat) ∧
        Number.write (.integer value) = '-' :: Nat.toDigits 10 (predecessor + 1) := by
  cases value with
  | ofNat magnitude =>
    refine .inl ⟨magnitude, rfl, ?_⟩
    simp [Number.write, Text.integer, Text.natural]
  | negSucc predecessor =>
    refine .inr ⟨predecessor, rfl, ?_⟩
    simp [Number.write, Text.integer, Text.natural]

theorem exactInteger_negative {magnitude : Nat} (hpositive : magnitude ≠ 0)
    (hbound : magnitude ≤ 2 ^ 63) :
    exactInteger true magnitude = some (.integer (-(magnitude : Int))) := by
  have hexact : ¬(magnitude = 0 ∨ largestNatural / 2 + 1 < magnitude) := by
    rintro (hzero | hbeyond)
    · exact hpositive hzero
    · exact absurd hbound (Nat.not_le.mpr hbeyond)
  rw [exactInteger, if_pos rfl, if_neg hexact]

/-- Digits are a number without a sign. -/
theorem readNumber_toDigits (magnitude : Nat) (rest : List Char) :
    readNumber (Nat.toDigits 10 magnitude ++ rest) =
        readMagnitude false (Nat.toDigits 10 magnitude ++ rest) ∧
      skipNumber (Nat.toDigits 10 magnitude ++ rest) =
        skipMagnitude (Nat.toDigits 10 magnitude ++ rest) := by
  obtain ⟨first, more, hdigits, hfirst, -⟩ := exists_toDigits magnitude
  rw [hdigits]
  have hsign : first ≠ '-' := by
    rintro rfl
    cases hfirst
  constructor
  · unfold readNumber
    split
    next heq => exact absurd (List.cons.inj heq).1 hsign
    next => rfl
  · unfold skipNumber
    split
    next heq => exact absurd (List.cons.inj heq).1 hsign
    next => rfl

theorem readNumber_write {number : Number} (hnumber : number.IsInteger) (hstop : IsStop rest) :
    readNumber (number.write ++ rest) = some (number, rest) := by
  cases number with
  | binary => exact absurd hnumber id
  | integer value =>
    obtain ⟨hlowest, hhighest⟩ := hnumber
    obtain ⟨magnitude, rfl, hwrite⟩ | ⟨predecessor, rfl, hwrite⟩ := write_integer value
    · have hbound : magnitude ≤ largestNatural := by
        change magnitude ≤ 2 ^ 64 - 1
        omega
      rw [hwrite, (readNumber_toDigits magnitude rest).1, readMagnitude_toDigits hstop _ hbound]
      rfl
    · have hbound : predecessor + 1 ≤ 2 ^ 63 := by omega
      have hexact : predecessor + 1 ≤ largestNatural := Nat.le_trans hbound (by decide)
      rw [hwrite, List.cons_append, readNumber, readMagnitude_toDigits hstop _ hexact,
        exactInteger_negative (Nat.succ_ne_zero predecessor) hbound]
      rfl

theorem skipNumber_write {number : Number} (hnumber : number.IsInteger) (hstop : IsStop rest) :
    skipNumber (number.write ++ rest) = some ((), rest) := by
  cases number with
  | binary => exact absurd hnumber id
  | integer value =>
    obtain ⟨magnitude, -, hwrite⟩ | ⟨predecessor, -, hwrite⟩ := write_integer value
    · rw [hwrite, (readNumber_toDigits magnitude rest).2, skipMagnitude_toDigits hstop]
    · rw [hwrite, List.cons_append, skipNumber, skipMagnitude_toDigits hstop]

/-- The first character of a number. -/
def StartsNumber (first : Char) : Prop :=
  first = '-' ∨ first.isDigit = true

theorem StartsNumber.ne {first : Char} (hfirst : StartsNumber first) {other : Char}
    (hminus : other ≠ '-') (hdigit : other.isDigit = false) : first ≠ other := by
  rintro rfl
  rcases hfirst with hfirst | hfirst
  · exact hminus hfirst
  · exact Bool.eq_false_iff.mp hdigit hfirst

theorem StartsNumber.begins {first : Char} (hfirst : StartsNumber first) (more : List Char) :
    Begins (first :: more) := by
  have hspace : isSpace first = false := by
    simp only [isSpace, Bool.or_eq_false_iff, decide_eq_false_iff_not]
    exact ⟨⟨⟨hfirst.ne (by decide) rfl, hfirst.ne (by decide) rfl⟩, hfirst.ne (by decide) rfl⟩,
      hfirst.ne (by decide) rfl⟩
  exact ⟨first, more, rfl, hspace, hfirst.ne (by decide) rfl, hfirst.ne (by decide) rfl⟩

/-- An integer starts with a minus sign or a digit. -/
theorem write_begins {number : Number} (hnumber : number.IsInteger) :
    ∃ first more, number.write = first :: more ∧ StartsNumber first := by
  cases number with
  | binary => exact absurd hnumber id
  | integer value =>
    obtain ⟨magnitude, -, hwrite⟩ | ⟨predecessor, -, hwrite⟩ := write_integer value
    · obtain ⟨first, more, hdigits, hfirst, -⟩ := exists_toDigits magnitude
      exact ⟨first, more, hwrite.trans hdigits, .inr hfirst⟩
    · exact ⟨'-', _, hwrite, .inl rfl⟩

end Integers

end FragmentLifecycle.Json
