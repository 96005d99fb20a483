import FragmentLifecycle.Text.Blank
import FragmentLifecycle.Text.Decimal

/-!
# Numerals

A numeral is a sign that the bounds allow, or none, and at least one decimal digit.  Reading
accepts exactly the numerals whose number lies within the bounds (`readInteger_eq_ok_iff`), and
refuses any other text for the first thing that is wrong with it (`readInteger_eq_error_iff`).
Trimming leaves what stands between the blanks at both ends (`trim_eq_iff`).
-/

namespace FragmentLifecycle.Text

/-! ## Trimming -/

/-- `core` is what stands between the blanks at both ends of `text`. -/
structure IsTrimmed (text core : List Char) : Prop where
  around : ∃ leading trailing, text = leading ++ core ++ trailing ∧
    (∀ character ∈ leading, isBlank character = true) ∧
    ∀ character ∈ trailing, isBlank character = true
  head : ∀ character ∈ core.head?, isBlank character = false
  last : ∀ character ∈ core.getLast?, isBlank character = false

theorem exists_blanks_trimStart (text : List Char) :
    ∃ blanks, text = blanks ++ trimStart text ∧
      ∀ character ∈ blanks, isBlank character = true :=
  ⟨text.takeWhile isBlank, List.takeWhile_append_dropWhile.symm,
    List.all_eq_true.mp List.all_takeWhile⟩

theorem head_trimStart (text : List Char) :
    ∀ character ∈ (trimStart text).head?, isBlank character = false := by
  intro character hhead
  have hnot := List.head?_dropWhile_not isBlank text
  rw [← trimStart, Option.mem_def.mp hhead] at hnot
  exact Bool.eq_false_iff.mpr fun hblank => by simp [hblank] at hnot

theorem trimStart_of_head {text : List Char}
    (hhead : ∀ character ∈ text.head?, isBlank character = false) : trimStart text = text := by
  cases text with
  | nil => rfl
  | cons first rest =>
      exact List.dropWhile_cons_of_neg (Bool.eq_false_iff.mp (hhead first rfl))

theorem trimStart_append {blanks text : List Char}
    (hblanks : ∀ character ∈ blanks, isBlank character = true) :
    trimStart (blanks ++ text) = trimStart text :=
  List.dropWhile_append_of_pos hblanks

theorem isTrimmed_trim (text : List Char) : IsTrimmed text (trim text) := by
  obtain ⟨leading, htext, hleading⟩ := exists_blanks_trimStart text
  obtain ⟨trailing, hrest, htrailing⟩ := exists_blanks_trimStart (trimStart text).reverse
  have hstart : trimStart text = trim text ++ trailing.reverse := by
    rw [trim, ← List.reverse_append, ← hrest, List.reverse_reverse]
  refine ⟨⟨leading, trailing.reverse, ?_, hleading, ?_⟩, ?_, ?_⟩
  · rw [List.append_assoc, ← hstart, ← htext]
  · exact fun character hmem => htrailing character (List.mem_reverse.mp hmem)
  · intro character hhead
    apply head_trimStart text
    rw [hstart, List.head?_append, Option.mem_def.mp hhead]
    rfl
  · intro character hlast
    rw [trim, List.getLast?_reverse] at hlast
    exact head_trimStart _ character hlast

theorem trim_eq_iff {text core : List Char} : trim text = core ↔ IsTrimmed text core := by
  constructor
  · rintro rfl
    exact isTrimmed_trim text
  · rintro ⟨⟨leading, trailing, rfl, hleading, htrailing⟩, hhead, hlast⟩
    rw [trim, List.append_assoc, trimStart_append hleading]
    cases core with
    | nil =>
        have hnone : trimStart trailing = [] := by
          rw [← List.append_nil trailing, trimStart_append htrailing]
          rfl
        rw [List.nil_append, hnone]
        rfl
    | cons first rest =>
        have hstart : trimStart (first :: rest ++ trailing) = first :: rest ++ trailing :=
          trimStart_of_head hhead
        have hblank : ∀ character ∈ trailing.reverse, isBlank character = true :=
          fun character hmem => htrailing character (List.mem_reverse.mp hmem)
        rw [hstart, List.reverse_append, trimStart_append hblank, trimStart_of_head,
          List.reverse_reverse]
        rwa [List.head?_reverse]

/-! ## Numbers within bounds -/

namespace Bounds

def Contains (bounds : Bounds) (value : Int) : Prop :=
  bounds.lowest ≤ value ∧ value ≤ bounds.highest

end Bounds

/-- The number that digits behind a sign denote. -/
def signedValue (negative : Bool) (digits : List Char) : Int :=
  if negative then -(Nat.ofDigitChars 10 digits 0 : Int) else Nat.ofDigitChars 10 digits 0

def IsDigits (text : List Char) : Prop :=
  ∀ character ∈ text, character.isDigit = true

/-- A text, whether it is negative, and what stands behind its sign. -/
inductive IsSigned (bounds : Bounds) : List Char → Bool → List Char → Prop
  | plus (digits : List Char) : IsSigned bounds ('+' :: digits) false digits
  | minus (digits : List Char) (hlowest : bounds.lowest < 0) :
      IsSigned bounds ('-' :: digits) true digits
  | bare (digits : List Char) (hplus : digits.head? ≠ some '+')
      (hminus : bounds.lowest < 0 → digits.head? ≠ some '-') : IsSigned bounds digits false digits

/-- `text` is a numeral of `value`. -/
def Denotes (bounds : Bounds) (text : List Char) (value : Int) : Prop :=
  ∃ negative digits, IsSigned bounds text negative digits ∧ digits ≠ [] ∧ IsDigits digits ∧
    value = signedValue negative digits

/-- The first character at which a text behind a sign stops being digits of a number within
the bounds, and why it does. -/
inductive DigitsFail (bounds : Bounds) (negative : Bool) : List Char → IntegerFault → Prop
  | invalidDigit {digits : List Char} {character : Char} (rest : List Char)
      (hdigits : IsDigits digits) (hwithin : bounds.Contains (signedValue negative digits))
      (hcharacter : character.isDigit = false) :
      DigitsFail bounds negative (digits ++ character :: rest) .invalidDigit
  | tooLarge {digits : List Char} {character : Char} (rest : List Char)
      (hdigits : IsDigits (digits ++ [character]))
      (hwithin : bounds.Contains (signedValue negative digits))
      (habove : bounds.highest < signedValue negative (digits ++ [character])) :
      DigitsFail bounds negative (digits ++ character :: rest) .tooLarge
  | tooSmall {digits : List Char} {character : Char} (rest : List Char)
      (hdigits : IsDigits (digits ++ [character]))
      (hwithin : bounds.Contains (signedValue negative digits))
      (hbelow : signedValue negative (digits ++ [character]) < bounds.lowest) :
      DigitsFail bounds negative (digits ++ character :: rest) .tooSmall

/-- Why `text` is no numeral within the bounds. -/
inductive Fails (bounds : Bounds) : List Char → IntegerFault → Prop
  | empty : Fails bounds [] .empty
  | loneSign (sign : Char) (hsign : sign = '+' ∨ sign = '-') : Fails bounds [sign] .invalidDigit
  | digits {text digits : List Char} {negative : Bool} {fault : IntegerFault}
      (hsigned : IsSigned bounds text negative digits) (hdigits : digits ≠ [])
      (hfails : DigitsFail bounds negative digits fault) : Fails bounds text fault

section Digits

variable {bounds : Bounds} {negative : Bool}

theorem signedValue_nil (negative : Bool) : signedValue negative [] = 0 := by
  cases negative <;> rfl

theorem signedValue_snoc (digits : List Char) (character : Char) :
    signedValue negative (digits ++ [character]) =
      if negative then 10 * signedValue negative digits - digitValue character
      else 10 * signedValue negative digits + digitValue character := by
  cases negative
  all_goals
    simp [signedValue, Nat.ofDigitChars_append, Nat.ofDigitChars_cons, digitValue]
  omega

/-- More digits lead further away from zero. -/
theorem signedValue_append (digits rest : List Char) :
    (signedValue false digits ≤ signedValue false (digits ++ rest)) ∧
      signedValue true (digits ++ rest) ≤ signedValue true digits := by
  have hle : Nat.ofDigitChars 10 digits 0 ≤ Nat.ofDigitChars 10 (digits ++ rest) 0 := by
    calc Nat.ofDigitChars 10 digits 0
        ≤ 10 ^ rest.length * Nat.ofDigitChars 10 digits 0 :=
          Nat.le_mul_of_pos_left _ (Nat.pow_pos (by decide))
      _ ≤ 10 ^ rest.length * Nat.ofDigitChars 10 digits 0 + Nat.ofDigitChars 10 rest 0 :=
          Nat.le_add_right _ _
      _ = Nat.ofDigitChars 10 (digits ++ rest) 0 := by
          rw [Nat.ofDigitChars_append, ← Nat.ofDigitChars_eq_ofDigitChars_zero]
  simp only [signedValue]
  constructor
  · exact Int.ofNat_le.mpr hle
  · exact Int.neg_le_neg (Int.ofNat_le.mpr hle)

theorem signedValue_sign (digits : List Char) :
    0 ≤ signedValue false digits ∧ signedValue true digits ≤ 0 := by
  simp [signedValue]

/-- Bounds that contain zero and all digits contain every first part of them. -/
theorem contains_of_append {digits rest : List Char} (hzero : bounds.Contains 0)
    (hwithin : bounds.Contains (signedValue negative (digits ++ rest))) :
    bounds.Contains (signedValue negative digits) := by
  obtain ⟨hlowest, hhighest⟩ := hzero
  obtain ⟨hlower, hupper⟩ := hwithin
  have happend := signedValue_append digits rest
  have hsign := signedValue_sign digits
  cases negative with
  | false => exact ⟨Int.le_trans hlowest hsign.1, Int.le_trans happend.1 hupper⟩
  | true => exact ⟨Int.le_trans hlower happend.2, Int.le_trans hsign.2 hhighest⟩

/-- Reading goes on behind digits that it has taken in. -/
theorem readDigits_cons (digits : List Char) (character : Char) (rest : List Char) :
    readDigits bounds negative (signedValue negative digits) (character :: rest) =
      if character.isDigit then
        if signedValue negative (digits ++ [character]) < bounds.lowest then .error .tooSmall
        else if bounds.highest < signedValue negative (digits ++ [character]) then
          .error .tooLarge
        else readDigits bounds negative (signedValue negative (digits ++ [character])) rest
      else .error .invalidDigit := by
  rw [readDigits, signedValue_snoc]

/-- Digits of a number within the bounds are taken in. -/
theorem readDigits_append (hzero : bounds.Contains 0) (before digits rest : List Char)
    (hdigits : IsDigits digits)
    (hwithin : bounds.Contains (signedValue negative (before ++ digits))) :
    readDigits bounds negative (signedValue negative before) (digits ++ rest) =
      readDigits bounds negative (signedValue negative (before ++ digits)) rest := by
  induction digits generalizing before with
  | nil => rw [List.append_nil, List.nil_append]
  | cons character digits ih =>
      obtain ⟨hcharacter, hothers⟩ := List.forall_mem_cons.mp hdigits
      rw [List.append_cons] at hwithin ⊢
      obtain ⟨hlower, hupper⟩ := contains_of_append hzero hwithin
      rw [List.cons_append, readDigits_cons, if_pos hcharacter, if_neg (Int.not_lt.mpr hlower),
        if_neg (Int.not_lt.mpr hupper)]
      exact ih (before ++ [character]) hothers hwithin

/-- What reading comes to behind digits that it has taken in. -/
theorem readDigits_cases {digits : List Char} (rest : List Char) (hdigits : IsDigits digits)
    (hwithin : bounds.Contains (signedValue negative digits)) :
    (IsDigits (digits ++ rest) ∧ bounds.Contains (signedValue negative (digits ++ rest)) ∧
        readDigits bounds negative (signedValue negative digits) rest =
          .ok (signedValue negative (digits ++ rest))) ∨
      ∃ fault, DigitsFail bounds negative (digits ++ rest) fault ∧
        readDigits bounds negative (signedValue negative digits) rest = .error fault := by
  induction rest generalizing digits with
  | nil =>
      rw [List.append_nil]
      exact .inl ⟨hdigits, hwithin, rfl⟩
  | cons character rest ih =>
      rw [readDigits_cons]
      by_cases hcharacter : character.isDigit = true
      · have hmore : IsDigits (digits ++ [character]) :=
          List.forall_mem_append.mpr ⟨hdigits, List.forall_mem_singleton.mpr hcharacter⟩
        rw [if_pos hcharacter]
        split
        next hbelow => exact .inr ⟨_, .tooSmall rest hmore hwithin hbelow, rfl⟩
        next hlower =>
          split
          next habove => exact .inr ⟨_, .tooLarge rest hmore hwithin habove, rfl⟩
          next hupper =>
            rw [List.append_cons]
            exact ih hmore ⟨Int.not_lt.mp hlower, Int.not_lt.mp hupper⟩
      · rw [if_neg hcharacter]
        exact .inr
          ⟨_, .invalidDigit rest hdigits hwithin (Bool.eq_false_iff.mpr hcharacter), rfl⟩

theorem readDigits_of_fails (hzero : bounds.Contains 0) {text : List Char} {fault : IntegerFault}
    (hfails : DigitsFail bounds negative text fault) :
    readDigits bounds negative 0 text = .error fault := by
  -- the digits before the character that decides are taken in
  have htaken {digits rest : List Char} (hdigits : IsDigits digits)
      (hwithin : bounds.Contains (signedValue negative digits)) :
      readDigits bounds negative 0 (digits ++ rest) =
        readDigits bounds negative (signedValue negative digits) rest := by
    rw [← signedValue_nil negative, readDigits_append hzero [] digits rest hdigits hwithin,
      List.nil_append]
  cases hfails with
  | invalidDigit rest hdigits hwithin hcharacter =>
      rw [htaken hdigits hwithin, readDigits_cons, if_neg (Bool.eq_false_iff.mp hcharacter)]
  | tooLarge rest hdigits hwithin habove =>
      obtain ⟨hbefore, hcharacter⟩ := List.forall_mem_append.mp hdigits
      rw [htaken hbefore hwithin, readDigits_cons, if_pos (hcharacter _ (List.mem_singleton.mpr rfl)),
        if_neg, if_pos habove]
      have hrange : bounds.lowest ≤ bounds.highest := Int.le_trans hzero.1 hzero.2
      omega
  | tooSmall rest hdigits hwithin hbelow =>
      obtain ⟨hbefore, hcharacter⟩ := List.forall_mem_append.mp hdigits
      rw [htaken hbefore hwithin, readDigits_cons, if_pos (hcharacter _ (List.mem_singleton.mpr rfl)),
        if_pos hbelow]

end Digits

/-! ## Whole texts -/

section Texts

variable {bounds : Bounds}

theorem exists_isSigned (bounds : Bounds) (text : List Char) :
    ∃ negative digits, IsSigned bounds text negative digits := by
  by_cases hplus : text.head? = some '+'
  · obtain ⟨digits, rfl⟩ := List.head?_eq_some_iff.mp hplus
    exact ⟨false, digits, .plus digits⟩
  · by_cases hminus : bounds.lowest < 0 ∧ text.head? = some '-'
    · obtain ⟨digits, rfl⟩ := List.head?_eq_some_iff.mp hminus.2
      exact ⟨true, digits, .minus digits hminus.1⟩
    · exact ⟨false, text, .bare text hplus fun hlowest hhead => hminus ⟨hlowest, hhead⟩⟩

/-- Behind the sign, digits are read. -/
theorem readInteger_of_isSigned {text digits : List Char} {negative : Bool}
    (hsigned : IsSigned bounds text negative digits) (hdigits : digits ≠ []) :
    readInteger bounds text = readDigits bounds negative 0 digits := by
  obtain ⟨first, rest, rfl⟩ := List.exists_cons_of_ne_nil hdigits
  cases hsigned with
  | plus => rfl
  | minus _ hlowest => exact if_pos hlowest
  | bare _ hplus hminus =>
      rw [List.head?_cons] at hplus hminus
      by_cases hsign : first = '-'
      · subst hsign
        -- a minus sign that the bounds do not allow is no digit
        have hlowest : ¬bounds.lowest < 0 := fun hlowest => hminus hlowest rfl
        cases rest with
        | nil => rfl
        | cons second rest => exact if_neg hlowest
      · unfold readInteger
        split
        case h_6 => rfl
        all_goals simp_all

theorem readInteger_of_lone {text : List Char} {negative : Bool}
    (hsigned : IsSigned bounds text negative []) :
    ∃ fault, readInteger bounds text = .error fault ∧ Fails bounds text fault := by
  cases hsigned with
  | plus => exact ⟨_, rfl, .loneSign '+' (.inl rfl)⟩
  | minus => exact ⟨_, rfl, .loneSign '-' (.inr rfl)⟩
  | bare => exact ⟨_, rfl, .empty⟩

/-- A text is a numeral within the bounds, or fails for a reason, and reading says which. -/
theorem readInteger_cases (hzero : bounds.Contains 0) (text : List Char) :
    (∃ value, readInteger bounds text = .ok value ∧ Denotes bounds text value ∧
        bounds.Contains value) ∨
      ∃ fault, readInteger bounds text = .error fault ∧ Fails bounds text fault := by
  obtain ⟨negative, digits, hsigned⟩ := exists_isSigned bounds text
  by_cases hempty : digits = []
  · subst hempty
    exact .inr (readInteger_of_lone hsigned)
  · have hwithin : bounds.Contains (signedValue negative []) := by
      rwa [signedValue_nil]
    rw [readInteger_of_isSigned hsigned hempty, ← signedValue_nil negative]
    rcases readDigits_cases digits (List.forall_mem_nil _) hwithin with
      ⟨hdigits, hwithin, hread⟩ | ⟨fault, hfails, hread⟩
    · exact .inl ⟨_, hread, ⟨negative, digits, hsigned, hempty, hdigits, rfl⟩, hwithin⟩
    · exact .inr ⟨fault, hread, .digits hsigned hempty hfails⟩

theorem readInteger_eq_ok_iff (hzero : bounds.Contains 0) {text : List Char} {value : Int} :
    readInteger bounds text = .ok value ↔ Denotes bounds text value ∧ bounds.Contains value := by
  constructor
  · intro hread
    rcases readInteger_cases hzero text with ⟨_, hother, hdenotes⟩ | ⟨fault, hother, -⟩
    · obtain rfl := Except.ok.inj (hread.symm.trans hother)
      exact hdenotes
    · cases hread.symm.trans hother
  · rintro ⟨⟨negative, digits, hsigned, hempty, hdigits, rfl⟩, hwithin⟩
    have hread := readDigits_append hzero [] digits [] hdigits hwithin
    rw [List.append_nil, signedValue_nil] at hread
    exact (readInteger_of_isSigned hsigned hempty).trans hread

theorem readInteger_eq_error_iff (hzero : bounds.Contains 0) {text : List Char}
    {fault : IntegerFault} : readInteger bounds text = .error fault ↔ Fails bounds text fault := by
  constructor
  · intro hread
    rcases readInteger_cases hzero text with ⟨value, hother, -⟩ | ⟨_, hother, hfails⟩
    · cases hread.symm.trans hother
    · obtain rfl := Except.error.inj (hread.symm.trans hother)
      exact hfails
  · intro hfails
    cases hfails with
    | empty => rfl
    | loneSign sign hsign => rcases hsign with rfl | rfl <;> rfl
    | digits hsigned hempty hfails =>
        exact (readInteger_of_isSigned hsigned hempty).trans (readDigits_of_fails hzero hfails)

/-- A digit that leads out of the bounds decides before a later character that is none. -/
example : readInteger (.unsigned 16) "65536x".toList = .error .tooLarge := rfl

theorem isBlank_of_isDigit {character : Char} (hdigit : character.isDigit = true) :
    isBlank character = false := by
  obtain ⟨hlow, hhigh⟩ : 48 ≤ character.toNat ∧ character.toNat ≤ 57 :=
    Char.isDigit_iff_toNat.mp hdigit
  simp only [isBlank, blankRanges, List.any_cons, List.any_nil, Bool.or_false, Bool.or_eq_false_iff,
    Bool.and_eq_false_iff, decide_eq_false_iff_not]
  omega

theorem isDigits_natural (value : Nat) : IsDigits (natural value).toList := by
  intro character hmem
  rw [natural, String.toList_ofList] at hmem
  exact Nat.isDigit_of_mem_toDigits (by decide) (by decide) hmem

theorem isTrimmed_natural (value : Nat) :
    IsTrimmed (natural value).toList (natural value).toList where
  around := ⟨[], [], (List.append_nil _).symm, List.forall_mem_nil _, List.forall_mem_nil _⟩
  head character hhead :=
    isBlank_of_isDigit (isDigits_natural value character (List.mem_of_mem_head? hhead))
  last character hlast :=
    isBlank_of_isDigit (isDigits_natural value character (List.mem_of_mem_getLast? hlast))

/-- What is written is read back. -/
theorem denotes_natural (bounds : Bounds) (value : Nat) :
    Denotes bounds (natural value).toList value := by
  have hdigits := isDigits_natural value
  have hhead (sign : Char) (hsign : sign.isDigit = false) :
      (natural value).toList.head? ≠ some sign := by
    intro hhead
    rw [hdigits sign (List.mem_of_mem_head? hhead)] at hsign
    cases hsign
  refine ⟨false, _, .bare _ (hhead '+' rfl) fun _ => hhead '-' rfl, ?_, hdigits, ?_⟩
  · rw [natural, String.toList_ofList]
    exact Nat.toDigits_ne_nil
  · rw [signedValue, natural, String.toList_ofList, Nat.ofDigitChars_ten_toDigits]
    rfl

end Texts

end FragmentLifecycle.Text
