import FragmentLifecycle.Identity.Handle
import FragmentLifecycle.Proofs.Numerals
import FragmentLifecycle.Proofs.QueryTexts

/-!
# Texts of handles

The text of an identifier has a fixed length, and a decimal number holds no colon, so every text
made of both keeps its parts apart.  A handle is told by its text and by the name of its thread
(`Handle.texts_identify_handles`).
-/

namespace FragmentLifecycle

namespace Text

theorem natural_injective {left right : Nat} (htext : natural left = natural right) :
    left = right :=
  calc left
      = Nat.ofDigitChars 10 (Nat.toDigits 10 left) 0 := Nat.ofDigitChars_ten_toDigits.symm
    _ = Nat.ofDigitChars 10 (Nat.toDigits 10 right) 0 := by rw [String.ofList_injective htext]
    _ = right := Nat.ofDigitChars_ten_toDigits

theorem colon_not_mem_natural (value : Nat) : ':' ∉ (natural value).toList :=
  fun hcolon => absurd (isDigits_natural value ':' hcolon) (by decide)

end Text

namespace Handle

variable {left right : Handle}

theorem toList_fragmentText (handle : Handle) :
    handle.fragmentText.toList = (Text.natural handle.major.toNat).toList ++
      ':' :: (Text.natural handle.minor.toNat).toList := by
  simp [fragmentText]

theorem toList_text (handle : Handle) :
    handle.text.toList = handle.query.text.toList ++ ':' :: handle.fragmentText.toList := by
  simp [text]

theorem toList_threadName (handle : Handle) :
    handle.threadName.toList =
      handle.query.text.toList ++ ":frag:".toList ++ handle.fragmentText.toList := by
  simp [threadName]

theorem fragmentText_inj : left.fragmentText = right.fragmentText ↔
    left.major = right.major ∧ left.minor = right.minor := by
  constructor
  · intro htext
    rw [← String.toList_inj, toList_fragmentText, toList_fragmentText,
      List.append_cons_inj_of_notMem (Text.colon_not_mem_natural _)
        (Text.colon_not_mem_natural _)] at htext
    obtain ⟨hmajor, -, hminor⟩ := htext
    exact ⟨UInt32.toNat_inj.mp (Text.natural_injective (String.toList_inj.mp hmajor)),
      UInt32.toNat_inj.mp (Text.natural_injective (String.toList_inj.mp hminor))⟩
  · rintro ⟨hmajor, hminor⟩
    rw [fragmentText, fragmentText, hmajor, hminor]

/-- A text of an identifier and a fragment, whatever stands between them, is told apart by
both. -/
theorem eq_of_framed (between : List Char)
    (htext : left.query.text.toList ++ (between ++ left.fragmentText.toList) =
      right.query.text.toList ++ (between ++ right.fragmentText.toList)) : left = right := by
  have hlength : left.query.text.toList.length = right.query.text.toList.length := by
    rw [QueryId.length_toList_text, QueryId.length_toList_text]
  obtain ⟨hquery, hrest⟩ := List.append_inj htext hlength
  have hfragment := fragmentText_inj.mp (String.toList_inj.mp (List.append_cancel_left hrest))
  have hidentifier := QueryId.text_injective (String.toList_inj.mp hquery)
  obtain ⟨query, major, minor⟩ := left
  cases right
  simp_all

theorem text_inj : left.text = right.text ↔ left = right := by
  refine ⟨fun htext => ?_, congrArg text⟩
  rw [← String.toList_inj, toList_text, toList_text] at htext
  exact eq_of_framed [':'] htext

theorem threadName_inj : left.threadName = right.threadName ↔ left = right := by
  refine ⟨fun hname => ?_, congrArg threadName⟩
  rw [← String.toList_inj, toList_threadName, toList_threadName, List.append_assoc,
    List.append_assoc] at hname
  exact eq_of_framed _ hname

/-- Behind the identifier and its colon a text goes on with a digit, a thread's name with a
letter. -/
theorem text_ne_threadName (left right : Handle) : left.text ≠ right.threadName := by
  intro hsame
  rw [← String.toList_inj, toList_text, toList_threadName, List.append_assoc] at hsame
  have hlength : left.query.text.toList.length = right.query.text.toList.length := by
    rw [QueryId.length_toList_text, QueryId.length_toList_text]
  obtain ⟨-, hrest⟩ := List.append_inj hsame hlength
  have hfirst : left.fragmentText.toList.head? = some 'f' := by
    rw [(List.cons.inj hrest).2]
    rfl
  rw [toList_fragmentText] at hfirst
  cases hdigits : (Text.natural left.major.toNat).toList with
  | nil =>
    rw [hdigits] at hfirst
    cases hfirst
  | cons digit digits =>
    rw [hdigits] at hfirst
    have hdigit := Text.isDigits_natural left.major.toNat digit (hdigits ▸ List.mem_cons_self)
    obtain rfl : digit = 'f' := Option.some.inj hfirst
    cases hdigit

/-- Texts of handles tell handles apart.  Two handles with the same text, or the same name of
their threads, are equal; two with the same text of their fragments have the same numbers; and
no text of a handle is the name of a thread.  In all of these the identifier stands as 36
characters, hyphenated and in lower case, and the numbers in decimal. -/
theorem texts_identify_handles (left right : Handle) :
    (left.text = right.text ↔ left = right) ∧
      (left.threadName = right.threadName ↔ left = right) ∧
      (left.fragmentText = right.fragmentText ↔
        left.major = right.major ∧ left.minor = right.minor) ∧
      left.text ≠ right.threadName ∧
      left.text = left.query.text ++ ":" ++ left.fragmentText ∧
      left.threadName = left.query.text ++ ":frag:" ++ left.fragmentText ∧
      left.fragmentText = toString left.major.toNat ++ ":" ++ toString left.minor.toNat ∧
      left.query.text.length = 36 ∧ left.query.IsHyphenated left.query.text.toList := by
  refine ⟨text_inj, threadName_inj, fragmentText_inj, text_ne_threadName left right, rfl, rfl, rfl,
    ?_, left.query.isHyphenated_text⟩
  rw [← String.length_toList]
  exact left.query.length_toList_text

/-- Numbers that run together without the colon between them. -/
example : (⟨⟨0⟩, 2, 15⟩ : Handle).text = "00000000-0000-0000-0000-000000000000:2:15" ∧
    (⟨⟨0⟩, 21, 5⟩ : Handle).threadName = "00000000-0000-0000-0000-000000000000:frag:21:5" := by
  decide +kernel

end Handle

end FragmentLifecycle
