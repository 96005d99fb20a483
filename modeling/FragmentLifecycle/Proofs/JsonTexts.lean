import FragmentLifecycle.Proofs.JsonScalars
import Mathlib.Data.List.Forall2

/-!
# Written values

A list or an object is read back from the texts of its parts (`readSequence_sequenceText`), and so
every value is, by a reader that goes as deep as the value does (`Value.Nested.reads_write`).  A
reader that only skips takes the same text, at any depth (`Value.Nested.skipValue_write`).
-/

namespace FragmentLifecycle.Json

/-! ## Sequences -/

section Sequences

variable {α : Type} {item : Reader α} {close : Char} {texts : List (List Char)}
  {values : List α}

/-- Texts that follow another one, each behind a comma, with the closing bracket. -/
def followingText (close : Char) : List (List Char) → List Char
  | [] => [close]
  | text :: texts => ',' :: (text ++ followingText close texts)

/-- Texts with commas between them, with the closing bracket. -/
def sequenceText (close : Char) : List (List Char) → List Char
  | [] => [close]
  | text :: texts => text ++ followingText close texts

def memberText (member : String × Value) : List Char :=
  quote member.1 ++ ':' :: member.2.write

theorem writeItems_eq (items : List Value) :
    writeItems items = sequenceText ']' (items.map Value.write) := by
  match items with
  | [] => rfl
  | [item] => rfl
  | item :: next :: items =>
    have hothers := writeItems_eq (next :: items)
    rw [writeItems, hothers]
    · rfl
    · exact List.cons_ne_nil next items

theorem writeMembers_eq (members : List (String × Value)) :
    writeMembers members = sequenceText '\x7d' (members.map memberText) := by
  match members with
  | [] => rfl
  | [(name, value)] => simp [writeMembers, sequenceText, followingText, memberText]
  | (name, value) :: next :: members =>
    have hothers := writeMembers_eq (next :: members)
    rw [writeMembers, hothers]
    · simp [sequenceText, followingText, memberText]
    · exact List.cons_ne_nil next members

theorem length_texts_lt_length_followingText (close : Char) (texts : List (List Char)) :
    texts.length < (followingText close texts).length := by
  induction texts with
  | nil => exact Nat.zero_lt_one
  | cons text texts ih =>
    rw [followingText, List.length_cons, List.length_cons, List.length_append]
    omega

def IsClosing (close : Char) : Prop :=
  close = ']' ∨ close = '\x7d'

theorem isStop_followingText (hclose : IsClosing close) (texts : List (List Char))
    (rest : List Char) : IsStop (followingText close texts ++ rest) := by
  intro character hhead
  cases texts with
  | nil => exact Option.some.inj hhead ▸ .inr hclose
  | cons text texts => exact Option.some.inj hhead ▸ .inl rfl

theorem skipSpace_closing (hclose : IsClosing close) (rest : List Char) :
    skipSpace (close :: rest) = close :: rest := by
  rcases hclose with rfl | rfl
  all_goals rfl

theorem readColon_cons (rest : List Char) : readColon (':' :: rest) = some ((), rest) :=
  rfl

theorem readFollowing_followingText (hclose : IsClosing close)
    (hreads : List.Forall₂ (Reads item) texts values) (rest : List Char) {rounds : Nat}
    (hrounds : texts.length < rounds) :
    readFollowing item close rounds (followingText close texts ++ rest) = some (values, rest) := by
  induction hreads generalizing rounds with
  | nil =>
    obtain ⟨rounds, rfl⟩ := Nat.exists_eq_add_one.mpr hrounds
    rw [followingText, List.singleton_append, readFollowing, skipSpace_closing hclose]
    exact if_pos rfl
  | @cons text value texts values hread hreads ih =>
    obtain ⟨rounds, rfl⟩ :=
      Nat.exists_eq_add_one.mpr (Nat.zero_lt_of_lt hrounds)
    have hothers := ih (Nat.lt_of_succ_lt_succ hrounds)
    have hfirst := hread.reads _ (isStop_followingText hclose texts rest)
    have hcomma : ',' ≠ close := by
      rcases hclose with rfl | rfl
      all_goals decide
    rw [followingText, List.cons_append, List.append_assoc, readFollowing, skipSpace_cons rfl]
    simp only [if_neg hcomma, if_pos, hfirst, Option.bind_eq_bind, Option.bind_some, hothers]

/-- A sequence is read from the texts of its parts. -/
theorem readSequence_sequenceText (hclose : IsClosing close)
    (hreads : List.Forall₂ (Reads item) texts values) (rest : List Char) :
    readSequence item close (sequenceText close texts ++ rest) = some (values, rest) := by
  cases hreads with
  | nil =>
    rw [sequenceText, List.singleton_append, readSequence, skipSpace_closing hclose]
    exact if_pos rfl
  | @cons text value texts values hread hreads =>
    have hfirst := hread.reads _ (isStop_followingText hclose texts rest)
    have hrounds : texts.length < (followingText close texts ++ rest).length := by
      rw [List.length_append]
      exact Nat.lt_add_right _ (length_texts_lt_length_followingText close texts)
    have hothers := readFollowing_followingText hclose hreads rest hrounds
    obtain ⟨first, more, rfl, hspace, hbracket, hbrace⟩ := hread.begins
    have hopen : ¬first = close := by
      rcases hclose with rfl | rfl
      · exact hbracket
      · exact hbrace
    rw [sequenceText, List.append_assoc, readSequence, List.cons_append, skipSpace_cons hspace]
    rw [List.cons_append] at hfirst
    simp only [if_neg hopen, hfirst, Option.bind_eq_bind, Option.bind_some, hothers]

theorem length_lt_length_followingText (close : Char) {text : List Char} (hmem : text ∈ texts) :
    text.length < (followingText close texts).length := by
  induction hmem with
  | head texts =>
    rw [followingText, List.length_cons, List.length_append]
    omega
  | tail first _ ih =>
    rw [followingText, List.length_cons, List.length_append]
    omega

theorem length_lt_length_sequenceText (close : Char) {text : List Char} (hmem : text ∈ texts) :
    text.length < (sequenceText close texts).length := by
  cases hmem with
  | head texts =>
    have hothers := length_texts_lt_length_followingText close texts
    rw [sequenceText, List.length_append]
    omega
  | tail first hmem =>
    have hothers := length_lt_length_followingText close hmem
    rw [sequenceText, List.length_append]
    omega

end Sequences

/-! ## Values -/

namespace Value

/-- A value with at most `depth` brackets around any part of it, whose numbers are `kept` and
whose objects have their names in ascending order, each once. -/
inductive Nested (kept : Number → Prop) : Nat → Value → Prop
  | null (depth : Nat) : Nested kept depth .null
  | boolean (depth : Nat) (value : Bool) : Nested kept depth (.boolean value)
  | number (depth : Nat) {value : Number} (hkept : kept value) :
      Nested kept depth (.number value)
  | text (depth : Nat) (value : String) : Nested kept depth (.text value)
  | list {depth : Nat} {items : List Value} (hitems : ∀ item ∈ items, Nested kept depth item) :
      Nested kept (depth + 1) (.list items)
  | object {depth : Nat} {members : List (String × Value)}
      (hnames : members.Pairwise fun left right => left.1 < right.1)
      (hmembers : ∀ member ∈ members, Nested kept depth member.2) :
      Nested kept (depth + 1) (.object members)

/-- A value whose numbers are integers of 64 bits. -/
abbrev IsPlain (depth : Nat) (value : Value) : Prop :=
  value.Nested Number.IsInteger depth

section Nested

variable {kept : Number → Prop} {depth : Nat} {value : Value}

theorem Nested.mono (hnested : value.Nested kept depth) {deeper : Nat} (hdepth : depth ≤ deeper) :
    value.Nested kept deeper := by
  induction hnested generalizing deeper with
  | null => exact .null _
  | boolean => exact .boolean _ _
  | number _ hkept => exact .number _ hkept
  | text => exact .text _ _
  | list _ ih =>
    obtain ⟨deeper, rfl⟩ := Nat.exists_eq_add_one.mpr (Nat.zero_lt_of_lt hdepth)
    exact .list fun item hitem => ih item hitem (Nat.le_of_succ_le_succ hdepth)
  | object hnames _ ih =>
    obtain ⟨deeper, rfl⟩ := Nat.exists_eq_add_one.mpr (Nat.zero_lt_of_lt hdepth)
    exact .object hnames fun member hmember => ih member hmember (Nat.le_of_succ_le_succ hdepth)

end Nested

theorem insertMember_of_lt {α : Type} {name : String} {value : α} {held : List (String × α)}
    (hheld : ∀ other ∈ held, other.1 < name) :
    insertMember name value held = held ++ [(name, value)] := by
  induction held with
  | nil => rfl
  | cons other held ih =>
    obtain ⟨hother, hothers⟩ := List.forall_mem_cons.mp hheld
    have hne : name ≠ other.1 := fun hsame => String.lt_irrefl _ (hsame ▸ hother)
    rw [insertMember, if_neg (String.lt_asymm hother), if_neg hne, ih hothers, List.cons_append]

theorem foldl_insertMember {α : Type} (held : List (String × α)) {members : List (String × α)}
    (hnames : (held ++ members).Pairwise fun left right => left.1 < right.1) :
    members.foldl (fun held member => insertMember member.1 member.2 held) held =
      held ++ members := by
  induction members generalizing held with
  | nil => rw [List.foldl_nil, List.append_nil]
  | cons member members ih =>
    have hbelow : ∀ other ∈ held, other.1 < member.1 := fun other hother =>
      (List.pairwise_append.mp hnames).2.2 other hother member List.mem_cons_self
    rw [List.append_cons] at hnames
    rw [List.foldl_cons, insertMember_of_lt hbelow, ih _ hnames, ← List.append_cons]

/-- Members in ascending order are the object that they are read into. -/
theorem ofMembers_of_sorted {members : List (String × Value)}
    (hnames : members.Pairwise fun left right => left.1 < right.1) :
    ofMembers members = .object members :=
  congrArg Value.object (foldl_insertMember [] hnames)

/-- Nothing but a number starts with a minus sign or a digit. -/
theorem readValue_numeral {first : Char} (hfirst : StartsNumber first) (depth : Nat)
    (more : List Char) :
    readValue depth (first :: more) =
        (readNumber (first :: more)).map (fun read => (.number read.1, read.2)) ∧
      skipNested depth (first :: more) = skipNumber (first :: more) := by
  obtain ⟨_, _, heq, hspace, -⟩ := hfirst.begins more
  obtain ⟨rfl, rfl⟩ := List.cons.inj heq
  constructor
  · rw [readValue, skipSpace_cons hspace]
    split
    case h_8 => rfl
    case h_1 heq => cases heq
    all_goals
      next heq => exact absurd (List.cons.inj heq).1 (hfirst.ne (by decide) rfl)
  · rw [skipNested, skipSpace_cons hspace]
    split
    case h_8 => rfl
    case h_1 heq => cases heq
    all_goals
      next heq => exact absurd (List.cons.inj heq).1 (hfirst.ne (by decide) rfl)

/-- Every written value begins like one. -/
theorem Nested.begins {depth : Nat} {value : Value} (hplain : value.IsPlain depth) :
    Begins value.write := by
  cases hplain with
  | null => exact ⟨'n', _, rfl, by decide⟩
  | boolean _ value =>
    cases value with
    | false => exact ⟨'f', _, rfl, by decide⟩
    | true => exact ⟨'t', _, rfl, by decide⟩
  | number _ hkept =>
    obtain ⟨first, more, hwrite, hfirst⟩ := write_begins hkept
    rw [Value.write, hwrite]
    exact hfirst.begins more
  | text => exact ⟨'"', _, rfl, by decide⟩
  | list => exact ⟨'[', _, rfl, by decide⟩
  | object => exact ⟨'\x7b', _, rfl, by decide⟩

theorem reads_member {reader : Reader Value} {value : Value}
    (hreads : Reads reader value.write value) (name : String) :
    Reads (readMember reader) (memberText (name, value)) (name, value) := by
  refine ⟨⟨'"', _, rfl, by decide⟩, fun rest hstop => ?_⟩
  have hvalue := hreads.reads rest hstop
  rw [memberText, List.append_assoc, readMember, readString_quote]
  simp only [Option.bind_eq_bind, Option.bind_some, List.cons_append, readColon_cons, hvalue]

theorem skips_member {reader : Reader Unit} {value : Value}
    (hreads : Reads reader value.write ()) (name : String) :
    Reads (skipMember reader) (memberText (name, value)) () := by
  refine ⟨⟨'"', _, rfl, by decide⟩, fun rest hstop => ?_⟩
  have hvalue := hreads.reads rest hstop
  rw [memberText, List.append_assoc, skipMember, skipString_quote]
  simp only [Option.bind_eq_bind, Option.bind_some, List.cons_append, readColon_cons, hvalue]

/-- A value is read from its text by a reader that goes as deep as the value. -/
theorem Nested.reads_write {depth : Nat} {value : Value} (hplain : value.IsPlain depth) :
    Reads (readValue depth) value.write value := by
  refine ⟨hplain.begins, ?_⟩
  induction hplain with
  | null =>
    intro rest _
    rw [readValue]
    rfl
  | boolean _ value =>
    intro rest _
    rw [readValue]
    cases value
    all_goals rfl
  | number depth hkept =>
    intro rest hstop
    obtain ⟨first, more, hwrite, hfirst⟩ := write_begins hkept
    have hread := readNumber_write hkept hstop
    rw [hwrite, List.cons_append] at hread
    rw [Value.write, hwrite, List.cons_append, (readValue_numeral hfirst depth _).1, hread]
    rfl
  | text depth value =>
    intro rest _
    rw [Value.write, quote_append, readValue, skipSpace_cons rfl]
    simp only [readStringBody_quote, Option.map_some]
  | @list depth items hitems ih =>
    intro rest _
    have hreads : List.Forall₂ (Reads (readValue depth)) (items.map Value.write) items := by
      rw [List.forall₂_map_left_iff, List.forall₂_same]
      exact fun item hitem => ⟨(hitems item hitem).begins, ih item hitem⟩
    rw [Value.write, writeItems_eq, List.cons_append, readValue, skipSpace_cons rfl]
    simp only [readSequence_sequenceText (.inl rfl) hreads, Option.map_some]
  | @object depth members hnames hmembers ih =>
    intro rest _
    have hreads : List.Forall₂ (Reads (readMember (readValue depth)))
        (members.map memberText) members := by
      rw [List.forall₂_map_left_iff, List.forall₂_same]
      exact fun member hmember =>
        reads_member ⟨(hmembers member hmember).begins, ih member hmember⟩ member.1
    rw [Value.write, writeMembers_eq, List.cons_append, readValue, skipSpace_cons rfl]
    simp only [readSequence_sequenceText (.inr rfl) hreads, Option.map_some,
      ofMembers_of_sorted hnames]

/-- A value is skipped by its text. -/
theorem Nested.skips_write {depth : Nat} {value : Value} (hplain : value.IsPlain depth) :
    Reads (skipNested depth) value.write () := by
  refine ⟨hplain.begins, ?_⟩
  induction hplain with
  | null =>
    intro rest _
    rw [skipNested]
    rfl
  | boolean _ value =>
    intro rest _
    rw [skipNested]
    cases value
    all_goals rfl
  | number depth hkept =>
    intro rest hstop
    obtain ⟨first, more, hwrite, hfirst⟩ := write_begins hkept
    have hskip := skipNumber_write hkept hstop
    rw [hwrite, List.cons_append] at hskip
    rw [Value.write, hwrite, List.cons_append, (readValue_numeral hfirst depth _).2, hskip]
  | text depth value =>
    intro rest _
    rw [Value.write, quote_append, skipNested, skipSpace_cons rfl]
    exact skipStringBody_quote value rest
  | @list depth items hitems ih =>
    intro rest _
    have hreads : List.Forall₂ (Reads (skipNested depth)) (items.map Value.write)
        (items.map fun _ => ()) := by
      rw [List.forall₂_map_left_iff, List.forall₂_map_right_iff, List.forall₂_same]
      exact fun item hitem => ⟨(hitems item hitem).begins, ih item hitem⟩
    rw [Value.write, writeItems_eq, List.cons_append, skipNested, skipSpace_cons rfl]
    simp only [readSequence_sequenceText (.inl rfl) hreads, Option.map_some]
  | @object depth members hnames hmembers ih =>
    intro rest _
    have hreads : List.Forall₂ (Reads (skipMember (skipNested depth)))
        (members.map memberText) (members.map fun _ => ()) := by
      rw [List.forall₂_map_left_iff, List.forall₂_map_right_iff, List.forall₂_same]
      exact fun member hmember =>
        skips_member ⟨(hmembers member hmember).begins, ih member hmember⟩ member.1
    rw [Value.write, writeMembers_eq, List.cons_append, skipNested, skipSpace_cons rfl]
    simp only [readSequence_sequenceText (.inr rfl) hreads, Option.map_some]

/-- No value has more brackets around a part of it than its text has characters. -/
theorem Nested.isPlain_length {depth : Nat} {value : Value} (hplain : value.IsPlain depth) :
    value.IsPlain value.write.length := by
  induction hplain with
  | null => exact .null _
  | boolean => exact .boolean _ _
  | number _ hkept => exact .number _ hkept
  | text => exact .text _ _
  | @list depth items _ ih =>
    rw [Value.write, List.length_cons, writeItems_eq]
    exact .list fun item hitem =>
      (ih item hitem).mono
        (Nat.le_of_lt (length_lt_length_sequenceText ']' (List.mem_map_of_mem hitem)))
  | @object depth members hnames _ ih =>
    rw [Value.write, List.length_cons, writeMembers_eq]
    refine .object hnames fun member hmember => (ih member hmember).mono ?_
    have htext : memberText member ∈ members.map memberText := List.mem_map_of_mem hmember
    have hlength := length_lt_length_sequenceText '\x7d' htext
    rw [memberText, List.length_append, List.length_cons] at hlength
    omega

/-- A value that nobody asked for is skipped, however deep it is. -/
theorem Nested.skipValue_write {depth : Nat} {value : Value} (hplain : value.IsPlain depth) :
    Reads skipValue value.write () := by
  refine ⟨hplain.begins, fun rest hstop => ?_⟩
  have hdepth : value.write.length ≤ (value.write ++ rest).length := by
    rw [List.length_append]
    exact Nat.le_add_right _ _
  exact (hplain.isPlain_length.mono hdepth).skips_write.reads rest hstop

end Value

/-- A whole text that a reader takes. -/
theorem Reads.readAll {α : Type} {reader : Reader α} {text : List Char} {value : α}
    (hreads : Reads reader text value) : readAll reader (String.ofList text) = some value := by
  have hread := hreads.reads [] isStop_nil
  rw [List.append_nil] at hread
  rw [Json.readAll, String.toList_ofList, hread]
  rfl

end FragmentLifecycle.Json
