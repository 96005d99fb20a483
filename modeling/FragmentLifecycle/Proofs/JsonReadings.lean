import FragmentLifecycle.Json.Record
import FragmentLifecycle.Proofs.JsonTexts
import Mathlib.Data.String.Basic

/-!
# What is read from JSON texts

Whatever text a value is read from, its integers have 64 bits, its objects have their names in
ascending order, and it is no deeper than its reader goes (`yields_readValue`).  What fills the
slot of a field of a record was read by the reader of that field (`yields_readRecord`).
-/

namespace FragmentLifecycle.Json

/-- Everything that `reader` gives is good. -/
def Yields {α : Type} (reader : Reader α) (good : α → Prop) : Prop :=
  ∀ text value rest, reader text = some (value, rest) → good value

theorem Yields.readAll {α : Type} {reader : Reader α} {good : α → Prop}
    (hreader : Yields reader good) {text : String} {value : α}
    (hread : readAll reader text = some value) : good value := by
  unfold Json.readAll at hread
  split at hread
  next held rest hheld =>
    obtain ⟨-, hvalue⟩ := Option.ite_none_right_eq_some.mp hread
    exact Option.some.inj hvalue ▸ hreader _ _ _ hheld
  next => cases hread

/-! ## Numbers -/

/-- An integer of 64 bits or a binary number. -/
def Number.Fits : Number → Prop
  | .integer value => -2 ^ 63 ≤ value ∧ value < 2 ^ 64
  | .binary _ => True

theorem yields_readBinary (negative : Bool) (significand : Nat) (exponent : Int) :
    Yields (readBinary negative significand exponent) Number.Fits := by
  intro text number rest hread
  obtain ⟨binary, -, hnumber⟩ := Option.map_eq_some_iff.mp hread
  obtain ⟨rfl, -⟩ := Prod.mk.inj hnumber
  trivial

theorem yields_readExponent (negative : Bool) (significand : Nat) (scale : Int) :
    Yields (readExponent negative significand scale) Number.Fits := by
  intro text number rest hread
  unfold readExponent at hread
  dsimp only at hread
  split at hread
  next => cases hread
  next =>
    split_ifs at hread with hdigit hbeyond hgrows hdown
    · obtain ⟨rfl, -⟩ := Prod.mk.inj (Option.some.inj hread)
      trivial
    · exact yields_readBinary _ _ _ _ _ _ hread
    · exact yields_readBinary _ _ _ _ _ _ hread

theorem yields_readScaled (negative : Bool) (significand : Nat) (scale : Int) :
    Yields (readScaled negative significand scale) Number.Fits := by
  intro text number rest hread
  unfold readScaled at hread
  split at hread
  next => exact yields_readExponent _ _ _ _ _ _ hread
  next => exact yields_readExponent _ _ _ _ _ _ hread
  next => exact yields_readBinary _ _ _ _ _ _ hread

theorem yields_readFraction (negative : Bool) (significand : Nat) (scale : Int) :
    Yields (readFraction negative significand scale) Number.Fits := by
  intro text number rest hread
  unfold readFraction at hread
  split at hread
  next => cases hread
  next =>
    obtain ⟨-, hread⟩ := Option.ite_none_right_eq_some.mp hread
    exact yields_readScaled _ _ _ _ _ _ hread

theorem fits_of_exactInteger {negative : Bool} {magnitude : Nat} {number : Number}
    (hexact : exactInteger negative magnitude = some number)
    (hmagnitude : magnitude ≤ largestNatural) : number.Fits := by
  have hbound : magnitude ≤ 2 ^ 64 - 1 := hmagnitude
  unfold exactInteger at hexact
  split_ifs at hexact with hnegative hbeyond
  · obtain ⟨binary, -, rfl⟩ := Option.map_eq_some_iff.mp hexact
    trivial
  · obtain rfl := Option.some.inj hexact
    have hleast : magnitude ≤ 2 ^ 63 := Nat.not_lt.mp fun hless => hbeyond (.inr hless)
    constructor
    · omega
    · omega
  · obtain rfl := Option.some.inj hexact
    constructor
    · omega
    · omega

theorem yields_readAfterDigits (negative : Bool) {magnitude : Nat} (dropped : Nat)
    (hmagnitude : magnitude ≤ largestNatural) :
    Yields (readAfterDigits negative magnitude dropped) Number.Fits := by
  intro text number rest hread
  unfold readAfterDigits at hread
  split at hread
  next => exact yields_readFraction _ _ _ _ _ _ hread
  next => exact yields_readExponent _ _ _ _ _ _ hread
  next => exact yields_readExponent _ _ _ _ _ _ hread
  next =>
    split at hread
    next =>
      obtain ⟨exact, hexact, hnumber⟩ := Option.map_eq_some_iff.mp hread
      obtain ⟨rfl, -⟩ := Prod.mk.inj hnumber
      exact fits_of_exactInteger hexact hmagnitude
    next => exact yields_readBinary _ _ _ _ _ _ hread

/-- Digits are gathered no further than a number stays exact. -/
theorem gatherDigits_le {total : Nat} (htotal : total ≤ largestNatural) (count : Nat)
    (text : List Char) : (gatherDigits total count text).1 ≤ largestNatural := by
  induction text generalizing total count with
  | nil => exact htotal
  | cons character text ih =>
    rw [gatherDigits]
    split
    · dsimp only
      split
      next => exact htotal
      next hnext => exact ih (Nat.not_lt.mp hnext) (count + 1)
    · exact htotal

theorem yields_readMagnitude (negative : Bool) :
    Yields (readMagnitude negative) Number.Fits := by
  intro text number rest hread
  have hzero : 0 ≤ largestNatural := Nat.zero_le _
  unfold readMagnitude at hread
  split at hread
  next => cases hread
  next =>
    split at hread
    next => exact yields_readAfterDigits _ _ hzero _ _ _ hread
    next =>
      obtain ⟨-, hread⟩ := Option.ite_none_left_eq_some.mp hread
      exact yields_readAfterDigits _ _ hzero _ _ _ hread
  next first more _ =>
    obtain ⟨-, hread⟩ := Option.ite_none_right_eq_some.mp hread
    have hgathered := gatherDigits_le hzero 0 (first :: more)
    exact yields_readAfterDigits negative (countDigits _) hgathered _ _ _ hread

theorem yields_readNumber : Yields readNumber Number.Fits := by
  intro text number rest hread
  unfold readNumber at hread
  split at hread
  next => exact yields_readMagnitude _ _ _ _ hread
  next => exact yields_readMagnitude _ _ _ _ hread

/-! ## Sequences -/

section Sequences

variable {α : Type} {item : Reader α} {good : α → Prop}

theorem yields_readFollowing (hitem : Yields item good) (close : Char) (rounds : Nat) :
    Yields (readFollowing item close rounds) fun values => ∀ value ∈ values, good value := by
  induction rounds with
  | zero =>
    intro text values rest hread
    cases hread
  | succ rounds ih =>
    intro text values rest hread
    rw [readFollowing] at hread
    split at hread
    next => cases hread
    next character others _ =>
      split_ifs at hread with hclose hcomma
      · obtain ⟨rfl, -⟩ := Prod.mk.inj (Option.some.inj hread)
        exact List.forall_mem_nil _
      · obtain ⟨⟨first, following⟩, hfirst, hread⟩ := Option.bind_eq_some_iff.mp hread
        obtain ⟨⟨others, last⟩, hothers, hread⟩ := Option.bind_eq_some_iff.mp hread
        obtain ⟨rfl, -⟩ := Prod.mk.inj (Option.some.inj hread)
        exact List.forall_mem_cons.mpr ⟨hitem _ _ _ hfirst, ih _ _ _ hothers⟩

theorem yields_readSequence (hitem : Yields item good) (close : Char) :
    Yields (readSequence item close) fun values => ∀ value ∈ values, good value := by
  intro text values rest hread
  unfold readSequence at hread
  split at hread
  next => cases hread
  next character others _ =>
    split_ifs at hread with hclose
    · obtain ⟨rfl, -⟩ := Prod.mk.inj (Option.some.inj hread)
      exact List.forall_mem_nil _
    · obtain ⟨⟨first, following⟩, hfirst, hread⟩ := Option.bind_eq_some_iff.mp hread
      obtain ⟨⟨others, last⟩, hothers, hread⟩ := Option.bind_eq_some_iff.mp hread
      obtain ⟨rfl, -⟩ := Prod.mk.inj (Option.some.inj hread)
      exact List.forall_mem_cons.mpr
        ⟨hitem _ _ _ hfirst, yields_readFollowing hitem close _ _ _ _ hothers⟩

theorem yields_readMember (hitem : Yields item good) :
    Yields (readMember item) fun member => good member.2 := by
  intro text member rest hread
  obtain ⟨⟨name, afterName⟩, -, hread⟩ := Option.bind_eq_some_iff.mp hread
  obtain ⟨⟨_, afterColon⟩, -, hread⟩ := Option.bind_eq_some_iff.mp hread
  obtain ⟨⟨held, last⟩, hheld, hread⟩ := Option.bind_eq_some_iff.mp hread
  obtain ⟨rfl, -⟩ := Prod.mk.inj (Option.some.inj hread)
  exact hitem _ _ _ hheld

end Sequences

/-! ## Values -/

namespace Value

section Members

variable {α : Type} {name : String} {value : α} {held : List (String × α)}

theorem mem_insertMember {member : String × α} (hmember : member ∈ insertMember name value held) :
    member = (name, value) ∨ member ∈ held := by
  induction held with
  | nil => exact .inl (List.mem_singleton.mp hmember)
  | cons other held ih =>
    rw [insertMember] at hmember
    split_ifs at hmember with hless hsame
    · exact List.mem_cons.mp hmember
    · rcases List.mem_cons.mp hmember with hnew | hold
      · exact .inl hnew
      · exact .inr (List.mem_cons_of_mem _ hold)
    · rcases List.mem_cons.mp hmember with hother | hlater
      · exact .inr (hother ▸ List.mem_cons_self)
      · exact (ih hlater).imp_right (List.mem_cons_of_mem _)

/-- Names stay in ascending order. -/
theorem pairwise_insertMember (hnames : held.Pairwise fun left right => left.1 < right.1) :
    (insertMember name value held).Pairwise fun left right => left.1 < right.1 := by
  induction held with
  | nil => exact List.pairwise_singleton _ _
  | cons other held ih =>
    obtain ⟨hfirst, hothers⟩ := List.pairwise_cons.mp hnames
    rw [insertMember]
    split_ifs with hless hsame
    · refine List.pairwise_cons.mpr ⟨List.forall_mem_cons.mpr ⟨hless, ?_⟩, hnames⟩
      exact fun member hmember => String.lt_trans hless (hfirst member hmember)
    · exact List.pairwise_cons.mpr ⟨fun member hmember => hsame ▸ hfirst member hmember, hothers⟩
    · refine List.pairwise_cons.mpr ⟨fun member hmember => ?_, ih hothers⟩
      rcases mem_insertMember hmember with rfl | hlater
      · exact lt_of_le_of_ne (not_lt.mp hless) (Ne.symm hsame)
      · exact hfirst member hlater

end Members

variable {kept : Number → Prop} {depth : Nat}

/-- The object of any members whose values are nested. -/
theorem nested_ofMembers {members : List (String × Value)}
    (hmembers : ∀ member ∈ members, member.2.Nested kept depth) :
    (ofMembers members).Nested kept (depth + 1) := by
  have hall (held : List (String × Value))
      (hnames : held.Pairwise fun left right => left.1 < right.1)
      (hheld : ∀ member ∈ held, member.2.Nested kept depth) :
      (Value.object (members.foldl (fun held member => insertMember member.1 member.2 held)
        held)).Nested kept (depth + 1) := by
    induction members generalizing held with
    | nil => exact .object hnames hheld
    | cons member members ih =>
      obtain ⟨hfirst, hothers⟩ := List.forall_mem_cons.mp hmembers
      refine ih hothers _ (pairwise_insertMember hnames) fun other hother => ?_
      rcases mem_insertMember hother with rfl | hother
      · exact hfirst
      · exact hheld other hother
  exact hall [] List.Pairwise.nil (List.forall_mem_nil _)

/-- A value without binary numbers. -/
inductive IsExact : Value → Prop
  | null : IsExact .null
  | boolean (value : Bool) : IsExact (.boolean value)
  | integer (value : Int) : IsExact (.number (.integer value))
  | text (value : String) : IsExact (.text value)
  | list {items : List Value} (hitems : ∀ item ∈ items, IsExact item) : IsExact (.list items)
  | object {members : List (String × Value)} (hmembers : ∀ member ∈ members, IsExact member.2) :
      IsExact (.object members)

theorem Nested.isPlain {value : Value} (hnested : value.Nested Number.Fits depth)
    (hexact : value.IsExact) : value.IsPlain depth := by
  induction hnested with
  | null => exact .null _
  | boolean => exact .boolean _ _
  | number _ hfits =>
    cases hexact with
    | integer value => exact .number _ hfits
  | text => exact .text _ _
  | list _ ih =>
    cases hexact with
    | list hitems => exact .list fun item hitem => ih item hitem (hitems item hitem)
  | object hnames _ ih =>
    cases hexact with
    | object hmembers =>
      exact .object hnames fun member hmember => ih member hmember (hmembers member hmember)

end Value

/-- A value is read as deep as its reader goes. -/
theorem yields_readValue (depth : Nat) :
    Yields (readValue depth) (Value.Nested Number.Fits depth) := by
  induction depth with
  | zero =>
    intro text value rest hread
    rw [readValue] at hread
    split at hread
    case h_1 => cases hread
    case h_6 => cases hread
    case h_7 => cases hread
    all_goals
      obtain ⟨read, hpart, hvalue⟩ := Option.map_eq_some_iff.mp hread
      obtain ⟨rfl, -⟩ := Prod.mk.inj hvalue
    · exact .null 0
    · exact .boolean 0 true
    · exact .boolean 0 false
    · exact .text 0 _
    · exact .number 0 (yields_readNumber _ _ _ hpart)
  | succ depth ih =>
    intro text value rest hread
    rw [readValue] at hread
    split at hread
    case h_1 => cases hread
    all_goals
      obtain ⟨read, hpart, hvalue⟩ := Option.map_eq_some_iff.mp hread
      obtain ⟨rfl, -⟩ := Prod.mk.inj hvalue
    · exact .null _
    · exact .boolean _ true
    · exact .boolean _ false
    · exact .text _ _
    · exact .list (yields_readSequence ih _ _ _ _ hpart)
    · exact Value.nested_ofMembers (yields_readSequence (yields_readMember ih) _ _ _ _ hpart)
    · exact .number _ (yields_readNumber _ _ _ hpart)

/-! ## Records -/

section Records

variable {α : Type} {good : RecordField α → α → Prop}

/-- Slots for `fields`, each empty or filled with what is good for its field. -/
def FilledFor (good : RecordField α → α → Prop) (fields : List (RecordField α))
    (slots : List (Option α)) : Prop :=
  List.Forall₂ (fun field slot => ∀ value ∈ slot, good field value) fields slots

theorem filledFor_none (fields : List (RecordField α)) :
    FilledFor good fields (List.replicate fields.length none) := by
  induction fields with
  | nil => exact .nil
  | cons field fields ih => exact .cons (by rintro value ⟨⟩) ih

theorem FilledFor.set {fields : List (RecordField α)} {slots : List (Option α)}
    (hfilled : FilledFor good fields slots) {position : Nat} {field : RecordField α} {value : α}
    (hfield : fields[position]? = some field) (hgood : good field value) :
    FilledFor good fields (slots.set position (some value)) := by
  induction hfilled generalizing position with
  | nil => exact .nil
  | @cons first slot fields slots hfirst hothers ih =>
    cases position with
    | zero =>
      obtain rfl := Option.some.inj hfield
      exact .cons (by rintro _ ⟨⟩; exact hgood) hothers
    | succ position => exact .cons hfirst (ih hfield)

/-- What a member of an object gives is good for the field at its position. -/
theorem yields_readFieldMember {fields : List (RecordField α)}
    (hfields : ∀ field ∈ fields, Yields field.reader (good field)) :
    Yields (readFieldMember fields) fun member =>
      ∀ read ∈ member, ∃ field, fields[read.1]? = some field ∧ good field read.2 := by
  intro text member rest hread
  obtain ⟨⟨name, afterName⟩, -, hread⟩ := Option.bind_eq_some_iff.mp hread
  obtain ⟨⟨_, afterColon⟩, -, hread⟩ := Option.bind_eq_some_iff.mp hread
  dsimp only at hread
  split at hread
  next =>
    obtain ⟨_, -, hread⟩ := Option.bind_eq_some_iff.mp hread
    obtain ⟨rfl, -⟩ := Prod.mk.inj (Option.some.inj hread)
    rintro read ⟨⟩
  next position _ =>
    obtain ⟨field, hfield, hread⟩ := Option.bind_eq_some_iff.mp hread
    obtain ⟨⟨value, last⟩, hvalue, hread⟩ := Option.bind_eq_some_iff.mp hread
    obtain ⟨rfl, -⟩ := Prod.mk.inj (Option.some.inj hread)
    rintro _ ⟨⟩
    exact ⟨field, hfield, hfields field (List.mem_of_getElem? hfield) _ _ _ hvalue⟩

theorem filledFor_of_fillSlots {fields : List (RecordField α)} {slots filled : List (Option α)}
    {members : List (Option (Nat × α))} (hslots : FilledFor good fields slots)
    (hmembers : ∀ member ∈ members, ∀ read ∈ member,
      ∃ field, fields[read.1]? = some field ∧ good field read.2)
    (hfill : fillSlots slots members = some filled) : FilledFor good fields filled := by
  induction members generalizing slots with
  | nil => exact Option.some.inj hfill ▸ hslots
  | cons member members ih =>
    obtain ⟨hmember, hothers⟩ := List.forall_mem_cons.mp hmembers
    cases member with
    | none => exact ih hslots hothers hfill
    | some read =>
      obtain ⟨position, value⟩ := read
      obtain ⟨field, hfield, hgood⟩ := hmember (position, value) rfl
      rw [fillSlots] at hfill
      split at hfill
      next => exact ih (hslots.set hfield hgood) hothers hfill
      next => cases hfill

/-- The value of one field, followed by those of the others. -/
theorem yields_fields {field : RecordField α} {fields : List (RecordField α)}
    (hfield : Yields field.reader (good field))
    (hothers : Yields (readFollowingFields fields) (FilledFor good fields)) :
    Yields
      (fun text => do
        let (value, rest) ← field.reader text
        let (others, rest) ← readFollowingFields fields rest
        some (some value :: others, rest))
      (FilledFor good (field :: fields)) := by
  intro text slots rest hread
  obtain ⟨⟨value, afterValue⟩, hvalue, hread⟩ := Option.bind_eq_some_iff.mp hread
  obtain ⟨⟨others, last⟩, hlater, hread⟩ := Option.bind_eq_some_iff.mp hread
  obtain ⟨rfl, -⟩ := Prod.mk.inj (Option.some.inj hread)
  refine .cons ?_ (hothers _ _ _ hlater)
  rintro _ ⟨⟩
  exact hfield _ _ _ hvalue

theorem yields_readFollowingFields {fields : List (RecordField α)}
    (hfields : ∀ field ∈ fields, Yields field.reader (good field)) :
    Yields (readFollowingFields fields) (FilledFor good fields) := by
  induction fields with
  | nil =>
    intro text slots rest hread
    rw [readFollowingFields] at hread
    split at hread
    next =>
      obtain ⟨rfl, -⟩ := Prod.mk.inj (Option.some.inj hread)
      exact .nil
    next => cases hread
  | cons field fields ih =>
    obtain ⟨hfield, hothers⟩ := List.forall_mem_cons.mp hfields
    intro text slots rest hread
    rw [readFollowingFields] at hread
    split at hread
    next =>
      obtain ⟨rfl, -⟩ := Prod.mk.inj (Option.some.inj hread)
      exact filledFor_none (field :: fields)
    next => exact yields_fields hfield (ih hothers) _ _ _ hread
    next => cases hread

theorem yields_readFieldList {fields : List (RecordField α)}
    (hfields : ∀ field ∈ fields, Yields field.reader (good field)) :
    Yields (readFieldList fields) (FilledFor good fields) := by
  cases fields with
  | nil => exact yields_readFollowingFields hfields
  | cons field fields =>
    obtain ⟨hfield, hothers⟩ := List.forall_mem_cons.mp hfields
    intro text slots rest hread
    rw [readFieldList] at hread
    split at hread
    next =>
      obtain ⟨rfl, -⟩ := Prod.mk.inj (Option.some.inj hread)
      exact filledFor_none (field :: fields)
    next => exact yields_fields hfield (yields_readFollowingFields hothers) _ _ _ hread

/-- Slots of a record are filled by the readers of its fields. -/
theorem yields_readRecord (good : RecordField α → α → Prop) {fields : List (RecordField α)}
    (hfields : ∀ field ∈ fields, Yields field.reader (good field)) :
    Yields (readRecord fields) (FilledFor good fields) := by
  intro text slots rest hread
  unfold readRecord at hread
  split at hread
  next =>
    obtain ⟨⟨members, last⟩, hmembers, hread⟩ := Option.bind_eq_some_iff.mp hread
    obtain ⟨filled, hfilled, hread⟩ := Option.bind_eq_some_iff.mp hread
    obtain ⟨rfl, -⟩ := Prod.mk.inj (Option.some.inj hread)
    have hgood := yields_readSequence (yields_readFieldMember hfields) _ _ _ _ hmembers
    exact filledFor_of_fillSlots (filledFor_none fields) hgood hfilled
  next => exact yields_readFieldList hfields _ _ _ hread
  next => cases hread

end Records

end FragmentLifecycle.Json
