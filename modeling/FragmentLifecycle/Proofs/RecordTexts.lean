import FragmentLifecycle.Json.Record
import FragmentLifecycle.Proofs.JsonTexts

/-!
# Forms of records

A record is read from an object whose members come in any order, among members that no field is
called by, and from a list of the values of its first fields (`RecordForm.reads`).  Fields that
have no value there are left empty.
-/

namespace FragmentLifecycle.Json

/-! ## Slots -/

section Slots

variable {α : Type}

theorem fillSlots_free {slots : List (Option α)} {position : Nat} {value : α}
    {members : List (Option (Nat × α))} (hslot : slots[position]? = some none) :
    fillSlots slots (some (position, value) :: members) =
      fillSlots (slots.set position (some value)) members := by
  rw [fillSlots, hslot]

theorem fillSlots_taken {slots : List (Option α)} {position : Nat} {value : α}
    {members : List (Option (Nat × α))} (hslot : slots[position]? ≠ some none) :
    fillSlots slots (some (position, value) :: members) = none := by
  rw [fillSlots]
  split
  next hfree => exact absurd hfree hslot
  next => rfl

/-- One slot is not filled twice. -/
theorem fillSlots_twice (slots : List (Option α)) (position : Nat) (first second : α)
    (members : List (Option (Nat × α))) :
    fillSlots slots (some (position, first) :: some (position, second) :: members) = none := by
  by_cases hslot : slots[position]? = some none
  · rw [fillSlots_free hslot, fillSlots_taken]
    rw [List.getElem?_set_self (List.getElem?_eq_some_iff.mp hslot).1]
    exact fun heq => Option.some_ne_none _ (Option.some.inj heq)
  · exact fillSlots_taken hslot

/-- Two slots are filled in either order. -/
theorem fillSlots_swap (first second : Option (Nat × α)) (members : List (Option (Nat × α)))
    (slots : List (Option α)) :
    fillSlots slots (first :: second :: members) =
      fillSlots slots (second :: first :: members) := by
  match first, second with
  | none, none => rfl
  | none, some second => simp only [fillSlots]
  | some first, none => simp only [fillSlots]
  | some (left, first), some (right, second) =>
    by_cases hsame : left = right
    · rw [hsame, fillSlots_twice, fillSlots_twice]
    · have hleft (value : Option α) : (slots.set right value)[left]? = slots[left]? :=
        List.getElem?_set_ne (Ne.symm hsame)
      have hright (value : Option α) : (slots.set left value)[right]? = slots[right]? :=
        List.getElem?_set_ne hsame
      by_cases hfirst : slots[left]? = some none
      · by_cases hsecond : slots[right]? = some none
        · rw [fillSlots_free hfirst, fillSlots_free ((hright _).trans hsecond),
            fillSlots_free hsecond, fillSlots_free ((hleft _).trans hfirst),
            List.set_comm _ _ hsame]
        · rw [fillSlots_free hfirst, fillSlots_taken hsecond, fillSlots_taken]
          rwa [hright]
      · by_cases hsecond : slots[right]? = some none
        · rw [fillSlots_taken hfirst, fillSlots_free hsecond, fillSlots_taken]
          rwa [hleft]
        · rw [fillSlots_taken hfirst, fillSlots_taken hsecond]

/-- Slots are filled alike in every order. -/
theorem fillSlots_perm {left right : List (Option (Nat × α))} (hperm : left.Perm right)
    (slots : List (Option α)) : fillSlots slots left = fillSlots slots right := by
  induction hperm generalizing slots with
  | nil => rfl
  | cons member _ ih =>
    cases member with
    | none => exact ih slots
    | some read =>
      rw [fillSlots, fillSlots]
      split
      · exact ih _
      · rfl
  | swap second first others => exact fillSlots_swap first second others slots
  | trans _ _ ihLeft ihRight => exact (ihLeft slots).trans (ihRight slots)

theorem fillSlots_append_none {members skipped : List (Option (Nat × α))}
    (hskipped : ∀ member ∈ skipped, member = none) (slots : List (Option α)) :
    fillSlots slots (skipped ++ members) = fillSlots slots members := by
  induction skipped with
  | nil => rfl
  | cons member skipped ih =>
    obtain ⟨rfl, hothers⟩ := List.forall_mem_cons.mp hskipped
    exact ih hothers

end Slots

/-! ## Members -/

section Members

variable {fields before after : List (RecordField Value)} {field : RecordField Value}
  {member : String × Value}

/-- `member` is called by the name of `field` and holds what its reader takes. -/
structure HoldsFor (field : RecordField Value) (member : String × Value) : Prop where
  name : field.name = member.1
  reads : Reads field.reader member.2.write member.2

theorem position?_of_nodup (hnames : ((before ++ field :: after).map RecordField.name).Nodup) :
    position? field.name (before ++ field :: after) = some before.length := by
  have hbefore : field.name ∉ before.map RecordField.name := by
    rw [List.map_append, List.map_cons, List.nodup_append] at hnames
    exact fun hmem => hnames.2.2 _ hmem _ List.mem_cons_self rfl
  clear hnames
  induction before with
  | nil => exact if_pos rfl
  | cons first before ih =>
    obtain ⟨hne, hothers⟩ := List.ne_and_not_mem_of_not_mem_cons hbefore
    rw [List.cons_append, position?, if_neg (Ne.symm hne), ih hothers]
    rfl

theorem position?_of_notMem {name : String} (hname : name ∉ fields.map RecordField.name) :
    position? name fields = none := by
  induction fields with
  | nil => rfl
  | cons first fields ih =>
    obtain ⟨hne, hothers⟩ := List.ne_and_not_mem_of_not_mem_cons hname
    rw [position?, if_neg (Ne.symm hne), ih hothers]
    rfl

/-- What a member gives to the slots of `fields`. -/
def slotOf (fields : List (RecordField Value)) (member : String × Value) : Option (Nat × Value) :=
  (position? member.1 fields).map fun position => (position, member.2)

theorem reads_known (hnames : (fields.map RecordField.name).Nodup) (hfield : field ∈ fields)
    (hholds : HoldsFor field member) :
    Reads (readFieldMember fields) (memberText member) (slotOf fields member) := by
  obtain ⟨name, value⟩ := member
  obtain ⟨rfl, hreads⟩ := hholds
  obtain ⟨before, after, rfl⟩ := List.append_of_mem hfield
  have hposition := position?_of_nodup hnames
  have hat : (before ++ field :: after)[before.length]? = some field := by simp
  refine ⟨⟨'"', _, rfl, by decide⟩, fun rest hstop => ?_⟩
  have hvalue := hreads.reads rest hstop
  rw [memberText, List.append_assoc, readFieldMember, readString_quote, slotOf]
  simp only [Option.bind_eq_bind, Option.bind_some, List.cons_append, readColon_cons,
    hposition, hat, hvalue, Option.map_some]

theorem reads_unknown (hname : member.1 ∉ fields.map RecordField.name) {depth : Nat}
    (hplain : member.2.IsPlain depth) :
    Reads (readFieldMember fields) (memberText member) none := by
  have hposition := position?_of_notMem hname
  refine ⟨⟨'"', _, rfl, by decide⟩, fun rest hstop => ?_⟩
  have hskip := hplain.skipValue_write.reads rest hstop
  rw [memberText, List.append_assoc, readFieldMember, readString_quote]
  simp only [Option.bind_eq_bind, Option.bind_some, List.cons_append, readColon_cons,
    hposition, hskip]

theorem fillSlots_next (filled empty : List (Option Value)) (value : Value)
    (members : List (Option (Nat × Value))) :
    fillSlots (filled ++ none :: empty) (some (filled.length, value) :: members) =
      fillSlots (filled ++ [some value] ++ empty) members := by
  rw [fillSlots_free]
  · rw [List.set_append_right _ _ (Nat.le_refl _), Nat.sub_self, List.set_cons_zero,
      ← List.append_cons]
  · rw [List.getElem?_append_right (Nat.le_refl _), Nat.sub_self]
    rfl

/-- Members of the first fields, in declared order, fill the first slots. -/
theorem fillSlots_known (before : List (RecordField Value)) {first later : List (RecordField Value)}
    {known : List (String × Value)} (hholds : List.Forall₂ HoldsFor first known)
    (hnames : ((before ++ first ++ later).map RecordField.name).Nodup)
    (filled : List (Option Value)) (hfilled : filled.length = before.length) :
    fillSlots (filled ++ List.replicate (first.length + later.length) none)
        (known.map (slotOf (before ++ first ++ later))) =
      some (filled ++ (known.map fun member => some member.2) ++
        List.replicate later.length none) := by
  induction hholds generalizing before filled with
  | nil => simp [fillSlots]
  | @cons field member first known hfield hothers ih =>
    have hlength : (filled ++ [some member.2]).length = (before ++ [field]).length := by
      simp [hfilled]
    have hsplit : before ++ field :: first ++ later = before ++ [field] ++ first ++ later := by
      simp
    have hslot : slotOf (before ++ field :: first ++ later) member =
        some (filled.length, member.2) := by
      rw [List.append_assoc, List.cons_append] at hnames ⊢
      rw [slotOf, ← hfield.name, position?_of_nodup hnames, hfilled]
      rfl
    rw [List.length_cons, Nat.add_right_comm, List.replicate_succ, List.map_cons, hslot,
      fillSlots_next, hsplit, ih (before ++ [field]) (hsplit ▸ hnames) _ hlength, List.map_cons,
      List.append_assoc filled, List.singleton_append]

end Members

/-! ## Forms -/

/-- The forms of a record with the members `known`, where `names` are those of its fields: an
object with these members in any order, among members of other names, or a list of what they
hold. -/
inductive RecordForm (names : List String) (known : List (String × Value)) : Value → Prop
  | object {members others : List (String × Value)} (hmembers : members.Perm (others ++ known))
      (hnames : ∀ other ∈ others, other.1 ∉ names)
      (hplain : ∀ other ∈ others, ∃ depth, other.2.IsPlain depth) :
      RecordForm names known (.object members)
  | list : RecordForm names known (.list (known.map Prod.snd))

/-- The form in which a record is written. -/
theorem RecordForm.written (names : List String) (known : List (String × Value)) :
    RecordForm names known (.object known) :=
  .object (List.Perm.refl _) (List.forall_mem_nil _) (List.forall_mem_nil _)

section Forms

variable {first later : List (RecordField Value)} {known : List (String × Value)}

/-- What the slots of fields hold where the first ones have a value. -/
def slotsOf (known : List (String × Value)) (later : List (RecordField Value)) :
    List (Option Value) :=
  (known.map fun member => some member.2) ++ List.replicate later.length none

theorem readFollowingFields_known (hholds : List.Forall₂ HoldsFor first known)
    (later : List (RecordField Value)) (rest : List Char) :
    readFollowingFields (first ++ later)
        (followingText ']' (known.map fun member => member.2.write) ++ rest) =
      some (slotsOf known later, rest) := by
  induction hholds with
  | nil =>
    cases later with
    | nil => rfl
    | cons field later => rfl
  | @cons field member first known hfield hothers ih =>
    have hvalue := hfield.reads.reads _
      (isStop_followingText (.inl rfl) (known.map fun member => member.2.write) rest)
    rw [List.map_cons, followingText, List.cons_append, List.cons_append, List.append_assoc,
      readFollowingFields, skipSpace_cons rfl]
    simp only [hvalue, ih, Option.bind_eq_bind, Option.bind_some]
    rfl

theorem readFieldList_known (hholds : List.Forall₂ HoldsFor first known)
    (later : List (RecordField Value)) (rest : List Char) :
    readFieldList (first ++ later)
        (sequenceText ']' (known.map fun member => member.2.write) ++ rest) =
      some (slotsOf known later, rest) := by
  cases hholds with
  | nil =>
    cases later with
    | nil => rfl
    | cons field later => rfl
  | @cons field member first known hfield hothers =>
    have hvalue := hfield.reads.reads _
      (isStop_followingText (.inl rfl) (known.map fun member => member.2.write) rest)
    have hlater := readFollowingFields_known hothers later rest
    obtain ⟨head, more, hhead, hspace, hbracket, -⟩ := hfield.reads.begins
    rw [hhead, List.cons_append] at hvalue
    rw [List.map_cons, sequenceText, List.cons_append, List.append_assoc, readFieldList, hhead,
      List.cons_append, skipSpace_cons hspace]
    split
    next heq => exact absurd (List.cons.inj heq).1 hbracket
    next =>
      simp only [hvalue, hlater, Option.bind_eq_bind, Option.bind_some]
      rfl

theorem exists_field_of_mem (hholds : List.Forall₂ HoldsFor first known)
    {member : String × Value} (hmember : member ∈ known) :
    ∃ field ∈ first, HoldsFor field member := by
  induction hholds with
  | nil => cases hmember
  | @cons field other first known hfield _ ih =>
    rcases List.mem_cons.mp hmember with rfl | hmember
    · exact ⟨field, List.mem_cons_self, hfield⟩
    · obtain ⟨field, hfirst, hheld⟩ := ih hmember
      exact ⟨field, List.mem_cons_of_mem _ hfirst, hheld⟩

theorem slotOf_of_notMem {fields : List (RecordField Value)} {member : String × Value}
    (hname : member.1 ∉ fields.map RecordField.name) : slotOf fields member = none := by
  rw [slotOf, position?_of_notMem hname]
  rfl

/-- Every member of an object is read: one that is called by a field for its slot, any other for
none. -/
theorem reads_members (hholds : List.Forall₂ HoldsFor first known)
    (hnames : ((first ++ later).map RecordField.name).Nodup) {others : List (String × Value)}
    (hothers : ∀ other ∈ others, other.1 ∉ (first ++ later).map RecordField.name)
    (hplain : ∀ other ∈ others, ∃ depth, other.2.IsPlain depth) :
    ∀ member ∈ others ++ known, Reads (readFieldMember (first ++ later)) (memberText member)
      (slotOf (first ++ later) member) := by
  refine List.forall_mem_append.mpr ⟨fun member hmember => ?_, fun member hmember => ?_⟩
  · obtain ⟨depth, hdepth⟩ := hplain member hmember
    rw [slotOf_of_notMem (hothers member hmember)]
    exact reads_unknown (hothers member hmember) hdepth
  · obtain ⟨field, hfield, hheld⟩ := exists_field_of_mem hholds hmember
    exact reads_known hnames (List.mem_append_left later hfield) hheld

/-- A record is read from each of its forms. -/
theorem RecordForm.reads (first later : List (RecordField Value)) {value : Value}
    (hform : RecordForm ((first ++ later).map RecordField.name) known value)
    (hholds : List.Forall₂ HoldsFor first known)
    (hnames : ((first ++ later).map RecordField.name).Nodup) :
    Reads (readRecord (first ++ later)) value.write (slotsOf known later) := by
  cases hform with
  | list =>
    refine ⟨⟨'[', _, rfl, by decide⟩, fun rest _ => ?_⟩
    rw [Value.write, writeItems_eq, List.map_map, List.cons_append, readRecord, skipSpace_cons rfl]
    exact readFieldList_known hholds later rest
  | @object members others hmembers hothers hplain =>
    refine ⟨⟨'\x7b', _, rfl, by decide⟩, fun rest _ => ?_⟩
    have hreads : List.Forall₂ (Reads (readFieldMember (first ++ later)))
        (members.map memberText) (members.map (slotOf (first ++ later))) := by
      rw [List.forall₂_map_left_iff, List.forall₂_map_right_iff, List.forall₂_same]
      exact fun member hmember => reads_members hholds hnames hothers hplain member
        (hmembers.mem_iff.mp hmember)
    have hslots : fillSlots (List.replicate (first ++ later).length none)
        (members.map (slotOf (first ++ later))) = some (slotsOf known later) := by
      have hskipped : ∀ slot ∈ others.map (slotOf (first ++ later)), slot = none := by
        refine List.forall_mem_map.mpr fun other hother => ?_
        exact slotOf_of_notMem (hothers other hother)
      have hfilled := fillSlots_known [] hholds hnames [] rfl
      rw [fillSlots_perm (hmembers.map _), List.map_append, fillSlots_append_none hskipped,
        List.length_append]
      exact hfilled
    rw [Value.write, writeMembers_eq, List.cons_append, readRecord, skipSpace_cons rfl]
    simp only [readSequence_sequenceText (.inr rfl) hreads, hslots, Option.bind_eq_bind,
      Option.bind_some]

end Forms

end FragmentLifecycle.Json
