import FragmentLifecycle.Lifecycle.Status
import FragmentLifecycle.Proofs.JsonReadings
import FragmentLifecycle.Proofs.QueryTexts
import FragmentLifecycle.Proofs.RecordTexts

/-!
# Records on the wire

Handles, nodes, principals and plans are read back from what is written of them, and from every
other form that a sender may choose.  Whatever text they are read from, writing them gives one
canonical text (`wire_records_round_trip`).
-/

namespace FragmentLifecycle

open Json

section Canonical

variable {α : Type} {read : Reader α} {toValue : α → Value} {Form : α → Value → Prop}
  {record : α}

/-- What is written of what is read from `text`. -/
def rewrite (read : Reader α) (toValue : α → Value) (text : String) : Option String :=
  (readAll read text).map fun record => (toValue record).toText

/-- The written text of a record is read back and stays what it is.  Every text that the record is
read from becomes the written one, which alone is left unchanged, and is the text of no other
record.  Among those texts are the forms of the record. -/
structure RoundTrips (read : Reader α) (toValue : α → Value) (Form : α → Value → Prop)
    (record : α) : Prop where
  reads_back : readAll read (toValue record).toText = some record
  writes_again :
    rewrite read toValue (toValue record).toText = some (toValue record).toText
  canonical : ∀ text, readAll read text = some record →
    rewrite read toValue text = some (toValue record).toText ∧
      (rewrite read toValue text = some text → text = (toValue record).toText)
  told_apart : ∀ other, readAll read (toValue other).toText = some other →
    (toValue other).toText = (toValue record).toText → other = record
  forms : ∀ value, Form record value → readAll read value.toText = some record

theorem rewrite_of_readAll (toValue : α → Value) {text : String}
    (hread : readAll read text = some record) :
    rewrite read toValue text = some (toValue record).toText := by
  rw [rewrite, hread]
  rfl

theorem roundTrips_of_reads (hwritten : Form record (toValue record))
    (hforms : ∀ value, Form record value → Reads read value.write record) :
    RoundTrips read toValue Form record where
  reads_back := (hforms _ hwritten).readAll
  writes_again := rewrite_of_readAll _ (hforms _ hwritten).readAll
  canonical text hread := by
    have hrewrite := rewrite_of_readAll toValue hread
    exact ⟨hrewrite, fun hsame => Option.some.inj (hsame.symm.trans hrewrite)⟩
  told_apart other hother hsame := by
    have hback := (hforms _ hwritten).readAll
    rw [← Value.toText, ← hsame, hother] at hback
    exact Option.some.inj hback
  forms value hform := (hforms value hform).readAll

/-- A record that is made of what its fields hold. -/
theorem reads_of_slots {reader : Reader (List (Option Value))}
    {make : List (Option Value) → Option α} {text : List Char} {slots : List (Option Value)}
    (hreads : Reads reader text slots) (hmake : make slots = some record) :
    Reads (fun text => do
      let (slots, rest) ← reader text
      let record ← make slots
      some (record, rest)) text record := by
  refine ⟨hreads.begins, fun rest hstop => ?_⟩
  simp only [hreads.reads rest hstop, Option.bind_eq_bind, Option.bind_some, hmake]

end Canonical

/-! ## Fields -/

theorem isPlain_ofNatural {number : Nat} (hnumber : number < 2 ^ 64) (depth : Nat) :
    (Value.ofNatural number).IsPlain depth :=
  .number depth ⟨by omega, by omega⟩

theorem natural?_ofNatural {number bound : Nat} (hnumber : number < bound) :
    (Value.ofNatural number).natural? bound = some number :=
  if_pos hnumber

theorem holdsFor_of_isPlain (name : String) {value : Value} {depth : Nat}
    (hplain : value.IsPlain depth) : HoldsFor ⟨name, readValue depth⟩ (name, value) :=
  ⟨rfl, hplain.reads_write⟩

/-! ## Handles -/

namespace Handle

/-- The forms of a handle.  The identifier of its query comes in any spelling. -/
def Form (handle : Handle) (value : Value) : Prop :=
  ∃ spelling : String, handle.query.Spells spelling.toList ∧
    RecordForm (fields.map RecordField.name)
      [("query_id", .text spelling),
       ("major_fragment_id", .ofNatural handle.major.toNat),
       ("minor_fragment_id", .ofNatural handle.minor.toNat)] value

theorem reads_form (handle : Handle) {value : Value} (hform : handle.Form value) :
    Reads read value.write handle := by
  obtain ⟨spelling, hspells, hform⟩ := hform
  have hbound (number : UInt32) : number.toNat < 2 ^ 64 :=
    Nat.lt_trans number.toNat_lt (by decide)
  have hquery := QueryId.ofText_eq_some_iff.mpr hspells
  have hmajor := natural?_ofNatural handle.major.toNat_lt
  have hminor := natural?_ofNatural handle.minor.toNat_lt
  have hreads := hform.reads fields []
    (.cons (holdsFor_of_isPlain _ (.text 0 spelling)) (.cons
      (holdsFor_of_isPlain _ (isPlain_ofNatural (hbound handle.major) 0)) (.cons
      (holdsFor_of_isPlain _ (isPlain_ofNatural (hbound handle.minor) 0)) .nil)))
    (by decide)
  refine reads_of_slots hreads ?_
  change ofSlots [_, _, _] = _
  simp only [ofSlots, Value.text?, Option.bind_eq_bind, Option.bind_some, hquery, hmajor, hminor,
    UInt32.size, UInt32.ofNat_toNat]

theorem form_toValue (handle : Handle) : handle.Form handle.toValue :=
  ⟨handle.query.text, handle.query.spells_text, .written _ _⟩

end Handle

/-! ## Nodes -/

namespace Node

/-- The forms of a node. -/
def Form (node : Node) (value : Value) : Prop :=
  RecordForm (fields.map RecordField.name)
    [("address", .text node.address),
     ("user_port", .ofNatural node.userPort.toNat),
     ("control_port", .ofNatural node.controlPort.toNat),
     ("data_port", .ofNatural node.dataPort.toNat)] value

theorem reads_form (node : Node) {value : Value} (hform : node.Form value) :
    Reads read value.write node := by
  have hport (name : String) (port : UInt16) :
      HoldsFor (plainField name) (name, .ofNatural port.toNat) :=
    holdsFor_of_isPlain _ (isPlain_ofNatural (Nat.lt_trans port.toNat_lt (by decide)) 0)
  have hreads := RecordForm.reads fields [] hform
    (.cons (holdsFor_of_isPlain _ (.text 0 node.address))
      (.cons (hport _ _) (.cons (hport _ _) (.cons (hport _ _) .nil)))) (by decide)
  refine reads_of_slots hreads ?_
  change ofSlots [_, _, _, _] = _
  simp only [ofSlots, Value.text?, Option.bind_eq_bind, Option.bind_some, UInt16.size,
    natural?_ofNatural node.userPort.toNat_lt, natural?_ofNatural node.controlPort.toNat_lt,
    natural?_ofNatural node.dataPort.toNat_lt, UInt16.ofNat_toNat]

theorem form_toValue (node : Node) : node.Form node.toValue :=
  .written _ _

end Node

/-! ## Principals -/

namespace Principal

/-- The forms of a principal: a name, or an object with one member. -/
inductive Form : Principal → Value → Prop
  | name : Form .processUser (.text "process_user")
  | member : Form .processUser (.object [("process_user", .null)])
  | proxy (user : String) : Form (.proxy user) (.object [("proxy", .text user)])

theorem write_member (name : String) (value : Value) (rest : List Char) :
    (Value.object [(name, value)]).write ++ rest =
      '\x7b' :: (quote name ++ ':' :: (value.write ++ '\x7d' :: rest)) := by
  simp [Value.write, writeMembers]

theorem reads_form {principal : Principal} {value : Value} (hform : principal.Form value) :
    Reads read value.write principal := by
  cases hform with
  | name =>
    refine ⟨⟨'"', _, rfl, by decide⟩, fun rest _ => ?_⟩
    have hname := readStringBody_quote "process_user" rest
    rw [Value.write, read, quote_append, readName, skipSpace_cons rfl]
    simp only [hname, Option.bind_eq_bind, Option.bind_some]
    rfl
  | member =>
    refine ⟨⟨'\x7b', _, rfl, by decide⟩, fun rest _ => ?_⟩
    rw [write_member, read, readName, skipSpace_cons rfl]
    simp only [readString_quote, readColon_cons, Option.bind_eq_bind, Option.bind_some]
    rfl
  | proxy user =>
    refine ⟨⟨'\x7b', _, rfl, by decide⟩, fun rest _ => ?_⟩
    have hother : ([("process_user", processUser)] : List (String × Principal)).lookup "proxy" =
        none := by decide
    rw [write_member, read, readName, readProxy, skipSpace_cons rfl]
    simp only [readString_quote, hother, readColon_cons, Option.bind_eq_bind, Option.bind_some,
      Option.bind_none, Option.none_or, Value.write, skipSpace_closing (.inr rfl), if_true]

theorem form_toValue (principal : Principal) : principal.Form principal.toValue := by
  cases principal with
  | processUser => exact .name
  | proxy user => exact .proxy user

end Principal

/-! ## Plans -/

namespace RootPlan

/-- The forms of a plan.  One that holds nothing may be missing. -/
def Form (root : RootPlan) (value : Value) : Prop :=
  RecordForm (fields.map RecordField.name)
      [("operator", .text root.operator), ("plan", root.plan)] value ∨
    root.plan = .null ∧
      RecordForm (fields.map RecordField.name) [("operator", .text root.operator)] value

theorem form_toValue (root : RootPlan) : root.Form root.toValue :=
  .inl (.written _ _)

theorem isPlain_toValue {root : RootPlan} :
    root.toValue.IsPlain nestingLimit ↔ root.plan.IsPlain (nestingLimit - 1) := by
  constructor
  · intro hplain
    cases hplain with
    | object _ hmembers => exact hmembers ("plan", root.plan) (by simp)
  · intro hplain
    have hnames : "operator" < "plan" := by decide
    refine .object ?_ ?_
    · exact .cons (List.forall_mem_singleton.mpr hnames) (List.pairwise_singleton _ _)
    · exact List.forall_mem_cons.mpr ⟨.text _ _, List.forall_mem_singleton.mpr hplain⟩

theorem reads_form {root : RootPlan} (hplan : root.plan.IsPlain (nestingLimit - 1)) {value : Value}
    (hform : root.Form value) : Reads read value.write root := by
  have hoperator := holdsFor_of_isPlain "operator" (.text 0 root.operator)
  rcases hform with hform | ⟨hnull, hform⟩
  · have hreads := hform.reads fields []
      (.cons hoperator (.cons (holdsFor_of_isPlain _ hplan) .nil)) (by decide)
    exact reads_of_slots hreads rfl
  · have hreads := hform.reads [plainField "operator"]
      [⟨"plan", readValue (nestingLimit - 1)⟩] (.cons hoperator .nil) (by decide)
    refine reads_of_slots hreads ?_
    obtain ⟨operator, plan⟩ := root
    obtain rfl := hnull
    rfl

/-- A plan that is read is no deeper than a text may be. -/
theorem yields_read :
    Yields read fun root => root.plan.Nested Number.Fits (nestingLimit - 1) := by
  intro text root rest hread
  obtain ⟨⟨slots, last⟩, hslots, hread⟩ := Option.bind_eq_some_iff.mp hread
  obtain ⟨made, hmade, hread⟩ := Option.bind_eq_some_iff.mp hread
  obtain ⟨rfl, -⟩ := Prod.mk.inj (Option.some.inj hread)
  have hfields : ∀ field ∈ fields,
      Yields field.reader (Value.Nested Number.Fits (nestingLimit - 1)) := by
    refine List.forall_mem_cons.mpr ⟨fun text value rest hvalue => ?_, ?_⟩
    · exact (yields_readValue 0 text value rest hvalue).mono (Nat.zero_le _)
    · exact List.forall_mem_singleton.mpr (yields_readValue (nestingLimit - 1))
  have hfilled := yields_readRecord (fun _ => Value.Nested Number.Fits (nestingLimit - 1))
    hfields _ _ _ hslots
  unfold ofSlots at hmade
  split at hmade
  next operator plan =>
    obtain ⟨name, -, hmade⟩ := Option.bind_eq_some_iff.mp hmade
    obtain rfl := Option.some.inj hmade
    cases hfilled with
    | cons _ hplan =>
      cases hplan with
      | cons hplan _ =>
        cases plan with
        | none => exact .null _
        | some plan => exact hplan plan rfl
  next => cases hmade

end RootPlan

/-! ## Round trips -/

/-- Every handle, node and principal, and every plan of integers that a text can hold, is read back
from what is written of it, and writing it again gives the same text.  From whatever text one of
them is read, writing gives its one canonical text; and a plan of integers that was read is one
that a text can hold. -/
theorem wire_records_round_trip :
    (∀ handle, RoundTrips Handle.read Handle.toValue Handle.Form handle) ∧
      (∀ node, RoundTrips Node.read Node.toValue Node.Form node) ∧
      (∀ principal, RoundTrips Principal.read Principal.toValue Principal.Form principal) ∧
      (∀ root : RootPlan, root.toValue.IsPlain nestingLimit →
        RoundTrips RootPlan.read RootPlan.toValue RootPlan.Form root) ∧
      ∀ text root, readAll RootPlan.read text = some root → root.plan.IsExact →
        root.toValue.IsPlain nestingLimit := by
  refine ⟨fun handle => ?_, fun node => ?_, fun principal => ?_, fun root hplain => ?_,
    fun text root hread hexact => ?_⟩
  · exact roundTrips_of_reads handle.form_toValue fun value => handle.reads_form
  · exact roundTrips_of_reads node.form_toValue fun value => node.reads_form
  · exact roundTrips_of_reads principal.form_toValue fun value => Principal.reads_form
  · have hplan := RootPlan.isPlain_toValue.mp hplain
    exact roundTrips_of_reads root.form_toValue fun value => RootPlan.reads_form hplan
  · exact RootPlan.isPlain_toValue.mpr ((RootPlan.yields_read.readAll hread).isPlain hexact)

/-- Characters that are escaped in a plan, beside ones that are not. -/
def escapedPlan : RootPlan where
  operator := "scan"
  plan := .object
    [("limits", .list [.null, .number (.integer (-1)), .boolean true]),
     ("name", .text (String.ofList ['"', '\\', '\n', 'é']))]

theorem wire_records_round_trip_of_escapedPlan :
    escapedPlan.toValue.IsPlain nestingLimit ∧
      RoundTrips RootPlan.read RootPlan.toValue RootPlan.Form escapedPlan := by
  have hnumber : (Number.integer (-1)).IsInteger := by
    constructor
    · decide
    · decide
  have hlimits : (Value.list [.null, .number (.integer (-1)), .boolean true]).IsPlain 125 := by
    refine .list ?_
    simp only [List.forall_mem_cons, List.not_mem_nil, false_implies, implies_true, and_true]
    exact ⟨.null _, .number _ hnumber, .boolean _ _⟩
  have hplan : escapedPlan.plan.IsPlain (nestingLimit - 1) := by
    have hnames : "limits" < "name" := by decide
    refine .object ?_ ?_
    · exact .cons (List.forall_mem_singleton.mpr hnames) (List.pairwise_singleton _ _)
    · exact List.forall_mem_cons.mpr ⟨hlimits, List.forall_mem_singleton.mpr (.text _ _)⟩
  have hplain := RootPlan.isPlain_toValue.mpr hplan
  exact ⟨hplain, wire_records_round_trip.2.2.2.1 escapedPlan hplain⟩

/-- A node from a list, in its canonical text. -/
example : rewrite Node.read Node.toValue " [\"a\", 1,2 ,3]" =
    some "\x7b\"address\":\"a\",\"user_port\":1,\"control_port\":2,\"data_port\":3\x7d" := by
  decide +kernel

end FragmentLifecycle
