import FragmentLifecycle.Execution.Executor

/-!
# Journals

Entries of a journal are counted by kind, and a journal is consistent where every record
agrees with what was recorded before it.
-/

namespace FragmentLifecycle

/-- The number of entries of a kind. -/
def tally (kind : Entry → Bool) (journal : List Record) : Nat :=
  journal.countP fun record => kind record.entry

section Tally

variable (kind : Entry → Bool) (journal : List Record)

@[simp]
theorem tally_nil : tally kind [] = 0 := rfl

@[simp]
theorem tally_append (thread : ThreadId) (entry : Entry) :
    tally kind (journal ++ [⟨thread, entry⟩]) = tally kind journal + (kind entry).toNat := by
  cases hkind : kind entry <;> simp [tally, List.countP_append, hkind]

theorem tally_split (record : Record) (later : List Record) :
    tally kind (journal ++ record :: later) =
      tally kind journal + (kind record.entry).toNat + tally kind later := by
  cases hkind : kind record.entry <;> simp [tally, hkind]
  omega

theorem tally_mono {later : List Record} (hearlier : journal <+: later) :
    tally kind journal ≤ tally kind later :=
  hearlier.sublist.countP_le

theorem tally_pos_iff :
    0 < tally kind journal ↔ ∃ record ∈ journal, kind record.entry = true :=
  List.countP_pos_iff

end Tally

/-- Every record agrees with the ones before it. -/
def Consistent (agrees : List Record → Record → Prop) (journal : List Record) : Prop :=
  ∀ before record after, journal = before ++ record :: after → agrees before record

namespace Consistent

variable {agrees : List Record → Record → Prop} {journal : List Record}

theorem nil : Consistent agrees [] := by
  intro before record after hsplit
  simp at hsplit

theorem append {record : Record} (hjournal : Consistent agrees journal)
    (hrecord : agrees journal record) : Consistent agrees (journal ++ [record]) := by
  intro before other after hsplit
  rcases List.eq_nil_or_concat after with rfl | ⟨between, last, rfl⟩
  · obtain ⟨rfl, hlast⟩ := List.append_inj' hsplit rfl
    cases hlast
    exact hrecord
  · have hparts : journal ++ [record] = (before ++ other :: between) ++ [last] := by
      simpa using hsplit
    exact hjournal before other between (List.append_inj' hparts rfl).1

theorem earlier {later : List Record} (hlater : Consistent agrees later)
    (hgrows : journal <+: later) : Consistent agrees journal := by
  obtain ⟨more, rfl⟩ := hgrows
  intro before record after hsplit
  exact hlater before record (after ++ more) (by simp [hsplit])

theorem init {record : Record} (hjournal : Consistent agrees (journal ++ [record])) :
    Consistent agrees journal :=
  hjournal.earlier (List.prefix_append _ _)

theorem last {record : Record} (hjournal : Consistent agrees (journal ++ [record])) :
    agrees journal record :=
  hjournal journal record [] rfl

end Consistent

end FragmentLifecycle
