import FragmentLifecycle.Proofs.LoneCalls
import FragmentLifecycle.Proofs.SettingsSources
import FragmentLifecycle.Proofs.SlotConservation

/-!
# Hosts for accepted settings

An accepted maximum is at least one, so a host that is made from accepted settings starts its
first fragment at once.  A host is made as long as there can be so many slots, but settings are
accepted beyond that (`System.host_of_accepted_settings`).
-/

namespace FragmentLifecycle

/-! ## Written numbers -/

namespace Environment

theorem lacks_of_lookup {environment : Environment} {key : String}
    (hlookup : environment.lookup key = none) : environment.Lacks key :=
  fun _ hholds => nomatch hlookup.symm.trans hholds

/-- A number that is written into the variable of a setting is given to it. -/
theorem gives_natural {environment : Environment} {setting : NumberSetting} {value : Nat}
    (hholds : environment.Holds setting.key (Text.natural value))
    (hleast : setting.least ≤ value) (hhighest : (value : Int) ≤ setting.bounds.highest) :
    setting.Gives environment value :=
  .inr ⟨_, _, hholds, Text.isTrimmed_natural value, Text.denotes_natural _ value, hleast, hhighest⟩

end Environment

namespace Settings

theorem one_le_maxConcurrent {environment : Environment} {hostName : String}
    {settings : Settings} (haccepted : ofEnvironment environment hostName = .ok settings) :
    1 ≤ settings.maxConcurrent := by
  have hsound := NumberSetting.isSound_of_mem_all .maxConcurrent (by simp [NumberSetting.all])
  exact Int.ofNat_le.mp ((ofEnvironment_eq_ok_iff.mp haccepted).maxConcurrent.range hsound).1

/-- Every maximum of 64 bits is accepted, zero apart. -/
theorem exists_accepted (hostName : String) {count : Nat} (hpositive : 1 ≤ count)
    (hbound : count < 2 ^ 64) :
    ∃ environment settings, ofEnvironment environment hostName = .ok settings ∧
      settings.maxConcurrent = count := by
  let environment : Environment :=
    [(NumberSetting.maxConcurrent.key, (Text.natural count).toUTF8)]
  have hlacks {key : String} (hkey : key ≠ NumberSetting.maxConcurrent.key) :
      environment.Lacks key :=
    Environment.lacks_of_lookup (by simp [environment, hkey])
  have hmax : NumberSetting.maxConcurrent.Gives environment count := by
    apply Environment.gives_natural
    · exact List.lookup_cons_self
    · exact Int.ofNat_le.mpr hpositive
    · exact Int.le_sub_one_of_lt (by exact_mod_cast hbound)
  have hdefault (setting : NumberSetting)
      (hkey : setting.key ≠ NumberSetting.maxConcurrent.key) :
      setting.Gives environment setting.default := .inl ⟨hlacks hkey, rfl⟩
  exact ⟨environment, _, ofEnvironment_of_gives (hdefault .userPort (by decide))
    (hdefault .controlPort (by decide)) (hdefault .dataPort (by decide)) hmax
    (hdefault .heapExitCode (by decide)), Int.toNat_natCast count⟩

end Settings

/-! ## Hosts -/

namespace Host

theorem ofSettings?_eq_none_iff {settings : Settings} :
    ofSettings? settings = none ↔ 2 ^ 61 ≤ settings.maxConcurrent := by
  have hlimit : Slots.limit + 1 = 2 ^ 61 := by decide
  rw [ofSettings?, Option.map_eq_none_iff, Slots.ofCount?]
  split <;> simp <;> omega

end Host

namespace System

/-- A new host starts any first fragment at once: the call is answered, the fragment is listed,
and a thread of its own is about to run it. -/
def StartsFirstFragment (host : Host) : Prop :=
  ∀ (fragments : List Fragment) (id : ExecutorId),
    ∃ after, (ofFragments fragments host).Performs (.start id none) after ∧
      after.signal 0 = .replied (.answer .started) ∧
      after.world.host.running = [((after.executor id).handle, id)] ∧
      after.frames 1 = [.hosted id (after.executor id).handle .start]

theorem startsFirstFragment_of_slots (spare : Nat) :
    StartsFirstFragment { slots := { free := spare + 1 } } :=
  fun _ _ => ⟨_, ⟨4, rfl, rfl⟩, rfl, rfl, rfl⟩

/-- Hosts for accepted settings.  Where there can be as many slots as the settings ask for, a
host is made and starts any first fragment at once.  Where there cannot, none is made, and
settings of this kind are accepted. -/
theorem host_of_accepted_settings (hostName : String) :
    (∀ environment settings, Settings.ofEnvironment environment hostName = .ok settings →
      (Host.ofSettings? settings = none ↔ 2 ^ 61 ≤ settings.maxConcurrent) ∧
      ∀ host, Host.ofSettings? settings = some host → StartsFirstFragment host) ∧
    ∀ count, 2 ^ 61 ≤ count → count < 2 ^ 64 →
      ∃ environment settings, Settings.ofEnvironment environment hostName = .ok settings ∧
        settings.maxConcurrent = count ∧ Host.ofSettings? settings = none := by
  constructor
  · intro environment settings haccepted
    refine ⟨Host.ofSettings?_eq_none_iff, fun host hhost => ?_⟩
    obtain ⟨spare, hspare⟩ := Nat.exists_eq_add_of_le' (Settings.one_le_maxConcurrent haccepted)
    rw [slots_of_settings hhost, hspare]
    exact startsFirstFragment_of_slots spare
  · intro count hmany hbound
    obtain ⟨environment, settings, haccepted, hcount⟩ :=
      Settings.exists_accepted hostName (Nat.le_trans (by decide) hmany) hbound
    exact ⟨environment, settings, haccepted, hcount,
      Host.ofSettings?_eq_none_iff.mpr (hcount.symm ▸ hmany)⟩

end System

end FragmentLifecycle
