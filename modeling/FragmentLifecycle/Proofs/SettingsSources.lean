import FragmentLifecycle.Proofs.Numerals
import FragmentLifecycle.Settings
import Mathlib.Algebra.Ring.Int.Defs
import Mathlib.Data.List.Forall2

/-!
# Where settings come from

Each number among the settings comes from the variable of its own name or from its default, and
a variable whose text is no such number is refused (`NumberSetting.read_eq_ok_iff`,
`NumberSetting.read_eq_error_iff`).  The variables are read in a fixed order, and the first one
that is refused is named in the error (`Settings.accepts_exactly_valid`).
-/

namespace FragmentLifecycle

/-! ## Words in either case -/

namespace Text

/-- `text` is `word`, with each letter in lower or upper case. -/
def Spells (word text : String) : Prop :=
  List.Forall₂ (fun letter character => character = letter ∨ character = letter.toUpper)
    word.toList text.toList

theorem toNat_toLower (character : Char) :
    character.toLower.toNat =
      if 65 ≤ character.toNat ∧ character.toNat ≤ 90 then character.toNat + 32
      else character.toNat := by
  have hrange : (character.val ≥ 'A'.val ∧ character.val ≤ 'Z'.val) ↔
      (65 ≤ character.toNat ∧ character.toNat ≤ 90) := Iff.rfl
  unfold Char.toLower
  split
  next hupper =>
    obtain ⟨hlow, hhigh⟩ := hrange.mp hupper
    rw [if_pos ⟨hlow, hhigh⟩]
    change (character.val + 32).toNat = _
    rw [UInt32.toNat_add]
    change (character.toNat + 32) % _ = _
    omega
  next hother => rw [if_neg (hrange.not.mp hother)]

theorem toNat_toUpper (character : Char) :
    character.toUpper.toNat =
      if 97 ≤ character.toNat ∧ character.toNat ≤ 122 then character.toNat - 32
      else character.toNat := by
  have hrange : ('a'.val ≤ character.val ∧ character.val ≤ 'z'.val) ↔
      (97 ≤ character.toNat ∧ character.toNat ≤ 122) := Iff.rfl
  unfold Char.toUpper
  split
  next hlower =>
    obtain ⟨hlow, hhigh⟩ := hrange.mp hlower
    rw [if_pos ⟨hlow, hhigh⟩]
    -- the distance to the upper case is subtracted modulo 2 ^ 32
    change (character.val + 4294967264).toNat = _
    rw [UInt32.toNat_add]
    change (character.toNat + 4294967264) % _ = _
    omega
  next hother => rw [if_neg (hrange.not.mp hother)]

theorem toLower_eq_iff {letter : Char} (hlower : letter.toLower = letter) (character : Char) :
    character.toLower = letter ↔ character = letter ∨ character = letter.toUpper := by
  rw [← Char.toNat_inj, toNat_toLower] at hlower ⊢
  rw [← Char.toNat_inj, ← Char.toNat_inj, toNat_toUpper]
  split_ifs at * <;> omega

theorem map_toLower_eq_iff {letters : List Char}
    (hlower : ∀ letter ∈ letters, letter.toLower = letter) (characters : List Char) :
    characters.map Char.toLower = letters ↔
      List.Forall₂ (fun letter character => character = letter ∨ character = letter.toUpper)
        letters characters := by
  induction letters generalizing characters with
  | nil => rw [List.map_eq_nil_iff, List.forall₂_nil_left_iff]
  | cons letter letters ih =>
      obtain ⟨hletter, hothers⟩ := List.forall_mem_cons.mp hlower
      cases characters with
      | nil => exact ⟨fun hword => (nomatch hword), fun hspelled => (nomatch hspelled)⟩
      | cons character characters =>
          rw [List.map_cons, List.cons.injEq, List.forall₂_cons, ih hothers,
            toLower_eq_iff hletter]

/-- A word in lower case is spelled by exactly the texts whose lower case it is. -/
theorem ofList_toLower_eq_iff {word : String}
    (hlower : ∀ letter ∈ word.toList, letter.toLower = letter) (text : String) :
    String.ofList (text.toList.map Char.toLower) = word ↔ Spells word text := by
  rw [Spells, ← map_toLower_eq_iff hlower]
  constructor
  · exact fun hword => by rw [← hword, String.toList_ofList]
  · exact fun hword => by rw [hword, String.ofList_toList]

end Text

/-! ## Variables -/

namespace Environment

variable (environment : Environment)

/-- A variable is set to a text. -/
def Holds (key text : String) : Prop :=
  environment.lookup key = some text.toUTF8

/-- A variable is unset, or its bytes are no UTF-8 text. -/
def Lacks (key : String) : Prop :=
  ∀ text, ¬environment.Holds key text

theorem fromUTF8?_eq_some_iff {bytes : ByteArray} {text : String} :
    String.fromUTF8? bytes = some text ↔ bytes = text.toUTF8 := by
  constructor
  · intro hread
    unfold String.fromUTF8? at hread
    split at hread
    next hvalid =>
      obtain rfl := Option.some.inj hread
      rfl
    next => cases hread
  · rintro rfl
    exact dif_pos text.isValidUTF8

theorem text?_eq_some_iff {key text : String} :
    environment.text? key = some text ↔ environment.Holds key text := by
  rw [text?, Option.bind_eq_some_iff]
  constructor
  · rintro ⟨bytes, hlookup, hread⟩
    rw [Holds, hlookup, fromUTF8?_eq_some_iff.mp hread]
  · exact fun hlookup => ⟨_, hlookup, fromUTF8?_eq_some_iff.mpr rfl⟩

theorem text?_eq_none_iff {key : String} :
    environment.text? key = none ↔ environment.Lacks key := by
  rw [Option.eq_none_iff_forall_ne_some]
  exact forall_congr' fun text => not_congr environment.text?_eq_some_iff

theorem Holds.unique {environment : Environment} {key text other : String}
    (htext : environment.Holds key text) (hother : environment.Holds key other) :
    text = other := by
  rw [← text?_eq_some_iff] at htext hother
  exact Option.some.inj (htext.symm.trans hother)

theorem text?_set (key other : String) (text : String) :
    (environment.set key text.toUTF8).text? other =
      if other = key then some text else environment.text? other := by
  by_cases hkey : other = key
  · rw [if_pos hkey, text?_eq_some_iff, Holds, set, hkey, List.lookup_cons_self]
  · have hfilter : (environment.filter fun entry => entry.1 != key).lookup other =
        environment.lookup other := by
      induction environment with
      | nil => rfl
      | cons entry rest ih =>
          rw [List.filter_cons]
          split
          next => rw [List.lookup_cons, List.lookup_cons, ih]
          next hremoved =>
            have hentry : entry.1 = key := by simpa using hremoved
            rw [ih, List.lookup_cons, beq_eq_false_iff_ne.mpr (hentry ▸ hkey)]
    rw [if_neg hkey, text?, set, List.lookup_cons, beq_eq_false_iff_ne.mpr hkey, text?, ← hfilter]

/-- A settings file adds the first entry of each variable that has no text. -/
theorem text?_merge (entries : List (String × String)) (key : String) :
    (environment.merge entries).text? key = (environment.text? key).or (entries.lookup key) := by
  induction entries generalizing environment with
  | nil => rw [merge, List.foldl_nil, List.lookup_nil, Option.or_none]
  | cons entry rest ih =>
      rw [merge, List.foldl_cons, ← merge, ih, complete]
      cases hbefore : environment.text? entry.1 with
      | some text =>
          by_cases hkey : key = entry.1
          · rw [hkey, hbefore]
            rfl
          · rw [List.lookup_cons, beq_eq_false_iff_ne.mpr hkey]
      | none =>
          dsimp only
          rw [text?_set]
          by_cases hkey : key = entry.1
          · rw [if_pos hkey, hkey, hbefore, List.lookup_cons_self]
            rfl
          · rw [if_neg hkey, List.lookup_cons, beq_eq_false_iff_ne.mpr hkey]

end Environment

/-! ## Numbers -/

/-- A number among the settings: its variable, the numbers that its type holds, the least one
that is accepted, and the default. -/
structure NumberSetting where
  key : String
  bounds : Text.Bounds
  least : Int
  default : Int

namespace Settings

variable {environment : Environment} {key : String} {bounds : Text.Bounds} {default : Int}

theorem number_eq_ok_iff (hzero : bounds.Contains 0) {value : Int} :
    number environment key bounds default = .ok value ↔
      (environment.Lacks key ∧ value = default) ∨
        ∃ text core, environment.Holds key text ∧ Text.IsTrimmed text.toList core ∧
          Text.Denotes bounds core value ∧ bounds.Contains value := by
  unfold number
  split
  next hnone =>
    rw [Environment.text?_eq_none_iff] at hnone
    constructor
    · exact fun hvalue => .inl ⟨hnone, (Except.ok.inj hvalue).symm⟩
    · rintro (⟨-, rfl⟩ | ⟨text, core, htext, -⟩)
      · rfl
      · exact absurd htext (hnone text)
  next text htext =>
    rw [Environment.text?_eq_some_iff] at htext
    have hread : Text.readInteger bounds (Text.trim text.toList) = .ok value ↔
        ∃ core, Text.IsTrimmed text.toList core ∧ Text.Denotes bounds core value ∧
          bounds.Contains value := by
      rw [Text.readInteger_eq_ok_iff hzero]
      constructor
      · exact fun hcore => ⟨_, Text.isTrimmed_trim _, hcore⟩
      · rintro ⟨core, hcore, hvalue⟩
        rwa [Text.trim_eq_iff.mpr hcore]
    constructor
    · intro hvalue
      split at hvalue
      next other hother =>
        obtain rfl := Except.ok.inj hvalue
        obtain ⟨core, hcore⟩ := hread.mp hother
        exact .inr ⟨text, core, htext, hcore⟩
      next => cases hvalue
    · rintro (⟨hlacks, -⟩ | ⟨other, core, hother, hcore⟩)
      · exact absurd htext (hlacks text)
      · obtain rfl := htext.unique hother
        rw [hread.mpr ⟨core, hcore⟩]

theorem number_eq_error_iff (hzero : bounds.Contains 0) {error : SettingsError} :
    number environment key bounds default = .error error ↔
      ∃ text core reason, environment.Holds key text ∧ Text.IsTrimmed text.toList core ∧
        Text.Fails bounds core reason ∧ error = .invalid key reason := by
  unfold number
  split
  next hnone =>
    rw [Environment.text?_eq_none_iff] at hnone
    constructor
    · exact fun herror => by cases herror
    · rintro ⟨text, core, reason, htext, -⟩
      exact absurd htext (hnone text)
  next text htext =>
    rw [Environment.text?_eq_some_iff] at htext
    constructor
    · intro herror
      split at herror
      next => cases herror
      next reason hreason =>
        obtain rfl := Except.error.inj herror
        exact ⟨text, _, reason, htext, Text.isTrimmed_trim _,
          (Text.readInteger_eq_error_iff hzero).mp hreason, rfl⟩
    · rintro ⟨other, core, reason, hother, hcore, hfails, rfl⟩
      obtain rfl := htext.unique hother
      rw [Text.trim_eq_iff.mpr hcore, (Text.readInteger_eq_error_iff hzero).mpr hfails]

end Settings

namespace NumberSetting

variable (setting : NumberSetting) (environment : Environment)

/-- The number that the environment gives to a setting. -/
def Gives (value : Int) : Prop :=
  (environment.Lacks setting.key ∧ value = setting.default) ∨
    ∃ text core, environment.Holds setting.key text ∧ Text.IsTrimmed text.toList core ∧
      Text.Denotes setting.bounds core value ∧ setting.least ≤ value ∧
      value ≤ setting.bounds.highest

/-- What is said about a variable that gives no number to its setting. -/
inductive Complains : String → Prop
  | unreadable {text : String} {core : List Char} {reason : Text.IntegerFault}
      (htext : environment.Holds setting.key text) (hcore : Text.IsTrimmed text.toList core)
      (hfails : Text.Fails setting.bounds core reason) :
      Complains ("Invalid value for " ++ setting.key ++ ": " ++ reason.message)
  | tooLow {text : String} {core : List Char} {value : Int}
      (htext : environment.Holds setting.key text) (hcore : Text.IsTrimmed text.toList core)
      (hvalue : Text.Denotes setting.bounds core value) (hwithin : setting.bounds.Contains value)
      (hlow : value < setting.least) :
      Complains (setting.key ++ " must be at least " ++ Text.integer setting.least)

/-- Read a number and refuse it below the least one. -/
def read : Except SettingsError Int := do
  let value ← Settings.number environment setting.key setting.bounds setting.default
  if value < setting.least then throw .noConcurrency
  return value

/-- Zero can be read, the default is accepted, and a number below the least one is a setting
without concurrency. -/
structure IsSound : Prop where
  zero : setting.bounds.Contains 0
  lowest : setting.bounds.lowest ≤ setting.least
  default : setting.least ≤ setting.default ∧ setting.default ≤ setting.bounds.highest
  message : setting.least = setting.bounds.lowest ∨
    setting.key ++ " must be at least " ++ Text.integer setting.least =
      SettingsError.noConcurrency.message

variable {setting} {environment}

/-- A number is read and accepted, or read and too low, or not read. -/
theorem read_cases (setting : NumberSetting) (environment : Environment) :
    (∃ value, Settings.number environment setting.key setting.bounds setting.default = .ok value ∧
        setting.least ≤ value ∧ setting.read environment = .ok value) ∨
      (∃ value,
        Settings.number environment setting.key setting.bounds setting.default = .ok value ∧
        value < setting.least ∧ setting.read environment = .error .noConcurrency) ∨
      ∃ error,
        Settings.number environment setting.key setting.bounds setting.default = .error error ∧
        setting.read environment = .error error := by
  cases hnumber : Settings.number environment setting.key setting.bounds setting.default with
  | error error =>
      refine .inr (.inr ⟨error, rfl, ?_⟩)
      rw [read, hnumber]
      rfl
  | ok value =>
      by_cases hlow : value < setting.least
      · refine .inr (.inl ⟨value, rfl, hlow, ?_⟩)
        rw [read, hnumber]
        exact if_pos hlow
      · refine .inl ⟨value, rfl, Int.not_lt.mp hlow, ?_⟩
        rw [read, hnumber]
        exact if_neg hlow

theorem Gives.range (hsound : setting.IsSound) {value : Int}
    (hgives : setting.Gives environment value) :
    setting.least ≤ value ∧ value ≤ setting.bounds.highest := by
  rcases hgives with ⟨-, rfl⟩ | ⟨_, _, -, -, -, hrange⟩
  · exact hsound.default
  · exact hrange

theorem read_eq_ok_iff (hsound : setting.IsSound) {value : Int} :
    setting.read environment = .ok value ↔ setting.Gives environment value := by
  constructor
  · intro hread
    rcases read_cases setting environment with
      ⟨_, hother, hleast, hresult⟩ | ⟨_, -, -, hresult⟩ | ⟨_, -, hresult⟩
    · obtain rfl := Except.ok.inj (hread.symm.trans hresult)
      rcases (Settings.number_eq_ok_iff hsound.zero).mp hother with
        hdefault | ⟨text, core, htext, hcore, hvalue, hwithin⟩
      · exact .inl hdefault
      · exact .inr ⟨text, core, htext, hcore, hvalue, hleast, hwithin.2⟩
    all_goals cases hread.symm.trans hresult
  · intro hgives
    have hleast := (hgives.range hsound).1
    have hvalue : Settings.number environment setting.key setting.bounds setting.default =
        .ok value := by
      apply (Settings.number_eq_ok_iff hsound.zero).mpr
      rcases hgives with hdefault | ⟨text, core, htext, hcore, hdenotes, -, hhighest⟩
      · exact .inl hdefault
      · exact .inr ⟨text, core, htext, hcore, hdenotes,
          Int.le_trans hsound.lowest hleast, hhighest⟩
    rw [read, hvalue]
    exact if_neg (Int.not_lt.mpr hleast)

theorem read_eq_error_iff (hsound : setting.IsSound) {message : String} :
    (∃ error, setting.read environment = .error error ∧ error.message = message) ↔
      setting.Complains environment message := by
  constructor
  · rintro ⟨error, hread, rfl⟩
    rcases read_cases setting environment with
      ⟨_, -, -, hresult⟩ | ⟨value, hvalue, hlow, hresult⟩ | ⟨other, hother, hresult⟩
    · cases hread.symm.trans hresult
    · obtain rfl := Except.error.inj (hread.symm.trans hresult)
      rcases (Settings.number_eq_ok_iff hsound.zero).mp hvalue with
        ⟨-, rfl⟩ | ⟨text, core, htext, hcore, hdenotes, hwithin⟩
      · exact absurd hlow (Int.not_lt.mpr hsound.default.1)
      · rcases hsound.message with hleast | hmessage
        · exact absurd hlow (Int.not_lt.mpr (hleast ▸ hwithin.1))
        · rw [← hmessage]
          exact .tooLow htext hcore hdenotes hwithin hlow
    · obtain rfl := Except.error.inj (hread.symm.trans hresult)
      obtain ⟨text, core, reason, htext, hcore, hfails, rfl⟩ :=
        (Settings.number_eq_error_iff hsound.zero).mp hother
      exact .unreadable htext hcore hfails
  · rintro (⟨htext, hcore, hfails⟩ | ⟨htext, hcore, hdenotes, hwithin, hlow⟩)
    · refine ⟨.invalid setting.key _, ?_, rfl⟩
      rw [read, (Settings.number_eq_error_iff hsound.zero).mpr ⟨_, _, _, htext, hcore, hfails, rfl⟩]
      rfl
    · refine ⟨.noConcurrency, ?_, ?_⟩
      · rw [read, (Settings.number_eq_ok_iff hsound.zero).mpr
          (.inr ⟨_, _, htext, hcore, hdenotes, hwithin⟩)]
        exact if_pos hlow
      · rcases hsound.message with hleast | hmessage
        · exact absurd hlow (Int.not_lt.mpr (hleast ▸ hwithin.1))
        · exact hmessage.symm

def userPort : NumberSetting := ⟨"FRAGMENT_USER_PORT", ⟨0, 65535⟩, 0, 31010⟩
def controlPort : NumberSetting := ⟨"FRAGMENT_CONTROL_PORT", ⟨0, 65535⟩, 0, 31011⟩
def dataPort : NumberSetting := ⟨"FRAGMENT_DATA_PORT", ⟨0, 65535⟩, 0, 31012⟩
def maxConcurrent : NumberSetting := ⟨"FRAGMENT_MAX_CONCURRENT", ⟨0, 2 ^ 64 - 1⟩, 1, 16⟩
def heapExitCode : NumberSetting :=
  ⟨"FRAGMENT_HEAP_OOM_EXIT_CODE", ⟨-2 ^ 31, 2 ^ 31 - 1⟩, -2 ^ 31, -2⟩

/-- The numbers among the settings, in the order in which they are read. -/
def all : List NumberSetting :=
  [userPort, controlPort, dataPort, maxConcurrent, heapExitCode]

theorem forall_mem_all {property : NumberSetting → Prop} :
    (∀ setting ∈ all, property setting) ↔
      property userPort ∧ property controlPort ∧ property dataPort ∧ property maxConcurrent ∧
        property heapExitCode := by
  simp [all]

theorem isSound_of_mem_all : ∀ setting ∈ all, setting.IsSound := by
  have hmessage : maxConcurrent.key ++ " must be at least " ++ Text.integer maxConcurrent.least =
      SettingsError.noConcurrency.message := by decide
  refine forall_mem_all.mpr ⟨?_, ?_, ?_, ?_, ?_⟩
  case refine_4 =>
    exact ⟨⟨by decide, by decide⟩, by decide, ⟨by decide, by decide⟩, .inr hmessage⟩
  all_goals exact ⟨⟨by decide, by decide⟩, by decide, ⟨by decide, by decide⟩, .inl rfl⟩

theorem read_eq_of_gives (environment : Environment) : ∀ setting ∈ all, ∀ value : Int,
    setting.Gives environment value → setting.read environment = .ok value :=
  fun setting hsetting _ hgives => (read_eq_ok_iff (isSound_of_mem_all setting hsetting)).mpr hgives

/-- Where every number that can be read is accepted, reading is all there is to do. -/
theorem read_eq_number (environment : Environment) : ∀ setting ∈ all,
    setting.least = setting.bounds.lowest → setting.read environment =
      Settings.number environment setting.key setting.bounds setting.default := by
  intro setting hsetting hleast
  have hsound := isSound_of_mem_all setting hsetting
  rcases read_cases setting environment with
    ⟨_, hnumber, -, hread⟩ | ⟨value, hnumber, hlow, -⟩ | ⟨_, hnumber, hread⟩
  · rw [hnumber, hread]
  · rcases (Settings.number_eq_ok_iff hsound.zero).mp hnumber with
      ⟨-, rfl⟩ | ⟨_, _, -, -, -, hwithin⟩
    · exact absurd hlow (Int.not_lt.mpr hsound.default.1)
    · exact absurd hlow (Int.not_lt.mpr (hleast ▸ hwithin.1))
  · rw [hnumber, hread]

end NumberSetting

/-! ## All settings -/

namespace Settings

variable (environment : Environment) (hostName : String)

/-- A maximum that is read is refused exactly where it is zero. -/
theorem maxConcurrent_bind {α : Type} (next : Int → Except SettingsError α) :
    (NumberSetting.maxConcurrent.read environment >>= next) = (do
      let value ← number environment maxConcurrentKey (.unsigned 64) 16
      if value = 0 then throw .noConcurrency
      next value) := by
  have hzero : NumberSetting.maxConcurrent.bounds.Contains 0 := ⟨by decide, by decide⟩
  change _ = number environment NumberSetting.maxConcurrent.key
    NumberSetting.maxConcurrent.bounds NumberSetting.maxConcurrent.default >>= _
  rcases NumberSetting.read_cases .maxConcurrent environment with
    ⟨value, hnumber, hleast, hread⟩ | ⟨value, hnumber, hlow, hread⟩ | ⟨_, hnumber, hread⟩
  · have hvalue : value ≠ 0 := by
      rintro rfl
      exact absurd hleast (by decide)
    rw [hread, hnumber]
    exact (if_neg hvalue).symm
  · have hvalue : value = 0 := by
      have hbelow : value < 1 := hlow
      rcases (number_eq_ok_iff hzero).mp hnumber with ⟨-, rfl⟩ | ⟨_, _, -, -, -, hwithin⟩
      · exact absurd hbelow (by decide)
      · exact Int.le_antisymm (Int.lt_add_one_iff.mp hbelow) hwithin.1
    rw [hread, hnumber]
    exact (if_pos hvalue).symm
  · rw [hread, hnumber]
    rfl

/-- Settings are read number by number. -/
theorem ofEnvironment_eq :
    ofEnvironment environment hostName = (do
      let userPort ← NumberSetting.userPort.read environment
      let controlPort ← NumberSetting.controlPort.read environment
      let dataPort ← NumberSetting.dataPort.read environment
      let maxConcurrent ← NumberSetting.maxConcurrent.read environment
      let heapExitCode ← NumberSetting.heapExitCode.read environment
      return {
        endpoint := ⟨(environment.text? addressKey).getD hostName, .ofNat userPort.toNat,
          .ofNat controlPort.toNat, .ofNat dataPort.toNat⟩
        maxConcurrent := maxConcurrent.toNat
        heapExitCode
        impersonation := ((environment.text? impersonationKey).map isYes).getD false }) := by
  obtain ⟨huser, hcontrol, hdata, -, hheap⟩ :=
    NumberSetting.forall_mem_all.mp (NumberSetting.read_eq_number environment)
  simp only [huser rfl, hcontrol rfl, hdata rfl, hheap rfl, maxConcurrent_bind]
  rfl

/-- The error of a reading that is refused. -/
def refusal? {α : Type} : Except SettingsError α → Option SettingsError
  | .error error => some error
  | .ok _ => none

theorem refusal?_eq_some_iff {α : Type} {result : Except SettingsError α}
    {error : SettingsError} : refusal? result = some error ↔ result = .error error := by
  cases result <;> simp [refusal?]

theorem refusal?_eq_none_iff {α : Type} {result : Except SettingsError α} :
    refusal? result = none ↔ ∃ value, result = .ok value := by
  cases result <;> simp [refusal?]

/-- The settings are refused for the first number that is. -/
theorem refusal?_ofEnvironment :
    refusal? (ofEnvironment environment hostName) =
      NumberSetting.all.findSome? fun setting => refusal? (setting.read environment) := by
  rw [ofEnvironment_eq]
  simp only [NumberSetting.all, List.findSome?_cons, List.findSome?_nil]
  cases NumberSetting.userPort.read environment with
  | error => rfl
  | ok =>
      cases NumberSetting.controlPort.read environment with
      | error => rfl
      | ok =>
          cases NumberSetting.dataPort.read environment with
          | error => rfl
          | ok =>
              cases NumberSetting.maxConcurrent.read environment with
              | error => rfl
              | ok => cases NumberSetting.heapExitCode.read environment <;> rfl

theorem isYes_eq_true_iff (text : String) :
    isYes text = true ↔ ∃ word ∈ ["1", "true", "yes"], Text.Spells word text := by
  have hlower {word : String} (hword : word ∈ ["1", "true", "yes"]) :
      String.ofList (text.toList.map Char.toLower) = word ↔ Text.Spells word text := by
    have hwords : ["1", "true", "yes"].all (fun word =>
        word.toList.all fun letter => letter.toLower = letter) = true := by decide
    apply Text.ofList_toLower_eq_iff
    simpa using List.all_eq_true.mp hwords word hword
  simp only [isYes, Bool.or_eq_true, decide_eq_true_eq, List.mem_cons, List.not_mem_nil, or_false,
    exists_eq_or_imp, exists_eq_left]
  rw [hlower (by simp), hlower (by simp), hlower (by simp), or_assoc]

/-- Settings come from an environment, on the host called `hostName`. -/
structure IsGivenBy (settings : Settings) : Prop where
  address : environment.Holds "FRAGMENT_NODE_ADDRESS" settings.endpoint.address ∨
    environment.Lacks "FRAGMENT_NODE_ADDRESS" ∧ settings.endpoint.address = hostName
  userPort : NumberSetting.userPort.Gives environment settings.endpoint.userPort.toNat
  controlPort : NumberSetting.controlPort.Gives environment settings.endpoint.controlPort.toNat
  dataPort : NumberSetting.dataPort.Gives environment settings.endpoint.dataPort.toNat
  maxConcurrent : NumberSetting.maxConcurrent.Gives environment settings.maxConcurrent
  heapExitCode : NumberSetting.heapExitCode.Gives environment settings.heapExitCode
  impersonation : settings.impersonation = true ↔
    ∃ text, environment.Holds "FRAGMENT_IMPERSONATION" text ∧
      ∃ word ∈ ["1", "true", "yes"], Text.Spells word text

variable {environment} {hostName}

theorem toNat_port {value : Int} (hlow : 0 ≤ value) (hhigh : value ≤ 65535) :
    ((UInt16.ofNat value.toNat).toNat : Int) = value := by
  rw [UInt16.toNat_ofNat_of_lt' (by change value.toNat < 65536; omega)]
  exact Int.toNat_of_nonneg hlow

/-- Settings whose numbers are given are accepted. -/
theorem ofEnvironment_of_gives {userPort controlPort dataPort maxConcurrent heapExitCode : Int}
    (huser : NumberSetting.userPort.Gives environment userPort)
    (hcontrol : NumberSetting.controlPort.Gives environment controlPort)
    (hdata : NumberSetting.dataPort.Gives environment dataPort)
    (hmax : NumberSetting.maxConcurrent.Gives environment maxConcurrent)
    (hheap : NumberSetting.heapExitCode.Gives environment heapExitCode) :
    ofEnvironment environment hostName = .ok {
      endpoint := ⟨(environment.text? addressKey).getD hostName, .ofNat userPort.toNat,
        .ofNat controlPort.toNat, .ofNat dataPort.toNat⟩
      maxConcurrent := maxConcurrent.toNat
      heapExitCode
      impersonation := ((environment.text? impersonationKey).map isYes).getD false } := by
  obtain ⟨huserRead, hcontrolRead, hdataRead, hmaxRead, hheapRead⟩ :=
    NumberSetting.forall_mem_all.mp (NumberSetting.read_eq_of_gives environment)
  rw [ofEnvironment_eq, huserRead _ huser, hcontrolRead _ hcontrol, hdataRead _ hdata,
    hmaxRead _ hmax, hheapRead _ hheap]
  rfl

theorem exists_ok_iff :
    (∃ settings, ofEnvironment environment hostName = .ok settings) ↔
      ∀ setting ∈ NumberSetting.all, ∃ value, setting.Gives environment value := by
  rw [← refusal?_eq_none_iff, refusal?_ofEnvironment, List.findSome?_eq_none_iff]
  apply forall₂_congr
  intro setting hsetting
  rw [refusal?_eq_none_iff]
  exact exists_congr fun value =>
    NumberSetting.read_eq_ok_iff (NumberSetting.isSound_of_mem_all setting hsetting)

theorem address_iff {address : String} :
    (environment.text? addressKey).getD hostName = address ↔
      environment.Holds addressKey address ∨
        environment.Lacks addressKey ∧ address = hostName := by
  cases htext : environment.text? addressKey with
  | none =>
      rw [Environment.text?_eq_none_iff] at htext
      constructor
      · exact fun haddress => .inr ⟨htext, haddress.symm⟩
      · rintro (hholds | ⟨-, rfl⟩)
        · exact absurd hholds (htext address)
        · rfl
  | some text =>
      rw [Environment.text?_eq_some_iff] at htext
      constructor
      · rintro rfl
        exact .inl htext
      · rintro (hholds | ⟨hlacks, -⟩)
        · exact htext.unique hholds
        · exact absurd htext (hlacks text)

theorem impersonation_iff :
    ((environment.text? impersonationKey).map isYes).getD false = true ↔
      ∃ text, environment.Holds impersonationKey text ∧
        ∃ word ∈ ["1", "true", "yes"], Text.Spells word text := by
  simp only [← Environment.text?_eq_some_iff, ← isYes_eq_true_iff]
  cases environment.text? impersonationKey <;> simp

theorem ofEnvironment_eq_ok_iff {settings : Settings} :
    ofEnvironment environment hostName = .ok settings ↔
      settings.IsGivenBy environment hostName := by
  constructor
  · intro haccepted
    obtain ⟨⟨userPort, huser⟩, ⟨controlPort, hcontrol⟩, ⟨dataPort, hdata⟩, ⟨maxConcurrent, hmax⟩,
      ⟨heapExitCode, hheap⟩⟩ :=
        NumberSetting.forall_mem_all.mp (exists_ok_iff.mp ⟨settings, haccepted⟩)
    obtain ⟨huserRange, hcontrolRange, hdataRange, hmaxRange, -⟩ :=
      NumberSetting.forall_mem_all.mp NumberSetting.isSound_of_mem_all
    obtain rfl := Except.ok.inj
      (haccepted.symm.trans (ofEnvironment_of_gives huser hcontrol hdata hmax hheap))
    have hpositive : 0 ≤ maxConcurrent := Int.le_trans (by decide) (hmax.range hmaxRange).1
    refine ⟨address_iff.mp rfl, ?_, ?_, ?_, ?_, hheap, impersonation_iff⟩
    · rwa [toNat_port (huser.range huserRange).1 (huser.range huserRange).2]
    · rwa [toNat_port (hcontrol.range hcontrolRange).1 (hcontrol.range hcontrolRange).2]
    · rwa [toNat_port (hdata.range hdataRange).1 (hdata.range hdataRange).2]
    · rwa [Int.toNat_of_nonneg hpositive]
  · rintro ⟨haddress, huser, hcontrol, hdata, hmax, hheap, himpersonation⟩
    rw [ofEnvironment_of_gives huser hcontrol hdata hmax hheap]
    rcases settings with ⟨⟨address, userPort, controlPort, dataPort⟩, maxConcurrent, heapExitCode,
      impersonation⟩
    have hsame : ((environment.text? impersonationKey).map isYes).getD false = impersonation :=
      Bool.eq_iff_iff.mpr (impersonation_iff.trans himpersonation.symm)
    simp only [Int.toNat_natCast, UInt16.ofNat_toNat, address_iff.mpr haddress, hsame]

/-- A reading fails for the first number that is not given. -/
theorem exists_error_iff {message : String} :
    (∃ error, ofEnvironment environment hostName = .error error ∧ error.message = message) ↔
      ∃ earlier setting later, NumberSetting.all = earlier ++ setting :: later ∧
        (∀ other ∈ earlier, ∃ value, other.Gives environment value) ∧
        setting.Complains environment message := by
  have hsound := NumberSetting.isSound_of_mem_all
  constructor
  · rintro ⟨error, hrefused, hmessage⟩
    rw [← refusal?_eq_some_iff, refusal?_ofEnvironment, List.findSome?_eq_some_iff] at hrefused
    obtain ⟨earlier, setting, later, hall, hsetting, hearlier⟩ := hrefused
    rw [hall] at hsound
    refine ⟨earlier, setting, later, hall, fun other hother => ?_, ?_⟩
    · obtain ⟨value, hread⟩ := refusal?_eq_none_iff.mp (hearlier other hother)
      exact ⟨value, (NumberSetting.read_eq_ok_iff (hsound other (by simp [hother]))).mp hread⟩
    · exact (NumberSetting.read_eq_error_iff (hsound setting (by simp))).mp
        ⟨error, refusal?_eq_some_iff.mp hsetting, hmessage⟩
  · rintro ⟨earlier, setting, later, hall, hearlier, hcomplains⟩
    rw [hall] at hsound
    obtain ⟨error, hread, hmessage⟩ :=
      (NumberSetting.read_eq_error_iff (hsound setting (by simp))).mpr hcomplains
    refine ⟨error, ?_, hmessage⟩
    rw [← refusal?_eq_some_iff, refusal?_ofEnvironment, List.findSome?_eq_some_iff]
    refine ⟨earlier, setting, later, hall, refusal?_eq_some_iff.mpr hread, fun other hother => ?_⟩
    obtain ⟨value, hvalue⟩ := hearlier other hother
    exact refusal?_eq_none_iff.mpr
      ⟨value, (NumberSetting.read_eq_ok_iff (hsound other (by simp [hother]))).mpr hvalue⟩

/-- Settings are read from exactly the environments in which every number is unset, or set to a
numeral within its range between blanks.  Each setting is then what its variable says, or its
default, and otherwise the error is about the first number in the order of reading that is not
given.  The environment may have been completed by the entries of a file: the first for a
variable gives its text, unless it has one already. -/
theorem accepts_exactly_valid (environment : Environment) (hostName : String) :
    ((∃ settings, ofEnvironment environment hostName = .ok settings) ↔
      ∀ setting ∈ NumberSetting.all, ∃ value, setting.Gives environment value) ∧
    (∀ settings, ofEnvironment environment hostName = .ok settings ↔
      settings.IsGivenBy environment hostName) ∧
    (∀ message,
      (∃ error, ofEnvironment environment hostName = .error error ∧ error.message = message) ↔
      ∃ earlier setting later, NumberSetting.all = earlier ++ setting :: later ∧
        (∀ other ∈ earlier, ∃ value, other.Gives environment value) ∧
        setting.Complains environment message) ∧
    ∀ entries key text, (environment.merge entries).Holds key text ↔
      environment.Holds key text ∨ environment.Lacks key ∧ entries.lookup key = some text := by
  refine ⟨exists_ok_iff, fun settings => ofEnvironment_eq_ok_iff, fun message => exists_error_iff,
    fun entries key text => ?_⟩
  rw [← Environment.text?_eq_some_iff, Environment.text?_merge, Option.or_eq_some_iff,
    Environment.text?_eq_some_iff, Environment.text?_eq_none_iff]

end Settings

end FragmentLifecycle
