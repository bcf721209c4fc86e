import Mathlib.Data.Nat.Digits.Defs
import Tenancy.Proofs.Outcome
import Tenancy.Proofs.Text.WhiteSpace
import Tenancy.Service.Configuration

/-!
# Reading the configuration

A variable that is set holds, between white space, a text that denotes a value: a numeral up to a
limit (`Configuration.Numeral`) or the name of a format (`Configuration.FormatName`). The
configuration of an environment is made of what its variables denote and of defaults, and where a
variable denotes nothing the first such variable is reported with its value as it stands
(`Configuration.configures_exactly`).
-/

namespace Tenancy

open Text Outcome

namespace Configuration

/-! ### Numbers -/

/-- The number that digits stand for to the base ten. -/
def decimal (digits : List Char) : Nat :=
  Nat.ofDigits 10 (digits.reverse.map fun digit => digit.toNat - '0'.toNat)

/-- Nothing but digits, and at least one of them. -/
def IsDecimal (digits : List Char) : Prop :=
  digits ≠ [] ∧ ∀ digit ∈ digits, '0' ≤ digit ∧ digit ≤ '9'

/-- A text spells a number up to a limit, in digits that may follow a plus sign. -/
def Numeral (limit : Nat) (text : String) (number : Nat) : Prop :=
  ∃ digits, (text.toList = digits ∨ text.toList = '+' :: digits) ∧ IsDecimal digits ∧
    number = decimal digits ∧ number ≤ limit

theorem isDigit_iff {c : Char} : c.isDigit = true ↔ '0' ≤ c ∧ c ≤ '9' := by
  simp [Char.isDigit, Char.le_def]

theorem decimal_cons (digit : Char) (digits : List Char) :
    decimal (digit :: digits) =
      (digit.toNat - '0'.toNat) * 10 ^ digits.length + decimal digits := by
  simp only [decimal, List.reverse_cons, List.map_append, Nat.ofDigits_append]
  simp
  ring

/-- Appending a digit never makes a number smaller, so a number that ends within the limit has been
within it all the way. -/
theorem readDigits_eq_ok_iff {limit value number : Nat} {digits : List Char}
    (within : value ≤ limit) : readDigits limit value digits = .ok number ↔
      (∀ digit ∈ digits, '0' ≤ digit ∧ digit ≤ '9') ∧
        number = value * 10 ^ digits.length + decimal digits ∧ number ≤ limit := by
  induction digits generalizing value with
  | nil =>
      have same : value * 10 ^ ([] : List Char).length + decimal [] = value := by simp [decimal]
      rw [readDigits, same, Except.ok.injEq]
      constructor
      · intro equal
        exact ⟨List.forall_mem_nil _, equal.symm, equal ▸ within⟩
      · rintro ⟨-, equal, -⟩
        exact equal.symm
  | cons digit digits inductionHypothesis =>
      have longer : (value * 10 + (digit.toNat - '0'.toNat)) * 10 ^ digits.length + decimal digits =
          value * 10 ^ (digit :: digits).length + decimal (digit :: digits) := by
        rw [decimal_cons, List.length_cons, Nat.pow_succ]
        ring
      rw [readDigits, List.forall_mem_cons, ← isDigit_iff, ← longer]
      by_cases isDigit : digit.isDigit = true
      · by_cases fits : value * 10 + (digit.toNat - '0'.toNat) ≤ limit
        · simp only [isDigit, if_true, if_pos fits, inductionHypothesis fits, true_and]
        · have grows : value * 10 + (digit.toNat - '0'.toNat) ≤
              (value * 10 + (digit.toNat - '0'.toNat)) * 10 ^ digits.length :=
            Nat.le_mul_of_pos_right _ (Nat.pow_pos (by decide))
          simp only [isDigit, if_true, if_neg fits, reduceCtorEq, false_iff]
          omega
      · simp [isDigit]

theorem readNumber_eq_ok_iff {limit number : Nat} {text : String} :
    readNumber limit text = .ok number ↔ Numeral limit text number := by
  have ofDigits {digits : List Char} : readDigits limit 0 digits = .ok number ↔
      (∀ digit ∈ digits, '0' ≤ digit ∧ digit ≤ '9') ∧ number = decimal digits ∧ number ≤ limit := by
    rw [readDigits_eq_ok_iff (Nat.zero_le limit), Nat.zero_mul, Nat.zero_add]
  have noDigit : ¬('0' ≤ '+' ∧ '+' ≤ '9') := by decide
  unfold readNumber
  split
  · next empty =>
      refine iff_of_false nofun ?_
      rintro ⟨digits, spelled | spelled, ⟨nonempty, -⟩, -⟩
      · exact nonempty (spelled.symm.trans empty)
      · exact nomatch spelled.symm.trans empty
  · next c rest signed =>
      rw [ofDigits]
      constructor
      · rintro ⟨digits, value, fits⟩
        exact ⟨c :: rest, .inr signed, ⟨List.cons_ne_nil c rest, digits⟩, value, fits⟩
      · rintro ⟨digits, spelled | spelled, ⟨-, areDigits⟩, value, fits⟩
        · exact absurd (areDigits '+' (spelled ▸ signed ▸ List.mem_cons_self)) noDigit
        · obtain rfl := (List.cons.inj (spelled.symm.trans signed)).2
          exact ⟨areDigits, value, fits⟩
  · next nonempty unsigned =>
      rw [ofDigits]
      constructor
      · rintro ⟨digits, value, fits⟩
        exact ⟨text.toList, .inl rfl, ⟨nonempty, digits⟩, value, fits⟩
      · rintro ⟨digits, spelled | spelled, ⟨some, areDigits⟩, value, fits⟩
        · exact spelled ▸ ⟨areDigits, value, fits⟩
        · obtain ⟨c, rest, rfl⟩ := List.exists_cons_of_ne_nil some
          exact absurd spelled (unsigned c rest)

/-! ### Formats -/

def formatNames : List (String × LogFormat) :=
  [("pretty", .pretty), ("text", .pretty), ("json", .json)]

/-- A text names a format, in any case of its ASCII letters. -/
def FormatName (text : String) (format : LogFormat) : Prop :=
  (asciiLower text, format) ∈ formatNames

theorem readFormat_eq_ok_iff {text : String} {format : LogFormat} :
    readFormat text = .ok format ↔ FormatName text format := by
  simp only [FormatName, formatNames, List.mem_cons, List.not_mem_nil, or_false, Prod.mk.injEq]
  unfold readFormat
  dsimp only
  split
  · next isPretty =>
      rcases isPretty with name | name <;> simp [name, eq_comm]
  · next notPretty =>
      obtain ⟨notPretty, notText⟩ := not_or.mp notPretty
      split
      · next isJson => simp [isJson, eq_comm]
      · next notJson => simp [notPretty, notText, notJson]

/-! ### Variables -/

/-- A variable of the environment: its name, what holds if it is not set, and which texts denote
which values. -/
structure Setting (α : Type) where
  name : String
  default : α
  Denotes : String → α → Prop

namespace Setting

variable {α : Type} {setting : Setting α} {lookup : String → Option String}
  {read : String → Except ValueFault α}

/-- What a variable comes to in an environment. -/
inductive Gives (setting : Setting α) (lookup : String → Option String) : α → Prop where
  | unset : lookup setting.name = none → Gives setting lookup setting.default
  | set {value core : String} {given : α} : lookup setting.name = some value →
      Trims value core → setting.Denotes core given → Gives setting lookup given

/-- The variable is set to a text that denotes nothing. -/
def Faulty (setting : Setting α) (lookup : String → Option String) (value : String) : Prop :=
  lookup setting.name = some value ∧ ∀ core, Trims value core → ∀ given, ¬setting.Denotes core given

theorem readVariable_eq_ok_iff
    (reads : ∀ text given, read text = .ok given ↔ setting.Denotes text given) {given : α} :
    readVariable lookup setting.name setting.default read = .ok given ↔
      setting.Gives lookup given := by
  unfold readVariable
  split
  · next unset =>
      constructor
      · rintro ⟨⟩
        exact .unset unset
      · rintro (_ | ⟨set⟩)
        · rfl
        · exact nomatch unset.symm.trans set
  · next value set =>
      rw [mapError_eq_ok_iff, reads]
      constructor
      · exact .set set (trims_iff.mpr rfl)
      · rintro (unset | ⟨found, trims, denotes⟩)
        · exact nomatch unset.symm.trans set
        · obtain rfl := Option.some.inj (found.symm.trans set)
          rwa [trims_iff.mp trims]

theorem faulty_of_readVariable_eq_error
    (reads : ∀ text given, read text = .ok given ↔ setting.Denotes text given)
    {error : ConfigurationError}
    (failed : readVariable lookup setting.name setting.default read = .error error) :
    error.name = setting.name ∧ setting.Faulty lookup error.value := by
  unfold readVariable at failed
  split at failed
  · exact nomatch failed
  · next value set =>
      obtain ⟨fault, unread, rfl⟩ := mapError_eq_error_iff.mp failed
      refine ⟨rfl, set, fun core trims given denotes => ?_⟩
      obtain rfl := trims_iff.mp trims
      exact nomatch ((reads _ _).mpr denotes).symm.trans unread

theorem Gives.not_faulty {given : α} (gives : setting.Gives lookup given) (value : String) :
    ¬setting.Faulty lookup value := by
  rintro ⟨set, unread⟩
  cases gives with
  | unset unset => exact nomatch unset.symm.trans set
  | set found trims denotes =>
      obtain rfl := Option.some.inj (found.symm.trans set)
      exact unread _ trims _ denotes

end Setting

def portSetting : Setting Nat := ⟨"OMS_PORT", 8080, Numeral 65535⟩

def bodyLimitSetting : Setting Nat :=
  ⟨"OMS_BODY_LIMIT_BYTES", 2097152, Numeral 18446744073709551615⟩

def logFormatSetting : Setting LogFormat := ⟨"OMS_LOG_FORMAT", .pretty, FormatName⟩

/-- The variables in the order in which they are read. -/
def settings : List (Σ α : Type, Setting α) :=
  [⟨_, portSetting⟩, ⟨_, bodyLimitSetting⟩, ⟨_, logFormatSetting⟩]

variable {lookup : String → Option String}

theorem readPort_eq_ok_iff (text : String) (given : Nat) :
    readNumber portLimit text = .ok given ↔ portSetting.Denotes text given :=
  readNumber_eq_ok_iff

theorem readBodyLimit_eq_ok_iff (text : String) (given : Nat) :
    readNumber sizeLimit text = .ok given ↔ bodyLimitSetting.Denotes text given :=
  readNumber_eq_ok_iff

theorem readLogFormat_eq_ok_iff (text : String) (given : LogFormat) :
    readFormat text = .ok given ↔ logFormatSetting.Denotes text given :=
  readFormat_eq_ok_iff

/-- A configuration is made of what its variables come to. -/
theorem ofEnvironment_eq_ok_iff {configuration : Configuration} :
    ofEnvironment lookup = .ok configuration ↔
      portSetting.Gives lookup configuration.port ∧
        bodyLimitSetting.Gives lookup configuration.bodyLimit ∧
          logFormatSetting.Gives lookup configuration.logFormat := by
  simp only [ofEnvironment, bind_eq_ok_iff, ← Setting.readVariable_eq_ok_iff readPort_eq_ok_iff,
    ← Setting.readVariable_eq_ok_iff readBodyLimit_eq_ok_iff,
    ← Setting.readVariable_eq_ok_iff readLogFormat_eq_ok_iff]
  constructor
  · rintro ⟨port, first, bodyLimit, second, logFormat, third, ⟨⟩⟩
    exact ⟨first, second, third⟩
  · rintro ⟨first, second, third⟩
    exact ⟨_, first, _, second, _, third, rfl⟩

/-- The error tells of the first variable at fault. -/
theorem firstFaulty_of_ofEnvironment_eq_error {error : ConfigurationError}
    (failed : ofEnvironment lookup = .error error) : ∃ before setting after,
      settings = before ++ setting :: after ∧
        (∀ earlier ∈ before, ∀ value, ¬earlier.2.Faulty lookup value) ∧
        error.name = setting.2.name ∧ setting.2.Faulty lookup error.value := by
  rw [ofEnvironment, bind_eq_error_iff] at failed
  rcases failed with atPort | ⟨port, first, failed⟩
  · exact ⟨[], _, _, rfl, nofun, Setting.faulty_of_readVariable_eq_error readPort_eq_ok_iff atPort⟩
  have first := ((Setting.readVariable_eq_ok_iff readPort_eq_ok_iff).mp first).not_faulty
  rcases bind_eq_error_iff.mp failed with atBodyLimit | ⟨bodyLimit, second, failed⟩
  · refine ⟨[⟨_, portSetting⟩], _, _, rfl, List.forall_mem_singleton.mpr first, ?_⟩
    exact Setting.faulty_of_readVariable_eq_error readBodyLimit_eq_ok_iff atBodyLimit
  have second := ((Setting.readVariable_eq_ok_iff readBodyLimit_eq_ok_iff).mp second).not_faulty
  rcases bind_eq_error_iff.mp failed with atLogFormat | ⟨logFormat, -, failed⟩
  · refine ⟨[⟨_, portSetting⟩, ⟨_, bodyLimitSetting⟩], _, _, rfl, ?_, ?_⟩
    · exact List.forall_mem_cons.mpr ⟨first, List.forall_mem_singleton.mpr second⟩
    · exact Setting.faulty_of_readVariable_eq_error readLogFormat_eq_ok_iff atLogFormat
  · exact nomatch failed

/-- An environment without a variable at fault is read; of any other one the first variable at fault
is reported. -/
theorem configures_exactly (lookup : String → Option String) :
    (∀ configuration, ofEnvironment lookup = .ok configuration ↔
      portSetting.Gives lookup configuration.port ∧
        bodyLimitSetting.Gives lookup configuration.bodyLimit ∧
          logFormatSetting.Gives lookup configuration.logFormat) ∧
    ((∃ configuration, ofEnvironment lookup = .ok configuration) ↔
      ∀ setting ∈ settings, ∀ value, ¬setting.2.Faulty lookup value) ∧
    ∀ error, ofEnvironment lookup = .error error → ∃ before setting after,
      settings = before ++ setting :: after ∧
        (∀ earlier ∈ before, ∀ value, ¬earlier.2.Faulty lookup value) ∧
        error.name = setting.2.name ∧ setting.2.Faulty lookup error.value ∧
        ∃ reason, error.message =
          setting.2.name ++ " has invalid value '" ++ error.value ++ "': " ++ reason := by
  refine ⟨fun _ => ofEnvironment_eq_ok_iff, ⟨?_, ?_⟩, ?_⟩
  · rintro ⟨configuration, accepted⟩
    obtain ⟨first, second, third⟩ := ofEnvironment_eq_ok_iff.mp accepted
    simp only [settings, List.forall_mem_cons]
    exact ⟨first.not_faulty, second.not_faulty, third.not_faulty, nofun⟩
  · intro faultless
    refine exists_eq_ok_iff.mpr fun error failed => ?_
    obtain ⟨before, setting, after, split, -, -, faulty⟩ :=
      firstFaulty_of_ofEnvironment_eq_error failed
    exact faultless setting (split ▸ List.mem_append_right _ List.mem_cons_self) _ faulty
  · intro error failed
    obtain ⟨before, setting, after, split, passed, name, faulty⟩ :=
      firstFaulty_of_ofEnvironment_eq_error failed
    exact ⟨before, setting, after, split, passed, name, faulty, error.fault.message, name ▸ rfl⟩

/-- The largest port with a sign and zeros, and no other variable. -/
def highPort : String → Option String
  | "OMS_PORT" => some "\t+0065535 "
  | _ => none

/-- A limit that is too large by one, before a format that does not exist. -/
def hugeLimit : String → Option String
  | "OMS_PORT" => some "0"
  | "OMS_BODY_LIMIT_BYTES" => some "18446744073709551616\n"
  | "OMS_LOG_FORMAT" => some "xml"
  | _ => none

theorem configures_exactly_limits :
    portSetting.Gives highPort 65535 ∧
      ofEnvironment hugeLimit =
        .error ⟨"OMS_BODY_LIMIT_BYTES", "18446744073709551616\n", .tooLarge⟩ ∧
      ∃ before setting after, settings = before ++ setting :: after ∧
        "OMS_BODY_LIMIT_BYTES" = setting.2.name ∧
        setting.2.Faulty hugeLimit "18446744073709551616\n" := by
  have accepted : ofEnvironment highPort = .ok ⟨65535, 2097152, .pretty⟩ := rfl
  have failed : ofEnvironment hugeLimit =
      .error ⟨"OMS_BODY_LIMIT_BYTES", "18446744073709551616\n", .tooLarge⟩ := rfl
  obtain ⟨before, setting, after, split, -, name, faulty, -⟩ :=
    (configures_exactly hugeLimit).2.2 _ failed
  exact ⟨(((configures_exactly highPort).1 _).mp accepted).1, failed, before, setting, after, split,
    name, faulty⟩

end Configuration

end Tenancy
