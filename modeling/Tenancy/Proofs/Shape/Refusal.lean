import Tenancy.Proofs.Json.Place
import Tenancy.Proofs.Shape.Pruning

/-!
# Refusals

How validation refuses an input, and where. The loops of validation stop at the first part that is
refused (`FirstRefused`), and what they report is that part's own refusal. So every diagnostic in a
refusal, its causes at any depth included, stands at a value of the input, or at a key that an
object of the input lacks; the latter exactly when it says that a property is required
(`Shape.located_of_validate_eq_error`).
-/

namespace Tenancy

open Json Outcome

/-- An item is refused and none before it is. -/
inductive FirstRefused {α : Type} (refuses : α → Diagnostic → Prop) :
    List α → Diagnostic → Prop where
  | here {item : α} {rest : List α} {refusal : Diagnostic} : refuses item refusal →
      FirstRefused refuses (item :: rest) refusal
  | later {item : α} {rest : List α} {refusal : Diagnostic} : (∀ other, ¬ refuses item other) →
      FirstRefused refuses rest refusal → FirstRefused refuses (item :: rest) refusal

section FirstRefused

variable {α : Type} {refuses : α → Diagnostic → Prop} {item : α} {rest items : List α}
  {refusal : Diagnostic}

theorem firstRefused_cons_iff : FirstRefused refuses (item :: rest) refusal ↔
    refuses item refusal ∨ (∀ other, ¬ refuses item other) ∧ FirstRefused refuses rest refusal :=
  ⟨fun
    | .here refused => .inl refused
    | .later passed refused => .inr ⟨passed, refused⟩,
    fun refused => refused.elim .here fun ⟨passed, refused⟩ => .later passed refused⟩

theorem FirstRefused.exists_mem (refused : FirstRefused refuses items refusal) :
    ∃ item ∈ items, refuses item refusal := by
  induction refused with
  | here refused => exact ⟨_, List.mem_cons_self, refused⟩
  | later _ _ inductionHypothesis =>
      obtain ⟨item, member, refused⟩ := inductionHypothesis
      exact ⟨item, List.mem_cons_of_mem _ member, refused⟩

theorem firstRefused_iff_getElem? : FirstRefused refuses items refusal ↔
    ∃ (position : Nat) (item : α), items[position]? = some item ∧ refuses item refusal ∧
      ∀ earlier < position, ∀ other, items[earlier]? = some other →
        ∀ fault, ¬refuses other fault := by
  induction items with
  | nil => exact iff_of_false nofun nofun
  | cons first rest inductionHypothesis =>
      rw [firstRefused_cons_iff, inductionHypothesis]
      constructor
      · rintro (refused | ⟨passed, position, item, found, refused, before⟩)
        · exact ⟨0, first, rfl, refused, nofun⟩
        · refine ⟨position + 1, item, found, refused, ?_⟩
          rintro (_ | earlier) less other listed
          · cases listed
            exact passed
          · exact before earlier (Nat.lt_of_succ_lt_succ less) other listed
      · rintro ⟨_ | position, item, found, refused, before⟩
        · cases found
          exact .inl refused
        · refine .inr ⟨before 0 (Nat.succ_pos _) first rfl, position, item, found, refused, ?_⟩
          exact fun earlier less => before (earlier + 1) (Nat.succ_lt_succ less)

theorem exists_firstRefused_iff :
    (∃ refusal, FirstRefused refuses items refusal) ↔ ∃ item ∈ items, ∃ fault, refuses item fault := by
  constructor
  · rintro ⟨refusal, refused⟩
    obtain ⟨item, member, refused⟩ := refused.exists_mem
    exact ⟨item, member, refusal, refused⟩
  · induction items with
    | nil => exact nofun
    | cons first rest inductionHypothesis =>
        rintro ⟨item, member, refused⟩
        by_cases passed : ∀ fault, ¬refuses first fault
        · rcases List.mem_cons.mp member with rfl | later
          · obtain ⟨fault, refused⟩ := refused
            exact absurd refused (passed fault)
          · obtain ⟨refusal, refused⟩ := inductionHypothesis ⟨item, later, refused⟩
            exact ⟨refusal, .later passed refused⟩
        · obtain ⟨fault, refused⟩ := not_forall_not.mp passed
          exact ⟨fault, .here refused⟩

end FirstRefused

namespace Shape

variable {check : Value → Path → Verdict} {path : Path} {refusal : Diagnostic}

theorem validateItems_eq_error_iff {items : List Value} {position : Nat} :
    validateItems check path position items = .error refusal ↔
      FirstRefused (fun item other => check item.1 (path.index item.2) = .error other)
        (items.zipIdx position) refusal := by
  induction items generalizing position with
  | nil => exact iff_of_false nofun nofun
  | cons item rest inductionHypothesis =>
      rw [validateItems, List.zipIdx_cons, firstRefused_cons_iff, ← inductionHypothesis,
        bind_bind_pure_eq_error_iff]

theorem validateEntries_eq_error_iff {entries : Object} :
    validateEntries check path entries = .error refusal ↔
      FirstRefused (fun entry other => check entry.2 (path.key entry.1) = .error other)
        entries refusal := by
  induction entries with
  | nil => exact iff_of_false nofun nofun
  | cons entry rest inductionHypothesis =>
      rw [validateEntries, firstRefused_cons_iff, ← inductionHypothesis,
        bind_bind_pure_eq_error_iff]

theorem validateAll_eq_error_iff {branches : List Shape} {input : Option Value} :
    validateAll branches input path = .error refusal ↔
      FirstRefused (fun branch other => branch.validate input path = .error other)
        branches refusal := by
  induction branches with
  | nil => exact iff_of_false nofun nofun
  | cons branch rest inductionHypothesis =>
      rw [validateAll, firstRefused_cons_iff, ← inductionHypothesis, bind_bind_pure_eq_error_iff]

/-- No branch accepts, and each one's refusal is listed. -/
theorem validateAny_eq_error_iff {branches : List Shape} {input : Option Value}
    {refusals : List Diagnostic} : validateAny branches input path = .error refusals ↔
      List.Forall₂ (fun branch other => branch.validate input path = .error other)
        branches refusals := by
  induction branches generalizing refusals with
  | nil => simp [validateAny, eq_comm]
  | cons branch rest inductionHypothesis =>
      rw [validateAny, List.forall₂_cons_left_iff]
      cases branch.validate input path with
      | ok accepted => simp
      | error other =>
          simp only [mapError_eq_error_iff, inductionHypothesis, Except.error.injEq]
          constructor
          · rintro ⟨others, refused, rfl⟩
            exact ⟨other, others, rfl, refused, rfl⟩
          · rintro ⟨_, others, rfl, refused, rfl⟩
            exact ⟨others, refused, rfl⟩

/-- What is wrong with a declared field of an object: it is missing, or its value is refused. -/
inductive FieldRefused (whole : Object) (path : Path) (field : Field Shape) :
    Diagnostic → Prop where
  | missing : whole.find? field.name = none → field.requiredness.holds none whole = true →
      FieldRefused whole path field (.of (path.key field.name) .required)
  | refused {value : Value} {refusal : Diagnostic} : whole.find? field.name = some value →
      field.shape.validate (some value) (path.key field.name) = .error refusal →
      FieldRefused whole path field refusal

theorem fieldRefused_of_find?_eq_none {whole : Object} {field : Field Shape} {other : Diagnostic}
    (absent : whole.find? field.name = none) : FieldRefused whole path field other ↔
      field.requiredness.holds none whole = true ∧ .of (path.key field.name) .required = other := by
  constructor
  · rintro (⟨-, needed⟩ | ⟨found, -⟩)
    · exact ⟨needed, rfl⟩
    · exact nomatch absent.symm.trans found
  · rintro ⟨needed, rfl⟩
    exact .missing absent needed

theorem fieldRefused_of_find?_eq_some {whole : Object} {field : Field Shape} {other : Diagnostic}
    {value : Value} (found : whole.find? field.name = some value) :
    FieldRefused whole path field other ↔
      field.shape.validate (some value) (path.key field.name) = .error other := by
  constructor
  · rintro (⟨absent, -⟩ | ⟨present, refused⟩)
    · exact nomatch found.symm.trans absent
    · exact Option.some.inj (found.symm.trans present) ▸ refused
  · exact .refused found

theorem validateFields_eq_error_iff {fields : List (Field Shape)} {whole : Object} :
    validateFields fields whole path = .error refusal ↔
      FirstRefused (FieldRefused whole path) fields refusal := by
  induction fields with
  | nil => exact iff_of_false nofun nofun
  | cons field rest inductionHypothesis =>
      rw [validateFields, firstRefused_cons_iff, ← inductionHypothesis]
      split
      · next absent =>
          simp only [fieldRefused_of_find?_eq_none absent]
          split
          · next needed => simp [needed]
          · next spared => simp [spared]
      · next value found =>
          simp only [fieldRefused_of_find?_eq_some found]
          exact bind_bind_pure_eq_error_iff

end Shape

/-! ### Where a refusal points -/

namespace Diagnostic

/-- A diagnostic, one of its causes, or one of theirs. -/
inductive Within (part : Diagnostic) : Diagnostic → Prop where
  | self : Within part part
  | cause {cause refusal : Diagnostic} : cause ∈ refusal.causes → Within part cause →
      Within part refusal

theorem within_mk_iff {part : Diagnostic} {path : Path} {message : String}
    {causes : List Diagnostic} : part.Within (.mk path message causes) ↔
      part = .mk path message causes ∨ ∃ cause ∈ causes, part.Within cause := by
  constructor
  · rintro (_ | ⟨listed, inside⟩)
    · exact .inl rfl
    · exact .inr ⟨_, listed, inside⟩
  · rintro (rfl | ⟨cause, listed, inside⟩)
    · exact .self
    · exact .cause listed inside

theorem within_of_iff {part : Diagnostic} {path : Path} {complaint : Complaint} :
    part.Within (.of path complaint) ↔ part = .of path complaint := by
  simp [of, within_mk_iff]

/-- The diagnostic is about a value inside `value`, which stands at `path`, or about a key that is
missing there; and it is about a missing key just if it says that a property is required. -/
def Located (path : Path) (value : Value) (part : Diagnostic) : Prop :=
  ∃ rest found, part.path = path ++ rest ∧ value.Reaches rest.segments found ∧
    (found = none ↔ part.message = "property is required")

end Diagnostic

theorem head?_toList_append {start : String} {c : Char} (begins : start.toList.head? = some c)
    (rest : String) : (start ++ rest).toList.head? = some c := by
  rw [String.toList_append, List.head?_append, begins]
  rfl

/-- A text with a known beginning is none that begins with another character. -/
theorem append_ne_of_head?_ne {start whole : String} {c : Char}
    (begins : start.toList.head? = some c) (different : whole.toList.head? ≠ some c)
    (rest : String) : start ++ rest ≠ whole := by
  rintro rfl
  exact different (head?_toList_append begins rest)

theorem Complaint.message_eq_required_iff {complaint : Complaint} :
    complaint.message = "property is required" ↔ complaint = .required := by
  cases complaint with
  | required => exact iff_of_true rfl rfl
  | literalExpected | memberExpected =>
      exact iff_of_false (append_ne_of_head?_ne rfl (by decide) _) nofun
  | _ => exact iff_of_false (by decide) nofun

namespace Path

theorem child_append (path rest : Path) (segment : Segment) :
    path.child segment ++ rest = path ++ ⟨segment :: rest.segments⟩ :=
  congrArg Path.mk (List.append_assoc path.segments [segment] rest.segments)

theorem append_root (path : Path) : path ++ root = path :=
  congrArg Path.mk (List.append_nil path.segments)

end Path

namespace Diagnostic.Located

variable {path : Path} {value : Value} {part : Diagnostic}

theorem here (at_path : part.path = path) (present : part.message ≠ "property is required") :
    part.Located path value :=
  ⟨.root, some value, at_path.trans path.append_root.symm, .here value, iff_of_false nofun present⟩

theorem complaint {complaint : Complaint} (inside : part.Within (.of path complaint))
    (present : complaint ≠ .required) : part.Located path value := by
  obtain rfl := within_of_iff.mp inside
  exact here rfl (mt Complaint.message_eq_required_iff.mp present)

theorem missing {entries : Object} {key : String} (absent : key ∉ Entries.keys entries)
    (inside : part.Within (.of (path.key key) .required)) :
    part.Located path (.object entries) := by
  obtain rfl := within_of_iff.mp inside
  exact ⟨⟨[.key key]⟩, none, rfl, .missing absent, iff_of_true rfl rfl⟩

theorem item {items : List Value} {position : Nat} (listed : items[position]? = some value)
    (located : part.Located (path.index position) value) : part.Located path (.array items) := by
  obtain ⟨rest, found, below, reaches, tells⟩ := located
  exact ⟨_, found, below.trans (path.child_append rest _), .item listed reaches, tells⟩

theorem entry {entries : Object} {key : String} (listed : (key, value) ∈ entries)
    (located : part.Located (path.key key) value) : part.Located path (.object entries) := by
  obtain ⟨rest, found, below, reaches, tells⟩ := located
  exact ⟨_, found, below.trans (path.child_append rest _), .entry listed reaches, tells⟩

end Diagnostic.Located

namespace Shape

theorem located_of_refused (shape : Shape) {value : Value} {path : Path}
    {part refusal : Diagnostic} (refused : shape.validate (some value) path = .error refusal)
    (inside : part.Within refusal) : part.Located path value := by
  -- Either the value itself is complained of, where it stands, or the refusal is that of a part.
  induction shape generalizing value path refusal with
  | kind expected =>
      simp only [validate] at refused
      split at refused
      · cases refused
      · obtain rfl := Except.error.inj refused
        exact .complaint inside (by cases expected <;> rintro ⟨⟩)
  | literal | oneOf | enumeration =>
      rw [validate] at refused
      split at refused
      · cases refused
      · obtain rfl := Except.error.inj refused
        exact .complaint inside (by rintro ⟨⟩)
  | arrayOf element inductionHypothesis =>
      cases value with
      | array items =>
          rw [validate, map_eq_error_iff, validateItems_eq_error_iff] at refused
          obtain ⟨⟨item, position⟩, listed, refused⟩ := refused.exists_mem
          have present := List.mk_mem_zipIdx_iff_getElem?.mp listed
          exact .item present (inductionHypothesis refused inside)
      | _ =>
          obtain rfl := Except.error.inj refused
          exact .complaint inside (by rintro ⟨⟩)
  | mapOf entryShape inductionHypothesis =>
      cases value with
      | object entries =>
          rw [validate, map_eq_error_iff, validateEntries_eq_error_iff] at refused
          obtain ⟨entry, listed, refused⟩ := refused.exists_mem
          exact .entry listed (inductionHypothesis refused inside)
      | _ =>
          obtain rfl := Except.error.inj refused
          exact .complaint inside (by rintro ⟨⟩)
  | union verbose branches inductionHypothesis =>
      rw [validate] at refused
      split at refused
      · cases refused
      · next refusals allRefused =>
          obtain rfl := Except.error.inj refused
          obtain rfl | ⟨cause, kept, inside⟩ := Diagnostic.within_mk_iff.mp inside
          · have present : Complaint.noBranchMatched.message ≠ "property is required" :=
              mt Complaint.message_eq_required_iff.mp (by rintro ⟨⟩)
            exact .here rfl present
          · have listed : cause ∈ refusals := by
              cases verbose with
              | true => exact kept
              | false => cases kept
            obtain ⟨branch, member, refused⟩ :=
              exists_mem_of_forall₂ (validateAny_eq_error_iff.mp allRefused) listed
            exact inductionHypothesis branch member refused inside
  | intersection branches inductionHypothesis =>
      rw [validate, map_eq_error_iff, validateAll_eq_error_iff] at refused
      obtain ⟨branch, member, refused⟩ := refused.exists_mem
      exact inductionHypothesis branch member refused inside
  | object fields inductionHypothesis =>
      cases value with
      | object whole =>
          rw [validate, map_eq_error_iff, validateFields_eq_error_iff] at refused
          obtain ⟨field, member, refused⟩ := refused.exists_mem
          cases refused with
          | missing absent _ => exact .missing (Entries.find?_eq_none_iff.mp absent) inside
          | refused found refused =>
              exact .entry (Entries.mem_of_find?_eq_some found)
                (inductionHypothesis field member refused inside)
      | _ =>
          obtain rfl := Except.error.inj refused
          exact .complaint inside (by rintro ⟨⟩)

/-- Every diagnostic of a refusal is about a place of the refused value: a value there, or a key
that an object lacks there, of which alone it says that a property is required. -/
theorem located_of_validate_eq_error (shape : Shape) (value : Value) (path : Path)
    (refusal part : Diagnostic) (refused : shape.validate (some value) path = .error refusal)
    (inside : part.Within refusal) :
    ∃ rest found, part.path = path ++ rest ∧ value.Reaches rest.segments found ∧
      (found = none ↔ part.message = "property is required") ∧
      (value.Canonical → ∀ other, value.Reaches rest.segments other → other = found) := by
  obtain ⟨rest, found, below, reaches, tells⟩ := located_of_refused shape refused inside
  exact ⟨rest, found, below, reaches, tells, fun canonical other again =>
    reaches.unique canonical again⟩

/-- Contacts are given by their address, alone or under a key. -/
def contacts : Shape :=
  .arrayOf (.union true [string, .object [⟨"email", string, .required⟩]])

/-- Neither way of giving a contact fits the second one. -/
def contactsRefusal : Diagnostic :=
  .mk ⟨[.index 1]⟩ "no branch matched"
    [.of ⟨[.index 1]⟩ .stringExpected, .of ⟨[.index 1, .key "email"]⟩ .required]

theorem located_contactsRefusal :
    contacts.validate (some (.array [.string "a@b", .object []])) .root = .error contactsRefusal ∧
      ∀ part : Diagnostic, part.Within contactsRefusal → ∃ rest found,
        part.path = Path.root ++ rest ∧
        Value.Reaches (.array [.string "a@b", .object []]) rest.segments found ∧
        (found = none ↔ part.message = "property is required") :=
  ⟨rfl, fun part inside =>
    have ⟨rest, found, below, reaches, tells, _⟩ :=
      located_of_validate_eq_error contacts _ .root contactsRefusal part rfl inside
    ⟨rest, found, below, reaches, tells⟩⟩

end Shape

end Tenancy
