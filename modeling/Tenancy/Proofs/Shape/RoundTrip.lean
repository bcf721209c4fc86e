import Tenancy.Proofs.Shape.Settling

/-!
# The round trip of pruned values

A second check of a pruned value need not give the value back, not even for shapes without
spellings to choose from whose conditions compare siblings only (`Shape.Plain`): a condition may
awake on a pruned sibling, another branch of a union may accept the output and drop entries, and an
object of an intersection may refuse what a later one has put under a shared key.
`Shape.checkAndPrune_pruned_iff_settled` says exactly after which runs the value comes back.
-/

namespace Tenancy

open Json

namespace Shape

/-- Checking a pruned value gives it back exactly after the settled runs. -/
theorem checkAndPrune_pruned_iff_settled {shape : Shape} (built : Built shape)
    {input : Option Value} {pruned : Value} (accepted : shape.checkAndPrune input = .ok pruned) :
    shape.checkAndPrune (some pruned) = .ok pruned ↔ Settled shape input := by
  rw [checkAndPrune_eq_ok_iff] at accepted ⊢
  exact built.settles _ _ accepted

-- the first of two branches without a common name drops what the second one has kept
example : (union false
    [.object [.optional "first" number], .object [.optional "second" number]]).prune?
      (some (.object [("first", .null), ("second", .number (.integer 1))])) =
    some (.object [("second", .number (.integer 1))]) := rfl

example : (union false
    [.object [.optional "first" number], .object [.optional "second" number]]).prune?
      (some (.object [("second", .number (.integer 1))])) = some (.object []) := rfl

-- the first of two objects asks for what the second one has overwritten
example : (intersection
    [.object [.required "key" (.object [.required "left" number])],
      .object [.required "key" (.object [.required "right" number])]]).prune?
      (some (.object [("key", .object
        [("left", .number (.integer 1)), ("right", .number (.integer 2))])])) =
    some (.object [("key", .object [("right", .number (.integer 2))])]) := rfl

example : (intersection
    [.object [.required "key" (.object [.required "left" number])],
      .object [.required "key" (.object [.required "right" number])]]).prune?
      (some (.object [("key", .object [("right", .number (.integer 2))])])) = none := rfl

/-- The shapes without spellings to choose from, all of whose conditions compare siblings. -/
inductive Plain : Shape → Prop where
  | kind (expected : Kind) : Plain (.kind expected)
  | literal (expected : Value) : Plain (.literal expected)
  | oneOf (members : List Value) : Plain (.oneOf members)
  | enumeration (name : String) (variants : List Value) : Plain (.enumeration name variants false)
  | arrayOf {element : Shape} : Plain element → Plain (.arrayOf element)
  | mapOf {value : Shape} : Plain value → Plain (.mapOf value)
  | union {verbose : Bool} {branches : List Shape} :
      (∀ branch ∈ branches, Plain branch) → Plain (.union verbose branches)
  | intersection {branches : List Shape} :
      (∀ branch ∈ branches, Plain branch) → Plain (.intersection branches)
  | object (object : ObjectShape) : (∀ field ∈ object.fields, Plain field.shape) →
      (∀ field ∈ object.fields, ∀ condition, field.requiredness = .requiredIf condition →
        ∃ sibling expected, condition = siblingEquals sibling expected) → Plain object.toShape

theorem Plain.built {shape : Shape} (plain : Plain shape) : Built shape := by
  induction plain with
  | kind expected => exact .kind expected
  | literal expected => exact .literal expected
  | oneOf members => exact .oneOf members
  | enumeration name variants => exact .enumeration name variants false
  | arrayOf _ inductionHypothesis => exact .arrayOf inductionHypothesis
  | mapOf _ inductionHypothesis => exact .mapOf inductionHypothesis
  | union _ inductionHypothesis => exact .union inductionHypothesis
  | intersection _ inductionHypothesis => exact .intersection inductionHypothesis
  | object object _ _ inductionHypothesis => exact .object object inductionHypothesis

/-- A marked guard, and a text that is required when the guard holds nothing but its mark. -/
def guarded : Shape :=
  .object [.required "guard" (.object [.required "mark" number]),
    .requiredIf "text" string (siblingEquals "guard" (.object [("mark", .number (.integer 1))]))]

theorem plain_guarded : Plain guarded := by
  refine .object ⟨_, by decide⟩ ?_ ?_
  · rintro field (_ | ⟨_, _ | ⟨_, ⟨⟩⟩⟩)
    · refine .object ⟨[.required "mark" number], by decide⟩ ?_ ?_
      · rintro field (_ | ⟨_, ⟨⟩⟩)
        exact .kind .number
      · rintro field (_ | ⟨_, ⟨⟩⟩) condition ⟨⟩
    · exact .kind .string
  · rintro field (_ | ⟨_, _ | ⟨_, ⟨⟩⟩⟩) condition same
    · exact nomatch same
    · exact ⟨_, _, (Requiredness.requiredIf.inj same).symm⟩

/-- Once the entry beside the mark is pruned, the text is missing. -/
theorem not_settled_guarded :
    guarded.checkAndPrune (some (.object [("guard",
      .object [("junk", .null), ("mark", .number (.integer 1))])])) =
        .ok (.object [("guard", .object [("mark", .number (.integer 1))])]) ∧
      ¬ guarded.Settled (some (.object [("guard",
        .object [("junk", .null), ("mark", .number (.integer 1))])])) := by
  refine ⟨rfl, ?_⟩
  intro settled
  exact nomatch (checkAndPrune_pruned_iff_settled plain_guarded.built rfl).mpr settled

/-- Plain shapes refuse some of what they have pruned. -/
theorem not_forall_plain_checkAndPrune_pruned :
    ¬ ∀ shape, Plain shape → ∀ input pruned, shape.checkAndPrune input = .ok pruned →
      shape.checkAndPrune (some pruned) = .ok pruned := by
  intro again
  exact nomatch again guarded plain_guarded (some (.object [("guard",
    .object [("junk", .null), ("mark", .number (.integer 1))])])) _ rfl

end Shape

end Tenancy
