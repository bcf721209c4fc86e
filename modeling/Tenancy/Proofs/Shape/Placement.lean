import Tenancy.Proofs.Shape.Listing
import Tenancy.Proofs.Shape.Translation

/-!
# Where validation starts

A shape is told where the value it judges stands, and says it in its diagnostics. It makes no other
use of the place: at a path it accepts what it accepts at the root, with the same output, and
refuses the rest with the same diagnostics, each of them with the path before its own
(`Shape.validate_append`, `Shape.validate_threads_path`).
-/

namespace Tenancy

open Json Outcome

theorem Path.append_child (path place : Path) (segment : Segment) :
    (path ++ place).child segment = path ++ place.child segment :=
  congrArg Path.mk (List.append_assoc path.segments place.segments [segment])

namespace Diagnostic

mutual

/-- The diagnostic with a path before its own place, and before those of its causes at any depth. -/
def under (path : Path) : Diagnostic → Diagnostic
  | mk place message causes => mk (path ++ place) message (underAll path causes)

def underAll (path : Path) : List Diagnostic → List Diagnostic
  | [] => []
  | cause :: rest => cause.under path :: underAll path rest

end

theorem underAll_eq_map (path : Path) (causes : List Diagnostic) :
    underAll path causes = causes.map (under path) := by
  induction causes with
  | nil => rfl
  | cons cause rest inductionHypothesis => rw [underAll, List.map_cons, inductionHypothesis]

theorem under_mk (path place : Path) (message : String) (causes : List Diagnostic) :
    (mk place message causes).under path = mk (path ++ place) message (causes.map (under path)) :=
  congrArg (mk (path ++ place) message) (underAll_eq_map path causes)

theorem path_under (path : Path) (diagnostic : Diagnostic) :
    (diagnostic.under path).path = path ++ diagnostic.path := by
  cases diagnostic
  rfl

theorem message_under (path : Path) (diagnostic : Diagnostic) :
    (diagnostic.under path).message = diagnostic.message := by
  cases diagnostic
  rfl

theorem causes_under (path : Path) (diagnostic : Diagnostic) :
    (diagnostic.under path).causes = diagnostic.causes.map (under path) := by
  cases diagnostic
  rw [under_mk]
  rfl

/-- The same nodes are found at the same addresses. -/
theorem node?_under (path : Path) (diagnostic : Diagnostic) (address : List Nat) :
    (diagnostic.under path).node? address = (diagnostic.node? address).map (under path) := by
  induction address generalizing diagnostic with
  | nil => rfl
  | cons position address inductionHypothesis =>
      rw [node?, node?, causes_under, List.getElem?_map]
      cases diagnostic.causes[position]? with
      | none => rfl
      | some cause => exact inductionHypothesis cause

end Diagnostic

namespace Shape

/-- Where validation starts further down, the way there stands before every place it names. -/
theorem validate_append (shape : Shape) (input : Option Value) (path place : Path) :
    shape.validate input (path ++ place) = (shape.validate input place).mapError (.under path) := by
  induction shape generalizing input place with
  | kind expected => exact (Leaf.kind expected).translates fun _ => rfl
  | literal expected => exact (Leaf.literal expected).translates fun _ => rfl
  | oneOf members => exact (Leaf.oneOf members).translates fun _ => rfl
  | enumeration name variants ignoresCase =>
      exact (Leaf.enumeration name variants ignoresCase).translates fun _ => rfl
  | arrayOf element inductionHypothesis =>
      rcases input with _ | (_ | _ | _ | _ | items | _)
      case some.array =>
        have each : ∀ item position, element.validate (some item) ((path ++ place).index position) =
            (element.validate (some item) (place.index position)).mapError (.under path) := by
          intro item position
          rw [Path.index, Path.append_child]
          exact inductionHypothesis (some item) _
        rw [validate, validate, validateItems_mapError each, mapError_map]
      all_goals rfl
  | mapOf value inductionHypothesis =>
      rcases input with _ | (_ | _ | _ | _ | _ | entries)
      case some.object =>
        have each : ∀ entry key, value.validate (some entry) ((path ++ place).key key) =
            (value.validate (some entry) (place.key key)).mapError (.under path) := by
          intro entry key
          rw [Path.key, Path.append_child]
          exact inductionHypothesis (some entry) _
        rw [validate, validate, validateEntries_mapError each, mapError_map]
      all_goals rfl
  | union verbose branches inductionHypothesis =>
      have each : List.Forall₂ (Translates (.under path) input place (path ++ place)) branches
          branches := List.forall₂_same.mpr fun branch member =>
        inductionHypothesis branch member input place
      rw [validate, validate, validateAny_mapError each]
      cases validateAny branches input place with
      | ok accepted => rfl
      | error refusals =>
          cases verbose with
          | true => exact congrArg Except.error (Diagnostic.under_mk path place _ refusals).symm
          | false => rfl
  | intersection branches inductionHypothesis =>
      have each : List.Forall₂ (Translates (.under path) input place (path ++ place)) branches
          branches := List.forall₂_same.mpr fun branch member =>
        inductionHypothesis branch member input place
      rw [validate, validate, validateAll_mapError each, mapError_map]
  | object fields inductionHypothesis =>
      rcases input with _ | (_ | _ | _ | _ | _ | whole)
      case some.object =>
        have missing (name : String) : (Diagnostic.of (place.key name) .required).under path =
            .of ((path ++ place).key name) .required := by
          rw [Path.key, Path.key, Path.append_child]
          rfl
        rw [validate, validate, validateFields_mapError missing, mapError_map]
        refine List.forall₂_same.mpr fun field member => ⟨rfl, rfl, fun value => ?_⟩
        rw [Translates, Path.key, Path.append_child]
        exact inductionHypothesis field member (some value) _
      all_goals rfl

/-- At a path a shape judges as at the root, and the path stands before the places of its
diagnostics: before that of every node of a refusal, which says the same as the node at its address
in the refusal at the root. -/
theorem validate_threads_path (shape : Shape) (input : Option Value) (path : Path) :
    shape.validate input path = (shape.validate input .root).mapError (.under path) ∧
      (∀ pruned, shape.validate input path = .ok pruned ↔
        shape.validate input .root = .ok pruned) ∧
      ∀ refusal, shape.validate input .root = .error refusal →
        ∃ moved, shape.validate input path = .error moved ∧ ∀ address,
          (moved.node? address).map (fun node => (node.path, node.message)) =
            (refusal.node? address).map fun node => (path ++ node.path, node.message) := by
  have moves : shape.validate input path = (shape.validate input .root).mapError (.under path) := by
    rw [← validate_append, Path.append_root]
  refine ⟨moves, fun pruned => ?_, fun refusal refused => ?_⟩
  · rw [moves, mapError_eq_ok_iff]
  · refine ⟨refusal.under path, ?_, fun address => ?_⟩
    · rw [moves, refused]
      rfl
    · rw [Diagnostic.node?_under, Option.map_map]
      congr 1
      funext node
      exact Prod.ext (node.path_under path) (node.message_under path)

/-- The contacts of a person: the second one lacks an address, as it does on its own. -/
theorem validate_threads_path_contacts :
    contacts.validate (some (.array [.string "a@b", .object []])) .root = .error contactsRefusal ∧
      ∃ moved, contacts.validate (some (.array [.string "a@b", .object []]))
          (Path.root.key "person") = .error moved ∧
        ((moved.node? [1]).map fun node => (node.path, node.message)) =
          some (⟨[.key "person", .index 1, .key "email"]⟩, "property is required") := by
  have refused : contacts.validate (some (.array [.string "a@b", .object []])) .root =
      .error contactsRefusal := rfl
  obtain ⟨moved, again, nodes⟩ :=
    (validate_threads_path contacts _ (Path.root.key "person")).2.2 _ refused
  exact ⟨refused, moved, again, nodes [1]⟩

end Shape

end Tenancy
