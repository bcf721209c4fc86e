import Tenancy.Proofs.Shape.Idempotence
import Tenancy.Proofs.Shape.Listing
import Tenancy.Proofs.Shape.Translation

/-!
# Verbose unions

A verbose union tells what each of its branches said. Take that away everywhere in a shape
(`Shape.terse`) and it accepts the same inputs with the same outputs, and refuses the others with
the same diagnostics less their causes (`Shape.validate_terse`). So what a terse shape reports is
the first line of what the verbose one reports, whose further lines are the nodes below it in their
order; and a node with others below it is the refusal of a verbose union, by branches in their
order (`Shape.terse_reports_first_line`).
-/

namespace Tenancy

open Json Outcome

/-- A diagnostic without what it sums up. -/
def Diagnostic.bare (diagnostic : Diagnostic) : Diagnostic :=
  .mk diagnostic.path diagnostic.message []

namespace Shape

mutual

/-- The shape with unions that do not tell what their branches said, at any depth. -/
def terse : Shape → Shape
  | .kind expected => .kind expected
  | .literal expected => .literal expected
  | .oneOf members => .oneOf members
  | .enumeration name variants ignoresCase => .enumeration name variants ignoresCase
  | .arrayOf element => .arrayOf element.terse
  | .mapOf value => .mapOf value.terse
  | .union _ branches => .union false (terseAll branches)
  | .intersection branches => .intersection (terseAll branches)
  | .object fields => .object (terseFields fields)

def terseAll : List Shape → List Shape
  | [] => []
  | shape :: rest => shape.terse :: terseAll rest

def terseFields : List (Field Shape) → List (Field Shape)
  | [] => []
  | ⟨name, shape, requiredness⟩ :: rest => ⟨name, shape.terse, requiredness⟩ :: terseFields rest

end

/-! ### Refusals without causes -/

theorem terseAll_eq_map (branches : List Shape) : terseAll branches = branches.map terse := by
  induction branches with
  | nil => rfl
  | cons branch rest inductionHypothesis => rw [terseAll, List.map_cons, inductionHypothesis]

theorem terseFields_eq_map (fields : List (Field Shape)) :
    terseFields fields =
      fields.map fun field => { field with shape := field.shape.terse } := by
  induction fields with
  | nil => rfl
  | cons field rest inductionHypothesis => rw [terseFields, List.map_cons, inductionHypothesis]

variable {input : Option Value} {path : Path}

theorem translates_terseAll {branches : List Shape}
    (each : ∀ branch ∈ branches, branch.terse.validate input path =
      (branch.validate input path).mapError .bare) :
    List.Forall₂ (Translates .bare input path path) branches (terseAll branches) := by
  rw [terseAll_eq_map, List.forall₂_map_right_iff, List.forall₂_same]
  exact each

/-- A terse shape judges alike and says less. -/
theorem validate_terse (shape : Shape) (input : Option Value) (path : Path) :
    shape.terse.validate input path = (shape.validate input path).mapError .bare := by
  induction shape generalizing input path with
  | kind expected => exact (Leaf.kind expected).translates fun _ => rfl
  | literal expected => exact (Leaf.literal expected).translates fun _ => rfl
  | oneOf members => exact (Leaf.oneOf members).translates fun _ => rfl
  | enumeration name variants ignoresCase =>
      exact (Leaf.enumeration name variants ignoresCase).translates fun _ => rfl
  | arrayOf element inductionHypothesis =>
      cases input with
      | none => rfl
      | some value =>
          cases value with
          | array items =>
              rw [terse, validate, validate, mapError_map,
                validateItems_mapError fun item position => inductionHypothesis (some item) _]
          | null | bool | number | string | object => rfl
  | mapOf value inductionHypothesis =>
      cases input with
      | none => rfl
      | some given =>
          cases given with
          | object entries =>
              rw [terse, validate, validate, mapError_map,
                validateEntries_mapError fun entry key => inductionHypothesis (some entry) _]
          | null | bool | number | string | array => rfl
  | union verbose branches inductionHypothesis =>
      have each := translates_terseAll fun branch member =>
        inductionHypothesis branch member input path
      rw [terse, validate, validate, validateAny_mapError each]
      cases validateAny branches input path <;> rfl
  | intersection branches inductionHypothesis =>
      have each := translates_terseAll fun branch member =>
        inductionHypothesis branch member input path
      rw [terse, validate, validate, validateAll_mapError each, mapError_map]
  | object fields inductionHypothesis =>
      cases input with
      | none => rfl
      | some value =>
          cases value with
          | object whole =>
              have missing (name : String) : (Diagnostic.of (path.key name) .required).bare =
                  .of (path.key name) .required := rfl
              rw [terse, validate, validate, mapError_map, terseFields_eq_map,
                validateFields_mapError missing]
              rw [List.forall₂_map_right_iff, List.forall₂_same]
              exact fun field member => ⟨rfl, rfl, fun value =>
                inductionHypothesis field member (some value) _⟩
          | null | bool | number | string | array => rfl

/-! ### Where causes come from -/

/-- A shape is part of another one that is it, or that is made of shapes of which it is part. -/
inductive Part (part : Shape) : Shape → Prop where
  | self : Part part part
  | element {element : Shape} : Part part element → Part part (.arrayOf element)
  | value {value : Shape} : Part part value → Part part (.mapOf value)
  | branch {verbose : Bool} {branches : List Shape} {branch : Shape} : branch ∈ branches →
      Part part branch → Part part (.union verbose branches)
  | side {branches : List Shape} {branch : Shape} : branch ∈ branches → Part part branch →
      Part part (.intersection branches)
  | field {fields : List (Field Shape)} {field : Field Shape} : field ∈ fields →
      Part part field.shape → Part part (.object fields)

/-- What a union says when no branch accepts. -/
theorem validate_union_eq_error_iff {verbose : Bool} {branches : List Shape}
    {refusal : Diagnostic} :
    (union verbose branches).validate input path = .error refusal ↔
      ∃ refusals, List.Forall₂ (fun branch other => branch.validate input path = .error other)
        branches refusals ∧
          refusal =
            .mk path Complaint.noBranchMatched.message (if verbose then refusals else []) := by
  simp only [← validateAny_eq_error_iff]
  rw [validate]
  cases validateAny branches input path <;> simp [eq_comm]

/-- A diagnostic sums up the refusals of all branches of a verbose union, in their order. -/
def SumsUp (branches : List Shape) (input : Option Value) (refusal : Diagnostic) : Prop :=
  refusal.message = Complaint.noBranchMatched.message ∧
    List.Forall₂ (fun branch cause => branch.validate input refusal.path = .error cause)
      branches refusal.causes

theorem sumsUp_of_validate_union {branches : List Shape} {refusal : Diagnostic}
    (refused : (union true branches).validate input path = .error refusal) :
    refusal.path = path ∧ SumsUp branches input refusal := by
  obtain ⟨refusals, each, rfl⟩ := validate_union_eq_error_iff.mp refused
  exact ⟨rfl, rfl, each⟩

theorem causes_eq_nil_of_within_complaint {part : Diagnostic} {complaint : Complaint}
    (inside : part.Within (.of path complaint)) : part.causes = [] := by
  obtain rfl := Diagnostic.within_of_iff.mp inside
  rfl

theorem Leaf.exists_complaint {shape : Shape} (leaf : Leaf shape) {refusal : Diagnostic}
    (refused : shape.validate input path = .error refusal) :
    ∃ complaint, refusal = .of path complaint := by
  obtain ⟨outcome, verdict⟩ := leaf.exists_outcome input
  obtain ⟨complaint, -, told⟩ := mapError_eq_error_iff.mp ((verdict path).symm.trans refused)
  exact ⟨complaint, told.symm⟩

theorem Leaf.causes_eq_nil_of_within {shape : Shape} (leaf : Leaf shape) {part refusal : Diagnostic}
    (refused : shape.validate input path = .error refusal) (inside : part.Within refusal) :
    part.causes = [] := by
  obtain ⟨complaint, rfl⟩ := leaf.exists_complaint refused
  exact causes_eq_nil_of_within_complaint inside

/-- Only verbose unions give causes. -/
theorem exists_sumsUp_of_within (shape : Shape) {part refusal : Diagnostic}
    (refused : shape.validate input path = .error refusal) (inside : part.Within refusal)
    (sums : part.causes ≠ []) :
    ∃ branches given, (union true branches).Part shape ∧ SumsUp branches given part := by
  -- A complaint has no causes, so the refusal comes from a part, or is the union's own.
  induction shape generalizing input path refusal with
  | kind expected =>
      exact absurd ((Leaf.kind expected).causes_eq_nil_of_within refused inside) sums
  | literal expected =>
      exact absurd ((Leaf.literal expected).causes_eq_nil_of_within refused inside) sums
  | oneOf members =>
      exact absurd ((Leaf.oneOf members).causes_eq_nil_of_within refused inside) sums
  | enumeration name variants ignoresCase =>
      have leaf := Leaf.enumeration name variants ignoresCase
      exact absurd (leaf.causes_eq_nil_of_within refused inside) sums
  | arrayOf element inductionHypothesis =>
      rcases input with _ | (_ | _ | _ | _ | items | _)
      case some.array =>
        rw [validate, map_eq_error_iff, validateItems_eq_error_iff] at refused
        obtain ⟨item, -, refused⟩ := refused.exists_mem
        obtain ⟨branches, given, inElement, sumsUp⟩ := inductionHypothesis refused inside
        exact ⟨branches, given, .element inElement, sumsUp⟩
      all_goals
        obtain rfl := Except.error.inj refused
        exact absurd (causes_eq_nil_of_within_complaint inside) sums
  | mapOf value inductionHypothesis =>
      rcases input with _ | (_ | _ | _ | _ | _ | entries)
      case some.object =>
        rw [validate, map_eq_error_iff, validateEntries_eq_error_iff] at refused
        obtain ⟨entry, -, refused⟩ := refused.exists_mem
        obtain ⟨branches, given, inValue, sumsUp⟩ := inductionHypothesis refused inside
        exact ⟨branches, given, .value inValue, sumsUp⟩
      all_goals
        obtain rfl := Except.error.inj refused
        exact absurd (causes_eq_nil_of_within_complaint inside) sums
  | union verbose branches inductionHypothesis =>
      obtain ⟨refusals, each, rfl⟩ := validate_union_eq_error_iff.mp refused
      cases verbose with
      | false =>
          obtain rfl | ⟨_, ⟨⟩, _⟩ := Diagnostic.within_mk_iff.mp inside
          exact absurd rfl sums
      | true =>
          obtain rfl | ⟨cause, listed, inside⟩ := Diagnostic.within_mk_iff.mp inside
          · exact ⟨branches, input, .self, rfl, each⟩
          · obtain ⟨branch, member, refused⟩ := exists_mem_of_forall₂ each listed
            obtain ⟨others, given, inBranch, sumsUp⟩ :=
              inductionHypothesis branch member refused inside
            exact ⟨others, given, .branch member inBranch, sumsUp⟩
  | intersection branches inductionHypothesis =>
      rw [validate, map_eq_error_iff, validateAll_eq_error_iff] at refused
      obtain ⟨branch, member, refused⟩ := refused.exists_mem
      obtain ⟨others, given, inBranch, sumsUp⟩ := inductionHypothesis branch member refused inside
      exact ⟨others, given, .side member inBranch, sumsUp⟩
  | object fields inductionHypothesis =>
      rcases input with _ | (_ | _ | _ | _ | _ | whole)
      case some.object =>
        rw [validate, map_eq_error_iff, validateFields_eq_error_iff] at refused
        obtain ⟨field, member, refused⟩ := refused.exists_mem
        cases refused with
        | missing _ _ => exact absurd (causes_eq_nil_of_within_complaint inside) sums
        | refused found refused =>
            obtain ⟨branches, given, inField, sumsUp⟩ :=
              inductionHypothesis field member refused inside
            exact ⟨branches, given, .field member inField, sumsUp⟩
      all_goals
        obtain rfl := Except.error.inj refused
        exact absurd (causes_eq_nil_of_within_complaint inside) sums

/-- A shape and its terse form accept the same inputs with the same outputs. Where they refuse, the
terse one gives the same diagnostic without causes, which is the first line of what the verbose one
reports. The verbose one's lines are the nodes of its diagnostic, each once and before the nodes
below it, which are what the branches of a verbose union said, in their order. -/
theorem terse_reports_first_line (shape : Shape) (input : Option Value) (path : Path) :
    (∀ pruned, shape.terse.validate input path = .ok pruned ↔
      shape.validate input path = .ok pruned) ∧
    (∀ refusal, shape.validate input path = .error refusal →
      shape.terse.validate input path = .error (.mk refusal.path refusal.message []) ∧
      ∀ address node, refusal.node? address = some node → node.causes ≠ [] →
        ∃ branches given, (union true branches).Part shape ∧ SumsUp branches given node) ∧
    (∀ branches refusal, (union true branches).validate input path = .error refusal →
      refusal.path = path ∧ SumsUp branches input refusal) ∧
    ∀ rejection, shape.checkAndPrune input = .error rejection →
      ∃ refusal nodes first, shape.validate input .root = .error refusal ∧
        refusal.ListsNodes nodes ∧ rejection.errors = nodes.map (fun node => node.2.entry) ∧
        rejection.errors.head? = some first ∧
        shape.terse.checkAndPrune input = .error (.ofErrors [first]) := by
  refine ⟨fun pruned => ?accepts, fun refusal refused => ⟨?briefly, ?causes⟩,
    fun branches refusal => sumsUp_of_validate_union, fun rejection rejected => ?lines⟩
  case accepts => rw [validate_terse, mapError_eq_ok_iff]
  case briefly =>
    rw [validate_terse, refused]
    rfl
  case causes =>
    intro address node found
    exact exists_sumsUp_of_within shape refused (Diagnostic.within_of_node?_eq_some found)
  case lines =>
    obtain ⟨refusal, refused, rfl⟩ := mapError_eq_error_iff.mp rejected
    refine ⟨refusal, refusal.nodes, refusal.entry, refused, refusal.listsNodes_nodes,
      refusal.flatten_eq_map_nodes, ?first, ?brief⟩
    case first =>
      cases refusal
      rfl
    case brief =>
      rw [checkAndPrune, validate_terse, refused]
      rfl

/-- Tags given as a list of texts and numbers, or as an object with an id. -/
def tags : Shape :=
  .union true [.arrayOf (.union true [string, number]), .object [.required "id" string]]

/-- A flag is no tag, and a list no object. -/
def tagsRefusal : Diagnostic :=
  .mk .root "no branch matched"
    [.mk ⟨[.index 0]⟩ "no branch matched"
      [.of ⟨[.index 0]⟩ .stringExpected, .of ⟨[.index 0]⟩ .numberExpected],
    .of .root .objectExpected]

example : tagsRefusal.nodes.map Prod.fst = [[], [0], [0, 0], [0, 1], [1]] := by decide

theorem terse_reports_first_line_tags :
    tags.validate (some (.array [.bool true])) .root = .error tagsRefusal ∧
      tags.terse.validate (some (.array [.bool true])) .root =
        .error (.mk .root "no branch matched" []) ∧
      tags.checkAndPrune (some (.array [.bool true])) = .error (.ofDiagnostic tagsRefusal) ∧
      tags.terse.checkAndPrune (some (.array [.bool true])) =
        .error (.ofErrors [⟨"(root)", "no branch matched"⟩]) := by
  have refused : tags.validate (some (.array [.bool true])) .root = .error tagsRefusal := rfl
  have rejected : tags.checkAndPrune (some (.array [.bool true])) =
      .error (.ofDiagnostic tagsRefusal) := rfl
  obtain ⟨-, refuses, -, rejects⟩ :=
    terse_reports_first_line tags (some (.array [.bool true])) .root
  obtain ⟨_, _, first, -, -, -, heads, brief⟩ := rejects _ rejected
  obtain rfl : ⟨"(root)", "no branch matched"⟩ = first := Option.some.inj heads
  exact ⟨refused, (refuses _ refused).1, rejected, brief⟩

end Shape

end Tenancy
