import Tenancy.Proofs.Shape.Fitting
import Tenancy.Proofs.Shape.Merging

/-!
# Settled runs

What has to hold of a first run so that a second one gives its output back (`Shape.Settled`). Below
arrays, maps and fields it has to hold of every part, and no absent field may be required by the
pruned object, whose siblings may equal what their originals did not. The branch of a union that
decides about the input has to decide about the output too, unless the output fits the branch that
does. In an intersection of objects, the last object to declare a name has to have its value
settled, and the others have to accept what it has put there. Each form of shape keeps the
equivalence (`Shape.Settles`) of its parts, so it holds of all built shapes.
-/

namespace Tenancy

open Json

namespace Shape

/-- Pruning leaves a value as it is. Only a value with keys out of order, which no document is read
to, is taken as it comes (`stays_iff_fits`). -/
inductive Stays (shape : Shape) (value : Value) : Prop where
  | fits : value.Canonical → Fits shape value → Stays shape value
  | disordered : ¬value.Canonical → shape.prune? (some value) = some value → Stays shape value

/-- Of what documents are pruned to, only what fits stays. -/
theorem stays_iff_fits {shape other : Shape} {input pruned : Value} (canonical : input.Canonical)
    (accepted : shape.prune? (some input) = some pruned) :
    Stays other pruned ↔ Fits other pruned := by
  have inOrder := canonical_of_prune? canonical accepted
  constructor
  · intro stays
    cases stays with
    | fits _ fits => exact fits
    | disordered disordered _ => exact absurd inOrder disordered
  · exact .fits inOrder

/-- The runs after which a second run changes nothing. -/
inductive Settled : Shape → Option Value → Prop where
  | leaf {shape : Shape} {input : Option Value} : Leaf shape → Settled shape input
  | arrayOf {element : Shape} {items : List Value} :
      (∀ item ∈ items, Settled element (some item)) →
      Settled (.arrayOf element) (some (.array items))
  | mapOf {value : Shape} {entries : Object} :
      (∀ entry ∈ entries, Settled value (some entry.2)) →
      Settled (.mapOf value) (some (.object entries))
  /-- The fields that are there are settled, and no other field awakes. -/
  | object {fields : List (Field Shape)} {whole pruned : Object} :
      Prunes fields whole pruned →
      (∀ field ∈ fields, ∀ value, whole.find? field.name = some value →
        Settled field.shape (some value)) →
      (∀ field ∈ fields, whole.find? field.name = none →
        field.requiredness.holds none pruned = false) →
      Settled (.object fields) (some (.object whole))
  /-- The branch that decides about the input is settled, and decides about the output too. -/
  | kept {verbose : Bool} {branches : List Shape} {branch : Shape} {input : Option Value}
      {pruned : Value} :
      Decides input branches branch → branch.prune? input = some pruned →
      Decides (some pruned) branches branch → Settled branch input →
      Settled (.union verbose branches) input
  /-- Another branch decides about the output, and leaves it as it is. -/
  | exchanged {verbose : Bool} {branches : List Shape} {branch other : Shape}
      {input : Option Value} {pruned : Value} :
      Decides input branches branch → branch.prune? input = some pruned →
      Decides (some pruned) branches other → other ≠ branch → Stays other pruned →
      Settled (.union verbose branches) input
  | unbounded {input : Option Value} : Settled (.intersection []) input
  /-- The final fields that are there are settled, all fields accept what is merged under their
  names, and none that is absent awakes. -/
  | objects {objects : List ObjectShape} {whole merged : Object} {output : ObjectShape → Object} :
      Merges objects whole output merged →
      (∀ object field, Final objects object field → ∀ value,
        whole.find? field.name = some value → Settled field.shape (some value)) →
      (∀ object ∈ objects, ∀ field ∈ object.fields, ∀ value,
        merged.find? field.name = some value → Conforms field.shape (some value)) →
      (∀ object ∈ objects, ∀ field ∈ object.fields, whole.find? field.name = none →
        field.requiredness.holds none merged = false) →
      Settled (.intersection (objects.map ObjectShape.toShape)) (some (.object whole))
  /-- Branches that are not all objects leave the merged output as it is. -/
  | mixed {branches : List Shape} {input : Option Value} {pruned : Value} :
      (∀ objects : List ObjectShape, branches ≠ objects.map ObjectShape.toShape) →
      (Shape.intersection branches).prune? input = some pruned →
      Stays (.intersection branches) pruned → Settled (.intersection branches) input

theorem Built.prune?_self_iff_stays {shape : Shape} (built : Built shape) {value : Value} :
    shape.prune? (some value) = some value ↔ Stays shape value := by
  constructor
  · intro same
    by_cases canonical : value.Canonical
    · exact .fits canonical ((built.prune?_self_iff_fits canonical).mp same)
    · exact .disordered canonical same
  · intro stays
    cases stays with
    | fits canonical fits => exact (built.prune?_self_iff_fits canonical).mpr fits
    | disordered _ same => exact same

/-- A second run of a shape changes nothing exactly if the first one is settled. -/
def Settles (shape : Shape) : Prop :=
  ∀ input pruned, shape.prune? input = some pruned →
    (shape.prune? (some pruned) = some pruned ↔ Settled shape input)

/-! ### Unions -/

/-- A union gives its output back exactly if it is settled, when its branches do so. -/
theorem settles_union {verbose : Bool} {branches : List Shape}
    (built : ∀ branch ∈ branches, Built branch) (settles : ∀ branch ∈ branches, Settles branch) :
    Settles (.union verbose branches) := by
  intro input pruned accepted
  obtain ⟨branch, decides, accepts⟩ := exists_decides_of_prune? accepted
  constructor
  · intro again
    obtain ⟨other, redecides, gives⟩ := exists_decides_of_prune? again
    by_cases same : other = branch
    · subst same
      exact .kept decides accepts redecides
        ((settles other decides.mem input pruned accepts).mp gives)
    · exact .exchanged decides accepts redecides same
        ((built other redecides.mem).prune?_self_iff_stays.mp gives)
  · intro settled
    cases settled with
    | leaf leaf => cases leaf
    | kept first given redecides settled =>
        obtain rfl := decides.unique first
        obtain rfl := Option.some.inj (accepts.symm.trans given)
        rw [redecides.prune?_union]
        exact (settles _ decides.mem input _ accepts).mpr settled
    | exchanged first given redecides _ stays =>
        obtain rfl := decides.unique first
        obtain rfl := Option.some.inj (accepts.symm.trans given)
        rw [redecides.prune?_union]
        exact (built _ redecides.mem).prune?_self_iff_stays.mpr stays

/-! ### Objects -/

/-- A field finds its output again exactly if it is settled, or stays absent. -/
theorem PrunesField.again_iff {field : Field Shape} {whole pruned : Object}
    (prunes : PrunesField field whole pruned) (settles : Settles field.shape) :
    PrunesField field pruned pruned ↔
      (∀ value, whole.find? field.name = some value → Settled field.shape (some value)) ∧
      (whole.find? field.name = none → field.requiredness.holds none pruned = false) := by
  cases prunes with
  | absent missing free left =>
      constructor
      · intro again
        exact ⟨fun value found => (nomatch missing.symm.trans found),
          fun _ => again.holds_eq_false left⟩
      · rintro ⟨-, asleep⟩
        exact .absent left (asleep missing) left
  | @present value accepted found accepts kept =>
      constructor
      · intro again
        obtain ⟨output, gives, same⟩ := again.exists_of_find? kept
        obtain rfl := Option.some.inj (kept.symm.trans same)
        refine ⟨?_, fun missing => nomatch found.symm.trans missing⟩
        intro other listed
        obtain rfl := Option.some.inj (found.symm.trans listed)
        exact (settles _ _ accepts).mp gives
      · rintro ⟨settled, -⟩
        exact .present kept ((settles _ _ accepts).mpr (settled value found)) kept

/-- An object gives its output back exactly if it is settled, when its fields do so. -/
theorem settles_object {object : ObjectShape}
    (settles : ∀ field ∈ object.fields, Settles field.shape) : Settles object.toShape := by
  intro input pruned accepted
  obtain ⟨whole, output, rfl, prunes, rfl⟩ :=
    (prune?_object_eq_some_iff object.distinct).mp accepted
  have fields := fun field member =>
    (prunes.ofField field member).again_iff (settles field member)
  constructor
  · intro again
    obtain ⟨_, _, ⟨rfl⟩, kept, ⟨rfl⟩⟩ := (prune?_object_eq_some_iff object.distinct).mp again
    have settled := fun field member => (fields field member).mp (kept.ofField field member)
    exact .object prunes (fun field member => (settled field member).1)
      fun field member => (settled field member).2
  · intro settled
    cases settled with
    | leaf leaf => cases leaf
    | object first settled asleep =>
        obtain rfl := first.unique prunes
        refine (prune?_object_eq_some_iff object.distinct).mpr
          ⟨_, _, rfl, ⟨prunes.ascending, prunes.declared, ?_⟩, rfl⟩
        intro field member
        exact (fields field member).mpr ⟨settled field member, asleep field member⟩

/-! ### Intersections -/

theorem toShape_injective : Function.Injective ObjectShape.toShape := by
  intro object other same
  cases object
  cases other
  cases same
  rfl

theorem settles_unbounded : Settles (.intersection []) := by
  intro input pruned _
  exact iff_of_true rfl .unbounded

section Objects

variable {objects : List ObjectShape} {whole merged : Object} {output : ObjectShape → Object}

/-- When what is merged comes back, the first run was settled. -/
theorem Settled.of_merges_self (merges : Merges objects whole output merged)
    (settles : ∀ object ∈ objects, ∀ field ∈ object.fields, Settles field.shape)
    {second : ObjectShape → Object} (again : Merges objects merged second merged) :
    Settled (.intersection (objects.map ObjectShape.toShape)) (some (.object whole)) := by
  refine .objects merges ?_ ?_ ?_
  · intro object field final value found
    obtain ⟨accepted, accepts, kept⟩ := merges.exists_of_final final found
    have unchanged := (again.eq_iff merges.ascending merges.declared).mp rfl
    exact (settles object final.mem field final.listed _ _ accepts).mp
      (unchanged object field final accepted kept)
  · intro object member field listed value found
    have ofField := (again.prunes object member).ofField field listed
    obtain ⟨accepted, accepts, -⟩ := ofField.exists_of_find? found
    exact exists_prune?_iff_conforms.mp ⟨accepted, accepts⟩
  · intro object member field listed missing
    have left := (merges.find?_eq_none_iff member listed).mpr missing
    exact ((again.prunes object member).ofField field listed).holds_eq_false left

/-- When the final fields are settled, all fields accept what is merged and none awakes, it comes
back. -/
theorem Merges.exists_self (merges : Merges objects whole output merged)
    (settles : ∀ object ∈ objects, ∀ field ∈ object.fields, Settles field.shape)
    (settled : ∀ object field, Final objects object field → ∀ value,
      whole.find? field.name = some value → Settled field.shape (some value))
    (conforms : ∀ object ∈ objects, ∀ field ∈ object.fields, ∀ value,
      merged.find? field.name = some value → Conforms field.shape (some value))
    (asleep : ∀ object ∈ objects, ∀ field ∈ object.fields, whole.find? field.name = none →
      field.requiredness.holds none merged = false) :
    ∃ second, Merges objects merged second merged := by
  have accept : ∀ object ∈ objects, Conforms object.toShape (some (.object merged)) := by
    intro object member
    refine .object (conforms object member) fun field listed missing => ?_
    exact asleep object member field listed ((merges.find?_eq_none_iff member listed).mp missing)
  obtain ⟨second, remerged, again⟩ := merges.exists_again accept
  have same : remerged = merged := by
    apply (again.eq_iff merges.ascending merges.declared).mpr
    intro object field final accepted kept
    cases found : whole.find? field.name with
    | none =>
        have left := (merges.find?_eq_none_iff final.mem final.listed).mpr found
        exact nomatch left.symm.trans kept
    | some value =>
        obtain ⟨_, accepts, stands⟩ := merges.exists_of_final final found
        obtain rfl := Option.some.inj (stands.symm.trans kept)
        exact (settles object final.mem field final.listed _ _ accepts).mpr
          (settled object field final value found)
  exact ⟨second, same ▸ again⟩

end Objects

/-- An intersection of objects gives its output back exactly if it is settled, when the fields of
the objects do so. -/
theorem settles_objects {objects : List ObjectShape} (nonempty : objects ≠ [])
    (settles : ∀ object ∈ objects, ∀ field ∈ object.fields, Settles field.shape) :
    Settles (.intersection (objects.map ObjectShape.toShape)) := by
  intro input pruned accepted
  constructor
  · intro again
    obtain ⟨whole, output, merged, rfl, merges, rfl⟩ :=
      (prune?_objects_eq_some_iff nonempty).mp accepted
    obtain ⟨_, second, _, ⟨rfl⟩, again, ⟨rfl⟩⟩ := (prune?_objects_eq_some_iff nonempty).mp again
    exact .of_merges_self merges settles again
  · intro settled
    generalize same : objects.map ObjectShape.toShape = branches at settled
    cases settled with
    | leaf leaf => cases leaf
    | unbounded => exact absurd (List.map_eq_nil_iff.mp same) nonempty
    | objects merges settled conforms asleep =>
        obtain rfl := List.map_injective_iff.mpr toShape_injective same
        have first := (prune?_objects_eq_some_iff nonempty).mpr ⟨_, _, _, rfl, merges, rfl⟩
        obtain rfl := Option.some.inj (first.symm.trans accepted)
        obtain ⟨second, again⟩ := merges.exists_self settles settled conforms asleep
        exact (prune?_objects_eq_some_iff nonempty).mpr ⟨_, second, _, rfl, again, rfl⟩
    | mixed other _ _ => exact absurd same.symm (other objects)

theorem settles_mixed {branches : List Shape} (built : ∀ branch ∈ branches, Built branch)
    (other : ∀ objects : List ObjectShape, branches ≠ objects.map ObjectShape.toShape) :
    Settles (.intersection branches) := by
  intro input pruned accepted
  rw [(Built.intersection built).prune?_self_iff_stays]
  constructor
  · exact .mixed other accepted
  · intro settled
    cases settled with
    | leaf leaf => cases leaf
    | unbounded => exact absurd rfl (other [])
    | objects => exact absurd rfl (other _)
    | mixed _ first stays =>
        obtain rfl := Option.some.inj (first.symm.trans accepted)
        exact stays

/-! ### All shapes -/

theorem settles_arrayOf {element : Shape} (settles : Settles element) :
    Settles (.arrayOf element) := by
  intro input pruned accepted
  obtain ⟨items, outputs, rfl, given, rfl⟩ := prune?_arrayOf_eq_some_iff.mp accepted
  have parts := forall_mem_iff_of_forall₂ given fun item output => settles (some item) output
  constructor
  · intro again
    obtain ⟨_, _, ⟨rfl⟩, kept, ⟨rfl⟩⟩ := prune?_arrayOf_eq_some_iff.mp again
    exact .arrayOf (parts.mp (List.forall₂_same.mp kept))
  · intro settled
    cases settled with
    | leaf leaf => cases leaf
    | arrayOf settled =>
        exact prune?_arrayOf_eq_some_iff.mpr
          ⟨_, _, rfl, List.forall₂_same.mpr (parts.mpr settled), rfl⟩

theorem settles_mapOf {value : Shape} (settles : Settles value) : Settles (.mapOf value) := by
  intro input pruned accepted
  obtain ⟨entries, outputs, rfl, given, rfl⟩ := prune?_mapOf_eq_some_iff.mp accepted
  have parts := forall_mem_iff_of_forall₂ given
    fun entry output accepts => settles (some entry.2) output.2 accepts.1
  constructor
  · intro again
    obtain ⟨_, _, ⟨rfl⟩, kept, ⟨rfl⟩⟩ := prune?_mapOf_eq_some_iff.mp again
    exact .mapOf (parts.mp fun output member => (List.forall₂_same.mp kept output member).1)
  · intro settled
    cases settled with
    | leaf leaf => cases leaf
    | mapOf settled =>
        exact prune?_mapOf_eq_some_iff.mpr ⟨_, _, rfl,
          List.forall₂_same.mpr fun output member => ⟨parts.mpr settled output member, rfl⟩, rfl⟩

theorem Leaf.settles {shape : Shape} (leaf : Leaf shape) : Settles shape := by
  intro input pruned accepted
  exact iff_of_true (leaf.prune?_again accepted) (.leaf leaf)

/-- The induction carries the fields of objects along: an intersection of objects asks for them. -/
theorem Built.settles_and_fields {shape : Shape} (built : Built shape) :
    Settles shape ∧ ∀ fields, shape = .object fields → ∀ field ∈ fields, Settles field.shape := by
  induction built with
  | kind expected => exact ⟨(Leaf.kind expected).settles, by rintro _ ⟨⟩⟩
  | literal expected => exact ⟨(Leaf.literal expected).settles, by rintro _ ⟨⟩⟩
  | oneOf members => exact ⟨(Leaf.oneOf members).settles, by rintro _ ⟨⟩⟩
  | enumeration name variants ignoresCase =>
      exact ⟨(Leaf.enumeration name variants ignoresCase).settles, by rintro _ ⟨⟩⟩
  | arrayOf _ inductionHypothesis =>
      exact ⟨settles_arrayOf inductionHypothesis.1, by rintro _ ⟨⟩⟩
  | mapOf _ inductionHypothesis =>
      exact ⟨settles_mapOf inductionHypothesis.1, by rintro _ ⟨⟩⟩
  | union built inductionHypothesis =>
      refine ⟨settles_union built ?_, by rintro _ ⟨⟩⟩
      exact fun branch member => (inductionHypothesis branch member).1
  | @intersection branches built inductionHypothesis =>
      refine ⟨?_, by rintro _ ⟨⟩⟩
      by_cases all : ∃ objects : List ObjectShape, branches = objects.map ObjectShape.toShape
      · obtain ⟨objects, rfl⟩ := all
        rcases eq_or_ne objects [] with rfl | nonempty
        · exact settles_unbounded
        · apply settles_objects nonempty
          intro object member
          exact (inductionHypothesis _ (List.mem_map_of_mem member)).2 object.fields rfl
      · exact settles_mixed built (not_exists.mp all)
  | object object _ inductionHypothesis =>
      have ofFields : ∀ field ∈ object.fields, Settles field.shape :=
        fun field member => (inductionHypothesis field member).1
      refine ⟨settles_object ofFields, ?_⟩
      rintro _ ⟨⟩
      exact ofFields

/-- A second run changes nothing exactly if the first one is settled. -/
theorem Built.settles {shape : Shape} (built : Built shape) : Settles shape :=
  built.settles_and_fields.1

end Shape

end Tenancy
