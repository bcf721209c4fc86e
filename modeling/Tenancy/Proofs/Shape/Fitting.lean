import Tenancy.Proofs.Shape.Conformance
import Tenancy.Proofs.Shape.Intersection

/-!
# Values that fit

A value fits a shape if the shape takes nothing from it and respells nothing in it. `Shape.Fits`
says so by the parts of the shape and the value, without a run: all items fit, the text is spelled
as a variant is, and an object conforms and has each of its entries spared. Whether a shape spares
an entry (`Shape.Spares`) or drops it (`Shape.Drops`) is read off the declared fields; of the
branches of a union the first to conform decides, and of those of an intersection the last that does
not drop the entry. Pruning gives back exactly the values that fit
(`Shape.Built.prune?_self_iff_fits`).
-/

namespace Tenancy

open Json

theorem exists_split_cons_iff {α : Type} {ofItem ofLater : α → Prop} {first : α} {rest : List α} :
    (∃ before item after, first :: rest = before ++ item :: after ∧ ofItem item ∧
      ∀ later ∈ after, ofLater later) ↔
    (ofItem first ∧ ∀ later ∈ rest, ofLater later) ∨
      ∃ before item after, rest = before ++ item :: after ∧ ofItem item ∧
        ∀ later ∈ after, ofLater later := by
  constructor
  · rintro ⟨_ | ⟨head, before⟩, item, after, split, holds, passed⟩
    · cases split
      exact .inl ⟨holds, passed⟩
    · cases split
      exact .inr ⟨before, item, after, rfl, holds, passed⟩
  · rintro (⟨holds, passed⟩ | ⟨before, item, after, rfl, holds, passed⟩)
    · exact ⟨[], first, rest, rfl, holds, passed⟩
    · exact ⟨first :: before, item, after, rfl, holds, passed⟩

/-- Splits of a list correspond to splits of the results of its items. -/
theorem exists_split_iff_of_forall₂ {α β : Type} {related : α → β → Prop}
    {ofItem ofLater : α → Prop} {ofResult ofOther : β → Prop} {items : List α} {results : List β}
    (pairs : List.Forall₂ related items results)
    (one : ∀ item result, related item result → (ofResult result ↔ ofItem item))
    (others : ∀ item result, related item result → (ofOther result ↔ ofLater item)) :
    (∃ before result after, results = before ++ result :: after ∧ ofResult result ∧
      ∀ other ∈ after, ofOther other) ↔
    ∃ before item after, items = before ++ item :: after ∧ ofItem item ∧
      ∀ later ∈ after, ofLater later := by
  induction pairs with
  | nil => simp
  | cons first rest inductionHypothesis =>
      rw [exists_split_cons_iff, exists_split_cons_iff, inductionHypothesis, one _ _ first,
        forall_mem_iff_of_forall₂ rest others]

namespace Shape

/-- The first branch that an input conforms to. -/
inductive Decides (input : Option Value) : List Shape → Shape → Prop where
  | first {branch : Shape} {rest : List Shape} : Conforms branch input →
      Decides input (branch :: rest) branch
  | later {first branch : Shape} {rest : List Shape} : ¬Conforms first input →
      Decides input rest branch → Decides input (first :: rest) branch

/-- A shape leaves out what an object holds under a key. -/
inductive Drops : Shape → Object → String → Prop where
  | object {fields : List (Field Shape)} {whole : Object} {key : String} :
      key ∉ fields.map Field.name → Drops (.object fields) whole key
  | union {verbose : Bool} {branches : List Shape} {branch : Shape} {whole : Object}
      {key : String} : Decides (some (.object whole)) branches branch → Drops branch whole key →
      Drops (.union verbose branches) whole key
  | intersection {branches : List Shape} {whole : Object} {key : String} : branches ≠ [] →
      (∀ branch ∈ branches, Drops branch whole key) → Drops (.intersection branches) whole key

mutual

/-- Nothing of a value is left out or respelled by a shape. -/
inductive Fits : Shape → Value → Prop where
  | kind {expected : Kind} {value : Value} : Conforms (.kind expected) (some value) →
      Fits (.kind expected) value
  | literal {expected value : Value} : Conforms (.literal expected) (some value) →
      Fits (.literal expected) value
  | oneOf {members : List Value} {value : Value} : Conforms (.oneOf members) (some value) →
      Fits (.oneOf members) value
  | enumeration {name : String} {variants : List Value} {ignoresCase : Bool}
      {variant value : Value} : variant ∈ variants → variant.SameMeaning value →
      Fits (.enumeration name variants ignoresCase) value
  | arrayOf {element : Shape} {items : List Value} : (∀ item ∈ items, Fits element item) →
      Fits (.arrayOf element) (.array items)
  | union {verbose : Bool} {branches : List Shape} {branch : Shape} {value : Value} :
      Decides (some value) branches branch → Fits branch value →
      Fits (.union verbose branches) value
  | unbounded {value : Value} : Fits (.intersection []) value
  /-- What has no entries is as the last branch leaves it. -/
  | intersection {earlier : List Shape} {last : Shape} {value : Value} :
      (∀ whole, value ≠ .object whole) → (∀ branch ∈ earlier, Conforms branch (some value)) →
      Fits last value → Fits (.intersection (earlier ++ [last])) value
  /-- An object conforms, and each of its entries is spared. -/
  | object {shape : Shape} {whole : Object} : Conforms shape (some (.object whole)) →
      (∀ key ∈ Entries.keys whole, Spares shape whole key) → Fits shape (.object whole)

/-- A shape leaves what an object holds under a key as it is. -/
inductive Spares : Shape → Object → String → Prop where
  | leaf {shape : Shape} {whole : Object} {key : String} : Leaf shape → Spares shape whole key
  | mapOf {shape : Shape} {whole : Object} {key : String} {value : Value} :
      whole.find? key = some value → Fits shape value → Spares (.mapOf shape) whole key
  | object {fields : List (Field Shape)} {field : Field Shape} {whole : Object} {value : Value} :
      field ∈ fields → whole.find? field.name = some value → Fits field.shape value →
      Spares (.object fields) whole field.name
  | union {verbose : Bool} {branches : List Shape} {branch : Shape} {whole : Object}
      {key : String} : Decides (some (.object whole)) branches branch → Spares branch whole key →
      Spares (.union verbose branches) whole key
  | unbounded {whole : Object} {key : String} : Spares (.intersection []) whole key
  | intersection {before after : List Shape} {branch : Shape} {whole : Object} {key : String} :
      Spares branch whole key → (∀ later ∈ after, Drops later whole key) →
      Spares (.intersection (before ++ branch :: after)) whole key

end

/-! ### The deciding branch of a union -/

namespace Decides

variable {input : Option Value} {branches : List Shape} {branch other : Shape}

theorem mem (decides : Decides input branches branch) : branch ∈ branches := by
  induction decides with
  | first conforms => exact List.mem_cons_self
  | later refused _ inductionHypothesis => exact List.mem_cons_of_mem _ inductionHypothesis

theorem conforms (decides : Decides input branches branch) : Conforms branch input := by
  induction decides with
  | first conforms => exact conforms
  | later refused _ inductionHypothesis => exact inductionHypothesis

theorem unique (decides : Decides input branches branch) (also : Decides input branches other) :
    other = branch := by
  induction decides with
  | first conforms =>
      cases also with
      | first _ => rfl
      | later refused _ => exact absurd conforms refused
  | later refused _ inductionHypothesis =>
      cases also with
      | first conforms => exact absurd conforms refused
      | later _ also => exact inductionHypothesis also

theorem prune?_union (decides : Decides input branches branch) (verbose : Bool) :
    (Shape.union verbose branches).prune? input = branch.prune? input := by
  rw [prune?]
  induction decides with
  | first conforms =>
      obtain ⟨pruned, accepted⟩ := exists_prune?_iff_conforms.mpr conforms
      rw [pruneAny, accepted]
  | later refused _ inductionHypothesis =>
      rw [pruneAny, prune?_eq_none_iff.mpr refused, inductionHypothesis]

end Decides

theorem exists_decides {branches : List Shape} {input : Option Value} {branch : Shape}
    (listed : branch ∈ branches) (conforms : Conforms branch input) :
    ∃ first, Decides input branches first := by
  induction branches with
  | nil => exact nomatch listed
  | cons first rest inductionHypothesis =>
      by_cases firstConforms : Conforms first input
      · exact ⟨first, .first firstConforms⟩
      · rcases List.mem_cons.mp listed with rfl | later
        · exact absurd conforms firstConforms
        · obtain ⟨decider, decides⟩ := inductionHypothesis later
          exact ⟨decider, .later firstConforms decides⟩

theorem exists_decides_of_prune? {verbose : Bool} {branches : List Shape} {input : Option Value}
    {pruned : Value} (accepted : (union verbose branches).prune? input = some pruned) :
    ∃ branch, Decides input branches branch ∧ branch.prune? input = some pruned := by
  obtain ⟨member, listed, conforms⟩ :=
    conforms_union_iff.mp (exists_prune?_iff_conforms.mp ⟨pruned, accepted⟩)
  obtain ⟨branch, decides⟩ := exists_decides listed conforms
  exact ⟨branch, decides, (decides.prune?_union verbose).symm.trans accepted⟩

/-! ### What fits -/

theorem Fits.conforms {shape : Shape} {value : Value} (fits : Fits shape value) :
    Conforms shape (some value) := by
  induction shape generalizing value with
  | kind expected =>
      cases fits with
      | kind conforms => exact conforms
      | object conforms _ => exact conforms
  | literal expected =>
      cases fits with
      | literal conforms => exact conforms
      | object conforms _ => exact conforms
  | oneOf members =>
      cases fits with
      | oneOf conforms => exact conforms
      | object conforms _ => exact conforms
  | enumeration name variants ignoresCase =>
      cases fits with
      | enumeration listed same => exact .variant listed same
      | object conforms _ => exact conforms
  | arrayOf element inductionHypothesis =>
      cases fits with
      | arrayOf fits => exact .arrayOf fun item member => inductionHypothesis (fits item member)
      | object conforms _ => exact conforms
  | mapOf value _ =>
      cases fits with
      | object conforms _ => exact conforms
  | union verbose branches _ =>
      cases fits with
      | union decides _ => exact .union decides.mem decides.conforms
      | object conforms _ => exact conforms
  | intersection branches inductionHypothesis =>
      cases fits with
      | unbounded => exact .intersection (List.forall_mem_nil _)
      | @intersection earlier last _ _ conforms fits =>
          have ofLast := inductionHypothesis last (by simp) fits
          exact .intersection (List.forall_mem_append.mpr ⟨conforms, by simpa using ofLast⟩)
      | object conforms _ => exact conforms
  | object fields _ =>
      cases fits with
      | object conforms _ => exact conforms

/-- Which objects fit is told entry by entry. -/
theorem fits_object_iff {shape : Shape} {whole : Object} : Fits shape (.object whole) ↔
    Conforms shape (some (.object whole)) ∧ ∀ key ∈ Entries.keys whole, Spares shape whole key := by
  refine ⟨fun fits => ⟨fits.conforms, ?_⟩, fun ⟨conforms, spared⟩ => .object conforms spared⟩
  induction shape with
  | kind expected => exact fun _ _ => .leaf (.kind expected)
  | literal expected => exact fun _ _ => .leaf (.literal expected)
  | oneOf members => exact fun _ _ => .leaf (.oneOf members)
  | enumeration name variants ignoresCase =>
      exact fun _ _ => .leaf (.enumeration name variants ignoresCase)
  | arrayOf element _ =>
      cases fits with
      | object _ spared => exact spared
  | mapOf value _ =>
      cases fits with
      | object _ spared => exact spared
  | union verbose branches inductionHypothesis =>
      cases fits with
      | union decides fits =>
          exact fun key listed => .union decides (inductionHypothesis _ decides.mem fits key listed)
      | object _ spared => exact spared
  | intersection branches _ =>
      cases fits with
      | unbounded => exact fun _ _ => .unbounded
      | intersection noObject _ _ => exact absurd rfl (noObject whole)
      | object _ spared => exact spared
  | object fields _ =>
      cases fits with
      | object _ spared => exact spared

/-! ### Pruning and the relations -/

/-- The relations say of a shape what pruning makes of canonical values. -/
structure Faithful (shape : Shape) : Prop where
  fits : ∀ value, value.Canonical → (∀ whole, value ≠ .object whole) →
    (shape.prune? (some value) = some value ↔ Fits shape value)
  spares : ∀ whole part : Dictionary Value, (Value.object whole.entries).Canonical →
    shape.prune? (some (.object whole.entries)) = some (.object part.entries) →
    ∀ key value, whole.find? key = some value →
      (part.find? key = some value ↔ Spares shape whole.entries key)
  drops : ∀ whole part : Dictionary Value,
    shape.prune? (some (.object whole.entries)) = some (.object part.entries) →
    ∀ key ∈ whole.keys, (key ∉ part.keys ↔ Drops shape whole.entries key)

/-- Entries come from entries under the same key. -/
theorem mem_keys_of_prune? {shape : Shape} {whole part : Dictionary Value}
    (accepted : shape.prune? (some (.object whole.entries)) = some (.object part.entries))
    {key : String} (listed : key ∈ part.keys) : key ∈ whole.keys := by
  obtain ⟨_, ⟨rfl⟩, sources⟩ := Value.projects_object_iff.mp (projects_of_prune? accepted)
  obtain ⟨entry, member, rfl⟩ := List.mem_map.mp listed
  obtain ⟨value, source, -⟩ := sources entry member
  exact List.mem_map.mpr ⟨_, source, rfl⟩

theorem Faithful.prune?_self_iff_fits {shape : Shape} (faithful : Faithful shape) {value : Value}
    (canonical : value.Canonical) : shape.prune? (some value) = some value ↔ Fits shape value := by
  cases value with
  | null | bool | number | string | array =>
      exact faithful.fits _ canonical (by rintro _ ⟨⟩)
  | object entries =>
      let whole : Dictionary Value := ⟨entries, canonical.1⟩
      rw [fits_object_iff, ← exists_prune?_iff_conforms]
      constructor
      · intro same
        refine ⟨⟨_, same⟩, fun key listed => ?_⟩
        obtain ⟨value, found⟩ := Option.ne_none_iff_exists'.mp
          (mt Dictionary.find?_eq_none_iff.mp (not_not_intro listed) : whole.find? key ≠ none)
        exact (faithful.spares whole whole canonical same key value found).mp found
      · rintro ⟨⟨output, accepted⟩, spared⟩
        obtain ⟨part, rfl⟩ := @exists_dictionary_of_prune? shape whole output accepted
        have same : part = whole := by
          apply Dictionary.ext_find?
          intro key
          cases found : whole.find? key with
          | none =>
              have unlisted := Dictionary.find?_eq_none_iff.mp found
              exact Dictionary.find?_eq_none_iff.mpr (mt (mem_keys_of_prune? accepted) unlisted)
          | some value =>
              have listed := Entries.mem_keys_of_find?_eq_some found
              exact (faithful.spares whole part canonical accepted key value found).mpr
                (spared key listed)
        rwa [same] at accepted

theorem acceptMember?_self_iff {members : List Value} {ignoresCase : Bool} {value : Value} :
    acceptMember? members ignoresCase value = some value ↔
      ∃ member ∈ members, member.SameMeaning value := by
  constructor
  · intro accepted
    rcases acceptMember?_cases accepted with
      ⟨-, member, listed, same⟩ | ⟨text, spelling, -, rfl, -, listed⟩
    · exact ⟨member, listed, Value.deepEqual_iff.mp same⟩
    · exact ⟨.string spelling, listed, .string spelling⟩
  · intro listed
    rw [acceptMember?, if_pos (any_deepEqual_iff.mpr listed)]

theorem Leaf.prune?_self_iff_fits {shape : Shape} (leaf : Leaf shape) {value : Value} :
    shape.prune? (some value) = some value ↔ Fits shape value := by
  cases leaf with
  | kind expected =>
      have accepts : (Shape.kind expected).prune? (some value) = some value ↔
          Conforms (.kind expected) (some value) := by
        rw [← accepts_iff_conforms]
        simp [prune?]
      exact accepts.trans ⟨.kind, Fits.conforms⟩
  | literal expected =>
      have accepts : (Shape.literal expected).prune? (some value) = some value ↔
          value.SameMeaning expected := by
        rw [← Value.deepEqual_iff]
        simp [prune?]
      constructor
      · exact fun same => .literal (.literal (accepts.mp same))
      · intro fits
        cases fits.conforms with
        | literal same => exact accepts.mpr same
  | oneOf members =>
      rw [prune?, acceptMember?_self_iff]
      constructor
      · rintro ⟨member, listed, same⟩
        exact .oneOf (.oneOf listed same)
      · intro fits
        cases fits.conforms with
        | oneOf listed same => exact ⟨_, listed, same⟩
  | enumeration name variants ignoresCase =>
      rw [prune?, acceptMember?_self_iff]
      constructor
      · rintro ⟨variant, listed, same⟩
        exact .enumeration listed same
      · intro fits
        cases fits with
        | enumeration listed same => exact ⟨_, listed, same⟩
        | object conforms _ =>
            cases conforms with
            | variant listed same => exact ⟨_, listed, same⟩

/-- What is refused does not fit. -/
theorem prune?_self_iff_fits_of_not_conforms {shape : Shape} {value : Value}
    (refused : ¬Conforms shape (some value)) :
    shape.prune? (some value) = some value ↔ Fits shape value :=
  iff_of_false (fun same => refused (exists_prune?_iff_conforms.mp ⟨value, same⟩))
    fun fits => refused fits.conforms

/-- Outputs of an intersection are merged from outputs of its branches. -/
theorem exists_parts {branches : List Shape} (nonempty : branches ≠ [])
    {whole part : Dictionary Value}
    (accepted : (intersection branches).prune? (some (.object whole.entries)) =
      some (.object part.entries)) :
    ∃ parts : List (Dictionary Value), List.Forall₂ (fun branch part =>
      branch.prune? (some (.object whole.entries)) = some (.object part.entries)) branches parts ∧
        LastWins parts part := by
  have accepts := exists_prune?_intersection_iff.mp ⟨_, accepted⟩
  obtain ⟨parts, merged, given, merges, lastWins⟩ := exists_merged nonempty whole accepts
  obtain rfl : part = merged :=
    Dictionary.ext (Value.object.inj (Option.some.inj (accepted.symm.trans merges)))
  exact ⟨parts, given, lastWins⟩

/-! ### Shapes of each form -/

theorem Leaf.faithful {shape : Shape} (leaf : Leaf shape) : Faithful shape where
  fits value _ _ := leaf.prune?_self_iff_fits
  spares := by
    intro whole part _ accepted key value found
    have same := Value.object.inj (leaf.prune?_object accepted)
    exact iff_of_true (by rwa [Dictionary.find?, same]) (.leaf leaf)
  drops := by
    intro whole part accepted key listed
    have same := Value.object.inj (leaf.prune?_object accepted)
    refine iff_of_false (not_not_intro (by rwa [Dictionary.keys, same])) ?_
    intro drops
    cases leaf <;> cases drops

theorem Faithful.arrayOf {element : Shape} (ofElement : Faithful element) :
    Faithful (.arrayOf element) where
  fits := by
    intro value canonical _
    constructor
    · intro same
      obtain ⟨items, _, ⟨rfl⟩, given, ⟨rfl⟩⟩ := prune?_arrayOf_eq_some_iff.mp same
      rw [Value.Canonical, Value.canonicalItems_iff] at canonical
      refine .arrayOf fun item member => ?_
      exact (ofElement.prune?_self_iff_fits (canonical item member)).mp
        (List.forall₂_same.mp given item member)
    · intro fits
      cases fits with
      | @arrayOf _ items fits =>
          rw [Value.Canonical, Value.canonicalItems_iff] at canonical
          refine prune?_arrayOf_eq_some_iff.mpr
            ⟨items, items, rfl, List.forall₂_same.mpr fun item member => ?_, rfl⟩
          exact (ofElement.prune?_self_iff_fits (canonical item member)).mpr (fits item member)
      | object conforms _ => cases conforms
  spares := by
    intro whole part _ accepted
    cases accepted
  drops := by
    intro whole part accepted
    cases accepted

theorem Faithful.mapOf {shape : Shape} (ofValue : Faithful shape) : Faithful (.mapOf shape) where
  fits := by
    intro value _ noObject
    apply prune?_self_iff_fits_of_not_conforms
    intro conforms
    cases conforms with
    | mapOf _ => exact noObject _ rfl
  spares := by
    intro whole part canonical accepted key value found
    obtain ⟨_, _, ⟨rfl⟩, given, ⟨rfl⟩⟩ := prune?_mapOf_eq_some_iff.mp accepted
    obtain ⟨output, accepts, kept⟩ := find?_of_forall₂ given found
    have ofThis := ofValue.prune?_self_iff_fits (Value.canonical_of_find? canonical found)
    rw [Dictionary.find?, kept]
    constructor
    · rintro ⟨⟩
      exact .mapOf found (ofThis.mp accepts)
    · intro spares
      cases spares with
      | leaf leaf => cases leaf
      | mapOf also fits =>
          obtain rfl := Option.some.inj (found.symm.trans also)
          exact accepts.symm.trans (ofThis.mpr fits)
  drops := by
    intro whole part accepted key listed
    obtain ⟨_, _, ⟨rfl⟩, given, ⟨rfl⟩⟩ := prune?_mapOf_eq_some_iff.mp accepted
    have sameKeys : part.keys = whole.keys := keys_eq_of_forall₂ given
    refine iff_of_false (not_not_intro (sameKeys ▸ listed)) ?_
    intro drops
    cases drops

theorem Faithful.union {verbose : Bool} {branches : List Shape}
    (ofBranch : ∀ branch ∈ branches, Faithful branch) : Faithful (.union verbose branches) where
  fits := by
    intro value canonical noObject
    constructor
    · intro same
      obtain ⟨branch, decides, gives⟩ := exists_decides_of_prune? same
      exact .union decides
        (((ofBranch branch decides.mem).prune?_self_iff_fits canonical).mp gives)
    · intro fits
      cases fits with
      | union decides fits =>
          rw [decides.prune?_union]
          exact ((ofBranch _ decides.mem).prune?_self_iff_fits canonical).mpr fits
      | object _ _ => exact absurd rfl (noObject _)
  spares := by
    intro whole part canonical accepted key value found
    obtain ⟨branch, decides, accepts⟩ := exists_decides_of_prune? accepted
    rw [(ofBranch branch decides.mem).spares whole part canonical accepts key value found]
    constructor
    · exact .union decides
    · intro spares
      cases spares with
      | leaf leaf => cases leaf
      | union also spares => exact decides.unique also ▸ spares
  drops := by
    intro whole part accepted key listed
    obtain ⟨branch, decides, accepts⟩ := exists_decides_of_prune? accepted
    rw [(ofBranch branch decides.mem).drops whole part accepts key listed]
    constructor
    · exact .union decides
    · intro drops
      cases drops with
      | union also drops => exact decides.unique also ▸ drops

theorem Faithful.intersection {branches : List Shape}
    (ofBranch : ∀ branch ∈ branches, Faithful branch) : Faithful (.intersection branches) where
  fits := by
    intro value canonical noObject
    have notObject : ∀ whole, some value ≠ some (.object whole) := fun whole isObject =>
      noObject whole (Option.some.inj isObject)
    constructor
    · intro same
      rcases eq_or_ne branches [] with rfl | nonempty
      · exact .unbounded
      · have conforms := conforms_intersection_iff.mp (exists_prune?_iff_conforms.mp ⟨_, same⟩)
        obtain ⟨last, isLast, gives⟩ := exists_last_of_not_object nonempty notObject same
        obtain ⟨earlier, rfl⟩ := List.getLast?_eq_some_iff.mp isLast
        have ofLast := (ofBranch last (by simp)).prune?_self_iff_fits canonical
        exact .intersection noObject (fun branch member => conforms branch (by simp [member]))
          (ofLast.mp gives)
    · intro fits
      obtain ⟨pruned, accepted⟩ := exists_prune?_iff_conforms.mpr fits.conforms
      cases fits with
      | unbounded => rfl
      | @intersection earlier last _ _ _ fits =>
          have ofLast := (ofBranch last (by simp)).prune?_self_iff_fits canonical
          obtain ⟨_, isLast, gives⟩ := exists_last_of_not_object (by simp) notObject accepted
          rw [List.getLast?_concat] at isLast
          obtain rfl := Option.some.inj isLast
          rwa [Option.some.inj (gives.symm.trans (ofLast.mpr fits))] at accepted
      | object _ _ => exact absurd rfl (noObject _)
  spares := by
    intro whole part canonical accepted key value found
    rcases eq_or_ne branches [] with rfl | nonempty
    · obtain rfl : whole = part := Dictionary.ext (Value.object.inj (Option.some.inj accepted))
      exact iff_of_true found .unbounded
    · obtain ⟨parts, given, lastWins⟩ := exists_parts nonempty accepted
      rw [lastWins.values, exists_split_iff_of_forall₂
        ((List.forall₂_and_left _ _).mpr ⟨ofBranch, given⟩)
        (fun branch part of => of.1.spares whole part canonical of.2 key value found)
        (fun branch part of => of.1.drops whole part of.2 key
          (Entries.mem_keys_of_find?_eq_some found))]
      constructor
      · rintro ⟨before, branch, after, rfl, spares, drop⟩
        exact .intersection spares drop
      · intro spares
        cases spares with
        | leaf leaf => cases leaf
        | unbounded => exact absurd rfl nonempty
        | intersection spares drop => exact ⟨_, _, _, rfl, spares, drop⟩
  drops := by
    intro whole part accepted key listed
    rcases eq_or_ne branches [] with rfl | nonempty
    · obtain rfl : whole = part := Dictionary.ext (Value.object.inj (Option.some.inj accepted))
      refine iff_of_false (not_not_intro listed) ?_
      intro drops
      cases drops with
      | intersection nonempty _ => exact nonempty rfl
    · obtain ⟨parts, given, lastWins⟩ := exists_parts nonempty accepted
      have unlisted : key ∉ part.keys ↔ ∀ each ∈ parts, key ∉ each.keys := by
        simp [lastWins.keys]
      rw [unlisted, forall_mem_iff_of_forall₂
        ((List.forall₂_and_left _ _).mpr ⟨ofBranch, given⟩)
        (fun branch part of => of.1.drops whole part of.2 key listed)]
      constructor
      · exact .intersection nonempty
      · intro drops
        cases drops with
        | intersection _ drop => exact drop

theorem Faithful.object (object : ObjectShape)
    (ofField : ∀ field ∈ object.fields, Faithful field.shape) : Faithful object.toShape where
  fits := by
    intro value _ noObject
    apply prune?_self_iff_fits_of_not_conforms
    intro conforms
    cases conforms with
    | object _ _ => exact noObject _ rfl
  spares := by
    intro whole part canonical accepted key value found
    obtain ⟨_, _, ⟨rfl⟩, prunes, ⟨rfl⟩⟩ := (prune?_object_eq_some_iff object.distinct).mp accepted
    constructor
    · intro kept
      have declared := prunes.declared key (Entries.mem_keys_of_find?_eq_some kept)
      obtain ⟨field, member, rfl⟩ := List.mem_map.mp declared
      obtain ⟨output, accepts, also⟩ := (prunes.ofField field member).exists_of_find? found
      obtain rfl := Option.some.inj (kept.symm.trans also)
      have ofThis := (ofField field member).prune?_self_iff_fits
        (Value.canonical_of_find? canonical found)
      exact .object member found (ofThis.mp accepts)
    · intro spares
      cases spares with
      | leaf leaf => cases leaf
      | @object _ field _ _ member also fits =>
          obtain rfl := Option.some.inj (found.symm.trans also)
          obtain ⟨output, accepts, kept⟩ := (prunes.ofField field member).exists_of_find? found
          have ofThis := (ofField field member).prune?_self_iff_fits
            (Value.canonical_of_find? canonical found)
          obtain rfl := Option.some.inj (accepts.symm.trans (ofThis.mpr fits))
          exact kept
  drops := by
    intro whole part accepted key listed
    obtain ⟨_, _, ⟨rfl⟩, prunes, ⟨rfl⟩⟩ := (prune?_object_eq_some_iff object.distinct).mp accepted
    have left : key ∈ part.keys ↔ key ∈ object.fields.map Field.name :=
      (prunes.mem_keys_iff key).trans (and_iff_left listed)
    rw [left]
    constructor
    · exact .object
    · intro drops
      cases drops with
      | object undeclared => exact undeclared

theorem Built.faithful {shape : Shape} (built : Built shape) : Faithful shape := by
  induction built with
  | kind expected => exact (Leaf.kind expected).faithful
  | literal expected => exact (Leaf.literal expected).faithful
  | oneOf members => exact (Leaf.oneOf members).faithful
  | enumeration name variants ignoresCase =>
      exact (Leaf.enumeration name variants ignoresCase).faithful
  | arrayOf _ inductionHypothesis => exact inductionHypothesis.arrayOf
  | mapOf _ inductionHypothesis => exact inductionHypothesis.mapOf
  | union _ inductionHypothesis => exact .union inductionHypothesis
  | intersection _ inductionHypothesis => exact .intersection inductionHypothesis
  | object object _ inductionHypothesis => exact .object object inductionHypothesis

/-- Pruning gives back exactly the canonical values that fit. -/
theorem Built.prune?_self_iff_fits {shape : Shape} (built : Built shape) {value : Value}
    (canonical : value.Canonical) : shape.prune? (some value) = some value ↔ Fits shape value :=
  built.faithful.prune?_self_iff_fits canonical

end Shape

end Tenancy
