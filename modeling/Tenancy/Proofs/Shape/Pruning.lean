import Mathlib.Data.List.Forall2
import Mathlib.Data.List.Induction
import Tenancy.Proofs.Entries
import Tenancy.Proofs.Outcome
import Tenancy.Proofs.Shape.Induction
import Tenancy.Shape.Validation

/-!
# Pruning

What a shape makes of a value when neither the place nor the reason of a refusal matters.
`Shape.validate_eq_ok_iff` says that validation accepts, at every place, exactly what
`Shape.prune?` gives. The remaining statements describe pruning through views: unions by their
first accepting branch, objects field by field (`Prunes`), merged outputs by the last one that has
a key (`find?_merged`).
-/

namespace Tenancy

open Json

/-- Mapping with failures gives the results of all items in their order. -/
theorem mapM_eq_some_iff {α β : Type} {f : α → Option β} {items : List α} {results : List β} :
    items.mapM f = some results ↔
      List.Forall₂ (fun item result => f item = some result) items results := by
  induction items generalizing results with
  | nil => simp [eq_comm]
  | cons item rest inductionHypothesis =>
      simp only [List.mapM_cons, Option.bind_eq_bind, Option.bind_eq_some_iff, Option.pure_def,
        Option.some.injEq, inductionHypothesis]
      constructor
      · rintro ⟨result, first, others, later, rfl⟩
        exact .cons first later
      · rintro (_ | ⟨first, later⟩)
        exact ⟨_, first, _, later, rfl⟩

theorem exists_mem_of_forall₂ {α β : Type} {related : α → β → Prop} {items : List α}
    {results : List β} (pairs : List.Forall₂ related items results) {result : β}
    (member : result ∈ results) : ∃ item ∈ items, related item result := by
  obtain ⟨index, within, rfl⟩ := List.getElem_of_mem member
  have within' : index < items.length := pairs.length_eq ▸ within
  exact ⟨items[index], List.getElem_mem within', pairs.get within' within⟩

theorem exists_forall₂_iff {α β : Type} {related : α → β → Prop} {items : List α} :
    (∃ results, List.Forall₂ related items results) ↔
      ∀ item ∈ items, ∃ result, related item result := by
  induction items with
  | nil => exact iff_of_true ⟨[], .nil⟩ (List.forall_mem_nil _)
  | cons item rest inductionHypothesis =>
      rw [List.forall_mem_cons, ← inductionHypothesis]
      constructor
      · rintro ⟨_, _ | ⟨first, later⟩⟩
        exact ⟨⟨_, first⟩, _, later⟩
      · rintro ⟨⟨_, first⟩, _, later⟩
        exact ⟨_, .cons first later⟩

/-- Results of items have a property exactly if the items have another one. -/
theorem forall_mem_iff_of_forall₂ {α β : Type} {related : α → β → Prop} {ofItem : α → Prop}
    {ofResult : β → Prop} {items : List α} {results : List β}
    (pairs : List.Forall₂ related items results)
    (step : ∀ item result, related item result → (ofResult result ↔ ofItem item)) :
    (∀ result ∈ results, ofResult result) ↔ ∀ item ∈ items, ofItem item := by
  induction pairs with
  | nil => simp
  | cons first rest inductionHypothesis =>
      rw [List.forall_mem_cons, List.forall_mem_cons, step _ _ first, inductionHypothesis]

theorem exists_mapM_eq_some_iff {α β : Type} {f : α → Option β} {items : List α} :
    (∃ results, items.mapM f = some results) ↔ ∀ item ∈ items, ∃ result, f item = some result := by
  simp only [mapM_eq_some_iff, exists_forall₂_iff]

namespace Shape

mutual

def prune? (shape : Shape) (input : Option Value) : Option Value :=
  match shape, input with
  | .kind .nothing, none => some .null
  | .kind expected, some value => if expected.accepts value then some value else none
  | .literal expected, some value => if value.deepEqual expected then some value else none
  | .oneOf members, some value => acceptMember? members false value
  | .enumeration _ variants ignoresCase, some value => acceptMember? variants ignoresCase value
  | .arrayOf element, some (.array items) =>
      (items.mapM fun item => element.prune? (some item)).map .array
  | .mapOf value, some (.object entries) =>
      (entries.mapM fun entry => (value.prune? (some entry.2)).map (entry.1, ·)).map .object
  | .union _ branches, input => pruneAny branches input
  | .intersection branches, input =>
      (pruneAll branches input).map fun outputs => (combine outputs).getD (input.getD .null)
  | .object fields, some (.object whole) => (pruneFields fields whole).map .object
  | _, _ => none

def pruneAny (branches : List Shape) (input : Option Value) : Option Value :=
  match branches with
  | [] => none
  | branch :: rest =>
      match branch.prune? input with
      | some pruned => some pruned
      | none => pruneAny rest input

def pruneAll (branches : List Shape) (input : Option Value) : Option (List Value) :=
  match branches with
  | [] => some []
  | branch :: rest => do
      let output ← branch.prune? input
      return output :: (← pruneAll rest input)

/-- The declared entries of an object. -/
def pruneFields (fields : List (Field Shape)) (whole : Object) : Option Object :=
  match fields with
  | [] => some []
  | field :: rest =>
      match whole.find? field.name with
      | none =>
          if field.requiredness.holds none whole then none else pruneFields rest whole
      | some value => do
          let accepted ← field.shape.prune? (some value)
          return Entries.insert field.name accepted (← pruneFields rest whole)

end

theorem pruneAny_eq_findSome? (branches : List Shape) (input : Option Value) :
    pruneAny branches input = branches.findSome? (·.prune? input) := by
  induction branches with
  | nil => rfl
  | cons branch rest inductionHypothesis =>
      rw [pruneAny, List.findSome?_cons, inductionHypothesis]
      cases branch.prune? input <;> rfl

theorem pruneAll_eq_mapM (branches : List Shape) (input : Option Value) :
    pruneAll branches input = branches.mapM (·.prune? input) := by
  induction branches with
  | nil => rfl
  | cons branch rest inductionHypothesis =>
      rw [pruneAll, List.mapM_cons, inductionHypothesis]

/-! ### Agreement with validation -/

theorem toOption_validateItems {check : Value → Path → Verdict} {accept : Value → Option Value}
    (agree : ∀ item place, (check item place).toOption = accept item) (path : Path)
    (position : Nat) (items : List Value) :
    (validateItems check path position items).toOption = items.mapM accept := by
  induction items generalizing position with
  | nil => rfl
  | cons item rest inductionHypothesis =>
      rw [validateItems, List.mapM_cons, ← agree item (path.index position),
        ← inductionHypothesis (position + 1)]
      cases check item (path.index position) with
      | error refusal => rfl
      | ok accepted => cases validateItems check path (position + 1) rest <;> rfl

theorem toOption_validateEntries {check : Value → Path → Verdict} {accept : Value → Option Value}
    (agree : ∀ value place, (check value place).toOption = accept value) (path : Path)
    (entries : List (String × Value)) :
    (validateEntries check path entries).toOption =
      entries.mapM fun entry => (accept entry.2).map (entry.1, ·) := by
  induction entries with
  | nil => rfl
  | cons entry rest inductionHypothesis =>
      obtain ⟨key, value⟩ := entry
      rw [validateEntries, List.mapM_cons, ← agree value (path.key key), ← inductionHypothesis]
      cases check value (path.key key) with
      | error refusal => rfl
      | ok accepted => cases validateEntries check path rest <;> rfl

theorem toOption_validateAny {branches : List Shape} {input : Option Value} {path : Path}
    (agree : ∀ branch ∈ branches, (branch.validate input path).toOption = branch.prune? input) :
    (validateAny branches input path).toOption = pruneAny branches input := by
  induction branches with
  | nil => rfl
  | cons branch rest inductionHypothesis =>
      rw [validateAny, pruneAny, ← agree branch List.mem_cons_self,
        ← inductionHypothesis fun other member => agree other (List.mem_cons_of_mem _ member)]
      cases branch.validate input path with
      | ok accepted => rfl
      | error refusal => cases validateAny rest input path <;> rfl

theorem toOption_validateAll {branches : List Shape} {input : Option Value} {path : Path}
    (agree : ∀ branch ∈ branches, (branch.validate input path).toOption = branch.prune? input) :
    (validateAll branches input path).toOption = pruneAll branches input := by
  induction branches with
  | nil => rfl
  | cons branch rest inductionHypothesis =>
      rw [validateAll, pruneAll, ← agree branch List.mem_cons_self,
        ← inductionHypothesis fun other member => agree other (List.mem_cons_of_mem _ member)]
      cases branch.validate input path with
      | error refusal => rfl
      | ok accepted => cases validateAll rest input path <;> rfl

theorem toOption_validateFields {fields : List (Field Shape)} {whole : Object} {path : Path}
    (agree : ∀ field ∈ fields, ∀ input place,
      (field.shape.validate input place).toOption = field.shape.prune? input) :
    (validateFields fields whole path).toOption = pruneFields fields whole := by
  induction fields with
  | nil => rfl
  | cons field rest inductionHypothesis =>
      rw [validateFields, pruneFields,
        ← inductionHypothesis fun other member => agree other (List.mem_cons_of_mem _ member)]
      cases Entries.find? whole field.name with
      | none => cases field.requiredness.holds none whole <;> rfl
      | some value =>
          simp only [← agree field List.mem_cons_self (some value) (path.key field.name)]
          cases field.shape.validate (some value) (path.key field.name) with
          | error refusal => rfl
          | ok accepted => cases validateFields rest whole path <;> rfl

theorem toOption_validate (shape : Shape) (input : Option Value) (path : Path) :
    (shape.validate input path).toOption = shape.prune? input := by
  induction shape generalizing input path with
  | kind expected =>
      cases input with
      | none => cases expected <;> rfl
      | some value =>
          rw [validate, prune?]
          cases expected.accepts value <;> rfl
  | literal expected =>
      cases input with
      | none => rfl
      | some value =>
          rw [validate, prune?]
          cases value.deepEqual expected <;> rfl
  | oneOf members =>
      cases input with
      | none => rfl
      | some value =>
          rw [validate, prune?]
          cases acceptMember? members false value <;> rfl
  | enumeration name variants ignoresCase =>
      cases input with
      | none => rfl
      | some value =>
          rw [validate, prune?]
          cases acceptMember? variants ignoresCase value <;> rfl
  | arrayOf element inductionHypothesis =>
      match input with
      | some (.array items) =>
          rw [validate, prune?, ← toOption_validateItems
            (fun item => inductionHypothesis (some item)) path 0]
          cases validateItems _ path 0 items <;> rfl
      | none | some .null | some (.bool _) | some (.number _) | some (.string _)
      | some (.object _) => rfl
  | mapOf value inductionHypothesis =>
      match input with
      | some (.object entries) =>
          rw [validate, prune?, ← toOption_validateEntries
            (fun entry => inductionHypothesis (some entry)) path]
          cases validateEntries _ path entries <;> rfl
      | none | some .null | some (.bool _) | some (.number _) | some (.string _)
      | some (.array _) => rfl
  | union verbose branches inductionHypothesis =>
      rw [validate, prune?, ← toOption_validateAny fun branch member =>
        inductionHypothesis branch member input path]
      cases validateAny branches input path <;> rfl
  | intersection branches inductionHypothesis =>
      rw [validate, prune?, ← toOption_validateAll fun branch member =>
        inductionHypothesis branch member input path]
      cases validateAll branches input path <;> rfl
  | object fields inductionHypothesis =>
      match input with
      | some (.object whole) =>
          rw [validate, prune?, ← toOption_validateFields inductionHypothesis]
          cases validateFields fields whole path <;> rfl
      | none | some .null | some (.bool _) | some (.number _) | some (.string _)
      | some (.array _) => rfl

/-- Validation accepts what pruning has an output for, at every place and with that output. -/
theorem validate_eq_ok_iff {shape : Shape} {input : Option Value} {path : Path} {pruned : Value} :
    shape.validate input path = .ok pruned ↔ shape.prune? input = some pruned := by
  rw [← toOption_validate shape input path]
  cases shape.validate input path <;> simp [Except.toOption]

theorem checkAndPrune_eq_ok_iff {shape : Shape} {input : Option Value} {pruned : Value} :
    shape.checkAndPrune input = .ok pruned ↔ shape.prune? input = some pruned := by
  rw [checkAndPrune, Outcome.mapError_eq_ok_iff, validate_eq_ok_iff]

/-! ### Arrays, maps, unions and intersections -/

theorem prune?_arrayOf_eq_some_iff {element : Shape} {input : Option Value} {pruned : Value} :
    (arrayOf element).prune? input = some pruned ↔ ∃ items outputs,
      input = some (.array items) ∧
        List.Forall₂ (fun item output => element.prune? (some item) = some output)
          items outputs ∧ .array outputs = pruned := by
  match input with
  | some (.array items) => simp [prune?, mapM_eq_some_iff]
  | none | some .null | some (.bool _) | some (.number _) | some (.string _)
  | some (.object _) => simp [prune?]

theorem prune?_mapOf_eq_some_iff {value : Shape} {input : Option Value} {pruned : Value} :
    (mapOf value).prune? input = some pruned ↔ ∃ entries outputs,
      input = some (.object entries) ∧
        List.Forall₂ (fun entry output => value.prune? (some entry.2) = some output.2 ∧
          entry.1 = output.1) entries outputs ∧ .object outputs = pruned := by
  have entry_iff (entry output : String × Value) :
      (value.prune? (some entry.2)).map (entry.1, ·) = some output ↔
        value.prune? (some entry.2) = some output.2 ∧ entry.1 = output.1 := by
    cases output
    cases value.prune? (some entry.2) <;> simp [and_comm]
  match input with
  | some (.object entries) => simp [prune?, mapM_eq_some_iff, entry_iff]
  | none | some .null | some (.bool _) | some (.number _) | some (.string _)
  | some (.array _) => simp [prune?]

/-- A shape of maps keeps the keys. -/
theorem keys_eq_of_forall₂ {shape : Shape} {entries outputs : Object}
    (given : List.Forall₂ (fun entry output => shape.prune? (some entry.2) = some output.2 ∧
      entry.1 = output.1) entries outputs) : Entries.keys outputs = Entries.keys entries := by
  induction given with
  | nil => rfl
  | cons first rest inductionHypothesis =>
      exact congrArg₂ List.cons first.2.symm inductionHypothesis

theorem ascending_of_forall₂ {shape : Shape} {entries outputs : Object}
    (given : List.Forall₂ (fun entry output => shape.prune? (some entry.2) = some output.2 ∧
      entry.1 = output.1) entries outputs) (ascending : Entries.Ascending entries) :
    Entries.Ascending outputs := by
  rw [Entries.Ascending, keys_eq_of_forall₂ given]
  exact ascending

/-- Under each key there is what the value under it was pruned to. -/
theorem find?_of_forall₂ {shape : Shape} {entries outputs : Object}
    (given : List.Forall₂ (fun entry output => shape.prune? (some entry.2) = some output.2 ∧
      entry.1 = output.1) entries outputs) {key : String} {value : Value}
    (found : entries.find? key = some value) :
    ∃ accepted, shape.prune? (some value) = some accepted ∧ outputs.find? key = some accepted := by
  induction given with
  | nil => exact nomatch found
  | @cons entry output entries outputs first rest inductionHypothesis =>
      obtain ⟨other, present⟩ := entry
      obtain ⟨_, accepted⟩ := output
      obtain ⟨accepts, rfl⟩ := first
      rw [Entries.find?_cons] at found ⊢
      split at found
      · next same =>
          cases found
          exact ⟨accepted, accepts, if_pos same⟩
      · next different =>
          obtain ⟨later, passes, kept⟩ := inductionHypothesis found
          exact ⟨later, passes, (if_neg different).trans kept⟩

/-- A union gives the output of its first branch that accepts. -/
theorem prune?_union_eq_some_iff {verbose : Bool} {branches : List Shape} {input : Option Value}
    {pruned : Value} :
    (union verbose branches).prune? input = some pruned ↔ ∃ before branch after,
      branches = before ++ branch :: after ∧ branch.prune? input = some pruned ∧
        ∀ earlier ∈ before, earlier.prune? input = none := by
  rw [prune?, pruneAny_eq_findSome?, List.findSome?_eq_some_iff]

theorem prune?_intersection_eq_some_iff {branches : List Shape} {input : Option Value}
    {pruned : Value} :
    (intersection branches).prune? input = some pruned ↔ ∃ outputs,
      List.Forall₂ (fun branch output => branch.prune? input = some output) branches outputs ∧
        (combine outputs).getD (input.getD .null) = pruned := by
  rw [prune?, pruneAll_eq_mapM, Option.map_eq_some_iff]
  simp only [mapM_eq_some_iff]

/-! ### Objects -/

/-- What an object is pruned to, read off one declared field. -/
inductive PrunesField (field : Field Shape) (whole pruned : Object) : Prop where
  | absent : whole.find? field.name = none → field.requiredness.holds none whole = false →
      pruned.find? field.name = none → PrunesField field whole pruned
  | present {value accepted : Value} : whole.find? field.name = some value →
      field.shape.prune? (some value) = some accepted →
      pruned.find? field.name = some accepted → PrunesField field whole pruned

/-- What an object is pruned to: its declared entries by ascending key, each pruned by its field. -/
structure Prunes (fields : List (Field Shape)) (whole pruned : Object) : Prop where
  ascending : Entries.Ascending pruned
  declared : ∀ name ∈ Entries.keys pruned, name ∈ fields.map Field.name
  ofField : ∀ field ∈ fields, PrunesField field whole pruned

variable {fields : List (Field Shape)} {whole pruned : Object}

theorem PrunesField.congr {field : Field Shape} {other : Object}
    (same : other.find? field.name = pruned.find? field.name)
    (prunes : PrunesField field whole pruned) : PrunesField field whole other := by
  cases prunes with
  | absent missing free left => exact .absent missing free (same.trans left)
  | present found accepts kept => exact .present found accepts (same.trans kept)

/-- A field has an output for the value under its name. -/
theorem PrunesField.exists_of_find? {field : Field Shape} (prunes : PrunesField field whole pruned)
    {value : Value} (found : whole.find? field.name = some value) :
    ∃ accepted, field.shape.prune? (some value) = some accepted ∧
      pruned.find? field.name = some accepted := by
  cases prunes with
  | absent missing _ _ => exact nomatch missing.symm.trans found
  | present given accepts kept =>
      obtain rfl := Option.some.inj (found.symm.trans given)
      exact ⟨_, accepts, kept⟩

theorem PrunesField.holds_eq_false {field : Field Shape} (prunes : PrunesField field whole pruned)
    (missing : whole.find? field.name = none) :
    field.requiredness.holds none whole = false := by
  cases prunes with
  | absent _ free _ => exact free
  | present found _ _ => exact nomatch missing.symm.trans found

/-- A declared field decides what is found under its name. -/
theorem PrunesField.unique {field : Field Shape} {other : Object}
    (left : PrunesField field whole pruned) (right : PrunesField field whole other) :
    pruned.find? field.name = other.find? field.name := by
  cases left <;> cases right <;> simp_all

theorem Prunes.find?_eq_none (prunes : Prunes fields whole pruned) {name : String}
    (undeclared : name ∉ fields.map Field.name) : pruned.find? name = none :=
  Entries.find?_eq_none_iff.mpr fun listed => undeclared (prunes.declared name listed)

theorem Prunes.unique {other : Object} (left : Prunes fields whole pruned)
    (right : Prunes fields whole other) : pruned = other := by
  apply left.ascending.ext right.ascending
  intro key
  by_cases declared : key ∈ fields.map Field.name
  · obtain ⟨field, member, rfl⟩ := List.mem_map.mp declared
    exact (left.ofField field member).unique (right.ofField field member)
  · rw [left.find?_eq_none declared, right.find?_eq_none declared]

theorem Prunes.perm (prunes : Prunes fields whole pruned) {others : List (Field Shape)}
    (permuted : others.Perm fields) : Prunes others whole pruned where
  ascending := prunes.ascending
  declared name listed := (permuted.map Field.name).mem_iff.mpr (prunes.declared name listed)
  ofField field member := prunes.ofField field (permuted.mem_iff.mp member)

theorem Prunes.mem_keys_iff (prunes : Prunes fields whole pruned) (name : String) :
    name ∈ Entries.keys pruned ↔ name ∈ fields.map Field.name ∧ name ∈ Entries.keys whole := by
  have ofField : ∀ field ∈ fields,
      (field.name ∈ Entries.keys pruned ↔ field.name ∈ Entries.keys whole) := by
    intro field member
    cases prunes.ofField field member with
    | absent missing _ left =>
        exact iff_of_false (Entries.find?_eq_none_iff.mp left) (Entries.find?_eq_none_iff.mp missing)
    | present found _ kept =>
        exact iff_of_true (Entries.mem_keys_of_find?_eq_some kept)
          (Entries.mem_keys_of_find?_eq_some found)
  constructor
  · intro listed
    have declared := prunes.declared name listed
    obtain ⟨field, member, rfl⟩ := List.mem_map.mp declared
    exact ⟨declared, (ofField field member).mp listed⟩
  · rintro ⟨declared, present⟩
    obtain ⟨field, member, rfl⟩ := List.mem_map.mp declared
    exact (ofField field member).mpr present

theorem prunes_of_pruneFields_eq_some (distinct : (fields.map Field.name).Nodup)
    (accepted : pruneFields fields whole = some pruned) : Prunes fields whole pruned := by
  induction fields generalizing pruned with
  | nil =>
      obtain rfl : [] = pruned := by simpa [pruneFields] using accepted
      exact ⟨Entries.ascending_nil, by simp [Entries.keys], by simp⟩
  | cons field rest inductionHypothesis =>
      obtain ⟨fresh, distinct⟩ := List.nodup_cons.mp distinct
      rw [pruneFields] at accepted
      cases found : Entries.find? whole field.name with
      | none =>
          simp only [found, Option.ite_none_left_eq_some, Bool.not_eq_true] at accepted
          have prunes := inductionHypothesis distinct accepted.2
          refine ⟨prunes.ascending,
            fun name listed => List.mem_cons_of_mem _ (prunes.declared name listed),
            List.forall_mem_cons.mpr ⟨?_, prunes.ofField⟩⟩
          exact .absent found accepted.1 (prunes.find?_eq_none fresh)
      | some value =>
          simp only [found, Option.pure_def, Option.bind_eq_bind, Option.bind_eq_some_iff,
            Option.some.injEq] at accepted
          obtain ⟨output, accepts, others, later, rfl⟩ := accepted
          have prunes := inductionHypothesis distinct later
          refine ⟨prunes.ascending.insert _ _, fun name listed => ?_,
            List.forall_mem_cons.mpr ⟨?_, fun other member => ?_⟩⟩
          · rcases Entries.mem_keys_insert.mp listed with rfl | listed
            · exact List.mem_cons_self
            · exact List.mem_cons_of_mem _ (prunes.declared name listed)
          · exact .present found accepts (by simp)
          · have different : field.name ≠ other.name := fun same =>
              fresh (same ▸ List.mem_map_of_mem member)
            exact (prunes.ofField other member).congr (by simp [different])

/-- No field at fault means that there is an output. -/
theorem pruneFields_isSome (accepts : ∀ field ∈ fields, ∃ output, PrunesField field whole output) :
    ∃ output, pruneFields fields whole = some output := by
  induction fields with
  | nil => exact ⟨[], rfl⟩
  | cons field rest inductionHypothesis =>
      obtain ⟨⟨output, prunes⟩, later⟩ := List.forall_mem_cons.mp accepts
      obtain ⟨others, rest⟩ := inductionHypothesis later
      cases prunes with
      | absent missing free => exact ⟨others, by simp [pruneFields, missing, free, rest]⟩
      | present found accepted => exact ⟨_, by simp [pruneFields, found, accepted, rest]; rfl⟩

theorem pruneFields_eq_some_iff (distinct : (fields.map Field.name).Nodup) :
    pruneFields fields whole = some pruned ↔ Prunes fields whole pruned := by
  refine ⟨prunes_of_pruneFields_eq_some distinct, ?_⟩
  intro prunes
  obtain ⟨output, accepted⟩ :=
    pruneFields_isSome fun field member => ⟨pruned, prunes.ofField field member⟩
  rw [accepted, (prunes_of_pruneFields_eq_some distinct accepted).unique prunes]

theorem prune?_object_eq_some_iff (distinct : (fields.map Field.name).Nodup)
    {input : Option Value} {output : Value} :
    (Shape.object fields).prune? input = some output ↔ ∃ whole pruned,
      input = some (.object whole) ∧ Prunes fields whole pruned ∧ .object pruned = output := by
  match input with
  | some (.object whole) => simp [prune?, pruneFields_eq_some_iff distinct]
  | none | some .null | some (.bool _) | some (.number _) | some (.string _)
  | some (.array _) => simp [prune?]

end Shape

/-! ### Merged outputs -/

theorem combine_append_singleton (outputs : List Value) (output : Value) :
    combine (outputs ++ [output]) = some (overlay (combine outputs) output) := by
  simp [combine]

theorem combine_objects {objects : List Object} (nonempty : objects ≠ [])
    (ascending : ∀ object ∈ objects, Entries.Ascending object) :
    ∃ merged : Object, combine (objects.map .object) = some (.object merged) ∧
      Entries.Ascending merged ∧
        ∀ key, merged.find? key = objects.reverse.findSome? (Entries.find? · key) := by
  induction objects using List.reverseRecOn with
  | nil => exact absurd rfl nonempty
  | append_singleton earlier last inductionHypothesis =>
      have lastAscending := ascending last (by simp)
      rw [List.map_append, List.map_singleton, combine_append_singleton]
      rcases eq_or_ne earlier [] with rfl | some
      · exact ⟨last, rfl, lastAscending, fun key => by cases h : last.find? key <;> simp [h]⟩
      · obtain ⟨merged, combined, mergedAscending, found⟩ := inductionHypothesis some
          fun object member => ascending object (by simp [member])
        refine ⟨Entries.merge merged last, by rw [combined]; rfl, mergedAscending.merge last,
          fun key => ?_⟩
        rw [Entries.find?_merge _ lastAscending.nodup, found key]
        cases h : last.find? key <;> simp [h]

/-- Merged objects hold under each key what the last of them that has the key holds. -/
theorem find?_merged {objects : List Object} {merged : Object}
    (ascending : ∀ object ∈ objects, Entries.Ascending object)
    (combines : combine (objects.map .object) = some (.object merged)) (key : String) :
    merged.find? key = objects.reverse.findSome? (Entries.find? · key) := by
  have nonempty : objects ≠ [] := by
    rintro rfl
    exact nomatch combines
  obtain ⟨_, combined, -, found⟩ := combine_objects nonempty ascending
  obtain ⟨rfl⟩ := combines.symm.trans combined
  exact found key

end Tenancy
