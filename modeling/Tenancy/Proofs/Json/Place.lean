import Tenancy.Json.Value
import Tenancy.Proofs.Entries
import Tenancy.Shape.Path

/-!
# Places in values

Walking through a value along keys and positions. `Value.Reaches` says where a walk ends: at a
value, or at a last key that the object reached does not have. A canonical value lists no key twice,
so its walks have one end (`Value.Reaches.unique`). `Value.induction` hands a proof its claim for all items
and entries of a value.
-/

namespace Tenancy.Json.Value

/-- A claim holds of every value if it passes from the items and entries of a value to the value. -/
@[elab_as_elim, induction_eliminator]
theorem induction {motive : Value → Prop}
    (null : motive .null)
    (bool : ∀ flag, motive (.bool flag))
    (number : ∀ number, motive (.number number))
    (string : ∀ text, motive (.string text))
    (array : ∀ items, (∀ item ∈ items, motive item) → motive (.array items))
    (object : ∀ entries : Object, (∀ entry ∈ entries, motive entry.2) → motive (.object entries))
    (value : Value) : motive value :=
  @Value.rec motive (fun items => ∀ item ∈ items, motive item)
    (fun entries => ∀ entry ∈ entries, motive entry.2) (fun entry => motive entry.2)
    null bool number string array object
    (fun _ none => nomatch none)
    (fun _ _ first rest _ member => (List.mem_cons.mp member).elim (· ▸ first) (rest _))
    (fun _ none => nomatch none)
    (fun _ _ first rest _ member => (List.mem_cons.mp member).elim (· ▸ first) (rest _))
    (fun _ _ held => held) value

/-- Where a walk through a value ends: at a value, or without one at a last key that is missing. -/
inductive Reaches : Value → List Segment → Option Value → Prop where
  | here (value : Value) : Reaches value [] (some value)
  | missing {entries : Object} {key : String} :
      key ∉ Entries.keys entries → Reaches (.object entries) [.key key] none
  | item {items : List Value} {position : Nat} {item : Value} {place : List Segment}
      {found : Option Value} : items[position]? = some item → Reaches item place found →
      Reaches (.array items) (.index position :: place) found
  | entry {entries : Object} {key : String} {value : Value} {place : List Segment}
      {found : Option Value} : (key, value) ∈ entries → Reaches value place found →
      Reaches (.object entries) (.key key :: place) found

theorem canonicalItems_iff {items : List Value} :
    CanonicalItems items ↔ ∀ item ∈ items, item.Canonical := by
  induction items with
  | nil => simp [CanonicalItems]
  | cons item rest inductionHypothesis =>
      rw [CanonicalItems, List.forall_mem_cons, inductionHypothesis]

theorem canonicalEntries_iff {entries : Object} :
    CanonicalEntries entries ↔ ∀ entry ∈ entries, entry.2.Canonical := by
  induction entries with
  | nil => simp [CanonicalEntries]
  | cons entry rest inductionHypothesis =>
      rw [CanonicalEntries, List.forall_mem_cons, inductionHypothesis]

theorem canonical_of_find? {entries : Object} {key : String} {value : Value}
    (canonical : (Value.object entries).Canonical) (found : entries.find? key = some value) :
    value.Canonical := by
  rw [Canonical, canonicalEntries_iff] at canonical
  exact canonical.2 _ (Entries.mem_of_find?_eq_some found)

/-- In a canonical value a walk has one end. -/
theorem Reaches.unique {value : Value} {place : List Segment} {found other : Option Value}
    (reaches : value.Reaches place found) (canonical : value.Canonical)
    (again : value.Reaches place other) : other = found := by
  induction reaches with
  | here value => cases again; rfl
  | missing absent =>
      cases again with
      | missing _ => rfl
      | entry listed _ => exact absurd (List.mem_map_of_mem (f := Prod.fst) listed) absent
  | @item items position item place found listed reaches inductionHypothesis =>
      cases again with
      | item present again =>
          obtain rfl := Option.some.inj (listed.symm.trans present)
          rw [Canonical, canonicalItems_iff] at canonical
          exact inductionHypothesis (canonical item (List.mem_of_getElem? listed)) again
  | @entry entries key value place found listed reaches inductionHypothesis =>
      rw [Canonical, canonicalEntries_iff] at canonical
      obtain ⟨ascending, canonical⟩ := canonical
      cases again with
      | missing absent => exact absurd (List.mem_map_of_mem (f := Prod.fst) listed) absent
      | entry present again =>
          have first := Entries.find?_eq_some_of_mem ascending.nodup listed
          have second := Entries.find?_eq_some_of_mem ascending.nodup present
          obtain rfl := Option.some.inj (first.symm.trans second)
          exact inductionHypothesis (canonical _ listed) again

end Tenancy.Json.Value
