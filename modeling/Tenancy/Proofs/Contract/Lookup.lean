import Mathlib.Data.List.Nodup
import Tenancy.Contract.Catalogue

/-!
# Looking up contracts

A registry gives back what was registered, so every listed contract of the catalogue is found
under its name (`Registry.get_catalogue`).
-/

namespace Tenancy.Registry

variable {registry : Registry} {contracts : List (String × Shape)} {name : String}

theorem get_register (other : String) (shape : Shape) :
    (registry.register other shape).get name =
      if other = name then .ok shape else registry.get name := by
  rw [get, register, Dictionary.find?_insert]
  by_cases same : other = name
  · rw [if_pos same, if_pos same]
  · rw [if_neg same, if_neg same, get]

theorem get_registerAll_of_absent (absent : name ∉ contracts.map Prod.fst) :
    (contracts.foldl (fun registry (name, shape) => registry.register name shape) registry).get
      name = registry.get name := by
  induction contracts generalizing registry with
  | nil => rfl
  | cons contract rest inductionHypothesis =>
      obtain ⟨different, later⟩ := List.ne_and_not_mem_of_not_mem_cons absent
      rw [List.foldl_cons, inductionHypothesis later, get_register, if_neg different.symm]

theorem get_registerAll (distinct : (contracts.map Prod.fst).Nodup) {shape : Shape}
    (listed : (name, shape) ∈ contracts) :
    (contracts.foldl (fun registry (name, shape) => registry.register name shape) registry).get
      name = .ok shape := by
  induction contracts generalizing registry with
  | nil => exact nomatch listed
  | cons contract rest inductionHypothesis =>
      obtain ⟨fresh, distinct⟩ := List.nodup_cons.mp distinct
      rcases List.mem_cons.mp listed with rfl | later
      · rw [List.foldl_cons, get_registerAll_of_absent fresh, get_register, if_pos rfl]
      · exact inductionHypothesis distinct later

theorem get_catalogue {shape : Shape}
    (listed : (name, shape) ∈ Catalogue.contracts ++ Catalogue.wrapped) :
    catalogue.get name = .ok shape := by
  rcases List.mem_append.mp listed with isPlain | isWrapped
  · have absent : name ∉ Catalogue.wrapped.map Prod.fst := by
      have apart : ∀ key ∈ Catalogue.contracts.map Prod.fst,
          key ∉ Catalogue.wrapped.map Prod.fst := by decide
      exact apart name (List.mem_map_of_mem (f := Prod.fst) isPlain)
    rw [catalogue, get_registerAll_of_absent absent]
    exact get_registerAll (by decide) isPlain
  · exact get_registerAll (by decide) isWrapped

end Tenancy.Registry
