import Mathlib.Data.List.Basic
import Tenancy.Proofs.Shape.Refusal

/-!
# The nodes of a diagnostic

A diagnostic and its causes at every depth form a tree. A node has an address, which says which
cause to go down to at each step, and addresses have an order: what lies below a node comes after
it, and what lies below one cause before what lies below the next. `Diagnostic.nodes` lists every
node once and in this order (`Diagnostic.listsNodes_nodes`), and the lines of a rejection are the
nodes' own (`Diagnostic.flatten_eq_map_nodes`).
-/

namespace Tenancy.Diagnostic

/-- What is said of a place, without the causes. -/
def entry (diagnostic : Diagnostic) : PropertyError :=
  ⟨diagnostic.path.render, diagnostic.message⟩

/-- The node at an address. -/
def node? (diagnostic : Diagnostic) : List Nat → Option Diagnostic
  | [] => some diagnostic
  | position :: address => diagnostic.causes[position]?.bind fun cause => cause.node? address

/-- The list holds every node with its address, once, and in the order of their addresses. -/
structure ListsNodes (diagnostic : Diagnostic) (nodes : List (List Nat × Diagnostic)) : Prop where
  mem_iff : ∀ address node, (address, node) ∈ nodes ↔ diagnostic.node? address = some node
  ascending : (nodes.map Prod.fst).Pairwise (· < ·)

mutual

def nodes : Diagnostic → List (List Nat × Diagnostic)
  | mk path message causes => ([], mk path message causes) :: nodesFrom 0 causes

/-- The nodes of causes of which the first has the given position. -/
def nodesFrom (position : Nat) : List Diagnostic → List (List Nat × Diagnostic)
  | [] => []
  | cause :: rest => cause.nodes.map (Prod.map (position :: ·) id) ++ nodesFrom (position + 1) rest

end

/-- A claim holds of every diagnostic if it passes from the causes of a diagnostic to it. -/
@[elab_as_elim, induction_eliminator]
theorem induction {motive : Diagnostic → Prop}
    (mk : ∀ path message causes, (∀ cause ∈ causes, motive cause) →
      motive (.mk path message causes))
    (diagnostic : Diagnostic) : motive diagnostic :=
  @Diagnostic.rec motive (fun causes => ∀ cause ∈ causes, motive cause) mk
    (fun _ none => nomatch none)
    (fun _ _ first rest _ member => (List.mem_cons.mp member).elim (· ▸ first) (rest _)) diagnostic

theorem mem_nodesFrom_iff {position : Nat} {causes : List Diagnostic} {address : List Nat}
    {node : Diagnostic} : (address, node) ∈ nodesFrom position causes ↔
      ∃ offset cause below, causes[offset]? = some cause ∧
        address = (position + offset) :: below ∧ (below, node) ∈ cause.nodes := by
  induction causes generalizing position with
  | nil => simp [nodesFrom]
  | cons cause rest inductionHypothesis =>
      rw [nodesFrom, List.mem_append, inductionHypothesis]
      -- The position of a later cause counts from the one after the first.
      have shift (offset : Nat) : position + 1 + offset = position + (offset + 1) := by omega
      simp only [shift]
      constructor
      · rintro (first | ⟨offset, later, below, found, rfl, listed⟩)
        · obtain ⟨⟨below, _⟩, listed, same⟩ := List.mem_map.mp first
          cases same
          exact ⟨0, cause, below, rfl, rfl, listed⟩
        · exact ⟨offset + 1, later, below, found, rfl, listed⟩
      · rintro ⟨_ | offset, other, below, found, rfl, listed⟩
        · cases found
          exact .inl (List.mem_map.mpr ⟨_, listed, rfl⟩)
        · exact .inr ⟨offset, other, below, found, rfl, listed⟩

theorem mem_nodes_iff {diagnostic node : Diagnostic} {address : List Nat} :
    (address, node) ∈ diagnostic.nodes ↔ diagnostic.node? address = some node := by
  induction address generalizing diagnostic with
  | nil =>
      obtain ⟨path, message, causes⟩ := diagnostic
      rw [nodes, List.mem_cons, mem_nodesFrom_iff, node?]
      simp [eq_comm]
  | cons position address inductionHypothesis =>
      obtain ⟨path, message, causes⟩ := diagnostic
      rw [nodes, List.mem_cons, mem_nodesFrom_iff, node?, Option.bind_eq_some_iff]
      simp only [Nat.zero_add, Prod.mk.injEq, reduceCtorEq, false_and, false_or,
        Diagnostic.causes]
      constructor
      · rintro ⟨_, cause, _, found, ⟨⟩, listed⟩
        exact ⟨cause, found, inductionHypothesis.mp listed⟩
      · rintro ⟨cause, found, below⟩
        exact ⟨position, cause, address, found, rfl, inductionHypothesis.mpr below⟩

theorem exists_eq_cons_of_mem_nodesFrom {position : Nat} {causes : List Diagnostic}
    {address : List Nat} (listed : address ∈ (nodesFrom position causes).map Prod.fst) :
    ∃ offset below, address = (position + offset) :: below := by
  obtain ⟨⟨_, node⟩, member, rfl⟩ := List.mem_map.mp listed
  obtain ⟨offset, _, below, -, rfl, -⟩ := mem_nodesFrom_iff.mp member
  exact ⟨offset, below, rfl⟩

/-- The addresses below a list of causes ascend, if they do below each of them. -/
theorem ascending_nodesFrom {position : Nat} {causes : List Diagnostic}
    (each : ∀ cause ∈ causes, (cause.nodes.map Prod.fst).Pairwise (· < ·)) :
    ((nodesFrom position causes).map Prod.fst).Pairwise (· < ·) := by
  induction causes generalizing position with
  | nil => exact .nil
  | cons cause rest inductionHypothesis =>
      obtain ⟨first, later⟩ := List.forall_mem_cons.mp each
      rw [nodesFrom, List.map_append, List.pairwise_append]
      refine ⟨?below, inductionHypothesis later, ?beside⟩
      case below =>
        rw [List.map_map, List.pairwise_map]
        refine (List.pairwise_map.mp first).imp fun less => ?_
        exact List.cons_lt_cons_iff.mpr (.inr ⟨rfl, less⟩)
      case beside =>
        intro address here other there
        obtain ⟨_, listed, rfl⟩ := List.mem_map.mp here
        obtain ⟨⟨below, node⟩, -, rfl⟩ := List.mem_map.mp listed
        obtain ⟨offset, _, rfl⟩ := exists_eq_cons_of_mem_nodesFrom there
        exact List.cons_lt_cons_iff.mpr (.inl (by omega))

theorem ascending_nodes (diagnostic : Diagnostic) :
    (diagnostic.nodes.map Prod.fst).Pairwise (· < ·) := by
  induction diagnostic with
  | mk path message causes inductionHypothesis =>
      rw [nodes, List.map_cons, List.pairwise_cons]
      refine ⟨fun address listed => ?_, ascending_nodesFrom inductionHypothesis⟩
      obtain ⟨offset, below, rfl⟩ := exists_eq_cons_of_mem_nodesFrom listed
      exact List.nil_lt_cons _ _

theorem listsNodes_nodes (diagnostic : Diagnostic) : diagnostic.ListsNodes diagnostic.nodes where
  mem_iff _ _ := mem_nodes_iff
  ascending := diagnostic.ascending_nodes

theorem flattenAll_eq_map_nodesFrom {causes : List Diagnostic}
    (each : ∀ cause ∈ causes, cause.flatten = cause.nodes.map fun node => node.2.entry)
    (position : Nat) :
    flattenAll causes = (nodesFrom position causes).map fun node => node.2.entry := by
  induction causes generalizing position with
  | nil => rfl
  | cons cause rest inductionHypothesis =>
      obtain ⟨first, later⟩ := List.forall_mem_cons.mp each
      rw [flattenAll, nodesFrom, List.map_append, List.map_map, first,
        inductionHypothesis later (position + 1)]
      rfl

/-- A rejection has one line for each node, in their order. -/
theorem flatten_eq_map_nodes (diagnostic : Diagnostic) :
    diagnostic.flatten = diagnostic.nodes.map fun node => node.2.entry := by
  induction diagnostic with
  | mk path message causes inductionHypothesis =>
      rw [flatten, nodes, List.map_cons, flattenAll_eq_map_nodesFrom inductionHypothesis 0]
      rfl

/-- Nodes are the diagnostic, its causes, and theirs. -/
theorem within_of_node?_eq_some {diagnostic node : Diagnostic} {address : List Nat}
    (found : diagnostic.node? address = some node) : node.Within diagnostic := by
  induction address generalizing diagnostic with
  | nil =>
      cases found
      exact .self
  | cons position address inductionHypothesis =>
      obtain ⟨cause, listed, below⟩ := Option.bind_eq_some_iff.mp found
      exact .cause (List.mem_of_getElem? listed) (inductionHypothesis below)

end Tenancy.Diagnostic
