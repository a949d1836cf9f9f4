import Mathlib.Data.List.Basic
import Mathlib.Logic.Function.Basic
import Mathlib.Tactic.Common

/-!
# Lists that are linked both ways

A list is laid out in an array of cells. Each of them holds the places of the next one and of the
one in front of it, and both ends of the list are given from outside.
-/

namespace Bab750
namespace Foundation

universe u

structure ListCell (α : Type u) where
  value : α
  next : Nat
  prev : Nat

abbrev Places (α : Type u) := List (Nat × α)

variable {α : Type u} {cells cells' : Nat -> ListCell α} {nodes first second : Places α}
  {i prev next : Nat} {a : α}

/-- The place that a list begins at; the second argument is the one behind it. -/
def Places.head (nodes : Places α) (next : Nat) : Nat :=
  match nodes with
  | [] => next
  | node :: _ => node.1

/-- The place that a list ends at; the first argument is the one in front of it. -/
def Places.last (prev : Nat) : Places α -> Nat
  | [] => prev
  | node :: nodes => Places.last node.1 nodes

/-- The list is laid out in the cells, between two places. -/
def Linked (cells : Nat -> ListCell α) : Nat -> Places α -> Nat -> Prop
  | _, [], _ => True
  | prev, node :: nodes, next =>
      cells node.1 = ⟨node.2, Places.head nodes next, prev⟩ ∧ Linked cells node.1 nodes next

@[simp] theorem head_cons (node : Nat × α) (nodes : Places α) (next : Nat) :
    Places.head (node :: nodes) next = node.1 := rfl

@[simp] theorem last_cons (node : Nat × α) (nodes : Places α) (prev : Nat) :
    Places.last prev (node :: nodes) = Places.last node.1 nodes := rfl

theorem head_append (first second : Places α) (next : Nat) :
    Places.head (first ++ second) next = Places.head first (Places.head second next) := by
  cases first with
  | nil => rfl
  | cons node nodes => rfl

theorem last_append (first second : Places α) (prev : Nat) :
    Places.last prev (first ++ second) = Places.last (Places.last prev first) second := by
  induction first generalizing prev with
  | nil => rfl
  | cons node nodes ih => exact ih node.1

theorem linked_append : Linked cells prev (first ++ second) next <->
    Linked cells prev first (Places.head second next) ∧
      Linked cells (Places.last prev first) second next := by
  induction first generalizing prev with
  | nil =>
      exact (and_iff_right trivial).symm
  | cons node nodes ih =>
      show cells node.1 = ⟨node.2, Places.head (nodes ++ second) next, prev⟩ ∧
          Linked cells node.1 (nodes ++ second) next <->
        (cells node.1 = ⟨node.2, Places.head nodes (Places.head second next), prev⟩ ∧
          Linked cells node.1 nodes (Places.head second next)) ∧
            Linked cells (Places.last node.1 nodes) second next
      rw [ih, head_append, and_assoc]

theorem Linked.congr (h : Linked cells prev nodes next)
    (hcells : forall node, node ∈ nodes -> cells' node.1 = cells node.1) :
    Linked cells' prev nodes next := by
  induction nodes generalizing prev with
  | nil => trivial
  | cons node nodes ih =>
      rcases h with ⟨hcell, hrest⟩
      exact ⟨(hcells node List.mem_cons_self).trans hcell,
        ih hrest (fun node' hnode => hcells node' (List.mem_cons_of_mem node hnode))⟩

theorem Linked.update (h : Linked cells prev nodes next) {cell : ListCell α}
    (hi : forall node, node ∈ nodes -> node.1 ≠ i) :
    Linked (Function.update cells i cell) prev nodes next :=
  h.congr (fun node hnode => Function.update_of_ne (hi node hnode) cell cells)

theorem Linked.update_head {node : Nat × α} (h : Linked cells prev (node :: nodes) next)
    {prev' : Nat} {cell : ListCell α} (hcell : cell = { cells node.1 with prev := prev' })
    (hother : forall node', node' ∈ nodes -> node'.1 ≠ node.1) :
    Linked (Function.update cells node.1 cell) prev' (node :: nodes) next := by
  rcases h with ⟨hfirst, hrest⟩
  refine ⟨?_, hrest.update hother⟩
  rw [Function.update_self, hcell, hfirst]

theorem Linked.update_last {node : Nat × α} (h : Linked cells prev (nodes ++ [node]) next)
    {next' : Nat} {cell : ListCell α} (hcell : cell = { cells node.1 with next := next' })
    (hother : forall node', node' ∈ nodes -> node'.1 ≠ node.1) :
    Linked (Function.update cells node.1 cell) prev (nodes ++ [node]) next' := by
  rcases linked_append.mp h with ⟨hfront, hlast, _⟩
  refine linked_append.mpr ⟨hfront.update hother, ?_, trivial⟩
  rw [Function.update_self, hcell, hlast]
  rfl

end Foundation
end Bab750
