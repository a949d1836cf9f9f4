import Bab750.Foundation.Chains
import Bab750.Foundation.FileTree

/-!
# Cycles of links

In a finite tree whose links do not lead back to themselves, every place has a rank that
decreases from a link to what it leads to.
-/

namespace Bab750
namespace Foundation

universe u v

variable {Name : Type u} {Content : Type v} [DecidableEq Name]

/-- A link below a root, and the place that its target leads to. -/
def LinkStep (tree : FileTree Name Content) (root p q : FilePlace Name) : Prop :=
  root <+: p ∧ exists target, tree.node p = some (.link target) ∧
    Reaches tree root false (linkBase root p.dropLast target) target.parts q

def NoLinkCycles (tree : FileTree Name Content) (root : FilePlace Name) : Prop :=
  forall p, ¬ Relation.TransGen (LinkStep tree root) p p

def FiniteBelow (tree : FileTree Name Content) (root : FilePlace Name) : Prop :=
  {p | root <+: p ∧ tree.node p ≠ none}.Finite

theorem exists_linkRank {tree : FileTree Name Content} {root : FilePlace Name}
    (hfinite : FiniteBelow tree root) (hcycles : NoLinkCycles tree root) :
    exists (rank : FilePlace Name -> Nat) (bound : Nat), (forall p, rank p ≤ bound) ∧
      forall p q, LinkStep tree root p q -> root <+: q -> tree.node q ≠ none ->
        rank q < rank p := by
  classical
  have hplaces : {p | root <+: p ∧ tree.node p ≠ none}.Finite := hfinite
  refine ⟨fun p => (hplaces.toFinset.filter
    (Relation.TransGen (LinkStep tree root) p)).card, hplaces.toFinset.card, ?_, ?_⟩
  · intro p
    exact Finset.card_filter_le _ _
  · intro p q hstep hinside hexists
    exact reached_card_lt hstep (hplaces.mem_toFinset.mpr ⟨hinside, hexists⟩) (hcycles q)

end Foundation
end Bab750
