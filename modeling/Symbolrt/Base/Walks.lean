import Symbolrt.Base.Copies
import Symbolrt.Lib.Simulation

/-!
# Walks through a model

A walk follows the outgoing transitions of the locations it comes to.  The walks through a
copy are copies of walks through its model.
-/

namespace Symbolrt

namespace TIOSTS

/-- The locations of a model with its transitions. -/
def graph (model : TIOSTS) : Folding.Graph String Transition where
  edges := {transition | transition ∈ model.outOf transition.source}
  source := Transition.source
  target := Transition.target

theorem mem_graph_edges {model : TIOSTS} (wellFormed : model.WellFormed) {label : String}
    {transition : Transition} (member : transition ∈ model.outOf label) :
    transition ∈ model.graph.edges ∧ model.graph.source transition = label := by
  have source := wellFormed.source_eq member
  refine ⟨?_, source⟩
  change transition ∈ model.outOf transition.source
  rw [source]
  exact member

variable {order : IterationOrder} {model copy : TIOSTS}

theorem IsExactCopy.isSimulation (wellFormed : model.WellFormed)
    (isCopy : IsExactCopy order model copy) :
    copy.graph.IsSimulation model.graph Eq
      (fun copied transition => copied = model.copied transition) := by
  rintro copied member _ rfl
  have inCopy : copied ∈ copy.outOf copied.source := member
  rw [isCopy.outOf] at inCopy
  obtain ⟨transition, listed, rfl⟩ := List.mem_map.mp (List.mem_of_mem_filter inCopy)
  obtain ⟨key, found⟩ := (mem_getTransitions order model).mp listed
  exact ⟨transition, (wellFormed.stored found).2, rfl, rfl, rfl⟩

theorem IsExactCopy.exists_walk (wellFormed : model.WellFormed)
    (isCopy : IsExactCopy order model copy) {label : String} {copied : List Transition}
    (isWalk : copied ∈ copy.graph.chains label) :
    ∃ walk ∈ model.graph.chains label, copied = walk.map model.copied := by
  obtain ⟨walk, inModel, matched, _⟩ := (isCopy.isSimulation wellFormed).chain rfl isWalk
  refine ⟨walk, inModel, ?_⟩
  rw [← List.forall₂_eq_eq_eq, List.forall₂_map_right_iff]
  exact matched

end TIOSTS

end Symbolrt
