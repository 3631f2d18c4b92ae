import Symbolrt.Lib.Folding

/-!
# Graphs glued together

Several graphs are glued into one by giving the nodes that meet one label.  A chain in the
result is a relay: stretches of the graphs, each of which starts where the one before meets
it.
-/

namespace Folding

namespace Graph

variable {Node Edge Label Image : Type*} {graphs : Set (Graph Node Edge)}
  {whole : Graph Label Image} {label : Node → Label} {image : Edge → Image}
  {inside : Set Node} {meets : Node → Node → Prop}

/-- Each stretch is a chain in one of the graphs, and starts at a node that meets the one
that the stretch before has come to. -/
def IsRelay (graphs : Set (Graph Node Edge)) (meets : Node → Node → Prop) :
    Node → List (List Edge) → Prop
  | _, [] => True
  | node, stretch :: stretches => ∃ graph ∈ graphs, ∃ start, meets node start ∧
      graph.IsChain start stretch ∧
        IsRelay graphs meets (graph.endOf start stretch) stretches

/-- The whole has the images of the edges, between the labels of their ends, and the nodes
inside have equal labels if they meet. -/
structure Glues (graphs : Set (Graph Node Edge)) (whole : Graph Label Image)
    (label : Node → Label) (image : Edge → Image) (inside : Set Node)
    (meets : Node → Node → Prop) : Prop where
  ends : ∀ graph ∈ graphs, ∀ edge ∈ graph.edges,
    graph.source edge ∈ inside ∧ graph.target edge ∈ inside
  imaged : ∀ graph ∈ graphs, ∀ edge ∈ graph.edges, image edge ∈ whole.edges ∧
    whole.source (image edge) = label (graph.source edge) ∧
    whole.target (image edge) = label (graph.target edge)
  covered : ∀ made ∈ whole.edges, ∃ graph ∈ graphs, ∃ edge ∈ graph.edges, made = image edge
  meets_iff : ∀ node ∈ inside, ∀ other,
    meets node other ↔ other ∈ inside ∧ label node = label other

namespace Glues

variable (glues : Glues graphs whole label image inside meets) {node : Node}

include glues

/-- A stretch becomes a chain in the whole, and leads to a node inside. -/
theorem stretch {graph : Graph Node Edge} (isGraph : graph ∈ graphs) (located : node ∈ inside)
    {stretch : List Edge} (isChain : graph.IsChain node stretch) :
    graph.endOf node stretch ∈ inside ∧ ∀ walk,
      whole.IsChain (label (graph.endOf node stretch)) walk →
        whole.IsChain (label node) (stretch.map image ++ walk) := by
  induction stretch generalizing node with
  | nil => exact ⟨located, fun walk later => later⟩
  | cons edge stretch induction =>
      obtain ⟨member, source, later⟩ := isChain
      obtain ⟨inWhole, isSource, isTarget⟩ := glues.imaged graph isGraph edge member
      obtain ⟨ended, continues⟩ := induction (glues.ends graph isGraph edge member).2 later
      refine ⟨ended, fun walk rest => ⟨inWhole, isSource.trans (congrArg label source), ?_⟩⟩
      rw [isTarget]
      exact continues walk rest

/-- The chains in the whole are the images of relays. -/
theorem isChain_iff (located : node ∈ inside) {walk : List Image} :
    whole.IsChain (label node) walk ↔
      ∃ stretches, IsRelay graphs meets node stretches ∧
        walk = stretches.flatten.map image := by
  constructor
  · intro isWalk
    induction walk generalizing node with
    | nil => exact ⟨[], trivial, rfl⟩
    | cons made walk induction =>
        obtain ⟨inWhole, source, later⟩ := isWalk
        obtain ⟨graph, isGraph, edge, member, rfl⟩ := glues.covered made inWhole
        obtain ⟨_, isSource, isTarget⟩ := glues.imaged graph isGraph edge member
        obtain ⟨sourceInside, targetInside⟩ := glues.ends graph isGraph edge member
        rw [isTarget] at later
        obtain ⟨stretches, isRelay, rfl⟩ := induction targetInside later
        have meeting : meets node (graph.source edge) :=
          (glues.meets_iff node located _).mpr ⟨sourceInside, source.symm.trans isSource⟩
        exact ⟨[edge] :: stretches,
          ⟨graph, isGraph, graph.source edge, meeting, ⟨member, rfl, trivial⟩, isRelay⟩, rfl⟩
  · rintro ⟨stretches, isRelay, rfl⟩
    induction stretches generalizing node with
    | nil => trivial
    | cons stretch stretches induction =>
        obtain ⟨graph, isGraph, start, meeting, isChain, later⟩ := isRelay
        obtain ⟨startInside, same⟩ := (glues.meets_iff node located start).mp meeting
        obtain ⟨ended, continues⟩ := glues.stretch isGraph startInside isChain
        rw [same, List.flatten_cons, List.map_append]
        exact continues _ (induction ended later)

end Glues

end Graph

end Folding
