import Symbolrt.Base.Walks
import Symbolrt.Compositions.ParallelModels
import Symbolrt.Lib.Interleaving

/-!
# Walks through a parallel composition

A walk through the composition is an interleaving: each of its transitions is a move of the
components at the pair of locations they have come to, and the moves of each component are
a walk through its model.
-/

namespace Symbolrt

open Folding

namespace ParallelComposition

/-- The move that the components make at a pair. -/
def moveAt (pair : String × String) : Joint Transition Transition → Move
  | .first t1 => .first pair.1 pair.2 t1
  | .second t2 => .second pair.1 pair.2 t2
  | .both t1 t2 => .both pair.1 pair.2 t1 t2

/-- The components may move so: alone outside the other alphabet, or synchronised. -/
def AreLegal (model1 model2 : TIOSTS) : Joint Transition Transition → Prop
  | .first t1 => t1.action.name ∉ model2.getActionNames
  | .second t2 => t2.action.name ∉ model1.getActionNames
  | .both t1 t2 => canSynchronize t1.action t2.action = true

namespace Parts

variable (parts : Parts) (model1 model2 : TIOSTS)

/-- The pair of initial locations. -/
def start : String × String := (parts.init1.source, parts.init2.source)

/-- Both components make their initial transitions. -/
def initialJoint : Joint Transition Transition := .both parts.init1 parts.init2

def allowed : Set (Joint Transition Transition) :=
  {joint | joint = parts.initialJoint ∨ AreLegal model1 model2 joint}

def interleavings :
    Folding.Graph (String × String) ((String × String) × Joint Transition Transition) :=
  parts.tiosts1.graph.interleave parts.tiosts2.graph (parts.allowed model1 model2)

/-- The transition is what the composition makes of joint moves at a pair, up to the
parameters of its action. -/
inductive Composes (transition : Transition) :
    (String × String) × Joint Transition Transition → Prop where
  | initial : transition.plain = parts.initial.plain →
      Composes transition (parts.start, parts.initialJoint)
  | move {pair : String × String} {joint : Joint Transition Transition} :
      AreLegal model1 model2 joint →
      transition.plain = (moveAt pair joint).transition.plain → Composes transition (pair, joint)

/-- The components make the moves in this order, each along a walk from its initial
location. -/
structure Interleaves (joints : List (Joint Transition Transition)) : Prop where
  allowed : ∀ joint ∈ joints, joint ∈ parts.allowed model1 model2
  walk1 : joints.filterMap Joint.edge1 ∈ parts.tiosts1.graph.chains parts.start.1
  walk2 : joints.filterMap Joint.edge2 ∈ parts.tiosts2.graph.chains parts.start.2

/-- The joint moves at the pairs to which they lead. -/
def placed (joints : List (Joint Transition Transition)) :
    List ((String × String) × Joint Transition Transition) :=
  parts.tiosts1.graph.place parts.tiosts2.graph parts.start joints

end Parts

section Input

variable {order : IterationOrder} {model1 model2 : TIOSTS} {parts : Parts}

theorem plain_ends {transition other : Transition} (same : transition.plain = other.plain) :
    transition.source = other.source ∧ transition.target = other.target := by
  have source : transition.plain.source = other.plain.source := congrArg Transition.source same
  have target : transition.plain.target = other.plain.target := congrArg Transition.target same
  exact ⟨source, target⟩

variable (input : IsParallelInput order model1 model2 parts)

include input

theorem IsParallelInput.start_inside : parts.Inside parts.start := by
  obtain ⟨start1, _, in1⟩ := input.init1_mem
  obtain ⟨start2, _, in2⟩ := input.init2_mem
  constructor
  · rw [Parts.start, input.exactCopy1.wellFormed.source_eq in1]
    exact TIOSTS.isRegistered_of_mem_outOf in1
  · rw [Parts.start, input.exactCopy2.wellFormed.source_eq in2]
    exact TIOSTS.isRegistered_of_mem_outOf in2

/-- The initial transitions lead from the pair of initial locations to the root. -/
theorem IsParallelInput.initial_edge :
    (parts.start, parts.initialJoint) ∈ (parts.interleavings model1 model2).edges := by
  obtain ⟨start1, _, in1⟩ := input.init1_mem
  obtain ⟨start2, _, in2⟩ := input.init2_mem
  have edge1 := TIOSTS.mem_graph_edges input.exactCopy1.wellFormed in1
  have edge2 := TIOSTS.mem_graph_edges input.exactCopy2.wellFormed in2
  refine ⟨Or.inl rfl, ?_, ?_⟩
  · intro taken isEdge
    rw [← Option.some.inj isEdge]
    exact ⟨edge1.1, rfl⟩
  · intro taken isEdge
    rw [← Option.some.inj isEdge]
    exact ⟨edge2.1, rfl⟩

/-- A legal move of the search is an edge of the interleavings. -/
theorem IsParallelInput.move_edge {move : Move}
    (legal : parts.IsLegal model1 model2 move) :
    ∃ joint, move = moveAt move.source joint ∧ AreLegal model1 model2 joint ∧
      (move.source, joint) ∈ (parts.interleavings model1 model2).edges ∧
      (parts.interleavings model1 model2).target (move.source, joint) = move.target := by
  have leaves1 : ∀ {loc1 : String} {t1 : Transition}, t1 ∈ parts.tiosts1.outOf loc1 →
      parts.tiosts1.graph.Leaves loc1 (some t1) := by
    intro loc1 t1 in1 taken isEdge
    rw [← Option.some.inj isEdge]
    exact TIOSTS.mem_graph_edges input.exactCopy1.wellFormed in1
  have leaves2 : ∀ {loc2 : String} {t2 : Transition}, t2 ∈ parts.tiosts2.outOf loc2 →
      parts.tiosts2.graph.Leaves loc2 (some t2) := by
    intro loc2 t2 in2 taken isEdge
    rw [← Option.some.inj isEdge]
    exact TIOSTS.mem_graph_edges input.exactCopy2.wellFormed in2
  have stays1 : ∀ loc1 : String, parts.tiosts1.graph.Leaves loc1 none :=
    fun loc1 taken impossible => absurd impossible (Option.not_mem_none taken)
  have stays2 : ∀ loc2 : String, parts.tiosts2.graph.Leaves loc2 none :=
    fun loc2 taken impossible => absurd impossible (Option.not_mem_none taken)
  cases move with
  | first loc1 loc2 t1 =>
      exact ⟨.first t1, rfl, legal.2, ⟨Or.inr legal.2, leaves1 legal.1, stays2 loc2⟩, rfl⟩
  | second loc1 loc2 t2 =>
      exact ⟨.second t2, rfl, legal.2, ⟨Or.inr legal.2, stays1 loc1, leaves2 legal.1⟩, rfl⟩
  | both loc1 loc2 t1 t2 =>
      exact ⟨.both t1 t2, rfl, legal.2.2,
        ⟨Or.inr legal.2.2, leaves1 legal.1, leaves2 legal.2.1⟩, rfl⟩

section Plain

variable (avoid1 : model1.LabelsAvoid [',']) {depth : Nat} {visited after : List String}
  {result : TIOSTS}

include avoid1 in
/-- Every transition of the composition is made by joint moves of the components, whatever
pairs the instance has visited before. -/
theorem IsParallelInput.result_isSimulation
    (returned : (parallelComposition order depth model1 model2).outcome visited =
      (.ok result, after)) :
    result.graph.IsSimulation (parts.interleavings model1 model2)
      (fun label pair => label = pairLabel pair ∧ (pair = parts.start ∨
        (parts.search model1 model2).Reaches parts.root pair))
      (parts.Composes model1 model2) := by
  obtain ⟨followed, follows, _, isFollowed⟩ := input.returned_followed returned
  rintro transition member pair ⟨label, located⟩
  have inside : parts.Inside pair := by
    rcases located with rfl | reaches
    · exact input.start_inside
    · exact input.reached_inside (input.legallyReaches reaches)
  have inOut : transition ∈ result.outOf (pairLabel pair) := by
    rw [← label]
    exact member
  have inPlain := List.mem_map_of_mem (f := Transition.plain) inOut
  rw [follows.outOf, parts.base_outOf] at inPlain
  rcases List.mem_append.mp inPlain with atBase | atFollowed
  · obtain ⟨initial, listed, same⟩ := List.mem_map.mp atBase
    obtain ⟨isInitial, source⟩ := List.mem_filter.mp listed
    rw [List.mem_singleton.mp isInitial] at same source
    have isStart : pair = parts.start :=
      input.pairLabel_inj avoid1 inside input.start_inside (of_decide_eq_true source)
    subst isStart
    exact ⟨(parts.start, parts.initialJoint), input.initial_edge, rfl, .initial same.symm,
      (plain_ends same).2.symm, Or.inr .refl⟩
  · obtain ⟨listed, source⟩ := List.mem_filter.mp atFollowed
    obtain ⟨move, wasFollowed, same⟩ := List.mem_map.mp listed
    obtain ⟨reaches, atSource⟩ := isFollowed move wasFollowed
    obtain ⟨_, legal, _⟩ := input.mem_moves.mp atSource
    obtain ⟨sameSource, sameTarget⟩ := plain_ends same
    have isSource : pairLabel pair = pairLabel move.source := by
      rw [← move.transition_source, sameSource, ← label]
      rfl
    have moveInside := input.reached_inside (input.legallyReaches reaches)
    obtain rfl := input.pairLabel_inj avoid1 inside moveInside isSource
    obtain ⟨joint, isMove, areLegal, isEdge, target⟩ := input.move_edge legal
    refine ⟨(move.source, joint), isEdge, rfl, .move areLegal ?_, ?_, Or.inr ?_⟩
    · rw [← isMove]
      exact same.symm
    · rw [target, ← move.transition_target]
      exact sameTarget.symm
    · rw [target]
      exact reaches.tail ⟨move, atSource, rfl⟩

omit input in
theorem mem_outOf_of_leaves {model : TIOSTS} {label : String} {transition : Transition}
    (leaves : model.graph.Leaves label (some transition)) : transition ∈ model.outOf label := by
  obtain ⟨inOut, source⟩ := leaves transition rfl
  rw [← source]
  exact inOut

omit input in
theorem legal_of_edge {pair : String × String} {joint : Joint Transition Transition}
    (isEdge : (pair, joint) ∈ (parts.interleavings model1 model2).edges)
    (areLegal : AreLegal model1 model2 joint) :
    parts.IsLegal model1 model2 (moveAt pair joint) ∧ (moveAt pair joint).source = pair ∧
      (moveAt pair joint).target = (parts.interleavings model1 model2).target (pair, joint) := by
  obtain ⟨_, leaves1, leaves2⟩ := isEdge
  cases joint with
  | first t1 => exact ⟨⟨mem_outOf_of_leaves leaves1, areLegal⟩, rfl, rfl⟩
  | second t2 => exact ⟨⟨mem_outOf_of_leaves leaves2, areLegal⟩, rfl, rfl⟩
  | both t1 t2 =>
      exact ⟨⟨mem_outOf_of_leaves leaves1, mem_outOf_of_leaves leaves2, areLegal⟩, rfl, rfl⟩

omit input in
theorem Follows.exists_initial {followed : List Move}
    (follows : Follows parts.base followed result) :
    ∃ transition ∈ result.outOf (pairLabel parts.start),
      transition.plain = parts.initial.plain := by
  have inPlain : parts.initial.plain ∈
      (result.outOf (pairLabel parts.start)).map Transition.plain := by
    rw [follows.outOf, parts.base_outOf]
    apply List.mem_append_left
    apply List.mem_map_of_mem
    exact List.mem_filter.mpr ⟨List.mem_singleton.mpr rfl, decide_eq_true rfl⟩
  obtain ⟨transition, member, same⟩ := List.mem_map.mp inPlain
  exact ⟨transition, member, same⟩

/-- Where nothing obstructs a move, the composition makes every joint move of the
components at the pairs that they come to from the root. -/
theorem IsParallelInput.interleavings_isSimulation
    (unobstructed : IsUnobstructed model1 model2 parts)
    (returned : (parallelComposition order depth model1 model2).outcome [] =
      (.ok result, after)) :
    (parts.interleavings model1 model2).IsSimulation result.graph
      (fun pair label => label = pairLabel pair ∧ parts.LegallyReaches model1 model2 pair)
      (fun placed transition => parts.Composes model1 model2 transition placed) := by
  obtain ⟨followed, entered, returns⟩ := input.isParts.fresh_returns returned
  have wellFormed := (input.startsAt returned).wellFormed
  rintro ⟨pair, joint⟩ isEdge label ⟨rfl, reaches⟩
  rcases isEdge.1 with isInitial | areLegal
  · have sameJoint : joint = parts.initialJoint := isInitial
    subst sameJoint
    have isStart : pair = parts.start :=
      Prod.ext (isEdge.2.1 parts.init1 rfl).2.symm (isEdge.2.2 parts.init2 rfl).2.symm
    subst isStart
    obtain ⟨transition, inOut, same⟩ := returns.follows.exists_initial
    obtain ⟨inGraph, source⟩ := TIOSTS.mem_graph_edges wellFormed inOut
    exact ⟨transition, inGraph, source, .initial same, (plain_ends same).2, .refl⟩
  · obtain ⟨legal, source, target⟩ := legal_of_edge isEdge areLegal
    have moveReaches : parts.LegallyReaches model1 model2 (moveAt pair joint).source := by
      rw [source]
      exact reaches
    have wasFollowed := input.followed_of_legal returns unobstructed.allHavePartners
      unobstructed.keys moveReaches legal
    have inPlain : (moveAt pair joint).transition.plain ∈
        (result.outOf (pairLabel pair)).map Transition.plain := by
      rw [returns.follows.outOf]
      apply List.mem_append_right
      apply List.mem_filter.mpr
      refine ⟨List.mem_map_of_mem wasFollowed, decide_eq_true ?_⟩
      rw [Transition.plain_source, Move.transition_source, source]
    obtain ⟨transition, inOut, same⟩ := List.mem_map.mp inPlain
    obtain ⟨inGraph, isSource⟩ := TIOSTS.mem_graph_edges wellFormed inOut
    refine ⟨transition, inGraph, isSource, .move areLegal same, ?_, ?_⟩
    · rw [← target, ← Move.transition_target]
      exact (plain_ends same).2
    · rw [← target]
      exact reaches.tail ⟨moveAt pair joint, legal, source, rfl⟩

/-- The walk is made by the interleaved moves and leads to the pair to which they lead. -/
structure IsWalkOf (parts : Parts) (model1 model2 result : TIOSTS)
    (joints : List (Joint Transition Transition)) (walk : List Transition) : Prop where
  isWalk : walk ∈ result.graph.chains (pairLabel parts.start)
  composes : List.Forall₂ (parts.Composes model1 model2) walk (parts.placed joints)
  endOf : result.graph.endOf (pairLabel parts.start) walk =
    pairLabel (parts.tiosts1.graph.endOf parts.start.1 (joints.filterMap Joint.edge1),
      parts.tiosts2.graph.endOf parts.start.2 (joints.filterMap Joint.edge2))

include avoid1 in
/-- Every walk through the composition interleaves walks through its components. -/
theorem IsParallelInput.exists_interleaving
    (returned : (parallelComposition order depth model1 model2).outcome visited =
      (.ok result, after)) {walk : List Transition}
    (isWalk : walk ∈ result.graph.chains (pairLabel parts.start)) :
    ∃ joints, parts.Interleaves model1 model2 joints ∧
      IsWalkOf parts model1 model2 result joints walk := by
  obtain ⟨chain, isChain, composes, ended, _⟩ :=
    (input.result_isSimulation avoid1 returned).chain ⟨rfl, Or.inl rfl⟩ isWalk
  have placed := Folding.Graph.eq_place isChain
  rw [placed] at isChain composes ended
  obtain ⟨allowed, walk1, walk2⟩ := Folding.Graph.isChain_place_iff.mp isChain
  refine ⟨chain.map Prod.snd, ⟨allowed, walk1, walk2⟩, ⟨isWalk, composes, ?_⟩⟩
  rw [ended, Parts.interleavings, Folding.Graph.endOf_place]

/-- Every interleaving of walks through the components that begins with both initial
transitions is a walk through the composition. -/
theorem IsParallelInput.exists_walk
    (unobstructed : IsUnobstructed model1 model2 parts)
    (returned : (parallelComposition order depth model1 model2).outcome [] =
      (.ok result, after)) {joints : List (Joint Transition Transition)}
    (interleaves : parts.Interleaves model1 model2 (parts.initialJoint :: joints)) :
    ∃ walk, IsWalkOf parts model1 model2 result (parts.initialJoint :: joints) walk := by
  have isChain : (parts.interleavings model1 model2).IsChain parts.start
      (parts.placed (parts.initialJoint :: joints)) :=
    Folding.Graph.isChain_place_iff.mpr ⟨interleaves.allowed, interleaves.walk1, interleaves.walk2⟩
  obtain ⟨followed, entered, returns⟩ := input.isParts.fresh_returns returned
  obtain ⟨first, inOut, same⟩ := returns.follows.exists_initial
  obtain ⟨inGraph, source⟩ :=
    TIOSTS.mem_graph_edges (input.startsAt returned).wellFormed inOut
  have target : result.graph.target first = pairLabel parts.root := (plain_ends same).2
  obtain ⟨rest, restChain, composes, ended, _⟩ :=
    (input.interleavings_isSimulation unobstructed returned).chain ⟨target, .refl⟩ isChain.2.2
  have walks : first :: rest ∈ result.graph.chains (pairLabel parts.start) :=
    ⟨inGraph, source, restChain⟩
  refine ⟨first :: rest, ⟨walks, .cons (.initial same) composes.flip, ?_⟩⟩
  have endsAt : (parts.interleavings model1 model2).endOf parts.start
      (parts.placed (parts.initialJoint :: joints)) = _ := Folding.Graph.endOf_place _
  rw [← endsAt]
  exact ended

theorem IsParallelInput.start_isInitial :
    model1.isInitial parts.start.1 = true ∧ model2.isInitial parts.start.2 = true := by
  have flagged : ∀ {model copy : TIOSTS} {init : Transition},
      TIOSTS.IsExactCopy order model copy →
      (∃ start, copy.initialLocation = some start ∧ init ∈ copy.outOf start) →
      model.isInitial init.source = true := by
    rintro model copy init isCopy ⟨start, initial, member⟩
    obtain ⟨location, found, isInitial⟩ := isCopy.wellFormed.initial_registered initial
    rw [← isCopy.isInitial, isCopy.wellFormed.source_eq member, TIOSTS.isInitial, found]
    exact isInitial
  exact ⟨flagged input.exactCopy1 input.init1_mem, flagged input.exactCopy2 input.init2_mem⟩

end Plain

end Input

/-- The walks through a composition from its initial location are interleavings: their moves
project to copies of walks through both models.  On a fresh instance, where nothing obstructs
a move, every interleaving that begins with both initial transitions is such a walk. -/
theorem parallelComposition_interleaves {order : IterationOrder} {model1 model2 : TIOSTS}
    {parts : Parts} (input : IsParallelInput order model1 model2 parts)
    (avoid1 : model1.LabelsAvoid [',']) {depth : Nat} {visited after : List String}
    {result : TIOSTS}
    (returned : (parallelComposition order depth model1 model2).outcome visited =
      (.ok result, after)) :
    result.initialLocation = some (pairLabel parts.start) ∧
      model1.isInitial parts.start.1 = true ∧ model2.isInitial parts.start.2 = true ∧
      (∀ walk ∈ result.graph.chains (pairLabel parts.start),
        ∃ joints, parts.Interleaves model1 model2 joints ∧
          IsWalkOf parts model1 model2 result joints walk ∧
          (∃ walk1 ∈ model1.graph.chains parts.start.1,
            joints.filterMap Joint.edge1 = walk1.map model1.copied) ∧
          ∃ walk2 ∈ model2.graph.chains parts.start.2,
            joints.filterMap Joint.edge2 = walk2.map model2.copied) ∧
      (visited = [] → IsUnobstructed model1 model2 parts →
        ∀ joints, parts.Interleaves model1 model2 (parts.initialJoint :: joints) →
          ∃ walk, IsWalkOf parts model1 model2 result (parts.initialJoint :: joints) walk) := by
  obtain ⟨initial1, initial2⟩ := input.start_isInitial
  refine ⟨(input.startsAt returned).initialLocation, initial1, initial2, ?_, ?_⟩
  · intro walk isWalk
    obtain ⟨joints, interleaves, isWalkOf⟩ := input.exists_interleaving avoid1 returned isWalk
    exact ⟨joints, interleaves, isWalkOf,
      input.exactCopy1.exists_walk input.wellFormed1 interleaves.walk1,
      input.exactCopy2.exists_walk input.wellFormed2 interleaves.walk2⟩
  · rintro rfl unobstructed joints interleaves
    exact input.exists_walk unobstructed returned interleaves

open InterleavingInstance in
theorem parallelComposition_interleaves_loops :
    ∃ (parts : Parts) (result : TIOSTS),
      result.initialLocation = some (pairLabel parts.start) ∧
      (∀ walk ∈ result.graph.chains (pairLabel parts.start),
        ∃ joints, parts.Interleaves (model1 "a") model2 joints ∧
          IsWalkOf parts (model1 "a") model2 result joints walk) ∧
      ∀ joints, parts.Interleaves (model1 "a") model2 (parts.initialJoint :: joints) →
        ∃ walk, IsWalkOf parts (model1 "a") model2 result (parts.initialJoint :: joints)
          walk := by
  have ran : (findParts order (model1 "a") model2).toOption.map (fun parts =>
      decide (Loops parts "a" "c" x y)) = some true := by decide
  obtain ⟨parts, input, checked⟩ :=
    found_of_run (model1_wellFormed (by decide)) model2_wellFormed ran
  have unobstructed : IsUnobstructed (model1 "a") model2 parts :=
    (of_decide_eq_true checked).isUnobstructed rfl rfl
  obtain ⟨result, ⟨bound, returned⟩, _⟩ := unobstructed.losesNothing input
  obtain ⟨after, outcome⟩ := Visits.exists_returned _ _ (returned bound (Nat.le_refl bound))
  have avoid : (model1 "a").LabelsAvoid [','] := by
    have blank : (TIOSTS.declare "M" [⟨"i", .internal, []⟩, x] [] [] []).IsBlank :=
      TIOSTS.declare_isBlank _ _ _ _ _
    exact TIOSTS.assemble_labelsAvoid blank (by decide)
  obtain ⟨initial, _, _, walks, interleavings⟩ :=
    parallelComposition_interleaves input avoid outcome
  refine ⟨parts, result, initial, ?_, interleavings rfl unobstructed⟩
  intro walk isWalk
  obtain ⟨joints, interleaves, isWalkOf, _⟩ := walks walk isWalk
  exact ⟨joints, interleaves, isWalkOf⟩

end ParallelComposition

end Symbolrt
