import Symbolrt.Compositions.ParallelRuns

/-!
# The legal moves of two components

A component moves alone on an action outside the alphabet of the other, and the two move
together on an output and an input of one name.  The composition makes legal moves only,
and all of them at pairs where the partner of a lone component can move as well.
-/

namespace Symbolrt

theorem TIOSTS.mem_getActionNames {model : TIOSTS} {name : String} :
    name ∈ model.getActionNames ↔ ∃ type, name ∈ (model.actionsOf type).map Action.name := by
  have added : ∀ (names known : List String),
      name ∈ names.foldl (fun actionNames name =>
        if name ∈ actionNames then actionNames else actionNames ++ [name]) known ↔
          name ∈ known ∨ name ∈ names := by
    intro names
    induction names with
    | nil => simp
    | cons first rest induction =>
        intro known
        rw [List.foldl_cons, induction, List.mem_cons]
        by_cases isKnown : first ∈ known
        · rw [if_pos isKnown]
          constructor
          · rintro (old | later)
            · exact Or.inl old
            · exact Or.inr (Or.inr later)
          · rintro (old | rfl | later)
            · exact Or.inl old
            · exact Or.inl isKnown
            · exact Or.inr later
        · rw [if_neg isKnown, List.mem_append, List.mem_singleton, or_assoc]
  rw [getActionNames, added, added]
  constructor
  · rintro ((input | internal) | output)
    · exact ⟨.input, input⟩
    · exact ⟨.internal, internal⟩
    · exact ⟨.output, output⟩
  · rintro ⟨type, member⟩
    cases type with
    | input => exact Or.inl (Or.inl member)
    | internal => exact Or.inl (Or.inr member)
    | output => exact Or.inr member

namespace ParallelComposition

theorem mem_minusSet {set1 set2 : List String} {name : String} :
    name ∈ minusSet set1 set2 ↔ name ∈ set1 ∧ name ∉ set2 := by
  rw [minusSet, List.mem_filter, decide_eq_true_eq]

theorem canSynchronize_iff {action1 action2 : Action} :
    canSynchronize action1 action2 = true ↔
      (action1.type = .input ∧ action2.type = .output ∨
        action2.type = .input ∧ action1.type = .output) ∧ action1.name = action2.name := by
  rw [canSynchronize, decide_eq_true_eq]
  tauto

namespace Parts

variable (parts : Parts) (model1 model2 : TIOSTS)

def IsLegal : Move → Prop
  | .first loc1 _ t1 =>
      t1 ∈ parts.tiosts1.outOf loc1 ∧ t1.action.name ∉ model2.getActionNames
  | .second _ loc2 t2 =>
      t2 ∈ parts.tiosts2.outOf loc2 ∧ t2.action.name ∉ model1.getActionNames
  | .both loc1 loc2 t1 t2 =>
      t1 ∈ parts.tiosts1.outOf loc1 ∧ t2 ∈ parts.tiosts2.outOf loc2 ∧
        canSynchronize t1.action t2.action = true

def LegalStep (pair next : String × String) : Prop :=
  ∃ move, parts.IsLegal model1 model2 move ∧ move.source = pair ∧ move.target = next

/-- The pairs reachable by legal moves. -/
def LegallyReaches (pair : String × String) : Prop :=
  Relation.ReflTransGen (parts.LegalStep model1 model2) parts.root pair

/-- The partner of a component that moves alone can move as well. -/
def HasPartner : Move → Prop
  | .first _ loc2 _ => parts.tiosts2.outOf loc2 ≠ []
  | .second loc1 _ _ => parts.tiosts1.outOf loc1 ≠ []
  | .both _ _ _ _ => True

/-- The result does not declare the action of the move. -/
def Throws (move : Move) : Prop :=
  move.action.name ∉ (parts.declaredActions move.action.type).map Action.name

def Inside (pair : String × String) : Prop :=
  parts.tiosts1.IsRegistered pair.1 ∧ parts.tiosts2.IsRegistered pair.2

end Parts

/-- Two well-formed models that the composition does not reject, and what it finds. -/
structure IsParallelInput (order : IterationOrder) (model1 model2 : TIOSTS) (parts : Parts) :
    Prop where
  wellFormed1 : model1.WellFormed
  wellFormed2 : model2.WellFormed
  isParts : IsParts order model1 model2 parts

section Input

variable {order : IterationOrder} {model1 model2 : TIOSTS} {parts : Parts}

variable (input : IsParallelInput order model1 model2 parts)

include input

theorem IsParallelInput.exactCopy1 : TIOSTS.IsExactCopy order model1 parts.tiosts1 :=
  exactCopy input.wellFormed1 input.isParts.copy1

theorem IsParallelInput.exactCopy2 : TIOSTS.IsExactCopy order model2 parts.tiosts2 :=
  exactCopy input.wellFormed2 input.isParts.copy2

omit input in
theorem declared_of_copy {model copy : TIOSTS} (isCopy : TIOSTS.IsExactCopy order model copy)
    {label : String} {transition : Transition} (member : transition ∈ copy.outOf label) :
    transition.action.name ∈ (model.actionsOf transition.action.type).map Action.name := by
  obtain ⟨action, found⟩ := isCopy.wellFormed.action_declared member
  obtain ⟨declared, _, name⟩ := TIOSTS.getAction_eq_some found
  rw [isCopy.actionsOf] at declared
  rw [← name]
  exact List.mem_map_of_mem declared

omit input in
theorem named_of_copy {model copy : TIOSTS} (isCopy : TIOSTS.IsExactCopy order model copy)
    {label : String} {transition : Transition} (member : transition ∈ copy.outOf label) :
    transition.action.name ∈ model.getActionNames :=
  TIOSTS.mem_getActionNames.mpr ⟨_, declared_of_copy isCopy member⟩

/-- The moves of the search are the legal ones whose component has a partner. -/
theorem IsParallelInput.mem_moves {pair : String × String} {move : Move} :
    move ∈ (parts.search model1 model2).moves pair ↔
      move.source = pair ∧ parts.IsLegal model1 model2 move ∧ parts.HasPartner move := by
  have listed : move ∈ (parts.search model1 model2).moves pair ↔
      ∃ t1 ∈ parts.tiosts1.outOf pair.1, ∃ t2 ∈ parts.tiosts2.outOf pair.2,
        move ∈ movesOf (minusSet model1.getActionNames model2.getActionNames)
          (minusSet model2.getActionNames model1.getActionNames) pair.1 pair.2 t1 t2 := by
    change move ∈ List.flatMap _ _ ↔ _
    simp only [List.mem_flatMap]
  rw [listed]
  constructor
  · rintro ⟨t1, in1, t2, in2, member⟩
    rcases List.mem_append.mp member with isFirst | later
    · split at isFirst
      · rename_i alone
        rw [List.mem_singleton.mp isFirst]
        exact ⟨rfl, ⟨in1, (mem_minusSet.mp alone).2⟩, List.ne_nil_of_mem in2⟩
      · cases isFirst
    · rcases List.mem_append.mp later with isSecond | isBoth
      · split at isSecond
        · rename_i alone
          rw [List.mem_singleton.mp isSecond]
          exact ⟨rfl, ⟨in2, (mem_minusSet.mp alone).2⟩, List.ne_nil_of_mem in1⟩
        · cases isSecond
      · split at isBoth
        · rename_i together
          rw [List.mem_singleton.mp isBoth]
          exact ⟨rfl, ⟨in1, in2, together⟩, trivial⟩
        · cases isBoth
  · rintro ⟨rfl, legal, partner⟩
    cases move with
    | first loc1 loc2 t1 =>
        obtain ⟨in1, outside⟩ := legal
        obtain ⟨t2, in2⟩ := List.exists_mem_of_ne_nil _ partner
        refine ⟨t1, in1, t2, in2, ?_⟩
        have alone : t1.action.name ∈
            minusSet model1.getActionNames model2.getActionNames :=
          mem_minusSet.mpr ⟨named_of_copy input.exactCopy1 in1, outside⟩
        rw [movesOf, if_pos alone]
        exact List.mem_append_left _ List.mem_cons_self
    | second loc1 loc2 t2 =>
        obtain ⟨in2, outside⟩ := legal
        obtain ⟨t1, in1⟩ := List.exists_mem_of_ne_nil _ partner
        refine ⟨t1, in1, t2, in2, ?_⟩
        have alone : t2.action.name ∈
            minusSet model2.getActionNames model1.getActionNames :=
          mem_minusSet.mpr ⟨named_of_copy input.exactCopy2 in2, outside⟩
        rw [movesOf, if_pos alone]
        apply List.mem_append_right
        exact List.mem_append_left _ List.mem_cons_self
    | both loc1 loc2 t1 t2 =>
        obtain ⟨in1, in2, together⟩ := legal
        refine ⟨t1, in1, t2, in2, ?_⟩
        rw [movesOf, if_pos (show canSynchronize t1.action t2.action = true from together)]
        apply List.mem_append_right
        exact List.mem_append_right _ List.mem_cons_self

theorem IsParallelInput.init1_mem :
    ∃ start, parts.tiosts1.initialLocation = some start ∧
      parts.init1 ∈ parts.tiosts1.outOf start := by
  obtain ⟨start, initial, first⟩ := bind_eq_ok.mp input.isParts.init1
  exact ⟨start, deref_eq_ok.mp initial, firstOut_mem first⟩

theorem IsParallelInput.init2_mem :
    ∃ start, parts.tiosts2.initialLocation = some start ∧
      parts.init2 ∈ parts.tiosts2.outOf start := by
  obtain ⟨start, initial, first⟩ := bind_eq_ok.mp input.isParts.init2
  exact ⟨start, deref_eq_ok.mp initial, firstOut_mem first⟩

theorem IsParallelInput.root_inside : parts.Inside parts.root := by
  obtain ⟨_, _, member1⟩ := input.init1_mem
  obtain ⟨_, _, member2⟩ := input.init2_mem
  constructor
  · exact input.exactCopy1.wellFormed.target_registered member1
  · exact input.exactCopy2.wellFormed.target_registered member2

theorem IsParallelInput.target_inside {move : Move} (inside : parts.Inside move.source)
    (legal : parts.IsLegal model1 model2 move) : parts.Inside move.target := by
  cases move with
  | first loc1 loc2 t1 =>
      exact ⟨input.exactCopy1.wellFormed.target_registered legal.1, inside.2⟩
  | second loc1 loc2 t2 =>
      exact ⟨inside.1, input.exactCopy2.wellFormed.target_registered legal.1⟩
  | both loc1 loc2 t1 t2 =>
      exact ⟨input.exactCopy1.wellFormed.target_registered legal.1,
        input.exactCopy2.wellFormed.target_registered legal.2.1⟩

theorem IsParallelInput.reached_inside {pair : String × String}
    (reaches : parts.LegallyReaches model1 model2 pair) : parts.Inside pair := by
  induction reaches with
  | refl => exact input.root_inside
  | tail _ step induction =>
      obtain ⟨move, legal, rfl, rfl⟩ := step
      exact input.target_inside induction legal

theorem IsParallelInput.legallyReaches {pair : String × String}
    (reaches : (parts.search model1 model2).Reaches parts.root pair) :
    parts.LegallyReaches model1 model2 pair := by
  induction reaches with
  | refl => exact .refl
  | tail _ step induction =>
      obtain ⟨move, member, rfl⟩ := step
      obtain ⟨source, legal, _⟩ := input.mem_moves.mp member
      exact .tail induction ⟨move, legal, source, rfl⟩

/-- What a search from a pair that is not visited follows and visits, and how it ends. -/
theorem IsParallelInput.exists_explores {visited : List String}
    (fresh : (parts.search model1 model2).key parts.root ∉ visited) :
    ∃ followed entered result,
      (parts.search model1 model2).Explores ((parts.search model1 model2).moves parts.root)
        parts.base (visited ++ [(parts.search model1 model2).key parts.root]) followed entered
        result ∧
      ∃ bound, ∀ depth, bound ≤ depth →
        (parallelComposition order depth model1 model2).outcome visited =
          (result, visited ++ (parts.root :: entered).map (parts.search model1 model2).key) := by
  let search := parts.search model1 model2
  let keys := (parts.tiosts1.locations.keys.product parts.tiosts2.locations.keys).map
    search.key
  have closed : ∀ pair, parts.Inside pair → ∀ move ∈ search.moves pair,
      parts.Inside (search.target move) := by
    intro pair inside move member
    obtain ⟨rfl, legal, _⟩ := input.mem_moves.mp member
    exact input.target_inside inside legal
  have bounded : ∀ pair, parts.Inside pair → search.key pair ∈ keys.toFinset := by
    intro pair inside
    apply List.mem_toFinset.mpr
    apply List.mem_map_of_mem
    exact List.pair_mem_product.mpr
      ⟨AList.mem_keys.mp inside.1, AList.mem_keys.mp inside.2⟩
  obtain ⟨followed, entered, result, explores⟩ := MarkedSearch.exists_explores parts.Inside
    keys.toFinset closed bounded (closed parts.root input.root_inside) parts.base
    (visited ++ [search.key parts.root])
  refine ⟨followed, entered, result, explores, ?_⟩
  obtain ⟨bound, outcome⟩ := explores.follow_eventually
  refine ⟨bound + 1, ?_⟩
  intro depth enough
  obtain ⟨smaller, rfl⟩ : ∃ smaller, depth = smaller + 1 := ⟨depth - 1, by omega⟩
  rw [input.isParts.outcome, MarkedSearch.visit_fresh fresh]
  have ended := outcome smaller (by omega)
  rw [List.append_assoc] at ended
  exact ended

theorem IsParallelInput.origin_legal {entered : List (String × String)} {move : Move}
    (reached : ∀ node ∈ entered, ∃ first ∈ (parts.search model1 model2).moves parts.root,
      (parts.search model1 model2).Reaches first.target node)
    (origin : move ∈ (parts.search model1 model2).moves parts.root ∨
      ∃ node ∈ entered, move ∈ (parts.search model1 model2).moves node) :
    (parts.search model1 model2).Reaches parts.root move.source ∧
      move ∈ (parts.search model1 model2).moves move.source := by
  rcases origin with atRoot | ⟨node, inEntered, atNode⟩
  · obtain ⟨source, _⟩ := input.mem_moves.mp atRoot
    rw [source]
    exact ⟨.refl, atRoot⟩
  · obtain ⟨source, _⟩ := input.mem_moves.mp atNode
    obtain ⟨first, isFirst, later⟩ := reached node inEntered
    rw [source]
    exact ⟨.head ⟨first, isFirst, rfl⟩ later, atNode⟩

/-- A call that has returned has followed legal moves of pairs it could reach. -/
theorem IsParallelInput.returned_followed {depth : Nat} {visited after : List String}
    {result : TIOSTS} (returned : (parallelComposition order depth model1 model2).outcome
      visited = (.ok result, after)) :
    ∃ followed, Follows parts.base followed result ∧
      followed.foldlM Move.create parts.base = .ok result ∧
      ∀ move ∈ followed, (parts.search model1 model2).Reaches parts.root move.source ∧
        move ∈ (parts.search model1 model2).moves move.source := by
  rw [input.isParts.outcome] at returned
  cases depth with
  | zero => cases congrArg Prod.fst returned
  | succ depth =>
      by_cases marked : (parts.search model1 model2).key parts.root ∈ visited
      · rw [MarkedSearch.visit_marked marked] at returned
        obtain rfl := Except.ok.inj (congrArg Prod.fst returned)
        refine ⟨[], Follows.refl parts.base_labelled, rfl, ?_⟩
        intro move impossible
        cases impossible
      · rw [MarkedSearch.visit_fresh marked] at returned
        have notCut : (.ok result : Except Failure TIOSTS) ≠
            .error (parts.search model1 model2).cutOff := by
          intro impossible
          cases impossible
        obtain ⟨followed, entered, explores, _⟩ :=
          MarkedSearch.explores_of_follow returned notCut
        have reached := explores.state_eq result rfl
        refine ⟨followed, follows_of_foldlM parts.base_labelled reached, reached, ?_⟩
        intro move member
        exact input.origin_legal explores.reached (explores.sound move member)

omit input in
theorem mem_filter_names {actions : List Action} {name : String} (keep : String → Bool) :
    name ∈ (actions.filter (fun action => keep action.name)).map Action.name ↔
      name ∈ actions.map Action.name ∧ keep name = true := by
  constructor
  · intro member
    obtain ⟨action, kept, rfl⟩ := List.mem_map.mp member
    obtain ⟨inActions, holds⟩ := List.mem_filter.mp kept
    exact ⟨List.mem_map_of_mem inActions, holds⟩
  · rintro ⟨member, holds⟩
    obtain ⟨action, inActions, rfl⟩ := List.mem_map.mp member
    exact List.mem_map_of_mem (List.mem_filter.mpr ⟨inActions, holds⟩)

theorem IsParallelInput.names1 (type : ActionType) :
    (parts.tiosts1.actionsOf type).map Action.name =
      (model1.actionsOf type).map Action.name := by
  rw [input.exactCopy1.actionsOf]

theorem IsParallelInput.names2 (type : ActionType) :
    (parts.tiosts2.actionsOf type).map Action.name =
      (model2.actionsOf type).map Action.name := by
  rw [input.exactCopy2.actionsOf]

omit input in
theorem declared_output {name : String} :
    name ∈ (parts.declaredActions .output).map Action.name ↔
      name ∈ (parts.tiosts1.actionsOf .output).map Action.name ∨
        name ∈ (parts.tiosts2.actionsOf .output).map Action.name :=
  union_names _ _ name

omit input in
theorem declared_input {name : String} :
    name ∈ (parts.declaredActions .input).map Action.name ↔
      name ∈ (parts.tiosts1.actionsOf .input).map Action.name ∧
          name ∉ (parts.tiosts2.actionsOf .output).map Action.name ∨
        name ∈ (parts.tiosts2.actionsOf .input).map Action.name ∧
          name ∉ (parts.declaredActions .output).map Action.name := by
  rw [Parts.declaredActions, List.map_append, List.mem_append]
  apply or_congr
  · exact (mem_filter_names (fun name =>
      name ∉ parts.tiosts2.outputActions.map Action.name)).trans (by simp [Alphabet.actionsOf])
  · exact (mem_filter_names (fun name =>
      name ∉ (outputActions parts.tiosts1 parts.tiosts2).map Action.name)).trans
        (by simp [Alphabet.actionsOf, Parts.declaredActions])

omit input in
theorem declared_internal {name : String} :
    name ∈ (parts.declaredActions .internal).map Action.name ↔
      (name ∈ (parts.tiosts1.actionsOf .internal).map Action.name ∧
          name ≠ parts.init1.action.name ∨
        name ∈ (parts.tiosts2.actionsOf .internal).map Action.name ∧
          name ≠ parts.init2.action.name) ∨
        name = parts.initial.action.name := by
  rw [Parts.declaredActions, List.map_append, List.map_append, List.mem_append,
    List.mem_append, List.map_singleton, List.mem_singleton]
  apply or_congr_left
  apply or_congr
  · exact (mem_filter_names (fun name => name ≠ parts.init1.action.name)).trans
      (by simp [Alphabet.actionsOf])
  · exact (mem_filter_names (fun name => name ≠ parts.init2.action.name)).trans
      (by simp [Alphabet.actionsOf])

omit input in
/-- The initial action of the result is called otherwise than those of the models. -/
theorem initialName_ne : parts.init1.action.name ≠ parts.initial.action.name ∧
    parts.init2.action.name ≠ parts.initial.action.name := by
  have chars : parts.initial.action.name.toList.length =
      parts.init1.action.name.toList.length + (1 + parts.init2.action.name.toList.length) := by
    simp [Parts.initial, initialTransition, initialAction]
    omega
  constructor
  · intro same
    rw [← same] at chars
    omega
  · intro same
    rw [← same] at chars
    omega

theorem IsParallelInput.not_declared1 {name : String} (outside : name ∉ model1.getActionNames)
    (type : ActionType) : name ∉ (parts.tiosts1.actionsOf type).map Action.name := by
  intro member
  rw [input.names1] at member
  exact outside (TIOSTS.mem_getActionNames.mpr ⟨type, member⟩)

theorem IsParallelInput.not_declared2 {name : String} (outside : name ∉ model2.getActionNames)
    (type : ActionType) : name ∉ (parts.tiosts2.actionsOf type).map Action.name := by
  intro member
  rw [input.names2] at member
  exact outside (TIOSTS.mem_getActionNames.mpr ⟨type, member⟩)

theorem IsParallelInput.first_throws_iff {loc1 loc2 : String} {t1 : Transition}
    (legal : parts.IsLegal model1 model2 (.first loc1 loc2 t1)) :
    parts.Throws (.first loc1 loc2 t1) ↔
      t1.action.type = .internal ∧ t1.action.name = parts.init1.action.name := by
  obtain ⟨in1, outside⟩ := legal
  have own := declared_of_copy input.exactCopy1 in1
  rw [← input.names1] at own
  simp only [Parts.Throws, Move.action]
  cases type : t1.action.type with
  | input =>
      rw [type] at own
      have declared := declared_input.mpr (Or.inl ⟨own, input.not_declared2 outside _⟩)
      simp [declared]
  | output =>
      rw [type] at own
      have declared := declared_output.mpr (Or.inl own)
      simp [declared]
  | internal =>
      rw [type] at own
      rw [declared_internal]
      constructor
      · intro missing
        refine ⟨rfl, ?_⟩
        by_contra different
        exact missing (Or.inl (Or.inl ⟨own, different⟩))
      · rintro ⟨_, same⟩ ((⟨_, different⟩ | ⟨other, _⟩) | isInitial)
        · exact different same
        · exact input.not_declared2 outside _ other
        · exact initialName_ne.1 (same.symm.trans isInitial)

theorem IsParallelInput.second_throws_iff {loc1 loc2 : String} {t2 : Transition}
    (legal : parts.IsLegal model1 model2 (.second loc1 loc2 t2)) :
    parts.Throws (.second loc1 loc2 t2) ↔
      t2.action.type = .internal ∧ t2.action.name = parts.init2.action.name ∨
        t2.action.type = .input ∧
          t2.action.name ∈ (model2.actionsOf .output).map Action.name := by
  obtain ⟨in2, outside⟩ := legal
  have own := declared_of_copy input.exactCopy2 in2
  rw [← input.names2] at own
  simp only [Parts.Throws, Move.action]
  cases type : t2.action.type with
  | input =>
      rw [type] at own
      rw [declared_input, declared_output, ← input.names2]
      constructor
      · intro missing
        refine Or.inr ⟨rfl, ?_⟩
        by_contra notOutput
        apply missing
        refine Or.inr ⟨own, ?_⟩
        rintro (output1 | output2)
        · exact input.not_declared1 outside _ output1
        · exact notOutput output2
      · rintro (⟨impossible, _⟩ | ⟨_, output⟩)
        · cases impossible
        · rintro (⟨other, _⟩ | ⟨_, missing⟩)
          · exact input.not_declared1 outside _ other
          · exact missing (Or.inr output)
  | output =>
      rw [type] at own
      have declared := declared_output.mpr (Or.inr own)
      simp [declared]
  | internal =>
      rw [type] at own
      rw [declared_internal]
      constructor
      · intro missing
        refine Or.inl ⟨rfl, ?_⟩
        by_contra different
        exact missing (Or.inl (Or.inr ⟨own, different⟩))
      · rintro (⟨_, same⟩ | ⟨impossible, _⟩)
        · rintro ((⟨other, _⟩ | ⟨_, different⟩) | isInitial)
          · exact input.not_declared1 outside _ other
          · exact different same
          · exact initialName_ne.2 (same.symm.trans isInitial)
        · cases impossible

theorem IsParallelInput.both_not_throws {loc1 loc2 : String} {t1 t2 : Transition}
    (legal : parts.IsLegal model1 model2 (.both loc1 loc2 t1 t2)) :
    ¬ parts.Throws (.both loc1 loc2 t1 t2) := by
  obtain ⟨in1, in2, together⟩ := legal
  obtain ⟨types, _⟩ := canSynchronize_iff.mp together
  simp only [Parts.Throws, not_not, Move.action]
  rcases types with ⟨_, output⟩ | ⟨isInput, output⟩
  · have own := declared_of_copy input.exactCopy2 in2
    rw [← input.names2, output] at own
    have action : outputAction t1.action t2.action = t2.action := if_pos output
    rw [action, output]
    exact declared_output.mpr (Or.inr own)
  · have own := declared_of_copy input.exactCopy1 in1
    rw [← input.names1, output] at own
    have action : outputAction t1.action t2.action = t1.action := by
      rw [outputAction, isInput, if_neg (by decide)]
    rw [action, output]
    exact declared_output.mpr (Or.inl own)

/-- Synchronisations do not throw, and a component that moves alone throws on the initial
action of its model and, if it is the second one, on inputs that are outputs as well. -/
theorem IsParallelInput.throws_iff {move : Move} (legal : parts.IsLegal model1 model2 move) :
    parts.Throws move ↔ match move with
      | .first _ _ t1 => t1.action.type = .internal ∧ t1.action.name = parts.init1.action.name
      | .second _ _ t2 =>
          t2.action.type = .internal ∧ t2.action.name = parts.init2.action.name ∨
            t2.action.type = .input ∧
              t2.action.name ∈ (model2.actionsOf .output).map Action.name
      | .both _ _ _ _ => False := by
  cases move with
  | first loc1 loc2 t1 => exact input.first_throws_iff legal
  | second loc1 loc2 t2 => exact input.second_throws_iff legal
  | both loc1 loc2 t1 t2 => exact iff_false_intro (input.both_not_throws legal)

omit input in
/-- A move that is made while the search goes on throws if its action is not declared. -/
theorem create_isOk_iff {followed : List Move} {pc : TIOSTS}
    (follows : Follows parts.base followed pc) (move : Move) :
    (∃ next, move.create pc = .ok next) ↔ ¬ parts.Throws move := by
  rw [Move.create_isOk follows.labelled, follows.actionNames, Parts.base_actionsOf,
    Parts.Throws, not_not]

end Input

end ParallelComposition

end Symbolrt
