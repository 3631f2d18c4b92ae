import Symbolrt.Algorithms.SynchronousProduct
import Symbolrt.Lib.KeyedSearch

/-!
# The product as a search over pairs of locations

The moves of a pair of locations, and the product that a list of moves builds.
`syncProduct_build` states that the recursion of the tool is the depth-first
search with an overwriting table whose nodes are pairs of locations, whose table
is the map of transitions and whose log of taken moves determines the product
built so far.
-/

namespace Symbolrt

open SynchronousProduct

/-- A location of the specification and one of the test purpose. -/
structure LocationPair where
  specLabel : String
  tpLabel : String
  deriving DecidableEq, Repr

def LocationPair.label (pair : LocationPair) : String :=
  pairLabel pair.specLabel pair.tpLabel

/-- A specification transition taken from a pair, alone or together with a
transition of the test purpose. -/
structure ProductMove where
  specTransition : Transition
  tpLabel : String
  tpTransition : Option Transition
  deriving DecidableEq

namespace ProductMove

def source (move : ProductMove) : LocationPair :=
  ⟨move.specTransition.source, move.tpLabel⟩

/-- The test purpose stays where it is unless it moves along. -/
def target (move : ProductMove) : LocationPair :=
  match move.tpTransition with
  | none => ⟨move.specTransition.target, move.tpLabel⟩
  | some tpTransition => ⟨move.specTransition.target, tpTransition.target⟩

/-- The guard the product gives the move. -/
def dataGuard (move : ProductMove) : DataGuard :=
  match move.tpTransition with
  | none => move.specTransition.dataGuard
  | some tpTransition => createDataGuard move.specTransition.dataGuard tpTransition.dataGuard

/-- The clock guard a move is searched with. -/
def clockGuard (move : ProductMove) : ClockGuard :=
  match move.tpTransition with
  | none => move.specTransition.clockGuard
  | some tpTransition =>
      createClockGuard move.specTransition.clockGuard tpTransition.clockGuard

/-- The clock guard a move is created with: alone, the guard of the specification
is printed and read back against the clocks of the product. -/
def createdClockGuard (clocks : List String) (move : ProductMove) : ClockGuard :=
  match move.tpTransition with
  | none => move.specTransition.clockGuard.renumber clocks
  | some tpTransition =>
      createClockGuard move.specTransition.clockGuard tpTransition.clockGuard

def dataAssignments (move : ProductMove) : Option String :=
  match move.tpTransition with
  | none => move.specTransition.dataAssignments
  | some tpTransition =>
      createAssignments move.specTransition.dataAssignments tpTransition.dataAssignments

def clockAssignments (move : ProductMove) : Option String :=
  match move.tpTransition with
  | none => move.specTransition.clockAssignments
  | some tpTransition =>
      createAssignments move.specTransition.clockAssignments tpTransition.clockAssignments

/-- The action of the specification as the product declares it. -/
def actionIn (initial : TIOSTS) (move : ProductMove) : Action :=
  (initial.getAction move.specTransition.action.type
    move.specTransition.action.name).getD move.specTransition.action

/-- The transition a move creates in a product set up as `initial`. -/
def transition (initial : TIOSTS) (move : ProductMove) : Transition where
  source := move.source.label
  dataGuard := move.dataGuard
  clockGuard := move.createdClockGuard initial.clocks
  action := move.actionIn initial
  dataAssignments := move.dataAssignments
  clockAssignments := move.clockAssignments
  deadline := move.specTransition.deadline
  target := move.target.label

/-- The text under which the product stores the transition. -/
def key (move : ProductMove) : String :=
  move.source.label ++ "#" ++ move.specTransition.action.name ++ "#" ++ move.target.label

theorem actionIn_name (initial : TIOSTS) (move : ProductMove) :
    (move.actionIn initial).name = move.specTransition.action.name := by
  unfold actionIn
  cases found : initial.getAction move.specTransition.action.type
      move.specTransition.action.name with
  | none => rfl
  | some action => exact (TIOSTS.getAction_eq_some found).2.2

theorem transition_action_name (initial : TIOSTS) (move : ProductMove) :
    (move.transition initial).action.name = move.specTransition.action.name :=
  actionIn_name initial move

theorem transition_key (initial : TIOSTS) (move : ProductMove) :
    (move.transition initial).key = move.key := by
  simp [Transition.key, transition, key, actionIn_name]

end ProductMove

/-- What `getTransition` compares. -/
structure ProductMark where
  source : String
  dataGuard : String
  clockGuard : ClockGuard
  action : String
  target : String
  deriving DecidableEq

section Moves

variable (spec tp : TIOSTS)

/-- The moves of a pair that use the given transition of the specification. -/
def movesOf (tpLabel : String) (specTransition : Transition) : List ProductMove :=
  match (tp.outOf tpLabel).filter
      (fun tpTransition => tpTransition.action.equals specTransition.action) with
  | [] => [⟨specTransition, tpLabel, none⟩]
  | first :: rest =>
      (first :: rest).map (fun tpTransition => ⟨specTransition, tpLabel, some tpTransition⟩)

/-- The recursion ends at these labels of the test purpose. -/
def isSpecialLabel (label : String) : Bool :=
  label == Constants.locationLabelAccept || label == Constants.locationLabelReject

/-- The moves that leave a pair. There are none where the recursion ends. -/
def movesAt (pair : LocationPair) : List ProductMove :=
  if isSpecialLabel pair.tpLabel ∨ pair.tpLabel ∉ tp.locations then []
  else (spec.outOf pair.specLabel).flatMap (movesOf tp pair.tpLabel)

/-- The search of `syncProduct` in a product with the given clocks. -/
def productSearch (clocks : List String) :
    KeyedSearch LocationPair ProductMove String ProductMark where
  moves := movesAt spec tp
  target := ProductMove.target
  key := ProductMove.key
  mark := fun move =>
    ⟨move.source.label, move.dataGuard.text, move.clockGuard,
      move.specTransition.action.name, move.target.label⟩
  stamp := fun move =>
    ⟨move.source.label, move.dataGuard.text, move.createdClockGuard clocks,
      move.specTransition.action.name, move.target.label⟩

theorem mem_movesOf {tpLabel : String} {specTransition : Transition}
    {move : ProductMove} (member : move ∈ movesOf tp tpLabel specTransition) :
    move.specTransition = specTransition ∧ move.tpLabel = tpLabel ∧
      ((move.tpTransition = none ∧ ∀ tpTransition ∈ tp.outOf tpLabel,
          tpTransition.action.name ≠ specTransition.action.name) ∨
        ∃ tpTransition ∈ tp.outOf tpLabel, move.tpTransition = some tpTransition ∧
          tpTransition.action.name = specTransition.action.name) := by
  unfold movesOf at member
  split at member
  · rename_i none
    rw [List.mem_singleton] at member
    subst member
    refine ⟨rfl, rfl, Or.inl ⟨rfl, ?_⟩⟩
    intro tpTransition inOut same
    have missing := List.filter_eq_nil_iff.mp none tpTransition inOut
    simp [Action.equals, same] at missing
  · rename_i first rest some
    obtain ⟨tpTransition, inList, rfl⟩ := List.mem_map.mp member
    rw [← some] at inList
    obtain ⟨inOut, same⟩ := List.mem_filter.mp inList
    exact ⟨rfl, rfl, Or.inr ⟨tpTransition, inOut, rfl, by simpa [Action.equals] using same⟩⟩

theorem mem_movesAt {pair : LocationPair} {move : ProductMove}
    (member : move ∈ movesAt spec tp pair) :
    (isSpecialLabel pair.tpLabel = false ∧ tp.IsRegistered pair.tpLabel) ∧
      move.specTransition ∈ spec.outOf pair.specLabel ∧ move.tpLabel = pair.tpLabel ∧
      ((move.tpTransition = none ∧ ∀ tpTransition ∈ tp.outOf pair.tpLabel,
          tpTransition.action.name ≠ move.specTransition.action.name) ∨
        ∃ tpTransition ∈ tp.outOf pair.tpLabel, move.tpTransition = some tpTransition ∧
          tpTransition.action.name = move.specTransition.action.name) := by
  unfold movesAt at member
  split at member
  · simp at member
  · rename_i ordinary
    obtain ⟨specTransition, inOut, inMoves⟩ := List.mem_flatMap.mp member
    obtain ⟨rfl, tpLabel, choice⟩ := mem_movesOf tp inMoves
    simp only [not_or, not_not, Bool.not_eq_true] at ordinary
    exact ⟨ordinary, inOut, tpLabel, choice⟩

theorem movesOf_ne_nil (tpLabel : String) (specTransition : Transition) :
    movesOf tp tpLabel specTransition ≠ [] := by
  unfold movesOf
  split <;> simp

end Moves

/-- What taking a move does to the product. -/
def ProductMove.enter (initial : TIOSTS) (move : ProductMove) (sp : TIOSTS) : TIOSTS :=
  ((sp.addLocation (Location.new move.source.label false)).addLocation
    (Location.new move.target.label false)).register (move.transition initial)

/-- The product built by a log of moves, the newest first. -/
def build (initial : TIOSTS) (log : List ProductMove) : TIOSTS :=
  log.foldr (ProductMove.enter initial) initial

section Build

variable {initial : TIOSTS} (setUp : initial.IsBlank) (log : List ProductMove)

@[simp] theorem build_cons (move : ProductMove) :
    build initial (move :: log) = move.enter initial (build initial log) := rfl

theorem build_alphabet : (build initial log).toAlphabet = initial.toAlphabet := by
  induction log with
  | nil => rfl
  | cons move log induction => simp [ProductMove.enter, induction]

theorem build_clocks : (build initial log).clocks = initial.clocks := by
  induction log with
  | nil => rfl
  | cons move log induction => simp [ProductMove.enter, induction]

theorem build_getAction (type : ActionType) (name : String) :
    (build initial log).getAction type name = initial.getAction type name := by
  unfold TIOSTS.getAction
  rw [build_alphabet]

include setUp

theorem build_isRegistered (label : String) :
    (build initial log).IsRegistered label ↔
      ∃ move ∈ log, label = move.source.label ∨ label = move.target.label := by
  induction log with
  | nil => simp [build, TIOSTS.IsRegistered, setUp.locations]
  | cons move log induction =>
      rw [build_cons, ProductMove.enter, TIOSTS.isRegistered_register,
        TIOSTS.isRegistered_addLocation, TIOSTS.isRegistered_addLocation, induction]
      simp only [List.mem_cons, exists_eq_or_imp, Location.new]
      rw [← or_assoc, or_comm (a := label = move.target.label)]

theorem build_unflagged : (build initial log).Unflagged := by
  induction log with
  | nil =>
      intro label location found
      simp [build, TIOSTS.getLocation, setUp.locations] at found
  | cons move log induction =>
      exact ((induction.addLocation _).addLocation _).register _

theorem build_outOf (label : String) :
    (build initial log).outOf label =
      (log.reverse.filter (fun move => label = move.source.label)).map
        (ProductMove.transition initial) := by
  induction log with
  | nil => simp [build, TIOSTS.outOf, TIOSTS.getLocation, setUp.locations]
  | cons move log induction =>
      have registered : (((build initial log).addLocation
          (Location.new move.source.label false)).addLocation
            (Location.new move.target.label false)).IsRegistered
              (move.transition initial).source := by
        rw [TIOSTS.isRegistered_addLocation, TIOSTS.isRegistered_addLocation]
        exact Or.inr (Or.inl rfl)
      rw [build_cons, ProductMove.enter, TIOSTS.outOf_register _ _ _ registered,
        TIOSTS.outOf_addLocation, TIOSTS.outOf_addLocation, induction,
        List.reverse_cons, List.filter_append, List.map_append]
      by_cases same : label = move.source.label
      · simp [same, ProductMove.transition]
      · simp [same, ProductMove.transition]

theorem build_transitions (key : String) :
    (build initial log).transitions.lookup key =
      (log.find? (fun move => move.key = key)).map (ProductMove.transition initial) := by
  induction log with
  | nil => simp [build, setUp.transitions]
  | cons move log induction =>
      rw [build_cons, ProductMove.enter, TIOSTS.register_transitions,
        TIOSTS.addLocation_transitions, TIOSTS.addLocation_transitions,
        ProductMove.transition_key]
      by_cases same : move.key = key
      · subst same
        simp
      · rw [AList.lookup_insert_ne (Ne.symm same), induction]
        simp [same]

end Build

theorem TIOSTS.getTransition_isSome {model : TIOSTS}
    (keyed : ∀ key transition, model.transitions.lookup key = some transition →
      transition.key = key)
    (source : String) (dataGuard : DataGuard) (clockGuard : ClockGuard) (action : Action)
    (target : String) :
    (model.getTransition source dataGuard clockGuard action target).isSome = true ↔
      ∃ transition,
        model.transitions.lookup (source ++ "#" ++ action.name ++ "#" ++ target) =
          some transition ∧
        transition.source = source ∧ transition.dataGuard.text = dataGuard.text ∧
        transition.clockGuard = clockGuard ∧ transition.action.name = action.name ∧
        transition.target = target := by
  rw [getTransition, List.find?_isSome]
  constructor
  · rintro ⟨transition, member, same⟩
    obtain ⟨⟨key, stored⟩, inEntries, rfl⟩ := List.mem_map.mp member
    simp only [Bool.and_eq_true, beq_iff_eq, DataGuard.equals, Action.equals] at same
    have found : model.transitions.lookup key = some stored :=
      AList.mem_lookup_iff.mpr inEntries
    refine ⟨stored, ?_, same.1.1.1.1, same.1.1.1.2, same.1.1.2, same.1.2, same.2⟩
    rw [← found, ← keyed key stored found, Transition.key, same.1.1.1.1, same.1.2, same.2]
  · rintro ⟨transition, found, sameSource, sameData, sameClock, sameAction, sameTarget⟩
    refine ⟨transition, List.mem_map.mpr ⟨_, AList.mem_lookup_iff.mp found, rfl⟩, ?_⟩
    simp [sameSource, sameData, sameClock, sameAction, sameTarget, DataGuard.equals,
      Action.equals]

section Simulation

variable {spec tp initial : TIOSTS}

/-- What the recursion starts from: two well-formed models and an empty product
that declares the actions of the specification. -/
structure IsProductSetUp (spec tp initial : TIOSTS) : Prop where
  specWellFormed : spec.WellFormed
  tpWellFormed : tp.WellFormed
  setUp : initial.IsBlank
  declares : ∀ type name, initial.getAction type name = spec.getAction type name

/-- The result of the search as a result of the recursion. -/
def built (initial : TIOSTS) : Option (List ProductMove) → Except Failure TIOSTS
  | none => .error .depthExceeded
  | some final => .ok (build initial final)

theorem build_keyed (setUp : initial.IsBlank) (log : List ProductMove) (key : String)
    (transition : Transition)
    (found : (build initial log).transitions.lookup key = some transition) :
    transition.key = key := by
  rw [build_transitions setUp] at found
  obtain ⟨move, moveFound, rfl⟩ := Option.map_eq_some_iff.mp found
  rw [ProductMove.transition_key]
  simpa using List.find?_some moveFound

theorem getTransition_build (spec tp : TIOSTS) (setUp : initial.IsBlank) (log : List ProductMove)
    (move : ProductMove) {action : Action}
    (sameName : action.name = move.specTransition.action.name) :
    ((build initial log).getTransition move.source.label move.dataGuard move.clockGuard
        action move.target.label).isSome =
      (productSearch spec tp initial.clocks).seen log move := by
  rw [Bool.eq_iff_iff, TIOSTS.getTransition_isSome (build_keyed setUp log),
    build_transitions setUp, sameName]
  simp only [KeyedSearch.seen, KeyedSearch.latest, productSearch, beq_iff_eq,
    Option.map_eq_some_iff]
  constructor
  · rintro ⟨transition, ⟨taken, found, rfl⟩, sameSource, sameData, sameClock, sameAction,
      sameTarget⟩
    rw [ProductMove.transition_action_name] at sameAction
    exact ⟨taken, found, ProductMark.mk.injEq .. ▸
      ⟨sameSource, sameData, sameClock, sameAction, sameTarget⟩⟩
  · rintro ⟨taken, found, stamped⟩
    simp only [ProductMark.mk.injEq] at stamped
    obtain ⟨sameSource, sameData, sameClock, sameAction, sameTarget⟩ := stamped
    rw [← ProductMove.transition_action_name initial] at sameAction
    exact ⟨_, ⟨taken, found, rfl⟩, sameSource, sameData, sameClock, sameAction, sameTarget⟩

theorem isRegistered_of_seen (setUp : initial.IsBlank) {log : List ProductMove}
    {move : ProductMove}
    (known : (productSearch spec tp initial.clocks).seen log move = true) :
    (build initial log).IsRegistered move.source.label ∧
      (build initial log).IsRegistered move.target.label := by
  simp only [KeyedSearch.seen, KeyedSearch.latest, productSearch, beq_iff_eq,
    Option.map_eq_some_iff, ProductMark.mk.injEq] at known
  obtain ⟨taken, found, source, _, _, _, target⟩ := known
  have member := List.mem_of_find?_eq_some found
  exact ⟨(build_isRegistered setUp log _).mpr ⟨taken, member, Or.inl source.symm⟩,
    (build_isRegistered setUp log _).mpr ⟨taken, member, Or.inr target.symm⟩⟩

/-- The recursion below a move, as the search does it. -/
def visitMove (spec tp : TIOSTS) (clocks : List String) (depth : Nat)
    (log : List ProductMove) (move : ProductMove) : Option (List ProductMove) :=
  if (productSearch spec tp clocks).seen log move then some log
  else (productSearch spec tp clocks).visit depth move.target (move :: log)

theorem visit_succ (clocks : List String) (depth : Nat) (pair : LocationPair)
    (log : List ProductMove) :
    (productSearch spec tp clocks).visit (depth + 1) pair log =
      (movesAt spec tp pair).foldlM (visitMove spec tp clocks depth) log := rfl

theorem visitMove_registered (setUp : initial.IsBlank) {depth : Nat}
    {log final : List ProductMove} {move : ProductMove}
    (returned : visitMove spec tp initial.clocks depth log move = some final) :
    (build initial final).IsRegistered move.source.label := by
  unfold visitMove at returned
  split at returned
  · rename_i known
    cases returned
    exact (isRegistered_of_seen setUp known).1
  · obtain ⟨added, rfl⟩ := (KeyedSearch.visit_expands returned).exists_added
    exact (build_isRegistered setUp _ _).mpr ⟨move, by simp, Or.inl rfl⟩

section Steps

/-- The product with the source location of a move added. -/
def located (initial : TIOSTS) (log : List ProductMove) (source : LocationPair) : TIOSTS :=
  (build initial log).addLocation (Location.new source.label false)

theorem getTransition_located (log : List ProductMove) (source : LocationPair)
    (target : String) (dataGuard : DataGuard) (clockGuard : ClockGuard) (action : Action)
    (sourceLabel : String) :
    ((located initial log source).addLocation (Location.new target false)).getTransition
        sourceLabel dataGuard clockGuard action target =
      (build initial log).getTransition sourceLabel dataGuard clockGuard action target := by
  simp [TIOSTS.getTransition, located]

theorem located_eq_build {log : List ProductMove} {source : LocationPair}
    (registered : (build initial log).IsRegistered source.label) :
    located initial log source = build initial log :=
  TIOSTS.addLocation_eq_self _ _ registered

theorem createTransition_located (setUp : initial.IsBlank) (log : List ProductMove)
    (move : ProductMove) :
    ((located initial log move.source).addLocation
        (Location.new move.target.label false)).createTransition move.source.label
        move.dataGuard (move.createdClockGuard initial.clocks) (move.actionIn initial)
        move.dataAssignments move.clockAssignments move.specTransition.deadline
        move.target.label =
      .ok (build initial (move :: log)) := by
  have unflagged : ((located initial log move.source).addLocation
      (Location.new move.target.label false)).Unflagged :=
    ((build_unflagged setUp log).addLocation _).addLocation _
  rw [TIOSTS.createTransition_unflagged unflagged]
  · rfl
  · rw [TIOSTS.isRegistered_addLocation, located, TIOSTS.isRegistered_addLocation]
    exact Or.inr (Or.inl rfl)
  · rw [TIOSTS.isRegistered_addLocation]
    exact Or.inl rfl

theorem located_of_seen (setUp : initial.IsBlank) {log : List ProductMove}
    {move : ProductMove}
    (known : (productSearch spec tp initial.clocks).seen log move = true) :
    (located initial log move.source).addLocation (Location.new move.target.label false) =
      build initial log := by
  obtain ⟨sourceRegistered, targetRegistered⟩ := isRegistered_of_seen setUp known
  rw [located_eq_build sourceRegistered, TIOSTS.addLocation_eq_self _ _ targetRegistered]

variable (product : IsProductSetUp spec tp initial)
  {recurse : Location → Location → TIOSTS → Except Failure TIOSTS} {depth : Nat}
  (recursion : ∀ {specLabel tpLabel specLoc tpLoc} (log : List ProductMove),
    spec.getLocation specLabel = some specLoc → tp.getLocation tpLabel = some tpLoc →
    recurse specLoc tpLoc (build initial log) =
      built initial
        ((productSearch spec tp initial.clocks).visit depth ⟨specLabel, tpLabel⟩ log))

include product in
theorem actionIn_eq {label : String} (move : ProductMove)
    (member : move.specTransition ∈ spec.outOf label) :
    initial.getAction move.specTransition.action.type move.specTransition.action.name =
      some (move.actionIn initial) := by
  obtain ⟨action, found⟩ := product.specWellFormed.action_declared member
  rw [← product.declares] at found
  simp [ProductMove.actionIn, found]

include product recursion

theorem syncAlone_build {label tpLabel : String} {specTransition : Transition}
    {tpLoc : Location} (member : specTransition ∈ spec.outOf label)
    (tpFound : tp.getLocation tpLabel = some tpLoc) (move : ProductMove)
    (isMove : move = ⟨specTransition, tpLabel, none⟩) (log : List ProductMove) :
    syncAlone spec recurse move.source.label (move.actionIn initial) specTransition tpLoc
        (located initial log move.source) =
      built initial (visitMove spec tp initial.clocks depth log move) := by
  have target : pairLabel specTransition.target tpLoc.label = move.target.label := by
    rw [product.tpWellFormed.label_eq tpFound, isMove]
    rfl
  have dataGuard : specTransition.dataGuard = move.dataGuard := by rw [isMove]; rfl
  have clockGuard : specTransition.clockGuard = move.clockGuard := by rw [isMove]; rfl
  have looked := getTransition_build spec tp product.setUp log move
    (ProductMove.actionIn_name initial move)
  simp only [syncAlone]
  rw [target, dataGuard, clockGuard, getTransition_located]
  cases known : (productSearch spec tp initial.clocks).seen log move with
  | true =>
      rw [known, Option.isSome_iff_exists] at looked
      obtain ⟨transition, found⟩ := looked
      rw [found, located_of_seen product.setUp known, visitMove, if_pos known]
      rfl
  | false =>
      have missing : (build initial log).getTransition move.source.label move.dataGuard
          move.clockGuard (move.actionIn initial) move.target.label = none := by
        rw [known] at looked
        simpa using looked
      obtain ⟨nextLoc, nextFound⟩ := (TIOSTS.isRegistered_iff _ _).mp
        (product.specWellFormed.target_registered member)
      have clocks : ((located initial log move.source).addLocation
          (Location.new move.target.label false)).clocks = initial.clocks := by
        simp [located, build_clocks]
      have created := createTransition_located product.setUp log move
      rw [missing, TIOSTS.createTransitionFromText, ClockGuard.ofString_toString, clocks,
        deref_some, nextFound, deref_some, visitMove, known]
      subst isMove
      simp only [ok_bind]
      refine (congrArg (· >>= _) created).trans ?_
      rw [ok_bind]
      exact recursion _ nextFound tpFound

theorem syncTogether_build {label tpLabel : String} {specTransition : Transition}
    {tpTransition : Transition} (member : specTransition ∈ spec.outOf label)
    (tpMember : tpTransition ∈ tp.outOf tpLabel) (move : ProductMove)
    (isMove : move = ⟨specTransition, tpLabel, some tpTransition⟩)
    (log : List ProductMove) :
    syncTogether spec tp recurse move.source.label (move.actionIn initial) specTransition
        (located initial log move.source) tpTransition =
      built initial (visitMove spec tp initial.clocks depth log move) := by
  have target : pairLabel specTransition.target tpTransition.target = move.target.label := by
    rw [isMove]
    rfl
  have dataGuard : createDataGuard specTransition.dataGuard tpTransition.dataGuard =
      move.dataGuard := by rw [isMove]; rfl
  have clockGuard : createClockGuard specTransition.clockGuard tpTransition.clockGuard =
      move.clockGuard := by rw [isMove]; rfl
  have looked := getTransition_build spec tp product.setUp log move
    (ProductMove.actionIn_name initial move)
  simp only [syncTogether]
  rw [target, dataGuard, clockGuard, getTransition_located]
  cases known : (productSearch spec tp initial.clocks).seen log move with
  | true =>
      rw [known, Option.isSome_iff_exists] at looked
      obtain ⟨transition, found⟩ := looked
      rw [found, located_of_seen product.setUp known, visitMove, if_pos known]
      rfl
  | false =>
      have missing : (build initial log).getTransition move.source.label move.dataGuard
          move.clockGuard (move.actionIn initial) move.target.label = none := by
        rw [known] at looked
        simpa using looked
      obtain ⟨nextLoc, nextFound⟩ := (TIOSTS.isRegistered_iff _ _).mp
        (product.specWellFormed.target_registered member)
      obtain ⟨nextTpLoc, nextTpFound⟩ := (TIOSTS.isRegistered_iff _ _).mp
        (product.tpWellFormed.target_registered tpMember)
      have created := createTransition_located product.setUp log move
      rw [missing, nextFound, nextTpFound, deref_some, deref_some, visitMove, known]
      subst isMove
      refine (congrArg (· >>= _) created).trans ?_
      simp only [ok_bind]
      exact recursion _ nextFound nextTpFound

/-- The loop over the transitions of the test purpose, once the source is
registered. -/
theorem foldlM_syncTogether {label tpLabel : String} {specTransition : Transition}
    (member : specTransition ∈ spec.outOf label) {tpTransitions : List Transition}
    (tpMembers : ∀ tpTransition ∈ tpTransitions, tpTransition ∈ tp.outOf tpLabel)
    {log : List ProductMove} {action : Action}
    (actionEq : ∀ tpTransition, action =
      (⟨specTransition, tpLabel, tpTransition⟩ : ProductMove).actionIn initial)
    (registered : (build initial log).IsRegistered
      (pairLabel specTransition.source tpLabel)) :
    tpTransitions.foldlM
        (syncTogether spec tp recurse (pairLabel specTransition.source tpLabel) action
          specTransition) (build initial log) =
      built initial ((tpTransitions.map (fun tpTransition =>
        (⟨specTransition, tpLabel, some tpTransition⟩ : ProductMove))).foldlM
          (visitMove spec tp initial.clocks depth) log) := by
  induction tpTransitions generalizing log with
  | nil => rfl
  | cons first rest induction =>
      have step := syncTogether_build product recursion member (tpMembers first (by simp))
        ⟨specTransition, tpLabel, some first⟩ rfl log
      rw [located_eq_build registered, ← actionEq] at step
      rw [List.map_cons, List.foldlM_cons, List.foldlM_cons]
      refine (congrArg (· >>= _) step).trans ?_
      cases returned : visitMove spec tp initial.clocks depth log
          ⟨specTransition, tpLabel, some first⟩ with
      | none => rfl
      | some next =>
          exact induction (fun tpTransition inRest => tpMembers tpTransition (by simp [inRest]))
            (visitMove_registered product.setUp returned)

/-- One iteration of the outer loop deals with the moves of one transition of
the specification. -/
theorem syncTransition_build {label tpLabel : String} {specLoc tpLoc : Location}
    (specFound : spec.getLocation label = some specLoc)
    (tpFound : tp.getLocation tpLabel = some tpLoc) {specTransition : Transition}
    (member : specTransition ∈ spec.outOf label) (log : List ProductMove) :
    syncTransition spec tp recurse specLoc tpLoc (build initial log) specTransition =
      built initial ((movesOf tp tpLabel specTransition).foldlM
        (visitMove spec tp initial.clocks depth) log) := by
  have sourceEq : pairLabel specLoc.label tpLoc.label =
      pairLabel specTransition.source tpLabel := by
    rw [product.specWellFormed.label_eq specFound, product.tpWellFormed.label_eq tpFound,
      product.specWellFormed.source_eq member]
  have actionEq := actionIn_eq product ⟨specTransition, tpLabel, none⟩ member
  have candidates : getTransitionsByAction tpLoc specTransition.action =
      (tp.outOf tpLabel).filter (fun tpTransition =>
        tpTransition.action.equals specTransition.action) := by
    rw [TIOSTS.outOf_eq _ _ tpFound]
    rfl
  simp only [syncTransition]
  rw [build_getAction, actionEq, deref_some, ok_bind, sourceEq, candidates]
  unfold movesOf
  cases filtered : (tp.outOf tpLabel).filter (fun tpTransition =>
      tpTransition.action.equals specTransition.action) with
  | nil =>
      rw [List.length_nil, if_pos rfl, List.foldlM_cons]
      refine (syncAlone_build product recursion member tpFound
        ⟨specTransition, tpLabel, none⟩ rfl log).trans ?_
      cases visitMove spec tp initial.clocks depth log ⟨specTransition, tpLabel, none⟩ <;> rfl
  | cons first rest =>
      have tpMembers : ∀ tpTransition ∈ first :: rest, tpTransition ∈ tp.outOf tpLabel := by
        intro tpTransition inList
        rw [← filtered] at inList
        exact (List.mem_filter.mp inList).1
      have step := syncTogether_build product recursion member (tpMembers first (by simp))
        ⟨specTransition, tpLabel, some first⟩ rfl log
      rw [List.length_cons, if_neg (by omega), List.foldlM_cons]
      simp only [List.map_cons]
      rw [List.foldlM_cons]
      refine (congrArg (· >>= _) step).trans ?_
      cases returned : visitMove spec tp initial.clocks depth log
          ⟨specTransition, tpLabel, some first⟩ with
      | none => rfl
      | some next =>
          exact foldlM_syncTogether product recursion member
            (fun tpTransition inRest => tpMembers tpTransition (by simp [inRest]))
            (fun _ => rfl) (visitMove_registered product.setUp returned)

theorem foldlM_syncTransition {label tpLabel : String} {specLoc tpLoc : Location}
    (specFound : spec.getLocation label = some specLoc)
    (tpFound : tp.getLocation tpLabel = some tpLoc) {transitions : List Transition}
    (members : ∀ transition ∈ transitions, transition ∈ spec.outOf label)
    (log : List ProductMove) :
    transitions.foldlM (syncTransition spec tp recurse specLoc tpLoc) (build initial log) =
      built initial ((transitions.flatMap (movesOf tp tpLabel)).foldlM
        (visitMove spec tp initial.clocks depth) log) := by
  induction transitions generalizing log with
  | nil => rfl
  | cons first rest induction =>
      rw [List.foldlM_cons, List.flatMap_cons, List.foldlM_append]
      refine (congrArg (· >>= _) (syncTransition_build product recursion specFound tpFound
        (members first (by simp)) log)).trans ?_
      cases (movesOf tp tpLabel first).foldlM (visitMove spec tp initial.clocks depth) log with
      | none => rfl
      | some next =>
          exact induction (fun transition inRest => members transition (by simp [inRest])) next

end Steps

/-- The recursion of the tool is the search over pairs of locations. -/
theorem syncProduct_build (product : IsProductSetUp spec tp initial) (depth : Nat)
    {specLabel tpLabel : String} {specLoc tpLoc : Location}
    (specFound : spec.getLocation specLabel = some specLoc)
    (tpFound : tp.getLocation tpLabel = some tpLoc) (log : List ProductMove) :
    syncProduct spec tp depth specLoc tpLoc (build initial log) =
      built initial
        ((productSearch spec tp initial.clocks).visit depth ⟨specLabel, tpLabel⟩ log) := by
  induction depth generalizing specLabel tpLabel specLoc tpLoc log with
  | zero => rfl
  | succ depth induction =>
      have special : tpLoc.isSpecialLocation = isSpecialLabel tpLabel := by
        rw [Location.isSpecialLocation, product.tpWellFormed.label_eq tpFound]
        rfl
      have registered : tpLabel ∈ tp.locations :=
        (TIOSTS.isRegistered_iff tp tpLabel).mpr ⟨tpLoc, tpFound⟩
      rw [syncProduct, visit_succ, movesAt, special]
      cases isSpecialLabel tpLabel with
      | true => rfl
      | false =>
          simp only [Bool.false_eq_true, if_false, registered, not_true_eq_false, or_self]
          rw [TIOSTS.outOf_eq _ _ specFound]
          refine foldlM_syncTransition product ?_ specFound tpFound ?_ log
          · intro specLabel tpLabel specLoc tpLoc log specFound tpFound
            exact induction specFound tpFound log
          · intro transition member
            rwa [TIOSTS.outOf_eq _ _ specFound]

end Simulation

end Symbolrt
