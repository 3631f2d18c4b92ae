import Symbolrt.Lib.Loops
import Symbolrt.Compositions.Composition

/-!
# The interruption composition

The two models synchronise on every action that both declare with different types.  The
result keeps the transitions that touch no synchronising transition, merges the
synchronising ones, and then creates the others again with an end renamed, after looking
up the merged transitions in what has been created so far.
-/

namespace Symbolrt

namespace InterruptionComposition

abbrev createAssignments := SynchronousProduct.createAssignments

abbrev createDataGuard := SynchronousProduct.createDataGuard

abbrev createClockGuard := SynchronousProduct.createClockGuard

/-- The names that the two collections have with different types. -/
def intersectionActions (actions1 actions2 : List Action) : List String :=
  actions1.foldl (fun intersectionSet c1 => actions2.foldl (fun intersectionSet c2 =>
    if c1.name = c2.name ∧ c1.type ≠ c2.type ∧ c1.name ∉ intersectionSet then
      intersectionSet ++ [c1.name]
    else intersectionSet) intersectionSet) []

/-- The ends of the synchronising transitions of one model.  The source keeps those of
both models in one set of location objects. -/
def buildSynchronizationLocations (transitions : List Transition) (eSync : List String) :
    List String :=
  eSync.flatMap (fun actionSync => (transitions.filter
    (fun transition => transition.action.name = actionSync)).flatMap
      (fun transition => [transition.source, transition.target]))

/-- Output actions are compared with those the result already has. -/
def addOutputAction (outputActions : List Action) (action : Action) : List Action :=
  if outputActions.any (fun other => action.equals other) then outputActions
  else outputActions ++ [action]

/-- The declarations of the result. -/
def declare (tiosts1 tiosts2 : TIOSTS) (eSync : List String) : TIOSTS :=
  let result := TIOSTS.new (tiosts1.name ++ "*" ++ tiosts2.name)
  let result := tiosts1.internalActions.foldl (fun result action => result.addAction action)
    result
  let outputActions := (tiosts1.outputActions ++ tiosts2.outputActions).foldl
    addOutputAction []
  let result := outputActions.foldl (fun result action => result.addAction action) result
  let inputActions := (tiosts1.inputActions ++ tiosts2.inputActions).filter
    (fun action => action.name ∉ eSync)
  let result := inputActions.foldl (fun result action => result.addAction action) result
  { result with
    modelVariables := tiosts1.modelVariables ++ tiosts2.modelVariables
    actionParameters := tiosts1.actionParameters ++ tiosts2.actionParameters
    -- the clocks of the second model are left out
    clocks := tiosts1.clocks
    initialCondition := tiosts1.initialCondition }

/-- The transitions that touch no excluded location. -/
def keptTransitions (excludedLocations : List String) (transitions : List Transition) :
    List Transition :=
  transitions.filter (fun transition =>
    transition.source ∉ excludedLocations ∧ transition.target ∉ excludedLocations)

/-- The declarations of both models, their locations away from the synchronisations, and
the transitions between these. -/
def initializeResult (order : IterationOrder) (tiosts1 tiosts2 : TIOSTS)
    (eSync : List String) : Except Failure TIOSTS := do
  let result := declare tiosts1 tiosts2 eSync
  let transitions1 := tiosts1.getTransitions order
  let transitions2 := tiosts2.getTransitions order
  let excluded1 := buildSynchronizationLocations transitions1 eSync
  let excluded2 := buildSynchronizationLocations transitions2 eSync
  let result := (tiosts1.getLocations order).foldl (TIOSTS.addFirstLocation excluded1) result
  let result := (tiosts2.getLocations order).foldl (TIOSTS.addSecondLocation excluded2) result
  let result ← (keptTransitions excluded1 transitions1).foldlM TIOSTS.create result
  (keptTransitions excluded2 transitions2).foldlM TIOSTS.create result

/-- The transitions of the two models that synchronise on an action. -/
structure Point where
  actionSync : String
  t1Sync : Transition
  t2Sync : Transition
  deriving DecidableEq

/-- The first transition of either model on the action. -/
def findPoint (order : IterationOrder) (tiosts1 tiosts2 : TIOSTS) (actionSync : String) :
    Except Failure Point := do
  let t1Sync ← deref (recoverTransition (tiosts1.getTransitions order) actionSync)
  let t2Sync ← deref (recoverTransition (tiosts2.getTransitions order) actionSync)
  return ⟨actionSync, t1Sync, t2Sync⟩

namespace Point

variable (point : Point)

/-- The composed location the synchronised transition leaves. -/
def source : String := composedLabel point.t1Sync.source point.t2Sync.source

/-- The composed location the synchronised transition enters. -/
def target : String := composedLabel point.t1Sync.target point.t2Sync.target

/-- The action of the first model if it is an output, otherwise that of the second. -/
def side : Action :=
  if point.t1Sync.action.type = .output then point.t1Sync.action else point.t2Sync.action

/-- The guard, to which that of the transition entering the second model is added if it
leaves the initial location. -/
def dataGuard (tiosts2 : TIOSTS) (transitionl1 : Transition) : DataGuard :=
  let dataGuard := createDataGuard point.t1Sync.dataGuard point.t2Sync.dataGuard
  if tiosts2.isInitial transitionl1.source then
    createDataGuard dataGuard transitionl1.dataGuard
  else dataGuard

/-- The transition that takes the place of the two. -/
def syncTransition (dataGuard : DataGuard) (action : Action) : Transition where
  source := point.source
  dataGuard := dataGuard
  clockGuard := createClockGuard point.t1Sync.clockGuard point.t2Sync.clockGuard
  action := action
  dataAssignments :=
    createAssignments point.t1Sync.dataAssignments point.t2Sync.dataAssignments
  clockAssignments :=
    createAssignments point.t1Sync.clockAssignments point.t2Sync.clockAssignments
  deadline := .lazy
  target := point.target

end Point

/-- Merges the two transitions of a point. -/
def synchronize (tiosts2 : TIOSTS) (result : TIOSTS) (point : Point) :
    Except Failure TIOSTS := do
  let result := result.addLocation (Location.new point.source false)
  let result := result.addLocation (Location.new point.target false)
  let transitionl1 ← tiosts2.firstIn point.t2Sync.source
  let action ← result.recoverAction point.side
  -- the action is of no other transition of the result: what it keeps has no
  -- synchronising action
  let parameters := point.side.parameters
  let result := result.changeParameters action parameters
  result.create (point.syncTransition (point.dataGuard tiosts2 transitionl1)
    { action with parameters := parameters })

/-- A transition of the first model that touches a point.  The merged transition may not
be found, and is dereferenced where it is used. -/
def rewireFirst (point : Point) (tSync : Option Transition) (result : TIOSTS)
    (transition : Transition) : Except Failure TIOSTS := do
  if transition.target = point.t1Sync.source then
    let tSync ← deref tSync
    result.create { transition with target := tSync.source }
  else if transition.target = point.t1Sync.target then
    let tSync ← deref tSync
    result.create { transition with target := tSync.target }
  else if transition.source = point.t1Sync.target then
    let tSync ← deref tSync
    result.create { transition with source := tSync.target }
  else if transition.source = point.t1Sync.source then
    let tSync ← deref tSync
    result.create { transition with source := tSync.source }
  else return result

/-- The last transition of the result with the name of another one. -/
def recoverAgain (order : IterationOrder) (result : TIOSTS)
    (neighbour : Except Failure Transition) : Except Failure Transition := do
  let neighbour ← neighbour
  deref (recoverTransition (result.getTransitions order) neighbour.action.name)

/-- A transition of the second model that touches a point.  Its other end may be an
excluded location too, and is then guessed from the first transition of that location. -/
def rewireSecond (order : IterationOrder) (tiosts2 : TIOSTS) (excludedLocations : List String)
    (point : Point) (tSync : Option Transition) (result : TIOSTS) (transition : Transition) :
    Except Failure TIOSTS := do
  if transition.source = point.t2Sync.target then
    if transition.target ∉ excludedLocations then
      let tSync ← deref tSync
      result.create { transition with source := tSync.target }
    else
      let tTempSync ← recoverAgain order result (tiosts2.firstOut transition.target)
      let tSync ← deref tSync
      result.create { transition with source := tSync.target, target := tTempSync.source }
  else if transition.target = point.t2Sync.source then
    if transition.source ∉ excludedLocations then
      let tSync ← deref tSync
      result.create { transition with target := tSync.source }
    else
      let tTempSync ← recoverAgain order result (tiosts2.firstIn transition.source)
      let tSync ← deref tSync
      result.create { transition with source := tTempSync.target, target := tSync.source }
  else if transition.target = point.t2Sync.target then
    if transition.source ∉ excludedLocations then
      let tSync ← deref tSync
      result.create { transition with target := tSync.target }
    else
      let tTempSync ← recoverAgain order result (tiosts2.firstOut transition.source)
      let tSync ← deref tSync
      result.create { transition with source := tTempSync.source, target := tSync.source }
  else return result

/-- The transitions of the first model that do not synchronise. -/
def others1 (order : IterationOrder) (tiosts1 : TIOSTS) (eSync : List String) :
    List Transition :=
  (tiosts1.getTransitions order).filter (fun transition => transition.action.name ∉ eSync)

/-- The transitions of the second model that neither synchronise nor leave the initial
location. -/
def others2 (order : IterationOrder) (tiosts2 : TIOSTS) (eSync : List String) :
    List Transition :=
  (tiosts2.getTransitions order).filter (fun transition =>
    tiosts2.isInitial transition.source = false ∧ transition.action.name ∉ eSync)

/-- The ends of the second model's transitions that have been merged. -/
def excludedLocations (points : List Point) : List String :=
  points.flatMap (fun point => [point.t2Sync.source, point.t2Sync.target])

/-- The transitions that touch a point are created with the point's ends. -/
def rewire (order : IterationOrder) (tiosts1 tiosts2 : TIOSTS) (eSync excluded : List String)
    (result : TIOSTS) (point : Point) : Except Failure TIOSTS := do
  let tSync := recoverTransition (result.getTransitions order) point.actionSync
  let result ← (others1 order tiosts1 eSync).foldlM (rewireFirst point tSync) result
  (others2 order tiosts2 eSync).foldlM (rewireSecond order tiosts2 excluded point tSync) result

/-- First every point is synchronised, then the other transitions are attached to what
came out. -/
def sync (order : IterationOrder) (tiosts1 tiosts2 : TIOSTS) (eSync : List String)
    (result : TIOSTS) : Except Failure TIOSTS := do
  let result ← eSync.foldlM (fun result actionSync => do
    let point ← findPoint order tiosts1 tiosts2 actionSync
    synchronize tiosts2 result point) result
  -- every point has been found by now
  let points ← eSync.mapM (findPoint order tiosts1 tiosts2)
  points.foldlM (rewire order tiosts1 tiosts2 eSync (excludedLocations points)) result

/-- Works on clones, so that the operands keep their lists. -/
def interruptionComposition (order : IterationOrder) (model1 model2 : TIOSTS) :
    Except Failure TIOSTS := do
  let tiosts1 ← model1.clone order
  let tiosts2 ← model2.clone order
  let eSync := intersectionActions tiosts1.getActions tiosts2.getActions
  let result ← initializeResult order tiosts1 tiosts2 eSync
  sync order tiosts1 tiosts2 eSync result

/-- The copies of the two models and the points at which they synchronise. -/
structure Parts where
  tiosts1 : TIOSTS
  tiosts2 : TIOSTS
  points : List Point

namespace Parts

variable (parts : Parts)

/-- The actions both models declare. -/
def eSync : List String :=
  intersectionActions parts.tiosts1.getActions parts.tiosts2.getActions

/-- The result before its locations are added. -/
def declared : TIOSTS := declare parts.tiosts1 parts.tiosts2 parts.eSync

variable (order : IterationOrder)

/-- The locations of the first model at a synchronisation. -/
def excluded1 : List String :=
  buildSynchronizationLocations (parts.tiosts1.getTransitions order) parts.eSync

/-- The locations of the second model at a synchronisation. -/
def excluded2 : List String :=
  buildSynchronizationLocations (parts.tiosts2.getTransitions order) parts.eSync

/-- The result before its transitions are created. -/
def base : TIOSTS :=
  (parts.tiosts2.getLocations order).foldl (TIOSTS.addSecondLocation (parts.excluded2 order))
    ((parts.tiosts1.getLocations order).foldl
      (TIOSTS.addFirstLocation (parts.excluded1 order)) parts.declared)

/-- The transitions of the first model away from every synchronisation. -/
def kept1 : List Transition :=
  keptTransitions (parts.excluded1 order) (parts.tiosts1.getTransitions order)

/-- The transitions of the second model away from every synchronisation. -/
def kept2 : List Transition :=
  keptTransitions (parts.excluded2 order) (parts.tiosts2.getTransitions order)

/-- The transitions of the first model that the composition attaches. -/
def others1 : List Transition :=
  InterruptionComposition.others1 order parts.tiosts1 parts.eSync

/-- The transitions of the second model that the composition attaches. -/
def others2 : List Transition :=
  InterruptionComposition.others2 order parts.tiosts2 parts.eSync

/-- The guard of the merged transition of a point. -/
def guard (point : Point) : DataGuard :=
  match parts.tiosts2.inOf point.t2Sync.source with
  | [] => createDataGuard point.t1Sync.dataGuard point.t2Sync.dataGuard
  | transitionl1 :: _ => point.dataGuard parts.tiosts2 transitionl1

/-- The merged transition of a point. -/
def merged (point : Point) : Transition :=
  point.syncTransition (parts.guard point) point.side

end Parts

/-- The parts are those that the composition of the two models finds. -/
structure IsParts (order : IterationOrder) (model1 model2 : TIOSTS) (parts : Parts) : Prop where
  copy1 : model1.clone order = .ok parts.tiosts1
  copy2 : model2.clone order = .ok parts.tiosts2
  points : parts.eSync.mapM (findPoint order parts.tiosts1 parts.tiosts2) = .ok parts.points

/-- The search for the parts of a composition. -/
def findParts (order : IterationOrder) (model1 model2 : TIOSTS) : Except Failure Parts := do
  let tiosts1 ← model1.clone order
  let tiosts2 ← model2.clone order
  let eSync := intersectionActions tiosts1.getActions tiosts2.getActions
  let points ← eSync.mapM (findPoint order tiosts1 tiosts2)
  return ⟨tiosts1, tiosts2, points⟩

section Runs

variable {order : IterationOrder} {model1 model2 : TIOSTS}

theorem isParts_of_findParts {parts : Parts}
    (found : findParts order model1 model2 = .ok parts) :
    IsParts order model1 model2 parts := by
  rw [findParts] at found
  obtain ⟨tiosts1, copy1, found⟩ := bind_eq_ok.mp found
  obtain ⟨tiosts2, copy2, found⟩ := bind_eq_ok.mp found
  obtain ⟨points, all, found⟩ := bind_eq_ok.mp found
  obtain rfl := Except.ok.inj found
  exact ⟨copy1, copy2, all⟩

/-- The composition keeps, merges and rewires. -/
theorem interruptionComposition_eq {parts : Parts}
    (isParts : IsParts order model1 model2 parts) :
    interruptionComposition order model1 model2 =
      ((parts.kept1 order ++ parts.kept2 order).foldlM TIOSTS.create (parts.base order) >>=
        fun result => parts.points.foldlM (synchronize parts.tiosts2) result >>=
          fun result => parts.points.foldlM (rewire order parts.tiosts1 parts.tiosts2
            parts.eSync (excludedLocations parts.points)) result) := by
  have initialized : initializeResult order parts.tiosts1 parts.tiosts2 parts.eSync =
      (parts.kept1 order ++ parts.kept2 order).foldlM TIOSTS.create (parts.base order) := by
    rw [List.foldlM_append]
    rfl
  have synchronized (result : TIOSTS) :
      sync order parts.tiosts1 parts.tiosts2 parts.eSync result =
        (parts.points.foldlM (synchronize parts.tiosts2) result >>= fun result =>
          parts.points.foldlM (rewire order parts.tiosts1 parts.tiosts2 parts.eSync
            (excludedLocations parts.points)) result) := by
    have loop : parts.eSync.foldlM (fun result actionSync =>
        findPoint order parts.tiosts1 parts.tiosts2 actionSync >>=
          synchronize parts.tiosts2 result) result =
        parts.points.foldlM (synchronize parts.tiosts2) result :=
      Loops.foldlM_mapM isParts.points result
    rw [sync, isParts.points]
    exact congrArg (fun outcome : Except Failure TIOSTS => outcome >>= _) loop
  rw [interruptionComposition, isParts.copy1, ok_bind, isParts.copy2, ok_bind]
  change (initializeResult order parts.tiosts1 parts.tiosts2 parts.eSync >>= fun result =>
    sync order parts.tiosts1 parts.tiosts2 parts.eSync result) = _
  rw [initialized]
  simp only [synchronized]

/-- A composition that returns has found its parts. -/
theorem exists_parts {result : TIOSTS}
    (returned : interruptionComposition order model1 model2 = .ok result) :
    ∃ parts, IsParts order model1 model2 parts := by
  rw [interruptionComposition] at returned
  obtain ⟨tiosts1, copy1, returned⟩ := bind_eq_ok.mp returned
  obtain ⟨tiosts2, copy2, returned⟩ := bind_eq_ok.mp returned
  obtain ⟨initialized, _, returned⟩ := bind_eq_ok.mp returned
  obtain ⟨synchronized, ran, _⟩ := bind_eq_ok.mp returned
  obtain ⟨points, all⟩ := Loops.exists_mapM ran
  exact ⟨⟨tiosts1, tiosts2, points⟩, ⟨copy1, copy2, all⟩⟩

end Runs

end InterruptionComposition

end Symbolrt
