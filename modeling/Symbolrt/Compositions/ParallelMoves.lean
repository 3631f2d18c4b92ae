import Symbolrt.Compositions.ParallelComposition
import Symbolrt.Lib.MarkedSearch

/-!
# The moves of a parallel composition

The recursion is a depth-first search over pairs of locations whose marks are the visited
pairs.  What creates a transition of the composition is a move of the search.
-/

namespace Symbolrt

namespace ParallelComposition

/-- A move of one model, or of both, at a pair of locations. -/
inductive Move where
  | first (loc1 loc2 : String) (t1 : Transition)
  | second (loc1 loc2 : String) (t2 : Transition)
  | both (loc1 loc2 : String) (t1 t2 : Transition)
  deriving DecidableEq

namespace Move

def source : Move → String × String
  | .first loc1 loc2 _ => (loc1, loc2)
  | .second loc1 loc2 _ => (loc1, loc2)
  | .both loc1 loc2 _ _ => (loc1, loc2)

/-- The model that does not move stays where it is. -/
def target : Move → String × String
  | .first _ loc2 t1 => (t1.target, loc2)
  | .second loc1 _ t2 => (loc1, t2.target)
  | .both _ _ t1 t2 => (t1.target, t2.target)

/-- Creates the transition of the move. -/
def create (pc : TIOSTS) : Move → Except Failure TIOSTS
  | .first loc1 loc2 t1 => createFirst loc1 loc2 t1 pc
  | .second loc1 loc2 t2 => createSecond loc1 loc2 t2 pc
  | .both loc1 loc2 t1 t2 => createBoth loc1 loc2 t1 t2 pc

end Move

/-- The label of the composed location. -/
def pairLabel (pair : String × String) : String := composedLabel pair.1 pair.2

section Moves

variable (tiosts1 tiosts2 : TIOSTS) (actionsT1 actionsT2 : List String)

/-- The moves made for two transitions, in their order. -/
def movesOf (loc1 loc2 : String) (t1 t2 : Transition) : List Move :=
  (if t1.action.name ∈ actionsT1 then [.first loc1 loc2 t1] else []) ++
    ((if t2.action.name ∈ actionsT2 then [.second loc1 loc2 t2] else []) ++
      (if canSynchronize t1.action t2.action then [.both loc1 loc2 t1 t2] else []))

/-- The moves of a pair in the order of the two loops. A move is repeated for each
transition of the other model it is met with. -/
def moves (pair : String × String) : List Move :=
  (tiosts1.outOf pair.1).flatMap fun t1 =>
    (tiosts2.outOf pair.2).flatMap fun t2 => movesOf actionsT1 actionsT2 pair.1 pair.2 t1 t2

/-- The composition as a search with visited pairs, told apart by their texts. -/
def search : MarkedSearch (String × String) Move String TIOSTS Failure where
  moves := moves tiosts1 tiosts2 actionsT1 actionsT2
  target := Move.target
  key := fun pair => visitedKey pair.1 pair.2
  take := Move.create
  cutOff := .depthExceeded

end Moves

/-- The outcome and the visited pairs after it. -/
def Visits.outcome {α : Type} (visits : Visits α) (visited : List String) :
    Except Failure α × List String :=
  StateT.run (ExceptT.run visits) visited

namespace Visits

variable {α β : Type} (visits : Visits α) (next : α → Visits β) (visited : List String)

theorem exists_returned {value : α} (returned : (visits.outcome visited).1 = .ok value) :
    ∃ after, visits.outcome visited = (.ok value, after) := by
  cases outcome : visits.outcome visited with
  | mk result after =>
      rw [outcome] at returned
      exact ⟨after, congrArg (fun result => (result, after)) returned⟩

theorem outcome_bind : (visits >>= next).outcome visited =
    match visits.outcome visited with
    | (.error failure, visited) => (.error failure, visited)
    | (.ok value, visited) => (next value).outcome visited := by
  cases left : visits.outcome visited with
  | mk result after =>
      change StateT.run (ExceptT.run (visits >>= next)) visited = _
      rw [outcome] at left
      rw [ExceptT.run_bind, StateT.run_bind, left]
      cases result <;> rfl

theorem outcome_lift (result : Except Failure α) :
    (liftM result : Visits α).outcome visited = (result, visited) := by
  cases result <;> rfl

theorem outcome_throw (failure : Failure) :
    (throw failure : Visits α).outcome visited = (.error failure, visited) := rfl

end Visits

theorem isVisited_outcome (loc1 loc2 : String) (visited : List String) :
    (isVisited loc1 loc2).outcome visited =
      if visitedKey loc1 loc2 ∈ visited then (.ok true, visited)
      else (.ok false, visited ++ [visitedKey loc1 loc2]) := by
  have looked : (get : Visits (List String)).outcome visited = (.ok visited, visited) := rfl
  rw [isVisited, Visits.outcome_bind, looked]
  by_cases seen : visitedKey loc1 loc2 ∈ visited
  · rw [if_pos seen]
    simp only [seen, if_true]
    rfl
  · rw [if_neg seen]
    simp only [seen, if_false]
    rfl

section Recursion

variable {tiosts1 tiosts2 : TIOSTS} {actionsT1 actionsT2 : List String}

variable (tiosts1 tiosts2 actionsT1 actionsT2) in
/-- Creating a transition and going on from its target is following a move. -/
theorem create_outcome (recursion : String → String → TIOSTS → Visits TIOSTS) (move : Move)
    (condition : Prop) [Decidable condition] (pc : TIOSTS) (visited : List String) :
    (if condition then do
        let pc ← move.create pc
        recursion move.target.1 move.target.2 pc
      else pure pc : Visits TIOSTS).outcome visited =
      (search tiosts1 tiosts2 actionsT1 actionsT2).follow
        (fun pair pc => (recursion pair.1 pair.2 pc).outcome)
        (if condition then [move] else []) pc visited := by
  by_cases holds : condition
  · rw [if_pos holds, if_pos holds, Visits.outcome_bind, Visits.outcome_lift]
    have taken : (search tiosts1 tiosts2 actionsT1 actionsT2).take pc move =
        move.create pc := rfl
    rw [MarkedSearch.follow, taken]
    cases move.create pc with
    | error failure => rfl
    | ok next =>
        have target : (search tiosts1 tiosts2 actionsT1 actionsT2).target move =
            move.target := rfl
        simp only [target]
        cases (recursion move.target.1 move.target.2 next).outcome visited with
        | mk result after => cases result <;> rfl
  · rw [if_neg holds, if_neg holds]
    rfl

theorem composeTransitions_outcome (recursion : String → String → TIOSTS → Visits TIOSTS)
    (loc1 loc2 : String) (t1 t2 : Transition) (pc : TIOSTS) (visited : List String) :
    (composeTransitions actionsT1 actionsT2 recursion loc1 loc2 t1 t2 pc).outcome visited =
      (search tiosts1 tiosts2 actionsT1 actionsT2).follow
        (fun pair pc => (recursion pair.1 pair.2 pc).outcome)
        (movesOf actionsT1 actionsT2 loc1 loc2 t1 t2) pc visited := by
  have first := create_outcome tiosts1 tiosts2 actionsT1 actionsT2 recursion
    (.first loc1 loc2 t1) (t1.action.name ∈ actionsT1)
  have second := create_outcome tiosts1 tiosts2 actionsT1 actionsT2 recursion
    (.second loc1 loc2 t2) (t2.action.name ∈ actionsT2)
  have third := create_outcome tiosts1 tiosts2 actionsT1 actionsT2 recursion
    (.both loc1 loc2 t1 t2) (canSynchronize t1.action t2.action)
  simp only [Move.create, Move.target] at first second third
  rw [movesOf, MarkedSearch.follow_append, composeTransitions, Visits.outcome_bind, first]
  cases (search tiosts1 tiosts2 actionsT1 actionsT2).follow _
      (if t1.action.name ∈ actionsT1 then [Move.first loc1 loc2 t1] else []) pc visited with
  | mk result after =>
      cases result with
      | error failure => rfl
      | ok left =>
          simp only
          rw [MarkedSearch.follow_append, Visits.outcome_bind, second]
          cases (search tiosts1 tiosts2 actionsT1 actionsT2).follow _
              (if t2.action.name ∈ actionsT2 then [Move.second loc1 loc2 t2] else [])
                left after with
          | mk result later =>
              cases result with
              | error failure => rfl
              | ok both => exact third both later

/-- A loop each of whose rounds follows some moves follows all of them. -/
theorem foldlM_outcome {Item : Type} {body : TIOSTS → Item → Visits TIOSTS}
    {movesFor : Item → List Move}
    {enter : String × String → TIOSTS → List String → Except Failure TIOSTS × List String}
    (round : ∀ pc item visited, (body pc item).outcome visited =
      (search tiosts1 tiosts2 actionsT1 actionsT2).follow enter (movesFor item) pc visited)
    (items : List Item) (pc : TIOSTS) (visited : List String) :
    (items.foldlM body pc).outcome visited =
      (search tiosts1 tiosts2 actionsT1 actionsT2).follow enter (items.flatMap movesFor) pc
        visited := by
  induction items generalizing pc visited with
  | nil => rfl
  | cons item rest induction =>
      rw [List.foldlM_cons, Visits.outcome_bind, round, List.flatMap_cons,
        MarkedSearch.follow_append]
      cases (search tiosts1 tiosts2 actionsT1 actionsT2).follow enter (movesFor item) pc
          visited with
      | mk result after =>
          cases result with
          | error failure => rfl
          | ok left => exact induction left after

theorem parComposition_outcome (depth : Nat) (loc1 loc2 : String) (pc : TIOSTS)
    (visited : List String) :
    (parComposition tiosts1 tiosts2 actionsT1 actionsT2 depth loc1 loc2 pc).outcome visited =
      (search tiosts1 tiosts2 actionsT1 actionsT2).visit depth (loc1, loc2) pc visited := by
  induction depth generalizing loc1 loc2 pc visited with
  | zero => rfl
  | succ depth induction =>
      have enter : (fun (pair : String × String) pc => (parComposition tiosts1 tiosts2
          actionsT1 actionsT2 depth pair.1 pair.2 pc).outcome) =
            (search tiosts1 tiosts2 actionsT1 actionsT2).visit depth := by
        funext pair pc visited
        exact induction pair.1 pair.2 pc visited
      rw [parComposition, Visits.outcome_bind, isVisited_outcome]
      by_cases seen : visitedKey loc1 loc2 ∈ visited
      · rw [if_pos seen, MarkedSearch.visit_marked]
        · rfl
        · exact seen
      · rw [if_neg seen, MarkedSearch.visit_fresh]
        · simp only [Bool.false_eq_true, if_false]
          rw [← enter]
          apply foldlM_outcome
          intro pc t1 visited
          apply foldlM_outcome
          intro pc t2 visited
          exact composeTransitions_outcome _ _ _ _ _ _ _
        · exact seen

end Recursion

end ParallelComposition

end Symbolrt
