import Mathlib.Data.Finset.Card
import Mathlib.Data.List.Flatten
import Mathlib.Logic.Relation

/-!
# Depth-first search with marks

The search marks the key of every node it enters and enters no node whose key is
marked.  Following a move changes a state and may throw an exception; the marks
outlive an exception, the state does not.
-/

structure MarkedSearch (Node Move Key State Failure : Type) where
  moves : Node → List Move
  target : Move → Node
  key : Node → Key
  take : State → Move → Except Failure State
  cutOff : Failure

namespace MarkedSearch

variable {Node Move Key State Failure : Type} [DecidableEq Key]
variable (search : MarkedSearch Node Move Key State Failure)

/-- Follows the moves one after the other and enters the target of each. -/
def follow (enter : Node → State → List Key → Except Failure State × List Key) :
    List Move → State → List Key → Except Failure State × List Key
  | [], state, marked => (.ok state, marked)
  | move :: rest, state, marked =>
      match search.take state move with
      | .error failure => (.error failure, marked)
      | .ok taken =>
          match enter (search.target move) taken marked with
          | (.error failure, marked) => (.error failure, marked)
          | (.ok left, marked) => follow enter rest left marked

/-- The recursion, cut off at the given depth. -/
def visit : Nat → Node → State → List Key → Except Failure State × List Key
  | 0, _, _, marked => (.error search.cutOff, marked)
  | depth + 1, node, state, marked =>
      if search.key node ∈ marked then (.ok state, marked)
      else search.follow (visit depth) (search.moves node) state (marked ++ [search.key node])

omit [DecidableEq Key] in
theorem follow_append (enter : Node → State → List Key → Except Failure State × List Key)
    (moves others : List Move) (state : State) (marked : List Key) :
    search.follow enter (moves ++ others) state marked =
      match search.follow enter moves state marked with
      | (.error failure, marked) => (.error failure, marked)
      | (.ok left, marked) => search.follow enter others left marked := by
  induction moves generalizing state marked with
  | nil => rfl
  | cons move rest induction =>
      simp only [List.cons_append, follow]
      cases search.take state move with
      | error failure => rfl
      | ok taken =>
          simp only
          cases entered : enter (search.target move) taken marked with
          | mk result after =>
              cases result with
              | error failure => rfl
              | ok left => exact induction left after

/-- `Explores moves state marked followed entered result`: working through `moves` follows
the moves `followed`, enters the nodes `entered` and ends with `result`. -/
inductive Explores : List Move → State → List Key → List Move → List Node →
    Except Failure State → Prop where
  | done (state : State) (marked : List Key) : Explores [] state marked [] [] (.ok state)
  | throws {move : Move} {rest : List Move} {state : State} {marked : List Key}
      {failure : Failure} :
      search.take state move = .error failure →
      Explores (move :: rest) state marked [] [] (.error failure)
  | known {move : Move} {rest followed : List Move} {state taken : State}
      {marked : List Key} {entered : List Node} {result : Except Failure State} :
      search.take state move = .ok taken →
      search.key (search.target move) ∈ marked →
      Explores rest taken marked followed entered result →
      Explores (move :: rest) state marked (move :: followed) entered result
  | enters {move : Move} {rest inner followed : List Move} {state taken left : State}
      {marked : List Key} {innerEntered entered : List Node}
      {result : Except Failure State} :
      search.take state move = .ok taken →
      search.key (search.target move) ∉ marked →
      Explores (search.moves (search.target move)) taken
        (marked ++ [search.key (search.target move)]) inner innerEntered (.ok left) →
      Explores rest left (marked ++ (search.target move :: innerEntered).map search.key)
        followed entered result →
      Explores (move :: rest) state marked (move :: (inner ++ followed))
        (search.target move :: (innerEntered ++ entered)) result
  | aborts {move : Move} {rest inner : List Move} {state taken : State}
      {marked : List Key} {innerEntered : List Node} {failure : Failure} :
      search.take state move = .ok taken →
      search.key (search.target move) ∉ marked →
      Explores (search.moves (search.target move)) taken
        (marked ++ [search.key (search.target move)]) inner innerEntered (.error failure) →
      Explores (move :: rest) state marked (move :: inner)
        (search.target move :: innerEntered) (.error failure)

def Step (node next : Node) : Prop := ∃ move ∈ search.moves node, search.target move = next

def Reaches : Node → Node → Prop := Relation.ReflTransGen search.Step

/-- A node is reached without passing marked ones behind the first. -/
def ReachesUnmarked (marked : List Key) : Node → Node → Prop :=
  Relation.ReflTransGen (fun node next => search.Step node next ∧ search.key next ∉ marked)

variable {search}

theorem visit_marked {node : Node} {marked : List Key} (isMarked : search.key node ∈ marked)
    (depth : Nat) (state : State) :
    search.visit (depth + 1) node state marked = (.ok state, marked) := by
  rw [visit, if_pos isMarked]

theorem visit_fresh {node : Node} {marked : List Key} (fresh : search.key node ∉ marked)
    (depth : Nat) (state : State) :
    search.visit (depth + 1) node state marked =
      search.follow (search.visit depth) (search.moves node) state
        (marked ++ [search.key node]) := by
  rw [visit, if_neg fresh]

theorem Explores.follow_eventually {moves followed : List Move} {state : State}
    {marked : List Key} {entered : List Node} {result : Except Failure State}
    (explores : search.Explores moves state marked followed entered result) :
    ∃ bound, ∀ depth, bound ≤ depth →
      search.follow (search.visit depth) moves state marked =
        (result, marked ++ entered.map search.key) := by
  induction explores with
  | done state marked =>
      refine ⟨0, fun depth _ => ?_⟩
      simp [follow]
  | throws failed =>
      refine ⟨0, fun depth _ => ?_⟩
      simp [follow, failed]
  | known taken isMarked _ induction =>
      obtain ⟨bound, later⟩ := induction
      refine ⟨bound + 1, fun depth enough => ?_⟩
      obtain ⟨smaller, rfl⟩ : ∃ smaller, depth = smaller + 1 := ⟨depth - 1, by omega⟩
      simp only [follow, taken, visit_marked isMarked]
      exact later (smaller + 1) (by omega)
  | enters taken fresh _ _ innerInduction restInduction =>
      obtain ⟨innerBound, inner⟩ := innerInduction
      obtain ⟨restBound, later⟩ := restInduction
      refine ⟨max (innerBound + 1) restBound, fun depth enough => ?_⟩
      obtain ⟨smaller, rfl⟩ : ∃ smaller, depth = smaller + 1 :=
        ⟨depth - 1, by have := le_trans (le_max_left _ _) enough; omega⟩
      have innerEnough : innerBound ≤ smaller := by
        have := le_trans (le_max_left _ _) enough
        omega
      simp only [follow, taken, visit_fresh fresh, inner smaller innerEnough]
      have rest := later (smaller + 1) (le_trans (le_max_right _ _) enough)
      simpa using rest
  | aborts taken fresh _ innerInduction =>
      obtain ⟨innerBound, inner⟩ := innerInduction
      refine ⟨innerBound + 1, fun depth enough => ?_⟩
      obtain ⟨smaller, rfl⟩ : ∃ smaller, depth = smaller + 1 := ⟨depth - 1, by omega⟩
      simp [follow, taken, visit_fresh fresh, inner smaller (by omega)]

/-- An outcome that was not cut off is the outcome of the search. -/
theorem explores_of_follow {depth : Nat} {moves : List Move} {state : State}
    {marked after : List Key} {result : Except Failure State}
    (outcome : search.follow (search.visit depth) moves state marked = (result, after))
    (notCut : result ≠ .error search.cutOff) :
    ∃ followed entered, search.Explores moves state marked followed entered result ∧
      after = marked ++ entered.map search.key := by
  induction depth generalizing moves state marked after result with
  | zero =>
      cases moves with
      | nil =>
          cases outcome
          exact ⟨[], [], .done _ _, by simp⟩
      | cons move rest =>
          rw [follow] at outcome
          cases taken : search.take state move with
          | error failure =>
              rw [taken] at outcome
              cases outcome
              exact ⟨[], [], .throws taken, by simp⟩
          | ok next =>
              simp only [taken, visit] at outcome
              cases outcome
              exact absurd rfl notCut
  | succ depth induction =>
      induction moves generalizing state marked with
      | nil =>
          cases outcome
          exact ⟨[], [], .done _ _, by simp⟩
      | cons move rest restInduction =>
          rw [follow] at outcome
          cases taken : search.take state move with
          | error failure =>
              rw [taken] at outcome
              cases outcome
              exact ⟨[], [], .throws taken, by simp⟩
          | ok next =>
              by_cases isMarked : search.key (search.target move) ∈ marked
              · simp only [taken, visit_marked isMarked] at outcome
                obtain ⟨followed, entered, explores, rfl⟩ := restInduction outcome
                exact ⟨_, _, .known taken isMarked explores, rfl⟩
              · simp only [taken, visit_fresh isMarked] at outcome
                cases innerOutcome : search.follow (search.visit depth)
                    (search.moves (search.target move)) next
                    (marked ++ [search.key (search.target move)]) with
                | mk innerResult innerMarked =>
                    rw [innerOutcome] at outcome
                    cases innerResult with
                    | error failure =>
                        cases outcome
                        obtain ⟨followed, entered, explores, rfl⟩ :=
                          induction innerOutcome notCut
                        exact ⟨_, _, .aborts taken isMarked explores, by simp⟩
                    | ok left =>
                        obtain ⟨inner, innerEntered, explores, rfl⟩ :=
                          induction innerOutcome (by intro same; cases same)
                        have same : marked ++ [search.key (search.target move)] ++
                            innerEntered.map search.key =
                            marked ++ (search.target move :: innerEntered).map search.key := by
                          simp
                        simp only [same] at outcome
                        obtain ⟨followed, entered, later, rfl⟩ := restInduction outcome
                        exact ⟨_, _, .enters taken isMarked explores later, by simp⟩

/-- With finitely many keys the search ends. -/
theorem exists_explores (inside : Node → Prop) (keys : Finset Key)
    (closed : ∀ node, inside node → ∀ move ∈ search.moves node, inside (search.target move))
    (bounded : ∀ node, inside node → search.key node ∈ keys) {moves : List Move}
    (start : ∀ move ∈ moves, inside (search.target move)) (state : State)
    (marked : List Key) :
    ∃ followed entered result,
      search.Explores moves state marked followed entered result := by
  generalize free : (keys.filter (fun key => key ∉ marked)).card = count
  have enough : (keys.filter (fun key => key ∉ marked)).card ≤ count := le_of_eq free
  clear free
  induction count using Nat.strong_induction_on generalizing moves state marked with
  | _ count induction =>
      induction moves generalizing state marked with
      | nil => exact ⟨[], [], .ok state, .done _ _⟩
      | cons move rest restInduction =>
          have restStart : ∀ other ∈ rest, inside (search.target other) :=
            fun other member => start other (List.mem_cons_of_mem _ member)
          have target := start move List.mem_cons_self
          cases taken : search.take state move with
          | error failure => exact ⟨[], [], .error failure, .throws taken⟩
          | ok next =>
              by_cases isMarked : search.key (search.target move) ∈ marked
              · obtain ⟨followed, entered, result, explores⟩ :=
                  restInduction restStart next marked enough
                exact ⟨_, _, _, .known taken isMarked explores⟩
              · have fewer : (keys.filter (fun key =>
                    key ∉ marked ++ [search.key (search.target move)])).card <
                    (keys.filter (fun key => key ∉ marked)).card := by
                  apply Finset.card_lt_card
                  rw [Finset.ssubset_iff_of_subset]
                  · refine ⟨search.key (search.target move), ?_, ?_⟩
                    · exact Finset.mem_filter.mpr ⟨bounded _ target, isMarked⟩
                    · simp
                  · intro key member
                    have kept := Finset.mem_filter.mp member
                    refine Finset.mem_filter.mpr ⟨kept.1, fun old => kept.2 ?_⟩
                    exact List.mem_append_left _ old
                obtain ⟨inner, innerEntered, innerResult, innerExplores⟩ :=
                  induction _ (lt_of_lt_of_le fewer enough)
                    (closed _ target) next _ le_rfl
                cases innerResult with
                | error failure => exact ⟨_, _, _, .aborts taken isMarked innerExplores⟩
                | ok left =>
                    have shrinks : (keys.filter (fun key => key ∉ marked ++
                        (search.target move :: innerEntered).map search.key)).card ≤ count := by
                      apply le_trans (Finset.card_le_card ?_) enough
                      intro key member
                      have kept := Finset.mem_filter.mp member
                      refine Finset.mem_filter.mpr ⟨kept.1, fun old => kept.2 ?_⟩
                      exact List.mem_append_left _ old
                    obtain ⟨followed, entered, result, explores⟩ :=
                      restInduction restStart left _ shrinks
                    exact ⟨_, _, _, .enters taken isMarked innerExplores explores⟩

section Explored

variable {moves followed : List Move} {state : State} {marked : List Key}
  {entered : List Node} {result : Except Failure State}

omit [DecidableEq Key] in
/-- The state is the one the followed moves lead to. -/
theorem Explores.state_eq
    (explores : search.Explores moves state marked followed entered result) :
    ∀ final, result = .ok final → followed.foldlM search.take state = .ok final := by
  induction explores with
  | done state marked =>
      intro final same
      cases same
      rfl
  | throws failed =>
      intro final same
      cases same
  | known taken _ _ induction =>
      intro final same
      rw [List.foldlM_cons, taken]
      exact induction final same
  | @enters move rest inner followed state next left _ _ _ _ taken _ _ _ innerInduction
      restInduction =>
      intro final same
      have whole : (inner ++ followed).foldlM search.take next = .ok final := by
        rw [List.foldlM_append, innerInduction left rfl]
        exact restInduction final same
      rw [List.foldlM_cons, taken]
      exact whole
  | aborts _ _ _ _ =>
      intro final same
      cases same

omit [DecidableEq Key] in
/-- A search that throws was about to follow a given move or a move of an entered node. -/
theorem Explores.error_eq
    (explores : search.Explores moves state marked followed entered result) :
    ∀ failure, result = .error failure → ∃ final move,
      followed.foldlM search.take state = .ok final ∧
        search.take final move = .error failure ∧
          (move ∈ moves ∨ ∃ node ∈ entered, move ∈ search.moves node) := by
  induction explores with
  | done state marked =>
      intro failure same
      cases same
  | @throws move rest state marked failed fails =>
      intro failure same
      cases same
      exact ⟨state, move, rfl, fails, Or.inl List.mem_cons_self⟩
  | @known move rest followed state next _ _ _ taken _ _ induction =>
      intro failure same
      obtain ⟨final, last, reached, fails, origin⟩ := induction failure same
      refine ⟨final, last, ?_, fails, ?_⟩
      · rw [List.foldlM_cons, taken]
        exact reached
      · rcases origin with inRest | atNode
        · exact Or.inl (List.mem_cons_of_mem _ inRest)
        · exact Or.inr atNode
  | @enters move rest inner followed state next left _ innerEntered entered _ taken _
      innerExplores _ _ restInduction =>
      intro failure same
      obtain ⟨final, last, reached, fails, origin⟩ := restInduction failure same
      refine ⟨final, last, ?_, fails, ?_⟩
      · have whole : (inner ++ followed).foldlM search.take next = .ok final := by
          rw [List.foldlM_append, innerExplores.state_eq left rfl]
          exact reached
        rw [List.foldlM_cons, taken]
        exact whole
      · rcases origin with inRest | ⟨node, inEntered, atNode⟩
        · exact Or.inl (List.mem_cons_of_mem _ inRest)
        · exact Or.inr ⟨node, List.mem_cons_of_mem _ (List.mem_append_right _ inEntered),
            atNode⟩
  | @aborts move rest inner state next _ _ _ taken _ _ innerInduction =>
      intro failure same
      cases same
      obtain ⟨final, last, reached, fails, origin⟩ := innerInduction _ rfl
      refine ⟨final, last, ?_, fails, Or.inr ?_⟩
      · rw [List.foldlM_cons, taken]
        exact reached
      · rcases origin with atTarget | ⟨node, inEntered, atNode⟩
        · exact ⟨_, List.mem_cons_self, atTarget⟩
        · exact ⟨node, List.mem_cons_of_mem _ inEntered, atNode⟩

omit [DecidableEq Key] in
/-- Only the given moves and moves of entered nodes are followed. -/
theorem Explores.sound
    (explores : search.Explores moves state marked followed entered result) :
    ∀ move ∈ followed, move ∈ moves ∨ ∃ node ∈ entered, move ∈ search.moves node := by
  induction explores with
  | done state marked =>
      intro move member
      cases member
  | throws failed =>
      intro move member
      cases member
  | known _ _ _ induction =>
      intro other member
      rcases List.mem_cons.mp member with rfl | later
      · exact Or.inl List.mem_cons_self
      · rcases induction other later with inRest | atNode
        · exact Or.inl (List.mem_cons_of_mem _ inRest)
        · exact Or.inr atNode
  | enters _ _ _ _ innerInduction restInduction =>
      intro other member
      rcases List.mem_cons.mp member with rfl | later
      · exact Or.inl List.mem_cons_self
      · rcases List.mem_append.mp later with inInner | inRest
        · rcases innerInduction other inInner with atTarget | ⟨node, inEntered, atNode⟩
          · exact Or.inr ⟨_, List.mem_cons_self, atTarget⟩
          · exact Or.inr ⟨node, List.mem_cons_of_mem _ (List.mem_append_left _ inEntered),
              atNode⟩
        · rcases restInduction other inRest with inMoves | ⟨node, inEntered, atNode⟩
          · exact Or.inl (List.mem_cons_of_mem _ inMoves)
          · exact Or.inr ⟨node, List.mem_cons_of_mem _ (List.mem_append_right _ inEntered),
              atNode⟩
  | aborts _ _ _ innerInduction =>
      intro other member
      rcases List.mem_cons.mp member with rfl | inInner
      · exact Or.inl List.mem_cons_self
      · rcases innerInduction other inInner with atTarget | ⟨node, inEntered, atNode⟩
        · exact Or.inr ⟨_, List.mem_cons_self, atTarget⟩
        · exact Or.inr ⟨node, List.mem_cons_of_mem _ inEntered, atNode⟩

omit [DecidableEq Key] in
/-- Every entered node is reached from the target of a given move. -/
theorem Explores.reached
    (explores : search.Explores moves state marked followed entered result) :
    ∀ node ∈ entered, ∃ move ∈ moves, search.Reaches (search.target move) node := by
  induction explores with
  | done state marked =>
      intro node member
      cases member
  | throws failed =>
      intro node member
      cases member
  | known _ _ _ induction =>
      intro node member
      obtain ⟨move, inRest, reaches⟩ := induction node member
      exact ⟨move, List.mem_cons_of_mem _ inRest, reaches⟩
  | enters _ _ _ _ innerInduction restInduction =>
      intro node member
      rcases List.mem_cons.mp member with rfl | later
      · exact ⟨_, List.mem_cons_self, .refl⟩
      · rcases List.mem_append.mp later with inInner | inRest
        · obtain ⟨move, atTarget, reaches⟩ := innerInduction node inInner
          exact ⟨_, List.mem_cons_self, .head ⟨move, atTarget, rfl⟩ reaches⟩
        · obtain ⟨move, inMoves, reaches⟩ := restInduction node inRest
          exact ⟨move, List.mem_cons_of_mem _ inMoves, reaches⟩
  | aborts _ _ _ innerInduction =>
      intro node member
      rcases List.mem_cons.mp member with rfl | inInner
      · exact ⟨_, List.mem_cons_self, .refl⟩
      · obtain ⟨move, atTarget, reaches⟩ := innerInduction node inInner
        exact ⟨_, List.mem_cons_self, .head ⟨move, atTarget, rfl⟩ reaches⟩

omit [DecidableEq Key] in
theorem ReachesUnmarked.of_append {more : List Key} {node next : Node}
    (reaches : search.ReachesUnmarked (marked ++ more) node next) :
    search.ReachesUnmarked marked node next :=
  Relation.ReflTransGen.mono
    (fun _ _ step => ⟨step.1, fun isMarked => step.2 (List.mem_append_left _ isMarked)⟩)
    node next reaches

omit [DecidableEq Key] in
/-- Every entered node is reached without passing nodes that were marked before. -/
theorem Explores.reached_unmarked
    (explores : search.Explores moves state marked followed entered result) :
    ∀ node ∈ entered, ∃ move ∈ moves, search.key (search.target move) ∉ marked ∧
      search.ReachesUnmarked marked (search.target move) node := by
  induction explores with
  | done state marked =>
      intro node member
      cases member
  | throws failed =>
      intro node member
      cases member
  | known _ _ _ induction =>
      intro node member
      obtain ⟨move, inRest, fresh, reaches⟩ := induction node member
      exact ⟨move, List.mem_cons_of_mem _ inRest, fresh, reaches⟩
  | enters _ fresh _ _ innerInduction restInduction =>
      intro node member
      rcases List.mem_cons.mp member with rfl | later
      · exact ⟨_, List.mem_cons_self, fresh, .refl⟩
      · rcases List.mem_append.mp later with inInner | inRest
        · obtain ⟨move, atTarget, innerFresh, reaches⟩ := innerInduction node inInner
          exact ⟨_, List.mem_cons_self, fresh, .head ⟨⟨move, atTarget, rfl⟩,
            fun isMarked => innerFresh (List.mem_append_left _ isMarked)⟩ reaches.of_append⟩
        · obtain ⟨move, inMoves, restFresh, reaches⟩ := restInduction node inRest
          exact ⟨move, List.mem_cons_of_mem _ inMoves,
            fun isMarked => restFresh (List.mem_append_left _ isMarked), reaches.of_append⟩
  | aborts _ fresh _ innerInduction =>
      intro node member
      rcases List.mem_cons.mp member with rfl | inInner
      · exact ⟨_, List.mem_cons_self, fresh, .refl⟩
      · obtain ⟨move, atTarget, innerFresh, reaches⟩ := innerInduction node inInner
        exact ⟨_, List.mem_cons_self, fresh, .head ⟨⟨move, atTarget, rfl⟩,
          fun isMarked => innerFresh (List.mem_append_left _ isMarked)⟩ reaches.of_append⟩

omit [DecidableEq Key] in
/-- No entered node was marked before. -/
theorem Explores.unmarked
    (explores : search.Explores moves state marked followed entered result) :
    ∀ node ∈ entered, search.key node ∉ marked := by
  induction explores with
  | done state marked =>
      intro node member
      cases member
  | throws failed =>
      intro node member
      cases member
  | known _ _ _ induction => exact induction
  | enters _ fresh _ _ innerInduction restInduction =>
      intro node member isMarked
      rcases List.mem_cons.mp member with rfl | later
      · exact fresh isMarked
      · rcases List.mem_append.mp later with inInner | inRest
        · exact innerInduction node inInner (List.mem_append_left _ isMarked)
        · exact restInduction node inRest (List.mem_append_left _ isMarked)
  | aborts _ fresh _ innerInduction =>
      intro node member isMarked
      rcases List.mem_cons.mp member with rfl | inInner
      · exact fresh isMarked
      · exact innerInduction node inInner (List.mem_append_left _ isMarked)

omit [DecidableEq Key] in
/-- No node is entered twice. -/
theorem Explores.distinct
    (explores : search.Explores moves state marked followed entered result) :
    (entered.map search.key).Nodup := by
  induction explores with
  | done state marked => exact List.nodup_nil
  | throws failed => exact List.nodup_nil
  | known _ _ _ induction => exact induction
  | @enters move rest inner followed _ _ _ marked innerEntered entered _ _ fresh innerExplores
      restExplores innerInduction restInduction =>
      rw [List.map_cons, List.map_append, List.nodup_cons]
      constructor
      · intro again
        obtain ⟨node, member, same⟩ := List.mem_map.mp (List.map_append ▸ again)
        rcases List.mem_append.mp member with inInner | inRest
        · apply innerExplores.unmarked node inInner
          rw [same]
          exact List.mem_append_right _ List.mem_cons_self
        · apply restExplores.unmarked node inRest
          rw [same]
          exact List.mem_append_right _ List.mem_cons_self
      · apply List.nodup_append.mpr
        refine ⟨innerInduction, restInduction, ?_⟩
        rintro one inInner other inRest rfl
        obtain ⟨node, member, rfl⟩ := List.mem_map.mp inRest
        apply restExplores.unmarked node member
        exact List.mem_append_right _ (List.mem_cons_of_mem _ inInner)
  | aborts _ fresh innerExplores innerInduction =>
      rw [List.map_cons, List.nodup_cons]
      refine ⟨?_, innerInduction⟩
      intro again
      obtain ⟨node, member, same⟩ := List.mem_map.mp again
      apply innerExplores.unmarked node member
      rw [same]
      exact List.mem_append_right _ List.mem_cons_self

omit [DecidableEq Key] in
/-- A search that returns has followed the given moves and all moves of the nodes it
entered, and has marked the targets of the moves it followed. -/
theorem Explores.covers
    (explores : search.Explores moves state marked followed entered result) :
    ∀ final, result = .ok final → (∀ move ∈ moves, move ∈ followed) ∧
      (∀ node ∈ entered, ∀ move ∈ search.moves node, move ∈ followed) ∧
      ∀ move ∈ followed,
        search.key (search.target move) ∈ marked ++ entered.map search.key := by
  induction explores with
  | done state marked =>
      intro final _
      refine ⟨?_, ?_, ?_⟩
      · intro move member
        cases member
      · intro node member
        cases member
      · intro move member
        cases member
  | throws failed =>
      intro final same
      cases same
  | known _ isMarked _ induction =>
      intro final same
      obtain ⟨given, atNodes, targets⟩ := induction final same
      refine ⟨?_, ?_, ?_⟩
      · intro other member
        rcases List.mem_cons.mp member with rfl | inRest
        · exact List.mem_cons_self
        · exact List.mem_cons_of_mem _ (given other inRest)
      · intro node inEntered other atNode
        exact List.mem_cons_of_mem _ (atNodes node inEntered other atNode)
      · intro other member
        rcases List.mem_cons.mp member with rfl | inFollowed
        · exact List.mem_append_left _ isMarked
        · exact targets other inFollowed
  | enters _ _ _ _ innerInduction restInduction =>
      intro final same
      obtain ⟨innerGiven, innerNodes, innerTargets⟩ := innerInduction _ rfl
      obtain ⟨given, atNodes, targets⟩ := restInduction final same
      refine ⟨?_, ?_, ?_⟩
      · intro other member
        rcases List.mem_cons.mp member with rfl | inRest
        · exact List.mem_cons_self
        · exact List.mem_cons_of_mem _ (List.mem_append_right _ (given other inRest))
      · intro node inEntered other atNode
        apply List.mem_cons_of_mem
        rcases List.mem_cons.mp inEntered with rfl | later
        · exact List.mem_append_left _ (innerGiven other atNode)
        · rcases List.mem_append.mp later with inInner | inRest
          · exact List.mem_append_left _ (innerNodes node inInner other atNode)
          · exact List.mem_append_right _ (atNodes node inRest other atNode)
      · intro other member
        rcases List.mem_cons.mp member with rfl | later
        · simp
        · rcases List.mem_append.mp later with inInner | inRest
          · have inMarks := innerTargets other inInner
            simp only [List.map_cons, List.map_append, List.mem_append, List.mem_cons,
              List.not_mem_nil, or_false] at inMarks ⊢
            tauto
          · have inMarks := targets other inRest
            simp only [List.map_cons, List.map_append, List.mem_append, List.mem_cons]
              at inMarks ⊢
            tauto
  | aborts _ _ _ _ =>
      intro final same
      cases same

omit [DecidableEq Key] in
/-- A search that returns follows the given moves and those of the entered nodes, each as
often as they are listed. -/
theorem Explores.followed_perm
    (explores : search.Explores moves state marked followed entered result) :
    ∀ final, result = .ok final → followed.Perm (moves ++ entered.flatMap search.moves) := by
  induction explores with
  | done state marked => exact fun _ _ => .refl _
  | throws failed =>
      intro final same
      cases same
  | known _ _ _ induction =>
      intro final same
      exact (induction final same).cons _
  | @enters move rest inner followed _ _ _ _ innerEntered entered _ _ _ _ _ innerInduction
      restInduction =>
      intro final same
      have here := innerInduction _ rfl
      have later := restInduction final same
      have swapped : (search.moves (search.target move) ++ innerEntered.flatMap search.moves ++
          (rest ++ entered.flatMap search.moves)).Perm
            (rest ++ (search.moves (search.target move) ++
              (innerEntered.flatMap search.moves ++ entered.flatMap search.moves))) := by
        rw [← List.append_assoc _ rest]
        apply (List.perm_append_comm.append_right _).trans
        rw [List.append_assoc, List.append_assoc]
      rw [List.flatMap_cons, List.flatMap_append]
      exact ((here.append later).trans swapped).cons _
  | aborts _ _ _ _ =>
      intro final same
      cases same

end Explored

section Root

variable {root : Node} {followed : List Move} {state final : State} {marked : List Key}
  {entered : List Node}

omit [DecidableEq Key] in
theorem Explores.all_reached
    (explores : search.Explores (search.moves root) state marked followed entered (.ok final)) :
    ∀ node ∈ root :: entered, search.Reaches root node := by
  intro node member
  rcases List.mem_cons.mp member with rfl | inEntered
  · exact .refl
  · obtain ⟨move, atRoot, later⟩ := explores.reached node inEntered
    exact .head ⟨move, atRoot, rfl⟩ later

omit [DecidableEq Key] in
/-- When no two reachable nodes share a key, a search enters every node that it can reach
without passing marked ones. -/
theorem Explores.enters_unmarked
    (injective : ∀ node other, search.Reaches root node → search.Reaches root other →
      search.key node = search.key other → node = other)
    (explores : search.Explores (search.moves root) state (marked ++ [search.key root]) followed
      entered (.ok final)) {node : Node} (reaches : search.ReachesUnmarked marked root node) :
    node ∈ root :: entered := by
  obtain ⟨given, atNodes, targets⟩ := explores.covers final rfl
  have reached := explores.all_reached
  induction reaches with
  | refl => exact List.mem_cons_self
  | @tail previous next before step induction =>
      obtain ⟨⟨move, atPrevious, rfl⟩, fresh⟩ := step
      have inFollowed : move ∈ followed := by
        rcases List.mem_cons.mp induction with rfl | inEntered
        · exact given move atPrevious
        · exact atNodes previous inEntered move atPrevious
      have isMarked : search.key (search.target move) ∈ (root :: entered).map search.key := by
        have known := targets move inFollowed
        rw [List.append_assoc] at known
        rcases List.mem_append.mp known with old | new
        · exact absurd old fresh
        · exact new
      obtain ⟨other, inEntered, same⟩ := List.mem_map.mp isMarked
      rw [← injective other (search.target move) (reached other inEntered)
        (.tail (reached previous induction) ⟨move, atPrevious, rfl⟩) same]
      exact inEntered

omit [DecidableEq Key] in
/-- When no two reachable nodes share a key, a search without marks enters every reachable
node. -/
theorem Explores.enters_reachable
    (injective : ∀ node other, search.Reaches root node → search.Reaches root other →
      search.key node = search.key other → node = other)
    (explores : search.Explores (search.moves root) state [search.key root] followed entered
      (.ok final)) {node : Node} (reaches : search.Reaches root node) :
    node ∈ root :: entered := by
  have whole : search.Explores (search.moves root) state ([] ++ [search.key root]) followed
      entered (.ok final) := explores
  exact whole.enters_unmarked injective
    (Relation.ReflTransGen.mono (fun _ _ step => ⟨step, List.not_mem_nil⟩) root node reaches)

omit [DecidableEq Key] in
theorem Explores.root_distinct {moves : List Move} {result : Except Failure State}
    (explores : search.Explores moves state marked followed entered result)
    (isMarked : search.key root ∈ marked) : (root :: entered).Nodup := by
  have keys : ((root :: entered).map search.key).Nodup := by
    rw [List.map_cons, List.nodup_cons]
    refine ⟨?_, explores.distinct⟩
    intro again
    obtain ⟨node, member, same⟩ := List.mem_map.mp again
    apply explores.unmarked node member
    rw [same]
    exact isMarked
  exact keys.of_map

omit [DecidableEq Key] in
/-- When no two reachable nodes share a key, a search from marks among which is a node with
moves follows fewer moves than one without marks. -/
theorem Explores.length_lt {other : List Move} {otherState otherFinal : State}
    {otherEntered : List Node}
    (injective : ∀ node other, search.Reaches root node → search.Reaches root other →
      search.key node = search.key other → node = other)
    (explores : search.Explores (search.moves root) state [search.key root] followed entered
      (.ok final))
    (marks : search.Explores (search.moves root) otherState (marked ++ [search.key root]) other
      otherEntered (.ok otherFinal))
    (rootFresh : search.key root ∉ marked) {node : Node} (reaches : search.Reaches root node)
    (isMarked : search.key node ∈ marked) (hasMoves : search.moves node ≠ []) :
    other.length < followed.length := by
  classical
  have notEntered : node ∉ root :: otherEntered := by
    intro member
    rcases List.mem_cons.mp member with rfl | later
    · exact rootFresh isMarked
    · exact marks.unmarked node later (List.mem_append_left _ isMarked)
  have among : (node :: root :: otherEntered) ⊆ root :: entered := by
    intro one member
    apply explores.enters_reachable injective
    rcases List.mem_cons.mp member with rfl | inOther
    · exact reaches
    · exact marks.all_reached one inOther
  obtain ⟨sorted, permutation, sublist⟩ := List.subperm_of_subset
    (List.nodup_cons.mpr ⟨notEntered, marks.root_distinct (by simp)⟩) among
  have whole : ((root :: entered).flatMap search.moves).length = followed.length :=
    (explores.followed_perm final rfl).length_eq.symm
  have part : ((root :: otherEntered).flatMap search.moves).length = other.length :=
    (marks.followed_perm otherFinal rfl).length_eq.symm
  have bounded := (sublist.flatMap search.moves).length_le
  rw [(permutation.flatMap_right search.moves).length_eq, List.flatMap_cons, List.length_append,
    part, whole] at bounded
  have positive := List.length_pos_of_ne_nil hasMoves
  omega

omit [DecidableEq Key] in
/-- When every move knows the node it leaves, a search without marks follows no move twice
exactly if no node it enters lists one twice. -/
theorem Explores.nodup_iff {source : Move → Node}
    (leaves : ∀ node, ∀ move ∈ search.moves node, source move = node)
    (explores : search.Explores (search.moves root) state [search.key root] followed entered
      (.ok final)) :
    followed.Nodup ↔ ∀ node ∈ root :: entered, (search.moves node).Nodup := by
  have permutation : followed.Perm ((root :: entered).flatMap search.moves) :=
    explores.followed_perm final rfl
  have distinct : (root :: entered).Nodup :=
    explores.root_distinct (List.mem_singleton_self _)
  rw [permutation.nodup_iff, List.nodup_flatMap]
  constructor
  · exact And.left
  · intro each
    refine ⟨each, ?_⟩
    apply distinct.imp
    intro node other different move atNode atOther
    apply different
    rw [← leaves node move atNode, leaves other move atOther]

theorem visit_idle {node : Node} (idle : search.moves node = []) (depth : Nat)
    (state : State) (marked : List Key) :
    (search.visit (depth + 1) node state marked).1 = .ok state ∧
      ∀ key, key ∈ (search.visit (depth + 1) node state marked).2 ↔
        key ∈ marked ∨ key = search.key node := by
  by_cases isMarked : search.key node ∈ marked
  · rw [visit_marked isMarked]
    refine ⟨rfl, fun key => ?_⟩
    constructor
    · exact Or.inl
    · rintro (old | rfl)
      · exact old
      · exact isMarked
  · rw [visit_fresh isMarked, idle]
    refine ⟨rfl, fun key => ?_⟩
    simp [follow]

/-- Marks that agree on the reachable nodes with moves do not change the outcome. -/
theorem visit_congr (inside : Node → Prop)
    (closed : ∀ node, inside node → ∀ move ∈ search.moves node, inside (search.target move))
    (depth : Nat) : ∀ node, inside node → ∀ (state : State) (marked other : List Key),
      (∀ known, inside known → search.moves known ≠ [] →
        (search.key known ∈ marked ↔ search.key known ∈ other)) →
      (search.visit depth node state marked).1 = (search.visit depth node state other).1 ∧
        ∀ known, inside known → search.moves known ≠ [] →
          (search.key known ∈ (search.visit depth node state marked).2 ↔
            search.key known ∈ (search.visit depth node state other).2) := by
  induction depth with
  | zero => exact fun node _ state marked other agree => ⟨rfl, agree⟩
  | succ depth induction =>
      have follows : ∀ moves : List Move, (∀ move ∈ moves, inside (search.target move)) →
          ∀ (state : State) (marked other : List Key),
          (∀ known, inside known → search.moves known ≠ [] →
            (search.key known ∈ marked ↔ search.key known ∈ other)) →
          (search.follow (search.visit depth) moves state marked).1 =
              (search.follow (search.visit depth) moves state other).1 ∧
            ∀ known, inside known → search.moves known ≠ [] →
              (search.key known ∈ (search.follow (search.visit depth) moves state marked).2 ↔
                search.key known ∈
                  (search.follow (search.visit depth) moves state other).2) := by
        intro moves
        induction moves with
        | nil => exact fun _ state marked other agree => ⟨rfl, agree⟩
        | cons move rest restInduction =>
            intro start state marked other agree
            simp only [follow]
            cases taken : search.take state move with
            | error failure => exact ⟨rfl, agree⟩
            | ok next =>
                obtain ⟨sameResult, sameMarks⟩ := induction (search.target move)
                  (start move List.mem_cons_self) next marked other agree
                simp only
                cases one : search.visit depth (search.target move) next marked with
                | mk result after =>
                    cases two : search.visit depth (search.target move) next other with
                    | mk otherResult otherAfter =>
                        rw [one, two] at sameResult sameMarks
                        simp only at sameResult sameMarks
                        subst sameResult
                        cases result with
                        | error failure => exact ⟨rfl, sameMarks⟩
                        | ok left =>
                            exact restInduction
                              (fun later member => start later (List.mem_cons_of_mem _ member))
                              left after otherAfter sameMarks
      intro node isInside state marked other agree
      have extended : ∀ known, inside known → search.moves known ≠ [] →
          (search.key known ∈ marked ++ [search.key node] ↔
            search.key known ∈ other ++ [search.key node]) := by
        intro known knownInside hasMoves
        simp only [List.mem_append]
        rw [agree known knownInside hasMoves]
      by_cases hasMoves : search.moves node = []
      · -- without moves the mark of the node itself does not matter
        obtain ⟨result, marks⟩ := visit_idle hasMoves depth state marked
        obtain ⟨otherResult, otherMarks⟩ := visit_idle hasMoves depth state other
        refine ⟨result.trans otherResult.symm, ?_⟩
        intro known knownInside knownMoves
        rw [marks, otherMarks, agree known knownInside knownMoves]
      · have same := agree node isInside hasMoves
        by_cases isMarked : search.key node ∈ marked
        · rw [visit_marked isMarked, visit_marked (same.mp isMarked)]
          exact ⟨rfl, agree⟩
        · have notOther : search.key node ∉ other := fun member => isMarked (same.mpr member)
          rw [visit_fresh isMarked, visit_fresh notOther]
          exact follows _ (closed node isInside) state _ _ extended

end Root

end MarkedSearch
