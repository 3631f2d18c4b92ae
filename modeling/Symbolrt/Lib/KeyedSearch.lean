import Mathlib.Data.Finset.Card
import Mathlib.Logic.Relation
import Mathlib.Tactic.Linarith

/-!
# Depth-first search with an overwriting table

The search of this file has no set of visited nodes.  It takes a move unless the
table entry under the key of the move already carries the mark of the move, and
taking a move overwrites that entry with the stamp of the move.  Two moves with
one key therefore evict each other, and whether the search ends, what it covers
and how often it takes a move all depend on which keys can be overwritten.

The table is represented by the log of the moves taken, newest first.
-/

/-- A search that enters each move under a key. A move is skipped when its key holds its
mark. -/
structure KeyedSearch (Node Move Key Mark : Type) where
  moves : Node → List Move
  target : Move → Node
  key : Move → Key
  mark : Move → Mark
  stamp : Move → Mark

namespace KeyedSearch

variable {Node Move Key Mark : Type} [DecidableEq Key] [DecidableEq Mark]
variable (search : KeyedSearch Node Move Key Mark)

/-- The table entry under a key: the stamp of the last move taken with it. -/
def latest (log : List Move) (key : Key) : Option Mark :=
  (log.find? (fun move => search.key move = key)).map search.stamp

/-- The key of the move holds its mark. -/
def seen (log : List Move) (move : Move) : Bool :=
  search.latest log (search.key move) == some (search.mark move)

/-- The recursion, cut off at the given depth. -/
def visit : Nat → Node → List Move → Option (List Move)
  | 0, _, _ => none
  | depth + 1, node, log =>
      (search.moves node).foldlM
        (fun log move =>
          if search.seen log move then some log
          else visit depth (search.target move) (move :: log))
        log

/-- `Expands moves log final`: working through `moves` from the table `log`
returns with the table `final`. -/
inductive Expands : List Move → List Move → List Move → Prop where
  | done (log : List Move) : Expands [] log log
  | skip {move : Move} {rest log final : List Move} :
      search.seen log move = true →
      Expands rest log final →
      Expands (move :: rest) log final
  | enter {move : Move} {rest log middle final : List Move} :
      search.seen log move = false →
      Expands (search.moves (search.target move)) (move :: log) middle →
      Expands rest middle final →
      Expands (move :: rest) log final

/-- Some move leads from one node to the other. -/
def Step (node next : Node) : Prop :=
  ∃ move ∈ search.moves node, search.target move = next

def Reaches : Node → Node → Prop := Relation.ReflTransGen search.Step

/-- A move of some node, as opposed to an arbitrary value of the move type. -/
def Actual (move : Move) : Prop := ∃ node, move ∈ search.moves node

variable {search}

theorem visit_expands {depth : Nat} {node : Node} {log final : List Move}
    (returned : search.visit depth node log = some final) :
    search.Expands (search.moves node) log final := by
  induction depth generalizing node log final with
  | zero => simp [visit] at returned
  | succ depth induction =>
      rw [visit] at returned
      generalize search.moves node = moves at returned
      induction moves generalizing log with
      | nil =>
          cases returned
          exact .done _
      | cons move rest restInduction =>
          rw [List.foldlM_cons] at returned
          by_cases known : search.seen log move = true
          · rw [if_pos known] at returned
            exact .skip known (restInduction returned)
          · rw [if_neg known] at returned
            obtain ⟨middle, entered, later⟩ := Option.bind_eq_some_iff.mp returned
            exact .enter (by simpa using known) (induction entered)
              (restInduction later)

theorem Expands.visit_eventually {moves log final : List Move}
    (expands : search.Expands moves log final) :
    ∃ bound, ∀ depth, bound ≤ depth →
      moves.foldlM
        (fun log move =>
          if search.seen log move then some log
          else search.visit depth (search.target move) (move :: log))
        log = some final := by
  induction expands with
  | done log => exact ⟨0, fun depth _ => rfl⟩
  | skip known _ induction =>
      obtain ⟨bound, later⟩ := induction
      refine ⟨bound, fun depth enough => ?_⟩
      rw [List.foldlM_cons, if_pos known]
      exact later depth enough
  | @enter move rest log middle final fresh _ _ innerInduction restInduction =>
      obtain ⟨innerBound, inner⟩ := innerInduction
      obtain ⟨restBound, later⟩ := restInduction
      refine ⟨max (innerBound + 1) restBound, fun depth enough => ?_⟩
      have deepEnough : innerBound + 1 ≤ depth := le_trans (le_max_left _ _) enough
      obtain ⟨depth, rfl⟩ : ∃ smaller, depth = smaller + 1 := ⟨depth - 1, by omega⟩
      have entered : search.visit (depth + 1) (search.target move) (move :: log) =
          some middle := by
        rw [visit]
        exact inner depth (by omega)
      have notSeen : ¬ search.seen log move = true := by simp [fresh]
      rw [List.foldlM_cons, if_neg notSeen, entered]
      exact later (depth + 1) (le_trans (le_max_right _ _) enough)

/-- The recursion returns at some depth exactly if the search ends. -/
theorem visit_iff_expands {node : Node} {log final : List Move} :
    (∃ depth, search.visit depth node log = some final) ↔
      search.Expands (search.moves node) log final := by
  constructor
  · rintro ⟨depth, returned⟩
    exact visit_expands returned
  · intro expands
    obtain ⟨bound, eventually⟩ := expands.visit_eventually
    exact ⟨bound + 1, by rw [visit]; exact eventually bound le_rfl⟩

/-- The final table is determined by where the search starts. -/
theorem Expands.unique {moves log final other : List Move}
    (expands : search.Expands moves log final)
    (otherExpands : search.Expands moves log other) : final = other := by
  induction expands generalizing other with
  | done log =>
      cases otherExpands
      rfl
  | skip known _ induction =>
      cases otherExpands with
      | skip _ otherLater => exact induction otherLater
      | enter fresh _ _ =>
          rw [known] at fresh
          exact absurd fresh (by simp)
  | enter fresh _ _ innerInduction restInduction =>
      cases otherExpands with
      | skip known _ =>
          rw [fresh] at known
          exact absurd known (by simp)
      | enter _ otherInner otherLater =>
          have sameMiddle := innerInduction otherInner
          subst sameMiddle
          exact restInduction otherLater

theorem Expands.exists_added {moves log final : List Move}
    (expands : search.Expands moves log final) :
    ∃ added, final = added ++ log := by
  induction expands with
  | done log => exact ⟨[], rfl⟩
  | skip _ _ induction => exact induction
  | @enter move rest log middle final _ _ _ innerInduction restInduction =>
      obtain ⟨inner, rfl⟩ := innerInduction
      obtain ⟨later, rfl⟩ := restInduction
      exact ⟨later ++ (inner ++ [move]), by simp⟩

/-- Only moves of reachable nodes are taken. -/
theorem Expands.sound {moves log final : List Move}
    (expands : search.Expands moves log final) :
    ∀ taken ∈ final, taken ∈ log ∨ ∃ move ∈ moves, taken = move ∨
      ∃ node, search.Reaches (search.target move) node ∧
        taken ∈ search.moves node := by
  induction expands with
  | done log => exact fun taken member => Or.inl member
  | skip _ _ induction =>
      intro taken member
      rcases induction taken member with old | ⟨move, inRest, origin⟩
      · exact Or.inl old
      · exact Or.inr ⟨move, List.mem_cons_of_mem _ inRest, origin⟩
  | @enter move rest log middle final _ _ _ innerInduction restInduction =>
      intro taken member
      rcases restInduction taken member with inMiddle | ⟨other, inRest, origin⟩
      · rcases innerInduction taken inMiddle with inLog | ⟨inner, innerMember, origin⟩
        · rcases List.mem_cons.mp inLog with rfl | old
          · exact Or.inr ⟨taken, by simp, Or.inl rfl⟩
          · exact Or.inl old
        · refine Or.inr ⟨move, by simp, Or.inr ?_⟩
          rcases origin with rfl | ⟨node, reaches, atNode⟩
          · exact ⟨_, Relation.ReflTransGen.refl, innerMember⟩
          · exact ⟨node, Relation.ReflTransGen.head ⟨inner, innerMember, rfl⟩ reaches,
              atNode⟩
      · exact Or.inr ⟨other, List.mem_cons_of_mem _ inRest, origin⟩

theorem Expands.sound_root {root : Node} {final : List Move}
    (expands : search.Expands (search.moves root) [] final) :
    ∀ taken ∈ final, ∃ node, search.Reaches root node ∧
      taken ∈ search.moves node := by
  intro taken member
  rcases expands.sound taken member with impossible | ⟨move, atRoot, origin⟩
  · simp at impossible
  · rcases origin with rfl | ⟨node, reaches, atNode⟩
    · exact ⟨root, Relation.ReflTransGen.refl, atRoot⟩
    · exact ⟨node, Relation.ReflTransGen.head ⟨move, atRoot, rfl⟩ reaches, atNode⟩

variable (search) in
/-- The move was taken, or a move with its mark as stamp was. -/
def Recorded (log : List Move) (move : Move) : Prop :=
  move ∈ log ∨ ∃ taken ∈ log, search.key taken = search.key move ∧
    search.stamp taken = search.mark move

variable (search) in
/-- Every move of the node is entered. -/
def Covered (log : List Move) (node : Node) : Prop :=
  ∀ move ∈ search.moves node, search.Recorded log move

omit [DecidableEq Key] [DecidableEq Mark] in
theorem Recorded.append {log : List Move} {move : Move}
    (recorded : search.Recorded log move) (added : List Move) :
    search.Recorded (added ++ log) move := by
  rcases recorded with member | ⟨taken, member, same⟩
  · exact Or.inl (List.mem_append_right _ member)
  · exact Or.inr ⟨taken, List.mem_append_right _ member, same⟩

omit [DecidableEq Key] [DecidableEq Mark] in
theorem Covered.append {log : List Move} {node : Node}
    (covered : search.Covered log node) (added : List Move) :
    search.Covered (added ++ log) node := fun move member =>
  (covered move member).append added

theorem recorded_of_seen {log : List Move} {move : Move}
    (known : search.seen log move = true) : search.Recorded log move := by
  simp only [seen, latest, beq_iff_eq, Option.map_eq_some_iff] at known
  obtain ⟨taken, found, stamped⟩ := known
  have sameKey : search.key taken = search.key move := by
    simpa using List.find?_some found
  exact Or.inr ⟨taken, List.mem_of_find?_eq_some found, sameKey, stamped⟩

/-- Targets of taken moves are covered, apart from those still being expanded
further up. -/
theorem Expands.covers {moves log final : List Move}
    (expands : search.Expands moves log final) :
    ∀ pending : Node → Prop,
      (∀ taken ∈ log, search.Covered log (search.target taken) ∨
        pending (search.target taken)) →
      (∀ taken ∈ final, search.Covered final (search.target taken) ∨
        pending (search.target taken)) ∧
      ∀ move ∈ moves, search.Recorded final move := by
  induction expands with
  | done log => exact fun pending before => ⟨before, by simp⟩
  | @skip move rest log final known later induction =>
      intro pending before
      obtain ⟨after, recorded⟩ := induction pending before
      refine ⟨after, ?_⟩
      intro other member
      rcases List.mem_cons.mp member with rfl | inRest
      · obtain ⟨added, rfl⟩ := later.exists_added
        exact (recorded_of_seen known).append added
      · exact recorded other inRest
  | @enter move rest log middle final _ inner later innerInduction restInduction =>
      intro pending before
      have entered : ∀ taken ∈ move :: log,
          search.Covered (move :: log) (search.target taken) ∨
            (pending (search.target taken) ∨
              search.target taken = search.target move) := by
        intro taken member
        rcases List.mem_cons.mp member with rfl | old
        · exact Or.inr (Or.inr rfl)
        · rcases before taken old with covered | open'
          · exact Or.inl (covered.append [move])
          · exact Or.inr (Or.inl open')
      obtain ⟨innerAfter, innerRecorded⟩ := innerInduction
        (fun node => pending node ∨ node = search.target move) entered
      have finished : ∀ taken ∈ middle,
          search.Covered middle (search.target taken) ∨
            pending (search.target taken) := by
        intro taken member
        rcases innerAfter taken member with covered | open' | same
        · exact Or.inl covered
        · exact Or.inr open'
        · exact Or.inl (same ▸ innerRecorded)
      obtain ⟨after, recorded⟩ := restInduction pending finished
      refine ⟨after, ?_⟩
      intro other member
      rcases List.mem_cons.mp member with rfl | inRest
      · obtain ⟨innerAdded, rfl⟩ := inner.exists_added
        obtain ⟨added, rfl⟩ := later.exists_added
        exact Or.inl (by simp)
      · exact recorded other inRest

variable (search) in
/-- A stamp determines where its move leads. -/
def StampsLocate : Prop :=
  ∀ move taken, search.Actual move → search.Actual taken →
    search.stamp taken = search.mark move →
      search.target taken = search.target move

/-- Every reachable node is covered when the search ends. -/
theorem Expands.covers_reachable {root : Node} {final : List Move}
    (expands : search.Expands (search.moves root) [] final)
    (locates : search.StampsLocate) {node : Node}
    (reaches : search.Reaches root node) : search.Covered final node := by
  obtain ⟨after, recorded⟩ := expands.covers (fun node => node = root) (by simp)
  have targets : ∀ taken ∈ final, search.Covered final (search.target taken) := by
    intro taken member
    rcases after taken member with covered | same
    · exact covered
    · exact same ▸ recorded
  induction reaches with
  | refl => exact recorded
  | @tail previous next _ step covered =>
      obtain ⟨move, member, rfl⟩ := step
      rcases covered move member with taken | ⟨taken, takenMember, _, stamped⟩
      · exact targets move taken
      · obtain ⟨origin, _, atOrigin⟩ := expands.sound_root taken takenMember
        have same := locates move taken ⟨previous, member⟩ ⟨origin, atOrigin⟩ stamped
        exact same ▸ targets taken takenMember

/-- With one move to a key, and stamps equal to marks, no move is taken
twice. -/
theorem Expands.nodup {moves log final : List Move}
    (expands : search.Expands moves log final)
    (unique : ∀ move taken, search.Actual move → search.Actual taken →
      search.key taken = search.key move → taken = move)
    (stable : ∀ move, search.Actual move → search.stamp move = search.mark move)
    (actualMoves : ∀ move ∈ moves, search.Actual move)
    (actualLog : ∀ move ∈ log, search.Actual move)
    (nodup : log.Nodup) : final.Nodup := by
  induction expands with
  | done log => exact nodup
  | skip _ _ induction =>
      exact induction (fun move member => actualMoves move (by simp [member]))
        actualLog nodup
  | @enter move rest log middle final fresh inner later innerInduction restInduction =>
      have actualMove : search.Actual move := actualMoves move (by simp)
      have notTaken : move ∉ log := by
        intro member
        have known : search.seen log move = true := by
          obtain ⟨taken, found⟩ : ∃ taken, log.find?
              (fun other => search.key other = search.key move) = some taken := by
            cases result : log.find?
                (fun other => search.key other = search.key move) with
            | some taken => exact ⟨taken, rfl⟩
            | none =>
                have missing := List.find?_eq_none.mp result move member
                simp at missing
          have takenMember := List.mem_of_find?_eq_some found
          have sameKey : search.key taken = search.key move := by
            simpa using List.find?_some found
          have same := unique move taken actualMove (actualLog taken takenMember) sameKey
          simp [seen, latest, found, same, stable move actualMove]
        rw [fresh] at known
        exact absurd known (by simp)
      have actualEntered : ∀ taken ∈ move :: log, search.Actual taken := by
        intro taken member
        rcases List.mem_cons.mp member with rfl | old
        · exact actualMove
        · exact actualLog taken old
      have middleNodup := innerInduction (fun taken member => ⟨_, member⟩)
        actualEntered (List.nodup_cons.mpr ⟨notTaken, nodup⟩)
      refine restInduction (fun taken member => actualMoves taken (by simp [member]))
        ?_ middleNodup
      intro taken member
      rcases inner.sound taken member with inLog | ⟨other, otherMember, origin⟩
      · exact actualEntered taken inLog
      · rcases origin with rfl | ⟨node, _, atNode⟩
        · exact ⟨_, otherMember⟩
        · exact ⟨node, atNode⟩

theorem Expands.actual {moves log final : List Move}
    (expands : search.Expands moves log final)
    (actualMoves : ∀ move ∈ moves, search.Actual move)
    (actualLog : ∀ move ∈ log, search.Actual move) :
    ∀ taken ∈ final, search.Actual taken := by
  intro taken member
  rcases expands.sound taken member with inLog | ⟨other, otherMember, origin⟩
  · exact actualLog taken inLog
  · rcases origin with rfl | ⟨node, _, atNode⟩
    · exact actualMoves _ otherMember
    · exact ⟨node, atNode⟩

/-- A move of the list was taken, or the table showed its mark when its turn
came. -/
theorem Expands.taken_or_seen {moves log final : List Move}
    (expands : search.Expands moves log final) :
    ∃ added, final = added ++ log ∧ ∀ move ∈ moves, move ∈ added ∨
      ∃ recent, (∀ taken ∈ recent, taken ∈ added) ∧
        search.seen (recent ++ log) move = true := by
  induction expands with
  | done log => exact ⟨[], rfl, by simp⟩
  | skip known _ induction =>
      obtain ⟨added, same, others⟩ := induction
      refine ⟨added, same, ?_⟩
      intro move member
      rcases List.mem_cons.mp member with rfl | inRest
      · exact Or.inr ⟨[], by simp, known⟩
      · exact others move inRest
  | @enter move rest log middle final _ inner _ _ restInduction =>
      obtain ⟨innerAdded, rfl⟩ := inner.exists_added
      obtain ⟨added, same, others⟩ := restInduction
      refine ⟨added ++ (innerAdded ++ [move]), by simp [same], ?_⟩
      intro other member
      rcases List.mem_cons.mp member with rfl | inRest
      · exact Or.inl (by simp)
      · rcases others other inRest with taken | ⟨recent, subset, known⟩
        · exact Or.inl (by simp [taken])
        · refine Or.inr ⟨recent ++ (innerAdded ++ [move]), ?_, by simpa using known⟩
          intro taken member
          rcases List.mem_append.mp member with new | old
          · exact List.mem_append_left _ (subset taken new)
          · exact List.mem_append_right _ old

variable (search) in
/-- Every node of the set has a key whose moves all lead back into the set and
cannot all find their marks in the table: no stamp written under the key equals
the mark of all of them. -/
def Restless (nodes : Node → Prop) : Prop :=
  ∀ node, nodes node → ∃ key,
    (∃ move ∈ search.moves node, search.key move = key) ∧
    (∀ move ∈ search.moves node, search.key move = key →
      nodes (search.target move)) ∧
    (∀ move ∈ search.moves node, search.key move = key →
      ∀ taken, search.Actual taken → search.key taken = key →
        search.stamp taken = search.mark move → taken ∈ search.moves node) ∧
    ¬ ∃ value, (∀ move ∈ search.moves node, search.key move = key →
        search.mark move = value) ∧
      ∃ move ∈ search.moves node, search.key move = key ∧
        search.stamp move = value

/-- Working through a restless node without taking a move back into the set is
impossible. -/
theorem Restless.not_expands_of_added {nodes : Node → Prop}
    (restless : search.Restless nodes) {node : Node} (inSet : nodes node)
    {log final : List Move}
    (expands : search.Expands (search.moves node) log final)
    (actualLog : ∀ move ∈ log, search.Actual move)
    (away : ∀ added, final = added ++ log → ∀ taken ∈ added,
      ¬ nodes (search.target taken)) : False := by
  obtain ⟨added, same, others⟩ := expands.taken_or_seen
  have notBack := away added same
  have actualAdded : ∀ taken ∈ added, search.Actual taken := by
    intro taken member
    exact expands.actual (fun move atNode => ⟨node, atNode⟩) actualLog taken
      (by simp [same, member])
  obtain ⟨key, ⟨first, firstMember, firstKey⟩, back, owned, unsettled⟩ :=
    restless node inSet
  -- the entry a group move finds was written before the node was entered
  have stale : ∀ move ∈ search.moves node, search.key move = key →
      ∃ taken ∈ search.moves node, search.key taken = key ∧
        search.stamp taken = search.mark move ∧
        log.find? (fun other => search.key other = key) = some taken := by
    intro move member moveKey
    rcases others move member with isAdded | ⟨recent, subset, known⟩
    · exact absurd (back move member moveKey) (notBack move isAdded)
    · simp only [seen, latest, beq_iff_eq, Option.map_eq_some_iff, moveKey] at known
      obtain ⟨taken, found, stamped⟩ := known
      have takenKey : search.key taken = key := by
        simpa using List.find?_some found
      have actualTaken : search.Actual taken := by
        rcases List.mem_append.mp (List.mem_of_find?_eq_some found) with new | old
        · exact actualAdded taken (subset taken new)
        · exact actualLog taken old
      have atNode := owned move member moveKey taken actualTaken takenKey stamped
      have notRecent : taken ∉ recent := fun inRecent =>
        notBack taken (subset taken inRecent) (back taken atNode takenKey)
      have noneRecent : recent.find? (fun other => search.key other = key) = none := by
        cases result : recent.find? (fun other => search.key other = key) with
        | none => rfl
        | some other =>
            rw [List.find?_append, result] at found
            have equal : other = taken := by simpa using found
            exact absurd (equal ▸ List.mem_of_find?_eq_some result) notRecent
      rw [List.find?_append, noneRecent, Option.none_or] at found
      exact ⟨taken, atNode, takenKey, stamped, found⟩
  obtain ⟨writer, writerMember, writerKey, writerStamp, written⟩ :=
    stale first firstMember firstKey
  apply unsettled
  refine ⟨search.stamp writer, ?_, writer, writerMember, writerKey, rfl⟩
  intro move member moveKey
  obtain ⟨other, _, _, otherStamp, found⟩ := stale move member moveKey
  have equal : other = writer := by
    rw [written] at found
    exact (Option.some.inj found).symm
  rw [← otherStamp, equal]

/-- A search that ends takes no move into a restless set. -/
theorem Restless.avoided {nodes : Node → Prop} (restless : search.Restless nodes)
    {moves log final : List Move} (expands : search.Expands moves log final)
    (actualMoves : ∀ move ∈ moves, search.Actual move)
    (actualLog : ∀ move ∈ log, search.Actual move) :
    ∀ added, final = added ++ log → ∀ taken ∈ added,
      ¬ nodes (search.target taken) := by
  induction expands with
  | done log =>
      intro added same taken member
      have empty : added = [] := by simpa using same
      simp [empty] at member
  | skip _ _ induction =>
      exact induction (fun move member => actualMoves move (by simp [member])) actualLog
  | @enter move rest log middle final _ inner later innerInduction restInduction =>
      have actualEntered : ∀ taken ∈ move :: log, search.Actual taken := by
        intro taken member
        rcases List.mem_cons.mp member with rfl | old
        · exact actualMoves taken (by simp)
        · exact actualLog taken old
      have innerAway := innerInduction (fun taken member => ⟨_, member⟩) actualEntered
      have notInto : ¬ nodes (search.target move) := fun inSet =>
        restless.not_expands_of_added inSet inner actualEntered innerAway
      have actualMiddle := inner.actual (fun taken member => ⟨_, member⟩) actualEntered
      have laterAway := restInduction
        (fun taken member => actualMoves taken (by simp [member])) actualMiddle
      obtain ⟨innerAdded, middleEq⟩ := inner.exists_added
      obtain ⟨laterAdded, finalEq⟩ := later.exists_added
      intro added same taken member
      have split : added = laterAdded ++ (innerAdded ++ [move]) := by
        have joined : added ++ log = (laterAdded ++ (innerAdded ++ [move])) ++ log := by
          rw [← same, finalEq, middleEq]
          simp
        exact List.append_cancel_right joined
      rw [split] at member
      rcases List.mem_append.mp member with inLater | inInner
      · exact laterAway laterAdded finalEq taken inLater
      · rcases List.mem_append.mp inInner with inAdded | isMove
        · exact innerAway innerAdded middleEq taken inAdded
        · exact (List.mem_singleton.mp isMove) ▸ notInto

/-- A search from which a restless set can be reached does not end. -/
theorem Restless.diverges {nodes : Node → Prop} (restless : search.Restless nodes)
    (locates : search.StampsLocate) {root node : Node}
    (reaches : search.Reaches root node) (inSet : nodes node)
    (final : List Move) :
    ¬ search.Expands (search.moves root) [] final := by
  intro expands
  have away := restless.avoided expands (fun move member => ⟨root, member⟩) (by simp)
  rcases Relation.ReflTransGen.cases_tail reaches with same | ⟨previous, toPrevious, step⟩
  · subst same
    exact restless.not_expands_of_added inSet expands (by simp) away
  · obtain ⟨move, member, rfl⟩ := step
    rcases expands.covers_reachable locates toPrevious move member with
      taken | ⟨taken, takenMember, _, stamped⟩
    · exact away final (by simp) move taken inSet
    · obtain ⟨origin, _, atOrigin⟩ := expands.sound_root taken takenMember
      have same := locates move taken ⟨previous, member⟩ ⟨origin, atOrigin⟩ stamped
      exact away final (by simp) taken takenMember (same ▸ inSet)

section Termination

variable (search) in
/-- Every move with this key looks for, and leaves, one and the same value, so
the table entry never changes once it is written. -/
def Settled (nodes : Finset Node) (key : Key) : Prop :=
  ∃ value, ∀ node ∈ nodes, ∀ move ∈ search.moves node, search.key move = key →
    search.mark move = value ∧ search.stamp move = value

variable (search) in
/-- A move whose entry can be overwritten with something else. -/
def UnsettledStep (nodes : Finset Node) (node next : Node) : Prop :=
  node ∈ nodes ∧ ∃ move ∈ search.moves node, search.target move = next ∧
    ¬ search.Settled nodes (search.key move)

variable (search) in
/-- No move leaves the nodes. -/
def Closed (nodes : Finset Node) : Prop :=
  ∀ node ∈ nodes, ∀ move ∈ search.moves node, search.target move ∈ nodes

variable (search) in
/-- The log holds moves of the nodes only. -/
def FromNodes (nodes : Finset Node) (log : List Move) : Prop :=
  ∀ taken ∈ log, ∃ node ∈ nodes, taken ∈ search.moves node

open Classical in
variable (search) in
/-- Settled keys whose entry is still to be written. -/
noncomputable def openKeys (nodes : Finset Node) (log : List Move) : Finset Key :=
  ((nodes.toList.flatMap search.moves).map search.key).toFinset.filter
    (fun key => search.Settled nodes key ∧ search.latest log key = none)

omit [DecidableEq Mark] in
theorem latest_append_eq_none {added log : List Move} {key : Key}
    (unwritten : search.latest (added ++ log) key = none) :
    search.latest log key = none := by
  simp only [latest, Option.map_eq_none_iff, List.find?_eq_none, List.mem_append]
    at unwritten ⊢
  exact fun move member => unwritten move (Or.inr member)

omit [DecidableEq Mark] in
theorem openKeys_append_subset (nodes : Finset Node) (added log : List Move) :
    search.openKeys nodes (added ++ log) ⊆ search.openKeys nodes log := by
  intro key member
  simp only [openKeys, Finset.mem_filter] at member ⊢
  exact ⟨member.1, member.2.1, latest_append_eq_none member.2.2⟩

theorem openKeys_cons_card_lt {nodes : Finset Node} {log : List Move}
    (fromNodes : search.FromNodes nodes log) {node : Node} (inNodes : node ∈ nodes)
    {move : Move} (member : move ∈ search.moves node)
    (settled : search.Settled nodes (search.key move))
    (fresh : search.seen log move = false) :
    (search.openKeys nodes (move :: log)).card < (search.openKeys nodes log).card := by
  have unwritten : search.latest log (search.key move) = none := by
    cases found : log.find? (fun other => search.key other = search.key move) with
    | none => simp [latest, found]
    | some taken =>
        obtain ⟨value, settledValue⟩ := settled
        obtain ⟨origin, originMember, atOrigin⟩ :=
          fromNodes taken (List.mem_of_find?_eq_some found)
        have takenKey : search.key taken = search.key move := by
          simpa using List.find?_some found
        have known : search.seen log move = true := by
          simp [seen, latest, found,
            (settledValue origin originMember taken atOrigin takenKey).2,
            (settledValue node inNodes move member rfl).1]
        rw [fresh] at known
        exact absurd known (by simp)
  apply Finset.card_lt_card
  refine ⟨openKeys_append_subset nodes [move] log, ?_⟩
  intro subset
  have wasOpen : search.key move ∈ search.openKeys nodes log := by
    simp only [openKeys, Finset.mem_filter, List.mem_toFinset, List.mem_map,
      List.mem_flatMap, Finset.mem_toList]
    exact ⟨⟨move, ⟨node, inNodes, member⟩, rfl⟩, settled, unwritten⟩
  have stillOpen := subset wasOpen
  simp only [openKeys, Finset.mem_filter] at stillOpen
  simp [latest] at stillOpen

theorem Expands.fromNodes {nodes : Finset Node} (closed : search.Closed nodes)
    {node : Node} (inNodes : node ∈ nodes) {log final : List Move}
    (expands : search.Expands (search.moves node) log final)
    (before : search.FromNodes nodes log) : search.FromNodes nodes final := by
  intro taken member
  rcases expands.sound taken member with inLog | ⟨move, atNode, origin⟩
  · exact before taken inLog
  · rcases origin with rfl | ⟨reached, reaches, atReached⟩
    · exact ⟨node, inNodes, atNode⟩
    · refine ⟨reached, ?_, atReached⟩
      have start := closed node inNodes move atNode
      clear atReached
      induction reaches with
      | refl => exact start
      | tail _ step inSet =>
          obtain ⟨other, otherMember, rfl⟩ := step
          exact closed _ inSet other otherMember

omit [DecidableEq Key] [DecidableEq Mark] in
theorem FromNodes.cons {nodes : Finset Node} {node : Node} {move : Move} {log : List Move}
    (fromNodes : search.FromNodes nodes log) (inNodes : node ∈ nodes)
    (member : move ∈ search.moves node) : search.FromNodes nodes (move :: log) := by
  intro taken takenMember
  rcases List.mem_cons.mp takenMember with rfl | old
  · exact ⟨node, inNodes, member⟩
  · exact fromNodes taken old

/-- The loop over the moves of a node ends if every move it enters leads to a search that
ends.  Meanwhile the table only grows. -/
theorem exists_expands_of_enters {nodes : Finset Node} (closed : search.Closed nodes)
    {node : Node} (inNodes : node ∈ nodes) {log : List Move}
    (enters : ∀ move ∈ search.moves node, ∀ current, search.FromNodes nodes current →
      (search.openKeys nodes current).card ≤ (search.openKeys nodes log).card →
        search.seen current move = false →
          ∃ middle, search.Expands (search.moves (search.target move)) (move :: current) middle)
    (moves current : List Move) (atNode : ∀ move ∈ moves, move ∈ search.moves node)
    (currentFrom : search.FromNodes nodes current)
    (notMore : (search.openKeys nodes current).card ≤ (search.openKeys nodes log).card) :
    ∃ final, search.Expands moves current final := by
  induction moves generalizing current with
  | nil => exact ⟨current, .done current⟩
  | cons move rest restInduction =>
      have member := atNode move List.mem_cons_self
      have restMember : ∀ other ∈ rest, other ∈ search.moves node :=
        fun other inRest => atNode other (List.mem_cons_of_mem _ inRest)
      cases known : search.seen current move with
      | true =>
          obtain ⟨final, later⟩ := restInduction current restMember currentFrom notMore
          exact ⟨final, .skip known later⟩
      | false =>
          obtain ⟨middle, inner⟩ := enters move member current currentFrom notMore known
          obtain ⟨added, middleEq⟩ := inner.exists_added
          have middleFrom := inner.fromNodes closed (closed node inNodes move member)
            (currentFrom.cons inNodes member)
          have shape : middle = (added ++ [move]) ++ current := by
            simp [middleEq]
          have stillNotMore : (search.openKeys nodes middle).card ≤
              (search.openKeys nodes log).card := by
            refine le_trans ?_ notMore
            rw [shape]
            exact Finset.card_le_card (openKeys_append_subset nodes _ _)
          obtain ⟨final, later⟩ := restInduction middle restMember middleFrom stillNotMore
          exact ⟨final, .enter known inner later⟩

variable (search) in
/-- Unsettled steps lead down the chain to the node, none of them twice to the same one. -/
structure IsChainTo (nodes : Finset Node) (chain : List Node) (node : Node) : Prop where
  inNodes : node ∈ nodes
  nodup : (node :: chain).Nodup
  earlierSteps : ∀ earlier ∈ chain, earlier ∈ nodes ∧
    Relation.TransGen (search.UnsettledStep nodes) earlier node

omit [DecidableEq Key] [DecidableEq Mark] in
theorem IsChainTo.length_lt {nodes : Finset Node} {chain : List Node} {node : Node}
    (isChain : search.IsChainTo nodes chain node) : chain.length < nodes.card := by
  classical
  have subset : (node :: chain).toFinset ⊆ nodes := by
    intro other member
    rcases List.mem_cons.mp (List.mem_toFinset.mp member) with rfl | inChain
    · exact isChain.inNodes
    · exact (isChain.earlierSteps other inChain).1
  have counted := Finset.card_le_card subset
  rw [List.toFinset_card_of_nodup isChain.nodup] at counted
  exact counted

omit [DecidableEq Key] [DecidableEq Mark] in
theorem IsChainTo.single {nodes : Finset Node} {node : Node} (inNodes : node ∈ nodes) :
    search.IsChainTo nodes [] node := ⟨inNodes, List.nodup_singleton node, by simp⟩

omit [DecidableEq Key] [DecidableEq Mark] in
theorem IsChainTo.step {nodes : Finset Node} {chain : List Node} {node next : Node}
    (isChain : search.IsChainTo nodes chain node) (inside : next ∈ nodes)
    (acyclic : ¬ Relation.TransGen (search.UnsettledStep nodes) next next)
    (step : search.UnsettledStep nodes node next) :
    search.IsChainTo nodes (node :: chain) next := by
  have newSteps : ∀ earlier ∈ node :: chain, earlier ∈ nodes ∧
      Relation.TransGen (search.UnsettledStep nodes) earlier next := by
    intro earlier earlierMember
    rcases List.mem_cons.mp earlierMember with rfl | inChain
    · exact ⟨isChain.inNodes, .single step⟩
    · exact ⟨(isChain.earlierSteps earlier inChain).1,
        (isChain.earlierSteps earlier inChain).2.tail step⟩
  refine ⟨inside, List.nodup_cons.mpr ⟨?_, isChain.nodup⟩, newSteps⟩
  exact fun back => acyclic (newSteps _ back).2

/-- The measure counts the settled keys still open and, below that, the nodes
not yet on the current chain of unsettled steps. -/
theorem exists_expands_of_measure {nodes : Finset Node} (closed : search.Closed nodes)
    (acyclic : ∀ node ∈ nodes,
      ¬ Relation.TransGen (search.UnsettledStep nodes) node node)
    (measure : Nat) :
    ∀ (chain : List Node) (node : Node) (log : List Move),
      search.IsChainTo nodes chain node → search.FromNodes nodes log →
      (search.openKeys nodes log).card * (nodes.card + 1) +
        (nodes.card - chain.length) ≤ measure →
      ∃ final, search.Expands (search.moves node) log final := by
  induction measure using Nat.strong_induction_on with
  | _ measure induction =>
      intro chain node log isChain fromNodes bounded
      have chainLength := isChain.length_lt
      refine exists_expands_of_enters closed isChain.inNodes ?_ (search.moves node) log
        (fun _ member => member) fromNodes le_rfl
      intro move member current currentFrom notMore unseen
      have inside := closed node isChain.inNodes move member
      have enteredFrom := currentFrom.cons isChain.inNodes member
      by_cases settled : search.Settled nodes (search.key move)
      · -- a settled key is opened, and the chain starts anew
        refine induction _ ?_ [] (search.target move) (move :: current) (.single inside)
          enteredFrom le_rfl
        have fewer := openKeys_cons_card_lt currentFrom isChain.inNodes member settled unseen
        have smaller : (search.openKeys nodes (move :: current)).card + 1 ≤
            (search.openKeys nodes log).card := by omega
        have scaled := Nat.mul_le_mul_right (nodes.card + 1) smaller
        simp only [List.length_nil, Nat.sub_zero]
        rw [Nat.add_mul] at scaled
        omega
      · -- the step is unsettled, so the chain gets longer
        refine induction _ ?_ (node :: chain) (search.target move) (move :: current)
          (isChain.step inside (acyclic _ inside) ⟨isChain.inNodes, move, member, rfl, settled⟩)
          enteredFrom le_rfl
        have notOpened : (search.openKeys nodes ([move] ++ current)).card ≤
            (search.openKeys nodes current).card :=
          Finset.card_le_card (openKeys_append_subset nodes [move] current)
        have scaled := Nat.mul_le_mul_right (nodes.card + 1) (le_trans notOpened notMore)
        simp only [List.singleton_append] at scaled
        simp only [List.length_cons]
        omega

/-- Without a cycle of unsettled steps the search ends. -/
theorem exists_expands {nodes : Finset Node} (closed : search.Closed nodes)
    (acyclic : ∀ node ∈ nodes,
      ¬ Relation.TransGen (search.UnsettledStep nodes) node node)
    {root : Node} (inNodes : root ∈ nodes) :
    ∃ final, search.Expands (search.moves root) [] final :=
  exists_expands_of_measure closed acyclic _ [] root [] (.single inNodes)
    (by intro taken member; simp at member) le_rfl

end Termination

end KeyedSearch
