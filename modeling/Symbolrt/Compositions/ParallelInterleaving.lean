import Symbolrt.Base.Assembly
import Symbolrt.Compositions.ParallelLegality

/-!
# When a parallel composition loses no interleaving

The moves of one component alone are made inside the loop over the transitions of the
other, so they are lost where the other cannot move.
-/

namespace Symbolrt

namespace ParallelComposition

theorem visitedKey_toList (loc1 loc2 : String) :
    (visitedKey loc1 loc2).toList = loc1.toList ++ ',' :: (' ' :: loc2.toList) := by
  simp [visitedKey]

/-- No label contains what the keys of pairs are glued with.  The labels of a composition
contain a comma, but no blank behind it unless a label of the second model starts with
one. -/
def DividesKeys (model : TIOSTS) : Prop :=
  ∀ label, model.IsRegistered label → ¬ [',', ' '] <:+: label.toList

theorem dividesKeys_of_labelsAvoid {model : TIOSTS} (avoid : model.LabelsAvoid [',']) :
    DividesKeys model := by
  intro label registered inside
  exact avoid label registered ',' (by simp) (inside.subset (by simp))

theorem visitedKey_inj {loc1 loc2 other1 other2 : String}
    (plain : ¬ [',', ' '] <:+: loc1.toList) (otherPlain : ¬ [',', ' '] <:+: other1.toList)
    (same : visitedKey loc1 loc2 = visitedKey other1 other2) : loc1 = other1 ∧ loc2 = other2 := by
  have chars := congrArg String.toList same
  rw [visitedKey_toList, visitedKey_toList] at chars
  obtain ⟨chars1, chars2⟩ := Text.append_pair_inj_left (by decide) plain otherPlain chars
  exact ⟨String.toList_injective chars1, String.toList_injective chars2⟩

/-- The composition returns, and every legal move at a reachable pair has its transition. -/
def LosesNothing (order : IterationOrder) (model1 model2 : TIOSTS) (parts : Parts) : Prop :=
  ∃ result, (∃ bound, ∀ depth, bound ≤ depth →
      ((parallelComposition order depth model1 model2).outcome []).1 = .ok result) ∧
    ∀ pair, parts.LegallyReaches model1 model2 pair → ∀ move,
      parts.IsLegal model1 model2 move → move.source = pair →
        ∃ transition ∈ result.outOf (pairLabel pair), transition.plain = move.transition.plain

/-- At no reachable pair is a component that can move alone with a partner that has no
transition, no two reachable pairs are visited under one key, and no component moves alone
on its initial action or, if it is the second one, on an input that is an output as well. -/
structure IsUnobstructed (model1 model2 : TIOSTS) (parts : Parts) : Prop where
  partner1 : ∀ pair, parts.LegallyReaches model1 model2 pair →
    ∀ t1 ∈ parts.tiosts1.outOf pair.1, t1.action.name ∉ model2.getActionNames →
      parts.tiosts2.outOf pair.2 ≠ []
  partner2 : ∀ pair, parts.LegallyReaches model1 model2 pair →
    ∀ t2 ∈ parts.tiosts2.outOf pair.2, t2.action.name ∉ model1.getActionNames →
      parts.tiosts1.outOf pair.1 ≠ []
  keys : ∀ pair other, parts.LegallyReaches model1 model2 pair →
    parts.LegallyReaches model1 model2 other →
      visitedKey pair.1 pair.2 = visitedKey other.1 other.2 → pair = other
  initial1 : ∀ pair, parts.LegallyReaches model1 model2 pair →
    ∀ t1 ∈ parts.tiosts1.outOf pair.1, t1.action.name ∉ model2.getActionNames →
      t1.action.type = .internal → t1.action.name ≠ parts.init1.action.name
  initial2 : ∀ pair, parts.LegallyReaches model1 model2 pair →
    ∀ t2 ∈ parts.tiosts2.outOf pair.2, t2.action.name ∉ model1.getActionNames →
      t2.action.type = .internal → t2.action.name ≠ parts.init2.action.name
  input2 : ∀ pair, parts.LegallyReaches model1 model2 pair →
    ∀ t2 ∈ parts.tiosts2.outOf pair.2, t2.action.name ∉ model1.getActionNames →
      t2.action.type = .input → t2.action.name ∉ (model2.actionsOf .output).map Action.name

section Input

variable {order : IterationOrder} {model1 model2 : TIOSTS} {parts : Parts}

/-- A component that moves has a partner everywhere it is reached. -/
def AllHavePartners (model1 model2 : TIOSTS) (parts : Parts) : Prop :=
  ∀ move, parts.LegallyReaches model1 model2 move.source →
    parts.IsLegal model1 model2 move → parts.HasPartner move

theorem IsUnobstructed.allHavePartners
    (unobstructed : IsUnobstructed model1 model2 parts) :
    AllHavePartners model1 model2 parts := by
  intro move reaches legal
  cases move with
  | first loc1 loc2 t1 => exact unobstructed.partner1 _ reaches t1 legal.1 legal.2
  | second loc1 loc2 t2 => exact unobstructed.partner2 _ reaches t2 legal.1 legal.2
  | both loc1 loc2 t1 t2 => trivial

variable (input : IsParallelInput order model1 model2 parts)

include input

theorem IsUnobstructed.not_throws (unobstructed : IsUnobstructed model1 model2 parts)
    {move : Move} (reaches : parts.LegallyReaches model1 model2 move.source)
    (legal : parts.IsLegal model1 model2 move) : ¬ parts.Throws move := by
  rw [input.throws_iff legal]
  cases move with
  | first loc1 loc2 t1 =>
      rintro ⟨type, same⟩
      exact unobstructed.initial1 _ reaches t1 legal.1 legal.2 type same
  | second loc1 loc2 t2 =>
      rintro (⟨type, same⟩ | ⟨type, output⟩)
      · exact unobstructed.initial2 _ reaches t2 legal.1 legal.2 type same
      · exact unobstructed.input2 _ reaches t2 legal.1 legal.2 type output
  | both loc1 loc2 t1 t2 => exact id

theorem IsParallelInput.reaches_of_legally (partners : AllHavePartners model1 model2 parts)
    {pair : String × String} (reaches : parts.LegallyReaches model1 model2 pair) :
    (parts.search model1 model2).Reaches parts.root pair := by
  induction reaches with
  | refl => exact .refl
  | tail before step induction =>
      obtain ⟨move, legal, rfl, rfl⟩ := step
      apply Relation.ReflTransGen.tail induction
      exact ⟨move, input.mem_moves.mpr ⟨rfl, legal, partners move before legal⟩, rfl⟩

omit input in
theorem followed_declared {followed : List Move} {result : TIOSTS}
    (returned : followed.foldlM Move.create parts.base = .ok result) :
    ∀ move ∈ followed, ¬ parts.Throws move := by
  intro move member
  obtain ⟨before, after, rfl⟩ := List.append_of_mem member
  rw [List.foldlM_append] at returned
  obtain ⟨pc, reached, rest⟩ := bind_eq_ok.mp returned
  rw [List.foldlM_cons] at rest
  obtain ⟨next, created, _⟩ := bind_eq_ok.mp rest
  exact (create_isOk_iff (follows_of_foldlM parts.base_labelled reached) move).mp
    ⟨next, created⟩

/-- A search on a fresh instance that returns. -/
structure Returns (model1 model2 : TIOSTS) (parts : Parts) (followed : List Move)
    (entered : List (String × String)) (result : TIOSTS) : Prop where
  explores : (parts.search model1 model2).Explores
    ((parts.search model1 model2).moves parts.root) parts.base
      [(parts.search model1 model2).key parts.root] followed entered (.ok result)

omit input in
theorem Returns.follows {followed : List Move} {entered : List (String × String)}
    {result : TIOSTS} (returns : Returns model1 model2 parts followed entered result) :
    Follows parts.base followed result :=
  follows_of_foldlM parts.base_labelled (returns.explores.state_eq result rfl)

/-- With distinct keys and no partner missing, all legal moves at reachable pairs are
followed. -/
theorem IsParallelInput.followed_of_legal {followed : List Move}
    {entered : List (String × String)} {result : TIOSTS}
    (returns : Returns model1 model2 parts followed entered result)
    (partners : AllHavePartners model1 model2 parts)
    (keys : ∀ pair other, parts.LegallyReaches model1 model2 pair →
      parts.LegallyReaches model1 model2 other →
        visitedKey pair.1 pair.2 = visitedKey other.1 other.2 → pair = other)
    {move : Move} (reaches : parts.LegallyReaches model1 model2 move.source)
    (legal : parts.IsLegal model1 model2 move) : move ∈ followed := by
  have injective : ∀ pair other, (parts.search model1 model2).Reaches parts.root pair →
      (parts.search model1 model2).Reaches parts.root other →
        (parts.search model1 model2).key pair = (parts.search model1 model2).key other →
          pair = other := by
    intro pair other pairReaches otherReaches same
    exact keys pair other (input.legallyReaches pairReaches)
      (input.legallyReaches otherReaches) same
  have isEntered := returns.explores.enters_reachable injective
    (input.reaches_of_legally partners reaches)
  have listed := input.mem_moves.mpr ⟨rfl, legal, partners move reaches legal⟩
  obtain ⟨given, atNodes, _⟩ := returns.explores.covers result rfl
  rcases List.mem_cons.mp isEntered with isRoot | inEntered
  · apply given
    rw [← isRoot]
    exact listed
  · exact atNodes _ inEntered move listed

theorem IsUnobstructed.losesNothing (unobstructed : IsUnobstructed model1 model2 parts) :
    LosesNothing order model1 model2 parts := by
  obtain ⟨followed, entered, result, explores, bound, outcome⟩ :=
    input.exists_explores (List.not_mem_nil : _ ∉ ([] : List String))
  have partners := unobstructed.allHavePartners
  cases result with
  | error failure =>
      obtain ⟨final, move, reached, fails, origin⟩ := explores.error_eq failure rfl
      obtain ⟨reaches, listed⟩ := input.origin_legal explores.reached origin
      obtain ⟨_, legal, _⟩ := input.mem_moves.mp listed
      have declared := unobstructed.not_throws input (input.legallyReaches reaches) legal
      have follows := follows_of_foldlM parts.base_labelled reached
      obtain ⟨next, created⟩ := (create_isOk_iff follows move).mpr declared
      rw [show move.create final = .error failure from fails] at created
      cases created
  | ok result =>
      have returns : Returns model1 model2 parts followed entered result := ⟨explores⟩
      refine ⟨result, ⟨bound, fun depth enough => by rw [outcome depth enough]⟩, ?_⟩
      rintro pair reaches move legal rfl
      have isFollowed := input.followed_of_legal returns partners unobstructed.keys reaches
        legal
      have inResult : move.transition.plain ∈
          (result.outOf (pairLabel move.source)).map Transition.plain := by
        rw [returns.follows.outOf]
        apply List.mem_append_right
        apply List.mem_filter.mpr
        refine ⟨List.mem_map_of_mem isFollowed, ?_⟩
        simp [Move.transition_source]
      obtain ⟨transition, member, same⟩ := List.mem_map.mp inResult
      exact ⟨transition, member, same⟩

omit input in
theorem both_leave {pair : String × String} {move : Move}
    (member : move ∈ (parts.search model1 model2).moves pair) :
    parts.tiosts1.outOf pair.1 ≠ [] ∧ parts.tiosts2.outOf pair.2 ≠ [] := by
  have listed : move ∈ List.flatMap _ _ := member
  obtain ⟨t1, in1, later⟩ := List.mem_flatMap.mp listed
  obtain ⟨t2, in2, _⟩ := List.mem_flatMap.mp later
  exact ⟨List.ne_nil_of_mem in1, List.ne_nil_of_mem in2⟩

section Plain

variable (avoid1 : model1.LabelsAvoid [',']) (avoid2 : model2.LabelsAvoid [','])

include avoid1 in
theorem IsParallelInput.plain1 {label : String} (registered : parts.tiosts1.IsRegistered label) :
    ',' ∉ label.toList :=
  avoid1 label ((input.exactCopy1.isRegistered label).mp registered) ',' (by simp)

include avoid1 in
theorem IsParallelInput.pairLabel_inj {pair other : String × String}
    (inside : parts.Inside pair) (otherInside : parts.Inside other)
    (same : pairLabel pair = pairLabel other) : pair = other := by
  obtain ⟨one, two⟩ := composedLabel_inj (input.plain1 avoid1 inside.1)
    (input.plain1 avoid1 otherInside.1) same
  exact Prod.ext one two

theorem IsParallelInput.visitedKey_inj (divides : DividesKeys model1)
    {pair other : String × String} (inside : parts.Inside pair)
    (otherInside : parts.Inside other)
    (same : visitedKey pair.1 pair.2 = visitedKey other.1 other.2) : pair = other := by
  have plain : ∀ {label}, parts.tiosts1.IsRegistered label → ¬ [',', ' '] <:+: label.toList :=
    fun registered => divides _ ((input.exactCopy1.isRegistered _).mp registered)
  obtain ⟨one, two⟩ := ParallelComposition.visitedKey_inj (plain inside.1)
    (plain otherInside.1) same
  exact Prod.ext one two

include avoid1 in
/-- Where one of the two components cannot move the composition has no transition. -/
theorem IsParallelInput.both_leave_of_mem {followed : List Move}
    {entered : List (String × String)} {result : TIOSTS}
    (returns : Returns model1 model2 parts followed entered result)
    {pair : String × String} (reaches : parts.LegallyReaches model1 model2 pair)
    {transition : Transition} (member : transition ∈ result.outOf (pairLabel pair)) :
    parts.tiosts1.outOf pair.1 ≠ [] ∧ parts.tiosts2.outOf pair.2 ≠ [] := by
  have inside := input.reached_inside reaches
  have inPlain := List.mem_map_of_mem (f := Transition.plain) member
  rw [returns.follows.outOf] at inPlain
  rcases List.mem_append.mp inPlain with atBase | atFollowed
  · obtain ⟨initial, isInitial, _⟩ := List.mem_map.mp atBase
    rw [parts.base_outOf] at isInitial
    obtain ⟨_, source⟩ := List.mem_filter.mp isInitial
    obtain ⟨start1, _, in1⟩ := input.init1_mem
    obtain ⟨start2, _, in2⟩ := input.init2_mem
    have source1 := input.exactCopy1.wellFormed.source_eq in1
    have source2 := input.exactCopy2.wellFormed.source_eq in2
    have label : pairLabel pair = pairLabel (parts.init1.source, parts.init2.source) := by
      rw [List.mem_singleton.mp (List.mem_filter.mp isInitial).1] at source
      exact of_decide_eq_true source
    have startInside : parts.Inside (parts.init1.source, parts.init2.source) := by
      constructor
      · rw [source1]
        exact TIOSTS.isRegistered_of_mem_outOf in1
      · rw [source2]
        exact TIOSTS.isRegistered_of_mem_outOf in2
    obtain rfl := input.pairLabel_inj avoid1 inside startInside label
    rw [source1, source2]
    exact ⟨List.ne_nil_of_mem in1, List.ne_nil_of_mem in2⟩
  · obtain ⟨listed, source⟩ := List.mem_filter.mp atFollowed
    obtain ⟨move, isFollowed, same⟩ := List.mem_map.mp listed
    obtain ⟨moveReaches, atMove⟩ := input.origin_legal returns.explores.reached
      (returns.explores.sound move isFollowed)
    have label : pairLabel pair = pairLabel move.source := by
      rw [← move.transition_source, ← Transition.plain_source, same]
      exact of_decide_eq_true source
    have moveInside := input.reached_inside (input.legallyReaches moveReaches)
    rw [input.pairLabel_inj avoid1 inside moveInside label]
    exact both_leave atMove

include avoid1 in
theorem IsParallelInput.unobstructed (nothing : LosesNothing order model1 model2 parts) :
    IsUnobstructed model1 model2 parts := by
  obtain ⟨result, ⟨bound, returned⟩, yields⟩ := nothing
  obtain ⟨followed, entered, other, explores, otherBound, outcome⟩ :=
    input.exists_explores (List.not_mem_nil : _ ∉ ([] : List String))
  have same : other = .ok result := by
    have one := returned (max bound otherBound) (le_max_left _ _)
    rw [outcome _ (le_max_right _ _)] at one
    exact one
  subst same
  have returns : Returns model1 model2 parts followed entered result := ⟨explores⟩
  have keys : ∀ pair other, parts.LegallyReaches model1 model2 pair →
      parts.LegallyReaches model1 model2 other →
        visitedKey pair.1 pair.2 = visitedKey other.1 other.2 → pair = other := by
    intro pair other pairReaches otherReaches
    exact input.visitedKey_inj (dividesKeys_of_labelsAvoid avoid1)
      (input.reached_inside pairReaches) (input.reached_inside otherReaches)
  have leave : ∀ move, parts.LegallyReaches model1 model2 move.source →
      parts.IsLegal model1 model2 move →
        parts.tiosts1.outOf move.source.1 ≠ [] ∧ parts.tiosts2.outOf move.source.2 ≠ [] := by
    intro move reaches legal
    obtain ⟨transition, member, _⟩ := yields _ reaches move legal rfl
    exact input.both_leave_of_mem avoid1 returns reaches member
  have partners : AllHavePartners model1 model2 parts := by
    intro move reaches legal
    cases move with
    | first loc1 loc2 t1 => exact (leave _ reaches legal).2
    | second loc1 loc2 t2 => exact (leave _ reaches legal).1
    | both loc1 loc2 t1 t2 => trivial
  have declared : ∀ move, parts.LegallyReaches model1 model2 move.source →
      parts.IsLegal model1 model2 move → ¬ parts.Throws move := by
    intro move reaches legal
    apply followed_declared (returns.explores.state_eq result rfl)
    exact input.followed_of_legal returns partners keys reaches legal
  constructor
  · intro pair reaches t1 in1 outside
    exact (leave (.first pair.1 pair.2 t1) reaches ⟨in1, outside⟩).2
  · intro pair reaches t2 in2 outside
    exact (leave (.second pair.1 pair.2 t2) reaches ⟨in2, outside⟩).1
  · exact keys
  · intro pair reaches t1 in1 outside type same
    have legal : parts.IsLegal model1 model2 (.first pair.1 pair.2 t1) := ⟨in1, outside⟩
    apply declared (.first pair.1 pair.2 t1) reaches legal
    apply (input.throws_iff legal).mpr
    exact ⟨type, same⟩
  · intro pair reaches t2 in2 outside type same
    have legal : parts.IsLegal model1 model2 (.second pair.1 pair.2 t2) := ⟨in2, outside⟩
    apply declared (.second pair.1 pair.2 t2) reaches legal
    apply (input.throws_iff legal).mpr
    exact Or.inl ⟨type, same⟩
  · intro pair reaches t2 in2 outside type output
    have legal : parts.IsLegal model1 model2 (.second pair.1 pair.2 t2) := ⟨in2, outside⟩
    apply declared (.second pair.1 pair.2 t2) reaches legal
    apply (input.throws_iff legal).mpr
    exact Or.inr ⟨type, output⟩

omit input in
theorem IsParts.fresh_returns (isParts : IsParts order model1 model2 parts) {depth : Nat}
    {after : List String} {result : TIOSTS}
    (returned : (parallelComposition order depth model1 model2).outcome [] =
      (.ok result, after)) :
    ∃ followed entered, Returns model1 model2 parts followed entered result := by
  rw [isParts.outcome] at returned
  cases depth with
  | zero => cases congrArg Prod.fst returned
  | succ depth =>
      rw [MarkedSearch.visit_fresh List.not_mem_nil] at returned
      have notCut : (.ok result : Except Failure TIOSTS) ≠
          .error (parts.search model1 model2).cutOff := by
        intro impossible
        cases impossible
      obtain ⟨followed, entered, explores, _⟩ :=
        MarkedSearch.explores_of_follow returned notCut
      exact ⟨followed, entered, ⟨explores⟩⟩

omit input in
theorem Returns.entered_reached {followed : List Move} {entered : List (String × String)}
    {result : TIOSTS} (returns : Returns model1 model2 parts followed entered result)
    {pair : String × String} (isEntered : pair ∈ parts.root :: entered) :
    (parts.search model1 model2).Reaches parts.root pair := by
  rcases List.mem_cons.mp isEntered with rfl | later
  · exact .refl
  · obtain ⟨move, atRoot, reaches⟩ := returns.explores.reached pair later
    exact .head ⟨move, atRoot, rfl⟩ reaches

theorem IsParallelInput.keys_inj (divides : DividesKeys model1) (pair other : String × String)
    (pairReaches : (parts.search model1 model2).Reaches parts.root pair)
    (otherReaches : (parts.search model1 model2).Reaches parts.root other)
    (same : (parts.search model1 model2).key pair = (parts.search model1 model2).key other) :
    pair = other :=
  input.visitedKey_inj divides (input.reached_inside (input.legallyReaches pairReaches))
    (input.reached_inside (input.legallyReaches otherReaches)) same

include avoid1 in
theorem IsParallelInput.entered_of_reached {followed : List Move}
    {entered : List (String × String)} {result : TIOSTS}
    (returns : Returns model1 model2 parts followed entered result) {pair : String × String}
    (reaches : (parts.search model1 model2).Reaches parts.root pair) :
    pair ∈ parts.root :: entered :=
  returns.explores.enters_reachable
    (input.keys_inj (dividesKeys_of_labelsAvoid avoid1)) reaches

include avoid1 in
/-- A returned call on a fresh instance has followed every move of every pair it can
reach. -/
theorem IsParallelInput.fresh_followed {depth : Nat} {after : List String} {result : TIOSTS}
    (returned : (parallelComposition order depth model1 model2).outcome [] =
      (.ok result, after)) :
    ∃ followed, Follows parts.base followed result ∧
      followed.foldlM Move.create parts.base = .ok result ∧
      ∀ move, move ∈ followed ↔ (parts.search model1 model2).Reaches parts.root move.source ∧
        move ∈ (parts.search model1 model2).moves move.source := by
  obtain ⟨followed, entered, returns⟩ := input.isParts.fresh_returns returned
  refine ⟨followed, returns.follows, returns.explores.state_eq result rfl, ?_⟩
  intro move
  constructor
  · intro member
    exact input.origin_legal returns.explores.reached (returns.explores.sound move member)
  · rintro ⟨reaches, listed⟩
    obtain ⟨given, atNodes, _⟩ := returns.explores.covers result rfl
    rcases List.mem_cons.mp (input.entered_of_reached avoid1 returns reaches) with
      isRoot | inEntered
    · apply given
      rw [← isRoot]
      exact listed
    · exact atNodes _ inEntered move listed

end Plain

end Input

/-- On a fresh instance no interleaving is lost if nothing obstructs a move, and, when no
label of the first model contains a comma, only then. -/
theorem parallelComposition_losesNothing_iff {order : IterationOrder} {model1 model2 : TIOSTS}
    {parts : Parts} (input : IsParallelInput order model1 model2 parts) :
    (IsUnobstructed model1 model2 parts → LosesNothing order model1 model2 parts) ∧
      (model1.LabelsAvoid [','] →
        (LosesNothing order model1 model2 parts ↔ IsUnobstructed model1 model2 parts)) := by
  constructor
  · exact fun unobstructed => unobstructed.losesNothing input
  · intro avoid1
    constructor
    · exact input.unobstructed avoid1
    · exact fun unobstructed => unobstructed.losesNothing input

namespace InterleavingInstance

def order : IterationOrder := ⟨id, IterationOrder.id_perm⟩

def x : Action := ⟨"x", .output, []⟩

def y : Action := ⟨"y", .output, []⟩

/-- The first component moves from `a` to the given location, the second from `c`. -/
def model1 (next : String) : TIOSTS :=
  .assemble (.declare "M" [⟨"i", .internal, []⟩, x] [] [] []) ["s", "a", "b"] "s"
    [.bare "s" ⟨"i", .internal, []⟩ "a", .bare "a" x next]

def model2 : TIOSTS :=
  .assemble (.declare "N" [⟨"j", .internal, []⟩, y] [] [] []) ["t", "c"] "t"
    [.bare "t" ⟨"j", .internal, []⟩ "c", .bare "c" y "c"]

theorem model1_wellFormed {next : String} (uses : TIOSTS.Uses
    (.declare "M" [⟨"i", .internal, []⟩, x] [] [] []) ["s", "a", "b"] "s"
      [.bare "s" ⟨"i", .internal, []⟩ "a", .bare "a" x next]) : (model1 next).WellFormed :=
  TIOSTS.assemble_wellFormed (TIOSTS.declare_isBlank _ _ _ _ _) uses

theorem model2_wellFormed : model2.WellFormed :=
  TIOSTS.assemble_wellFormed (TIOSTS.declare_isBlank _ _ _ _ _) (by decide)

theorem found_of_run {one two : TIOSTS} {checked : Parts → Bool} (wellFormed1 : one.WellFormed)
    (wellFormed2 : two.WellFormed)
    (ran : (findParts order one two).toOption.map checked = some true) :
    ∃ parts, IsParallelInput order one two parts ∧ checked parts = true := by
  cases outcome : findParts order one two with
  | error failure =>
      rw [outcome] at ran
      cases ran
  | ok parts =>
      rw [outcome] at ran
      exact ⟨parts, ⟨wellFormed1, wellFormed2, isParts_of_findParts outcome⟩,
        Option.some.inj ran⟩

/-- Both components can only go round in a loop. -/
def Loops (parts : Parts) (loc1 loc2 : String) (action1 action2 : Action) : Prop :=
  parts.root = (loc1, loc2) ∧ parts.tiosts1.outOf loc1 = [.bare loc1 action1 loc1] ∧
    parts.tiosts2.outOf loc2 = [.bare loc2 action2 loc2]

instance (parts : Parts) (loc1 loc2 : String) (action1 action2 : Action) :
    Decidable (Loops parts loc1 loc2 action1 action2) :=
  inferInstanceAs (Decidable (_ ∧ _))

section Looping

variable {one two : TIOSTS} {parts : Parts} {loc1 loc2 : String} {action1 action2 : Action}

theorem Loops.stays (loops : Loops parts loc1 loc2 action1 action2)
    {pair : String × String} (reaches : parts.LegallyReaches one two pair) :
    pair = (loc1, loc2) := by
  obtain ⟨root, out1, out2⟩ := loops
  induction reaches with
  | refl => exact root
  | tail _ step induction =>
      subst induction
      obtain ⟨move, legal, source, rfl⟩ := step
      cases move with
      | first _ _ t1 =>
          obtain ⟨rfl, rfl⟩ := Prod.mk.inj source
          have isLoop := legal.1
          rw [out1] at isLoop
          rw [List.mem_singleton.mp isLoop]
          rfl
      | second _ _ t2 =>
          obtain ⟨rfl, rfl⟩ := Prod.mk.inj source
          have isLoop := legal.1
          rw [out2] at isLoop
          rw [List.mem_singleton.mp isLoop]
          rfl
      | both _ _ t1 t2 =>
          obtain ⟨rfl, rfl⟩ := Prod.mk.inj source
          have isLoop1 := legal.1
          have isLoop2 := legal.2.1
          rw [out1] at isLoop1
          rw [out2] at isLoop2
          rw [List.mem_singleton.mp isLoop1, List.mem_singleton.mp isLoop2]
          rfl

theorem Loops.isUnobstructed (loops : Loops parts loc1 loc2 action1 action2)
    (output1 : action1.type = .output) (output2 : action2.type = .output) :
    IsUnobstructed one two parts := by
  have out1 := loops.2.1
  have out2 := loops.2.2
  have actions1 : ∀ pair, parts.LegallyReaches one two pair →
      ∀ t1 ∈ parts.tiosts1.outOf pair.1, t1.action = action1 := by
    intro pair reaches t1 in1
    rw [loops.stays reaches, out1] at in1
    rw [List.mem_singleton.mp in1]
    rfl
  have actions2 : ∀ pair, parts.LegallyReaches one two pair →
      ∀ t2 ∈ parts.tiosts2.outOf pair.2, t2.action = action2 := by
    intro pair reaches t2 in2
    rw [loops.stays reaches, out2] at in2
    rw [List.mem_singleton.mp in2]
    rfl
  constructor
  · intro pair reaches _ _ _
    rw [loops.stays reaches, out2]
    exact List.cons_ne_nil _ _
  · intro pair reaches _ _ _
    rw [loops.stays reaches, out1]
    exact List.cons_ne_nil _ _
  · intro pair other reaches otherReaches _
    exact (loops.stays reaches).trans (loops.stays otherReaches).symm
  · intro pair reaches t1 in1 _ type
    rw [actions1 pair reaches t1 in1, output1] at type
    cases type
  · intro pair reaches t2 in2 _ type
    rw [actions2 pair reaches t2 in2, output2] at type
    cases type
  · intro pair reaches t2 in2 _ type
    rw [actions2 pair reaches t2 in2, output2] at type
    cases type

end Looping

end InterleavingInstance

open InterleavingInstance in
/-- Two loops interleave for ever. -/
theorem parallelComposition_losesNothing_loops :
    ∃ parts, IsParallelInput order (model1 "a") model2 parts ∧
      LosesNothing order (model1 "a") model2 parts := by
  have ran : (findParts order (model1 "a") model2).toOption.map (fun parts =>
      decide (Loops parts "a" "c" x y)) = some true := by decide
  obtain ⟨parts, input, checked⟩ :=
    found_of_run (model1_wellFormed (by decide)) model2_wellFormed ran
  have loops := of_decide_eq_true checked
  exact ⟨parts, input,
    (parallelComposition_losesNothing_iff input).1 (loops.isUnobstructed rfl rfl)⟩

open InterleavingInstance in
/-- After its only transition the first component stops the second one. -/
theorem parallelComposition_loses_second :
    ∃ parts, IsParallelInput order (model1 "b") model2 parts ∧
      ¬ LosesNothing order (model1 "b") model2 parts := by
  have ran : (findParts order (model1 "b") model2).toOption.map (fun parts =>
      decide (parts.root = ("a", "c") ∧
        (parts.tiosts1.outOf "a" = [.bare "a" x "b"] ∧
          (parts.tiosts1.outOf "b" = [] ∧
            parts.tiosts2.outOf "c" = [.bare "c" y "c"])))) = some true := by decide
  obtain ⟨parts, input, checked⟩ :=
    found_of_run (model1_wellFormed (by decide)) model2_wellFormed ran
  obtain ⟨root, outA, outB, outC⟩ := of_decide_eq_true checked
  refine ⟨parts, input, ?_⟩
  intro nothing
  have avoid : (model1 "b").LabelsAvoid [','] := by
    have blank : (TIOSTS.declare "M" [⟨"i", .internal, []⟩, x] [] [] []).IsBlank :=
      TIOSTS.declare_isBlank _ _ _ _ _
    exact TIOSTS.assemble_labelsAvoid blank (by decide)
  have reaches : parts.LegallyReaches (model1 "b") model2 ("b", "c") := by
    apply Relation.ReflTransGen.single
    refine ⟨.first "a" "c" (.bare "a" x "b"), ⟨?_, by decide⟩, root.symm, rfl⟩
    rw [outA]
    exact List.mem_cons_self
  have unobstructed := input.unobstructed avoid nothing
  apply unobstructed.partner2 ("b", "c") reaches (.bare "c" y "c") ?_ (by decide) outB
  rw [outC]
  exact List.mem_cons_self

end ParallelComposition

end Symbolrt
