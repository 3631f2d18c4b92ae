import Symbolrt.Lib.InStep
import Symbolrt.SymbolicExecution.AcceptStates
import Symbolrt.SymbolicExecution.TestCaseSelection
import Symbolrt.SymbolicExecution.FreshParameters

/-!
# Test trees

A test tree consists of a copy of the path to its accept state and of inconclusive leaves
beside the path.  The forward traversal may follow another child than the path does, but
states with equal paths above them have equal branches.
-/

namespace Symbolrt

open SymbolicExecution TestCaseSelection

/-- What the transition carries is what the other carries. -/
structure SymbolicTransition.IsCopyOf (copy original : SymbolicTransition) : Prop where
  symbolicAction : copy.symbolicAction = original.symbolicAction
  clockGuard : copy.clockGuard = original.clockGuard
  clockAssignments : copy.clockAssignments = original.clockAssignments
  deadline : copy.deadline = original.deadline

/-- A leaf of the test tree for an input transition of the full tree. -/
structure IsLeafFor (zset testTree : SymbolicExecutionTree) (copy : Nat)
    (input leaf : SymbolicTransition) : Prop where
  isCopyOf : leaf.IsCopyOf input
  sourceZSES : leaf.sourceZSES = copy
  target : ∃ state location, zset.getState input.targetZSES = some state ∧
    createInconclusiveLocation state.location = .ok location ∧
    testTree.getNode leaf.targetZSES = some ⟨{ state with location := location }, some leaf, []⟩

/-- The path down to the accept state is copied, with a leaf for each of the transitions that
stand beside the path.  The last list holds the states of the test tree from the copy on. -/
inductive CopiesPath (zset testTree : SymbolicExecutionTree) (acceptZSES : Nat)
    (beside : SymbolicNode → SymbolicTransition → List SymbolicTransition) :
    Nat → Option SymbolicTransition → Nat → List SymbolicTransition → List Nat → Prop where
  | accept {copy : Nat} {parent : Option SymbolicTransition} {node : SymbolicNode} :
      zset.getNode acceptZSES = some node →
      testTree.getNode copy = some ⟨node.state, parent, []⟩ →
      CopiesPath zset testTree acceptZSES beside acceptZSES parent copy [] [copy]
  | step {reference copy : Nat} {parent : Option SymbolicTransition} {node : SymbolicNode}
      {taken copied : SymbolicTransition} {leaves path : List SymbolicTransition}
      {references : List Nat} :
      zset.getNode reference = some node → taken ∈ node.childrenTransitions →
      testTree.getNode copy = some ⟨node.state, parent, copied :: leaves⟩ →
      copied.IsCopyOf taken → copied.sourceZSES = copy →
      List.Forall₂ (IsLeafFor zset testTree copy) (beside node taken) leaves →
      CopiesPath zset testTree acceptZSES beside taken.targetZSES (some copied)
        copied.targetZSES path references →
      CopiesPath zset testTree acceptZSES beside reference parent copy (taken :: path)
        (copy :: (leaves.map SymbolicTransition.targetZSES ++ references))

/-- The test tree copies a path from the root to the accept state and has no other states. -/
def IsTestTree (zset : SymbolicExecutionTree)
    (beside : SymbolicNode → SymbolicTransition → List SymbolicTransition) (acceptZSES : Nat)
    (testTree : SymbolicExecutionTree) : Prop :=
  ∃ root copy path references, zset.initialZSES = some root ∧
    testTree.initialZSES = some copy ∧
    CopiesPath zset testTree acceptZSES beside root none copy path references ∧
    references.Perm (List.range testTree.next)

/-- The input transitions of the state that the path does not take. -/
def inputsBeside (zset : SymbolicExecutionTree) (node : SymbolicNode)
    (taken : SymbolicTransition) : List SymbolicTransition :=
  node.getOutgoingInputTransitions.filter (fun input =>
    !(taken.symbolicAction.action.type == ActionType.input && input.equals zset zset taken))

/-- The input transitions of the state that are not equal to the one of the path. -/
def inputsOtherThan (zset : SymbolicExecutionTree) (node : SymbolicNode)
    (taken : SymbolicTransition) : List SymbolicTransition :=
  node.getOutgoingInputTransitions.filter (fun input => !input.equals zset zset taken)

section Frames

variable {zset testTree other : SymbolicExecutionTree} {acceptZSES reference copy : Nat}
  {beside : SymbolicNode → SymbolicTransition → List SymbolicTransition}
  {parent : Option SymbolicTransition} {path : List SymbolicTransition} {references : List Nat}

theorem CopiesPath.copy_mem
    (copies : CopiesPath zset testTree acceptZSES beside reference parent copy path references) :
    ∃ rest, references = copy :: rest := by
  cases copies with
  | accept => exact ⟨[], rfl⟩
  | step => exact ⟨_, rfl⟩

theorem IsLeafFor.congr {input leaf : SymbolicTransition}
    (isLeaf : IsLeafFor zset testTree copy input leaf)
    (same : other.getNode leaf.targetZSES = testTree.getNode leaf.targetZSES) :
    IsLeafFor zset other copy input leaf := by
  refine ⟨isLeaf.isCopyOf, isLeaf.sourceZSES, ?_⟩
  rw [same]
  exact isLeaf.target

theorem forall₂_isLeafFor_congr {inputs leaves : List SymbolicTransition}
    (areLeaves : List.Forall₂ (IsLeafFor zset testTree copy) inputs leaves)
    (same : ∀ leaf ∈ leaves,
      other.getNode leaf.targetZSES = testTree.getNode leaf.targetZSES) :
    List.Forall₂ (IsLeafFor zset other copy) inputs leaves := by
  induction areLeaves with
  | nil => exact List.Forall₂.nil
  | cons isLeaf _ induction =>
      refine List.Forall₂.cons (isLeaf.congr (same _ List.mem_cons_self)) (induction ?_)
      exact fun leaf member => same leaf (List.mem_cons_of_mem _ member)

theorem CopiesPath.copy_state
    (copies : CopiesPath zset testTree acceptZSES beside reference parent copy path references) :
    testTree.getState copy = zset.getState reference := by
  cases copies with
  | accept found copyFound =>
      rw [SymbolicExecutionTree.getState, SymbolicExecutionTree.getState, found, copyFound]
      rfl
  | step found _ copyFound =>
      rw [SymbolicExecutionTree.getState, SymbolicExecutionTree.getState, found, copyFound]
      rfl

theorem CopiesPath.congr
    (copies : CopiesPath zset testTree acceptZSES beside reference parent copy path references)
    (same : ∀ listed ∈ references, other.getNode listed = testTree.getNode listed) :
    CopiesPath zset other acceptZSES beside reference parent copy path references := by
  induction copies with
  | accept found copyFound =>
      exact .accept found ((same _ (List.mem_singleton_self _)).trans copyFound)
  | step found member copyFound isCopyOf source areLeaves _ induction =>
      refine .step found member ((same _ List.mem_cons_self).trans copyFound) isCopyOf source
        (forall₂_isLeafFor_congr areLeaves ?_) (induction ?_)
      · intro leaf isLeaf
        exact same _ (List.mem_cons_of_mem _ (List.mem_append_left _ (List.mem_map_of_mem isLeaf)))
      · intro listed later
        exact same listed (List.mem_cons_of_mem _ (List.mem_append_right _ later))

/-- The copy at the top gets its parent transition. -/
theorem CopiesPath.setParent
    (copies : CopiesPath zset testTree acceptZSES beside reference parent copy path references)
    (nodup : references.Nodup) (transition : SymbolicTransition)
    (changed : other.getNode copy = (testTree.getNode copy).map
      (SymbolicNode.setParentTransition transition))
    (same : ∀ listed ∈ references, listed ≠ copy →
      other.getNode listed = testTree.getNode listed) :
    CopiesPath zset other acceptZSES beside reference (some transition) copy path references := by
  cases copies with
  | accept found copyFound =>
      rw [copyFound] at changed
      exact .accept found changed
  | step found member copyFound isCopyOf source areLeaves below =>
      rw [copyFound] at changed
      have apart := (List.nodup_cons.mp nodup).1
      have kept : ∀ listed ∈ _ ++ _, other.getNode listed = testTree.getNode listed :=
        fun listed later => same listed (List.mem_cons_of_mem _ later)
          (fun isCopy => apart (isCopy ▸ later))
      refine .step found member changed isCopyOf source (forall₂_isLeafFor_congr areLeaves ?_)
        (below.congr ?_)
      · exact fun leaf isLeaf => kept _ (List.mem_append_left _ (List.mem_map_of_mem isLeaf))
      · exact fun listed later => kept listed (List.mem_append_right _ later)

end Frames

section Backward

variable {tools : SymbolicTools} {tiosts : TIOSTS} {root : SymbolicState}
  {zset testTree : SymbolicExecutionTree} {trace : Nat → Trace}

section Parent

variable (transition : SymbolicTransition) (parentZSES : SymbolicState) {current : Nat}

theorem next_addParent (current : Nat) :
    (addParent transition parentZSES current testTree).next = testTree.next + 1 := by
  simp [addParent]

theorem getNode_addParent_new (inside : current < testTree.next) :
    ∃ copied, (addParent transition parentZSES current testTree).getNode testTree.next =
        some ⟨parentZSES, none, [copied]⟩ ∧ copied.IsCopyOf transition ∧
      copied.sourceZSES = testTree.next ∧ copied.targetZSES = current ∧
      (addParent transition parentZSES current testTree).getNode current =
        (testTree.getNode current).map (SymbolicNode.setParentTransition copied) := by
  refine ⟨⟨testTree.next, transition.symbolicAction, transition.clockGuard.clone,
    transition.clockAssignments, transition.deadline, current⟩, ?_, ?_, rfl, rfl, ?_⟩
  · rw [addParent, SymbolicExecutionTree.getNode_updateNode, if_pos rfl,
      SymbolicExecutionTree.getNode_updateNode, if_neg (Nat.ne_of_gt inside),
      SymbolicExecutionTree.getNode_addSymbolicState, if_pos rfl]
    rfl
  · exact ⟨rfl, transition.clockGuard.clone_eq, rfl, rfl⟩
  · rw [addParent, SymbolicExecutionTree.getNode_updateNode, if_neg (Nat.ne_of_lt inside),
      SymbolicExecutionTree.getNode_updateNode, if_pos rfl,
      SymbolicExecutionTree.getNode_addSymbolicState, if_neg (Nat.ne_of_lt inside)]

theorem getNode_addParent_other {reference : Nat} (isOld : reference ≠ testTree.next)
    (isOther : reference ≠ current) :
    (addParent transition parentZSES current testTree).getNode reference =
      testTree.getNode reference := by
  rw [addParent, SymbolicExecutionTree.getNode_updateNode, if_neg isOld,
    SymbolicExecutionTree.getNode_updateNode, if_neg isOther,
    SymbolicExecutionTree.getNode_addSymbolicState, if_neg isOld]

end Parent

/-- The path alone, without anything beside it. -/
def bare (_ : SymbolicNode) (_ : SymbolicTransition) : List SymbolicTransition := []

/-- One round copies the parent of the state at the top. -/
theorem CopiesPath.addParent {acceptZSES reference copy : Nat} {path : List SymbolicTransition}
    {references : List Nat}
    (copies : CopiesPath zset testTree acceptZSES bare reference none copy path references)
    (only : references.Perm (List.range testTree.next)) {source : SymbolicNode}
    {transition : SymbolicTransition}
    (sourceFound : zset.getNode transition.sourceZSES = some source)
    (member : transition ∈ source.childrenTransitions)
    (target : transition.targetZSES = reference) :
    CopiesPath zset (TestCaseSelection.addParent transition source.state copy testTree) acceptZSES
      bare transition.sourceZSES none testTree.next (transition :: path)
      (testTree.next :: references) := by
  have listed : ∀ known ∈ references, known < testTree.next :=
    fun known among => List.mem_range.mp (only.mem_iff.mp among)
  obtain ⟨rest, references_eq⟩ := copies.copy_mem
  have inside : copy < testTree.next := by
    apply listed copy
    rw [references_eq]
    exact List.mem_cons_self
  obtain ⟨copied, newFound, isCopyOf, copiedSource, copiedTarget, changed⟩ :=
    getNode_addParent_new transition source.state inside
  have nodup : references.Nodup := only.nodup_iff.mpr List.nodup_range
  have below := copies.setParent nodup copied changed (fun known among isOther =>
    getNode_addParent_other transition source.state (Nat.ne_of_lt (listed known among)) isOther)
  rw [← target, ← copiedTarget] at below
  have whole := CopiesPath.step sourceFound member (copiedTarget ▸ newFound) isCopyOf copiedSource
    List.Forall₂.nil below
  rw [copiedTarget] at whole
  exact whole

/-- The loop ends at the root and leaves the copy of the whole path. -/
theorem climb_copies (isTree : IsExecutionTree tools tiosts root zset trace) {acceptZSES : Nat}
    {fuel reference copy : Nat} {parentTTZSES : Option Nat} {node : SymbolicNode}
    {path : List SymbolicTransition} {references : List Nat}
    (found : zset.getNode reference = some node) (enough : reference < fuel)
    (copies : CopiesPath zset testTree acceptZSES bare reference none copy path references)
    (only : references.Perm (List.range testTree.next))
    (hasParent : reference ≠ 0 ∨ parentTTZSES = some copy) :
    ∃ result top whole all, climb zset fuel reference parentTTZSES copy testTree = .ok result ∧
      result.initialZSES = some top ∧
      CopiesPath zset result acceptZSES bare 0 none top whole all ∧
      all.Perm (List.range result.next) := by
  induction fuel generalizing reference copy parentTTZSES node path references testTree with
  | zero => omega
  | succ fuel induction =>
      rw [climb, found, deref_some, ok_bind]
      by_cases isRoot : reference = 0
      · subst isRoot
        obtain ⟨rootNode, rootFound, _, noParent⟩ := isTree.rootNode
        cases found.symm.trans rootFound
        rw [noParent, hasParent.resolve_left (fun absent => absent rfl)]
        exact ⟨_, copy, path, references, rfl, rfl, copies.congr (fun _ _ => rfl), only⟩
      · obtain ⟨transition, source, parent, target, before, sourceFound, member⟩ :=
          isTree.parent reference node found isRoot
        have state : zset.getState transition.sourceZSES = some source.state :=
          congrArg (Option.map SymbolicNode.state) sourceFound
        rw [parent]
        simp only [state, deref_some, ok_bind]
        refine induction sourceFound (by omega)
          (copies.addParent only sourceFound member target) ?_ (Or.inr rfl)
        rw [next_addParent, List.range_succ]
        exact (only.cons _).trans (List.perm_append_singleton _ _).symm

/-- From a state other than the root, the backward traversal copies the path to it. -/
theorem backwardTraversal_copies (isTree : IsExecutionTree tools tiosts root zset trace)
    {acceptZSES : Nat} {node : SymbolicNode} (found : zset.getNode acceptZSES = some node)
    (notRoot : acceptZSES ≠ 0) (name : String) :
    ∃ result top whole all,
      backwardTraversal zset acceptZSES (SymbolicExecutionTree.new name) = .ok result ∧
      result.initialZSES = some top ∧
      CopiesPath zset result acceptZSES bare 0 none top whole all ∧
      all.Perm (List.range result.next) := by
  have state : zset.getState acceptZSES = some node.state :=
    congrArg (Option.map SymbolicNode.state) found
  rw [backwardTraversal, state, deref_some, ok_bind]
  have inside := SymbolicExecutionTree.lt_next_of_getNode found
  exact climb_copies isTree found (by omega) (CopiesPath.accept found rfl) (List.Perm.refl _)
    (Or.inl notRoot)

end Backward

/-- A word at the end of a longer text is found behind the first character. -/
theorem cutLabel_ok {label word : String} (ends : Text.endsWith label word = true)
    (longer : word.toList.length < label.toList.length) : ∃ cut, cutLabel label word = .ok cut := by
  obtain ⟨before, whole⟩ := List.isSuffixOf_iff_suffix.mp ends
  have length := congrArg List.length whole
  rw [List.length_append] at length
  have isFound : Text.lastIndexOf label word ≠ none := by
    rw [Text.lastIndexOf, Ne, List.find?_eq_none]
    intro nowhere
    apply nowhere before.length (by simp; omega)
    rw [← whole, List.drop_left]
    exact List.isPrefixOf_iff_prefix.mpr (List.prefix_refl _)
  have notFirst : Text.lastIndexOf label word ≠ some 0 := by
    intro first
    rw [Text.lastIndexOf, List.find?_eq_some_iff_append] at first
    obtain ⟨_, later, earlier, split, none⟩ := first
    have member : before.length ∈ later := by
      have inRange : before.length ∈ (List.range (label.toList.length + 1)).reverse := by
        simp
        omega
      rw [split] at inRange
      rcases List.mem_append.mp inRange with inLater | atEnd
      · exact inLater
      · have sorted : ((List.range (label.toList.length + 1)).reverse).Pairwise (· > ·) :=
          List.pairwise_reverse.mpr List.pairwise_lt_range
        rw [split, List.pairwise_append] at sorted
        rcases List.mem_cons.mp atEnd with isZero | beyond
        · omega
        · have below := (List.pairwise_cons.mp sorted.2.1).1 _ beyond
          omega
    have isThere := none before.length member
    rw [← whole, List.drop_left,
      List.isPrefixOf_iff_prefix.mpr (List.prefix_refl word.toList)] at isThere
    cases isThere
  cases found : Text.lastIndexOf label word with
  | none => exact absurd found isFound
  | some position =>
      cases position with
      | zero => exact absurd found notFirst
      | succ position => exact ⟨Text.takePrefix label position, by rw [cutLabel, found]⟩

/-- The label of a product location is longer than the special label at its end. -/
theorem createInconclusiveLocation_ok {location : Location} (joined : '_' ∈ location.label.toList) :
    ∃ created, createInconclusiveLocation location = .ok created := by
  have longer : ∀ word : String, '_' ∉ word.toList → Text.endsWith location.label word = true →
      word.toList.length < location.label.toList.length := by
    intro word absent ends
    have suffix := List.isSuffixOf_iff_suffix.mp ends
    refine Nat.lt_of_le_of_ne suffix.length_le ?_
    intro same
    rw [suffix.eq_of_length same] at absent
    exact absent joined
  obtain ⟨newLabel, shortened⟩ : ∃ newLabel, shortenLabel location.label = .ok newLabel := by
    rw [shortenLabel]
    split
    · rename_i rejects
      exact cutLabel_ok rejects (longer _ (by decide) rejects)
    · split
      · rename_i accepts
        exact cutLabel_ok accepts (longer _ (by decide) accepts)
      · exact ⟨_, rfl⟩
  exact ⟨Location.new (newLabel ++ "_" ++ Constants.verdictInconclusive) false,
    bind_eq_ok.mpr ⟨newLabel, shortened, rfl⟩⟩

/-- Inconclusive locations can be created for all states of the tree. -/
def CreatesInconclusive (zset : SymbolicExecutionTree) : Prop :=
  ∀ reference state, zset.getState reference = some state →
    ∃ location, createInconclusiveLocation state.location = .ok location

/-- The run throws since an inconclusive location cannot be created. -/
def LacksInconclusive {Result : Type} (zset : SymbolicExecutionTree)
    (run : Except Failure Result) : Prop :=
  ¬ CreatesInconclusive zset ∧ ∃ failure, run = .error failure

section Leaves

variable {zset testTree : SymbolicExecutionTree} {copy : Nat}

theorem LacksInconclusive.bind {First Second : Type} {run : Except Failure First}
    (lacks : LacksInconclusive zset run) (next : First → Except Failure Second) :
    LacksInconclusive zset (run >>= next) := by
  obtain ⟨cannot, failure, failed⟩ := lacks
  refine ⟨cannot, failure, ?_⟩
  rw [failed]
  rfl

theorem addInconclusive_leaf (inside : copy < testTree.next)
    {input : SymbolicTransition} {state : SymbolicState} {location : Location}
    (found : zset.getState input.targetZSES = some state)
    (created : createInconclusiveLocation state.location = .ok location) :
    ∃ result leaf, addInconclusive zset copy testTree input = .ok result ∧
      IsLeafFor zset result copy input leaf ∧ leaf.targetZSES = testTree.next ∧
      result.next = testTree.next + 1 ∧ result.initialZSES = testTree.initialZSES ∧
      result.getNode copy =
        (testTree.getNode copy).map (SymbolicNode.addChildTransition leaf) ∧
      ∀ reference < testTree.next, reference ≠ copy →
        result.getNode reference = testTree.getNode reference := by
  have isOld : ∀ reference < testTree.next, reference ≠ testTree.next :=
    fun reference older => Nat.ne_of_lt older
  have ran : addInconclusive zset copy testTree input = .ok _ :=
    bind_eq_ok.mpr ⟨state, deref_eq_ok.mpr found, bind_eq_ok.mpr ⟨location, created, rfl⟩⟩
  refine ⟨_, ⟨copy, input.symbolicAction, input.clockGuard.clone, input.clockAssignments,
    input.deadline, testTree.next⟩, ran, ⟨⟨rfl, input.clockGuard.clone_eq, rfl, rfl⟩, rfl,
    state, location, found, created, ?_⟩, rfl, ?_, rfl, ?_, ?_⟩
  · rw [SymbolicExecutionTree.getNode_updateNode, if_pos rfl,
      SymbolicExecutionTree.getNode_updateNode, if_neg (Nat.ne_of_gt inside),
      SymbolicExecutionTree.getNode_addSymbolicState, if_pos rfl]
    rfl
  · simp
  · rw [SymbolicExecutionTree.getNode_updateNode, if_neg (isOld _ inside),
      SymbolicExecutionTree.getNode_updateNode, if_pos rfl,
      SymbolicExecutionTree.getNode_addSymbolicState, if_neg (isOld _ inside)]
  · intro reference older isOther
    rw [SymbolicExecutionTree.getNode_updateNode, if_neg (isOld _ older),
      SymbolicExecutionTree.getNode_updateNode, if_neg isOther,
      SymbolicExecutionTree.getNode_addSymbolicState, if_neg (isOld _ older)]

/-- The leaves are added behind the children that are there, each with a new target. -/
structure AddsLeaves (zset testTree result : SymbolicExecutionTree) (copy : Nat)
    (node : SymbolicNode) (inputs leaves : List SymbolicTransition) : Prop where
  areLeaves : List.Forall₂ (IsLeafFor zset result copy) inputs leaves
  targets : leaves.map SymbolicTransition.targetZSES =
    List.range' testTree.next inputs.length
  next : result.next = testTree.next + inputs.length
  initialZSES : result.initialZSES = testTree.initialZSES
  copyFound : result.getNode copy = some { node with
    childrenTransitions := node.childrenTransitions ++ leaves }
  outside : ∀ reference < testTree.next, reference ≠ copy →
    result.getNode reference = testTree.getNode reference

theorem foldlM_addInconclusive (inputs : List SymbolicTransition)
    (targets : ∀ input ∈ inputs, ∃ state, zset.getState input.targetZSES = some state)
    {node : SymbolicNode} (found : testTree.getNode copy = some node) :
    LacksInconclusive zset (inputs.foldlM (addInconclusive zset copy) testTree) ∨
    ∃ result leaves, inputs.foldlM (addInconclusive zset copy) testTree = .ok result ∧
      AddsLeaves zset testTree result copy node inputs leaves := by
  induction inputs generalizing testTree node with
  | nil =>
      refine Or.inr ⟨testTree, [], rfl, List.Forall₂.nil, rfl, rfl, rfl, ?_, fun _ _ _ => rfl⟩
      rw [found, List.append_nil]
  | cons input inputs induction =>
      have inside := SymbolicExecutionTree.lt_next_of_getNode found
      obtain ⟨state, targetFound⟩ := targets input List.mem_cons_self
      rw [List.foldlM_cons]
      cases created : createInconclusiveLocation state.location with
      | error failure =>
          refine Or.inl (LacksInconclusive.bind ⟨?_, failure, ?_⟩ _)
          · intro creates
            obtain ⟨location, isCreated⟩ := creates _ state targetFound
            cases created.symm.trans isCreated
          · rw [addInconclusive, targetFound, deref_some, ok_bind, created]
            rfl
      | ok location =>
          obtain ⟨middle, leaf, added, isLeaf, leafTarget, grown, initial, copyMiddle, kept⟩ :=
            addInconclusive_leaf inside targetFound created
          rw [found] at copyMiddle
          rw [added]
          rcases induction
            (fun other later => targets other (List.mem_cons_of_mem _ later)) copyMiddle with
            lacks | ⟨result, leaves, ran, areLeaves, leafTargets, next, sameInitial,
              copyFound, same⟩
          · exact Or.inl lacks
          have leafKept : result.getNode leaf.targetZSES = middle.getNode leaf.targetZSES :=
            same _ (by omega) (by omega)
          refine Or.inr ⟨result, leaf :: leaves, ran,
            List.Forall₂.cons (isLeaf.congr leafKept) areLeaves, ?_, ?_, sameInitial.trans initial,
            ?_, ?_⟩
          · rw [List.map_cons, leafTargets, leafTarget, grown, List.length_cons, List.range'_succ]
          · rw [next, grown, List.length_cons]
            omega
          · rw [copyFound, SymbolicNode.addChildTransition, List.append_assoc]
            rfl
          · intro reference older isOther
            exact (same reference (by omega) isOther).trans (kept reference older isOther)

end Leaves

theorem SymbolicExecutionTree.equalStates_congr
    {tree other sameTree sameOther : SymbolicExecutionTree}
    {reference otherReference sameReference sameOtherReference : Nat}
    (first : tree.getState reference = sameTree.getState sameReference)
    (second : other.getState otherReference = sameOther.getState sameOtherReference) :
    tree.equalStates other reference otherReference =
      sameTree.equalStates sameOther sameReference sameOtherReference := by
  rw [equalStates, equalStates, first, second]

theorem SymbolicState.equals_self (state : SymbolicState) : state.equals state = true := by
  simp [SymbolicState.equals, Location.equals_self]

theorem SymbolicState.eq_of_equals {tiosts : TIOSTS} {state other : SymbolicState}
    (registers : tiosts.Registers state.location) (otherRegisters : tiosts.Registers other.location)
    (equal : state.equals other = true) : state = other := by
  obtain ⟨location, pathCondition, mapping, zone⟩ := state
  obtain ⟨otherLocation, _, _, _⟩ := other
  simp only [SymbolicState.equals, Bool.and_eq_true, beq_iff_eq, decide_eq_true_eq] at equal
  obtain ⟨⟨⟨sameLocation, rfl⟩, rfl⟩, rfl⟩ := equal
  have label : location.label = otherLocation.label :=
    (registers.equals_iff otherRegisters).mp sameLocation
  have found : tiosts.getLocation location.label = some location := registers
  have otherFound : tiosts.getLocation otherLocation.label = some otherLocation := otherRegisters
  cases found.symm.trans (label ▸ otherFound)
  rfl

/-- The branches carry the same between the same states. -/
structure SameBranch (zset : SymbolicExecutionTree) (transition other : SymbolicTransition) :
    Prop where
  isCopyOf : transition.IsCopyOf other
  source : zset.getState transition.sourceZSES = zset.getState other.sourceZSES
  target : ∃ state, zset.getState transition.targetZSES = some state ∧
    zset.getState other.targetZSES = some state

namespace SymbolicExecution

section Histories

variable {tools : SymbolicTools} {tiosts : TIOSTS} {root : SymbolicState}
  {zset testTree : SymbolicExecutionTree} {trace : Nat → Trace}

theorem IsExecutionTree.state_eq (isTree : IsExecutionTree tools tiosts root zset trace)
    {reference other : Nat} {node otherNode : SymbolicNode}
    (found : zset.getNode reference = some node) (otherFound : zset.getNode other = some otherNode)
    (same : (trace reference).history = (trace other).history) : node.state = otherNode.state := by
  obtain ⟨above, history⟩ := isTree.head found
  obtain ⟨otherAbove, otherHistory⟩ := isTree.head otherFound
  rw [history, otherHistory] at same
  exact (List.cons.inj same).1

/-- States with equal paths above them have equal branches. -/
theorem IsExecutionTree.sameBranches (isTree : IsExecutionTree tools tiosts root zset trace)
    {reference other : Nat} {node otherNode : SymbolicNode}
    (found : zset.getNode reference = some node) (otherFound : zset.getNode other = some otherNode)
    (same : (trace reference).history = (trace other).history) :
    List.Forall₂ (SameBranch zset) node.childrenTransitions otherNode.childrenTransitions := by
  have branches := congrArg (List.map Prod.snd) (isTree.children reference node found)
  have otherBranches := congrArg (List.map Prod.snd) (isTree.children other otherNode otherFound)
  simp only [List.map_map, Function.comp_def] at branches otherBranches
  rw [← same] at otherBranches
  refine InStep.of_map_eq (branches.trans otherBranches.symm) ?_
  intro transition member otherTransition otherMember equal
  obtain ⟨source, target, targetFound, _⟩ := isTree.child reference node found transition member
  obtain ⟨otherSource, otherTarget, otherTargetFound, _⟩ :=
    isTree.child other otherNode otherFound otherTransition otherMember
  have targetState : zset.getState transition.targetZSES = some target.state :=
    congrArg (Option.map SymbolicNode.state) targetFound
  have otherState : zset.getState otherTransition.targetZSES = some otherTarget.state :=
    congrArg (Option.map SymbolicNode.state) otherTargetFound
  have sourceState : zset.getState reference = zset.getState other := by
    rw [SymbolicExecutionTree.getState, SymbolicExecutionTree.getState, found, otherFound]
    exact congrArg some (isTree.state_eq found otherFound same)
  rw [branchAt, branchAt, targetState, otherState] at equal
  injection Option.some.inj equal with symbolicAction clockGuard clockAssignments deadline state
  refine ⟨⟨symbolicAction, clockGuard, clockAssignments, deadline⟩, ?_, target.state,
    targetState, state ▸ otherState⟩
  rw [source, otherSource]
  exact sourceState

end Histories

end SymbolicExecution

section Forward

variable {tools : SymbolicTools} {tiosts : TIOSTS} {root : SymbolicState}
  {zset testTree : SymbolicExecutionTree} {trace : Nat → Trace}

/-- An input of the followed state remains exactly if its branch at the state of the path is
beside the path. -/
theorem forall₂_remaining (isTree : IsExecutionTree tools tiosts root zset trace)
    {reference other : Nat} {node otherNode : SymbolicNode} {taken copied : SymbolicTransition}
    (found : zset.getNode reference = some node) (otherFound : zset.getNode other = some otherNode)
    (same : (trace reference).history = (trace other).history)
    (member : taken ∈ node.childrenTransitions) (isCopyOf : copied.IsCopyOf taken)
    (source : testTree.getState copied.sourceZSES = some node.state)
    (target : testTree.getState copied.targetZSES = zset.getState taken.targetZSES) :
    List.Forall₂ (SameBranch zset) (inputsBeside zset node taken)
      (getRemainingInputTransitions testTree zset
        (⟨node.state, none, [copied]⟩ : SymbolicNode).getOutgoingInputTransitions
        otherNode.getOutgoingInputTransitions) := by
  have branches := isTree.sameBranches found otherFound same
  have inputs : List.Forall₂ (SameBranch zset) node.getOutgoingInputTransitions
      otherNode.getOutgoingInputTransitions := by
    refine List.rel_filter ?_ branches
    intro transition otherTransition related
    simp only [related.isCopyOf.symbolicAction]
  have takenSource : zset.getState taken.sourceZSES = some node.state := by
    rw [(isTree.child reference node found taken member).1]
    exact congrArg (Option.map SymbolicNode.state) found
  refine List.rel_filter ?_ inputs
  intro input otherInput related
  have equal : otherInput.equals zset testTree copied = input.equals zset zset taken := by
    rw [SymbolicTransition.equals, SymbolicTransition.equals, isCopyOf.symbolicAction,
      related.isCopyOf.symbolicAction,
      SymbolicExecutionTree.equalStates_congr related.source.symm (source.trans takenSource.symm)]
    obtain ⟨state, first, second⟩ := related.target
    rw [SymbolicExecutionTree.equalStates_congr (second.trans first.symm) target]
  rw [SymbolicNode.getOutgoingInputTransitions, List.filter_cons, List.filter_nil,
    isCopyOf.symbolicAction]
  cases taken.symbolicAction.action.type == ActionType.input with
  | true => simp [equal]
  | false => simp

/-- The followed state has a child that is equal to the next state of the path, and the first
one has the path above it as well. -/
theorem getNextZSES_found (isTree : IsExecutionTree tools tiosts root zset trace)
    (wellFormed : tiosts.WellFormed) (rootRegisters : tiosts.Registers root.location)
    {reference other copy : Nat} {node otherNode : SymbolicNode} {taken : SymbolicTransition}
    (found : zset.getNode reference = some node) (otherFound : zset.getNode other = some otherNode)
    (same : (trace reference).history = (trace other).history)
    (member : taken ∈ node.childrenTransitions)
    (target : testTree.getState copy = zset.getState taken.targetZSES) :
    ∃ next nextNode, getNextZSES testTree zset copy otherNode = some next ∧
      zset.getNode next = some nextNode ∧
      (trace taken.targetZSES).history = (trace next).history := by
  obtain ⟨_, targetNode, targetFound, _, history⟩ :=
    isTree.child reference node found taken member
  have targetState : zset.getState taken.targetZSES = some targetNode.state :=
    congrArg (Option.map SymbolicNode.state) targetFound
  obtain ⟨twin, twinMember, related⟩ :=
    InStep.exists_right (isTree.sameBranches found otherFound same) member
  have isEqual : testTree.equalStates zset copy twin.targetZSES = true := by
    obtain ⟨state, first, second⟩ := related.target
    rw [SymbolicExecutionTree.equalStates, target, first, second]
    exact state.equals_self
  cases searched : getNextZSES testTree zset copy otherNode with
  | none =>
      have nowhere := List.find?_eq_none.mp searched _ (List.mem_map_of_mem twinMember)
      exact absurd isEqual nowhere
  | some next =>
      obtain ⟨chosen, chosenMember, rfl⟩ := List.mem_map.mp (List.mem_of_find?_eq_some searched)
      obtain ⟨_, chosenNode, chosenFound, _, chosenHistory⟩ :=
        isTree.child other otherNode otherFound chosen chosenMember
      have chosenState : zset.getState chosen.targetZSES = some chosenNode.state :=
        congrArg (Option.map SymbolicNode.state) chosenFound
      have equal := List.find?_some searched
      rw [SymbolicExecutionTree.equalStates, target, targetState, chosenState] at equal
      have state := SymbolicState.eq_of_equals
        (isTree.registers wellFormed rootRegisters targetFound)
        (isTree.registers wellFormed rootRegisters chosenFound) equal
      refine ⟨_, chosenNode, rfl, chosenFound, ?_⟩
      rw [history, chosenHistory, state, same]

theorem forall₂_isLeafFor_of_same {copy : Nat} {inputs others leaves : List SymbolicTransition}
    (related : List.Forall₂ (SameBranch zset) inputs others)
    (areLeaves : List.Forall₂ (IsLeafFor zset testTree copy) others leaves) :
    List.Forall₂ (IsLeafFor zset testTree copy) inputs leaves := by
  induction related generalizing leaves with
  | nil => exact areLeaves
  | cons first _ induction =>
      cases areLeaves with
      | cons isLeaf rest =>
          refine List.Forall₂.cons ?_ (induction rest)
          obtain ⟨state, own, others⟩ := first.target
          obtain ⟨otherState, location, found, created, leafFound⟩ := isLeaf.target
          cases others.symm.trans found
          refine ⟨⟨?_, ?_, ?_, ?_⟩, isLeaf.sourceZSES, state, location, own, created, leafFound⟩
          · exact isLeaf.isCopyOf.symbolicAction.trans first.isCopyOf.symbolicAction.symm
          · exact isLeaf.isCopyOf.clockGuard.trans first.isCopyOf.clockGuard.symm
          · exact isLeaf.isCopyOf.clockAssignments.trans first.isCopyOf.clockAssignments.symm
          · exact isLeaf.isCopyOf.deadline.trans first.isCopyOf.deadline.symm

/-- The inputs for which one iteration of the loop adds leaves. -/
def remainingAt (zset testTree : SymbolicExecutionTree) (state : SymbolicState)
    (copied : SymbolicTransition) (node : SymbolicNode) : List SymbolicTransition :=
  getRemainingInputTransitions testTree zset
    (⟨state, none, [copied]⟩ : SymbolicNode).getOutgoingInputTransitions
    node.getOutgoingInputTransitions

theorem descend_eq {copy other : Nat} (fuel : Nat) {state : SymbolicState}
    {parent : Option SymbolicTransition} {copied : SymbolicTransition} {node : SymbolicNode}
    (copyFound : testTree.getNode copy = some ⟨state, parent, [copied]⟩)
    (otherFound : zset.getNode other = some node) :
    descend zset (fuel + 1) (some copy) (some other) testTree =
      ((remainingAt zset testTree state copied node).foldlM (addInconclusive zset copy)
        testTree >>= fun middle => descend zset fuel (some copied.targetZSES)
          (getNextZSES middle zset copied.targetZSES node) middle) := by
  rw [descend, deref_some, ok_bind, copyFound, deref_some, ok_bind]
  simp only
  rw [deref_some, ok_bind, otherFound, deref_some, ok_bind]
  rfl

/-- The leaves beside the path are added to a tree that copies it, and nothing else is
changed. -/
structure Descends (zset testTree result : SymbolicExecutionTree) (acceptZSES reference : Nat)
    (parent : Option SymbolicTransition) (copy : Nat) (path : List SymbolicTransition)
    (references : List Nat) : Prop where
  copies : ∃ all,
    CopiesPath zset result acceptZSES (inputsBeside zset) reference parent copy path all ∧
      all.Perm (references ++ List.range' testTree.next (result.next - testTree.next))
  older : testTree.next ≤ result.next
  initialZSES : result.initialZSES = testTree.initialZSES
  outside : ∀ known < testTree.next, known ∉ references →
    result.getNode known = testTree.getNode known

/-- The numbers given to the leaves of one state and then to those below it. -/
theorem range'_perm_of_step {first middle last : Nat} (older : first ≤ middle)
    (later : middle ≤ last) {rest all : List Nat}
    (only : all.Perm (rest ++ List.range' middle (last - middle))) :
    (List.range' first (middle - first) ++ all).Perm
      (rest ++ List.range' first (last - first)) := by
  have joined := @List.range'_append_1 first (middle - first) (last - middle)
  rw [Nat.add_sub_of_le older] at joined
  have lengths : middle - first + (last - middle) = last - first := by omega
  rw [← lengths, ← joined]
  refine (only.append_left _).trans ?_
  rw [← List.append_assoc, ← List.append_assoc]
  exact List.perm_append_comm.append_right _

section Steps

variable {result middle : SymbolicExecutionTree} {acceptZSES reference copy : Nat}
  {parent : Option SymbolicTransition} {taken copied : SymbolicTransition}
  {path inputs leaves : List SymbolicTransition} {rest : List Nat} {ownNode : SymbolicNode}

theorem AddsLeaves.older (adds : AddsLeaves zset testTree middle copy ownNode inputs leaves) :
    testTree.next ≤ middle.next := by
  have grown := adds.next
  omega

theorem AddsLeaves.fresh (adds : AddsLeaves zset testTree middle copy ownNode inputs leaves)
    {leaf : SymbolicTransition} (isLeaf : leaf ∈ leaves) :
    testTree.next ≤ leaf.targetZSES ∧ leaf.targetZSES < middle.next := by
  have among := List.mem_map_of_mem (f := SymbolicTransition.targetZSES) isLeaf
  rw [adds.targets, List.mem_range'_1] at among
  rw [adds.next]
  exact among

/-- What the rest of the loop does below a state, after the leaves at it have been added. -/
theorem AddsLeaves.descends
    (adds : AddsLeaves zset testTree middle copy ⟨ownNode.state, parent, [copied]⟩ inputs
      leaves)
    (found : zset.getNode reference = some ownNode)
    (member : taken ∈ ownNode.childrenTransitions) (isCopyOf : copied.IsCopyOf taken)
    (source : copied.sourceZSES = copy)
    (remaining : List.Forall₂ (SameBranch zset) (inputsBeside zset ownNode taken) inputs)
    (listed : ∀ known ∈ copy :: rest, known < testTree.next) (apart : copy ∉ rest)
    (below : Descends zset middle result acceptZSES taken.targetZSES (some copied)
      copied.targetZSES path rest) :
    Descends zset testTree result acceptZSES reference parent copy (taken :: path)
      (copy :: rest) := by
  obtain ⟨all, copiesBelow, only⟩ := below.copies
  have copyResult : result.getNode copy = some ⟨ownNode.state, parent, copied :: leaves⟩ := by
    rw [below.outside copy (Nat.lt_of_lt_of_le (listed copy List.mem_cons_self) adds.older)
      apart, adds.copyFound]
    rfl
  have resultLeaves : List.Forall₂ (IsLeafFor zset result copy) inputs leaves := by
    apply forall₂_isLeafFor_congr adds.areLeaves
    intro leaf isLeaf
    apply below.outside leaf.targetZSES (adds.fresh isLeaf).2
    intro among
    exact absurd (listed _ (List.mem_cons_of_mem _ among))
      (Nat.not_lt.mpr (adds.fresh isLeaf).1)
  refine ⟨⟨copy :: (leaves.map SymbolicTransition.targetZSES ++ all),
    .step found member copyResult isCopyOf source
      (forall₂_isLeafFor_of_same remaining resultLeaves) copiesBelow, ?_⟩,
    adds.older.trans below.older, below.initialZSES.trans adds.initialZSES, ?_⟩
  · have added : inputs.length = middle.next - testTree.next := by
      have grown := adds.next
      omega
    rw [adds.targets, added, List.cons_append]
    exact (range'_perm_of_step adds.older below.older only).cons copy
  · intro known before absent
    have notRest : known ∉ rest := fun among => absent (List.mem_cons_of_mem _ among)
    exact (below.outside known (Nat.lt_of_lt_of_le before adds.older) notRest).trans
      (adds.outside known before (List.ne_of_not_mem_cons absent))

end Steps

/-- The loop leads down the path to the accept state and adds the leaves beside it. -/
theorem descend_copies (isTree : IsExecutionTree tools tiosts root zset trace)
    (wellFormed : tiosts.WellFormed) (rootRegisters : tiosts.Registers root.location)
    {acceptZSES fuel reference copy other : Nat}
    {parent : Option SymbolicTransition} {path : List SymbolicTransition} {references : List Nat}
    {node : SymbolicNode}
    (copies : CopiesPath zset testTree acceptZSES bare reference parent copy path references)
    (nodup : references.Nodup) (listed : ∀ known ∈ references, known < testTree.next)
    (otherFound : zset.getNode other = some node)
    (same : (trace reference).history = (trace other).history) (enough : path.length < fuel) :
    LacksInconclusive zset (descend zset fuel (some copy) (some other) testTree) ∨
    ∃ result, descend zset fuel (some copy) (some other) testTree = .ok result ∧
      Descends zset testTree result acceptZSES reference parent copy path references := by
  induction path generalizing testTree fuel reference copy other parent references node with
  | nil =>
      obtain ⟨fuel, rfl⟩ := Nat.exists_eq_succ_of_ne_zero (Nat.ne_zero_of_lt enough)
      cases copies with
      | accept found copyFound =>
          refine Or.inr ⟨testTree, ?_, ⟨[copy], .accept found copyFound, ?_⟩, le_refl _, rfl,
            fun _ _ _ => rfl⟩
          · rw [descend, deref_some, ok_bind, copyFound, deref_some, ok_bind]
            rfl
          · rw [Nat.sub_self]
            exact List.Perm.refl _
  | cons taken path induction =>
      obtain ⟨fuel, rfl⟩ := Nat.exists_eq_succ_of_ne_zero (Nat.ne_zero_of_lt enough)
      cases copies with
      | @step _ _ _ ownNode _ copied leaves _ rest found member copyFound isCopyOf source areLeaves
          below =>
          cases areLeaves
          obtain ⟨apart, nodupRest⟩ := List.nodup_cons.mp nodup
          have listedRest : ∀ known ∈ rest, known < testTree.next :=
            fun known among => listed known (List.mem_cons_of_mem _ among)
          have copyState : testTree.getState copied.sourceZSES = some ownNode.state := by
            rw [source]
            exact congrArg (Option.map SymbolicNode.state) copyFound
          have remaining := forall₂_remaining isTree found otherFound same member isCopyOf copyState
            below.copy_state
          have targets : ∀ input ∈ remainingAt zset testTree ownNode.state copied node,
              ∃ state, zset.getState input.targetZSES = some state := by
            intro input among
            obtain ⟨_, targetNode, targetFound, _⟩ := isTree.child other node otherFound input
              (List.mem_of_mem_filter (List.mem_of_mem_filter among))
            exact ⟨_, congrArg (Option.map SymbolicNode.state) targetFound⟩
          have unrolled := descend_eq fuel copyFound otherFound
          rcases foldlM_addInconclusive _ targets copyFound with lacks | ⟨middle, leaves, ran, adds⟩
          · refine Or.inl ?_
            rw [unrolled]
            exact lacks.bind _
          have below := below.congr (fun known among => adds.outside known
            (listedRest known among) (fun isCopy => apart (isCopy ▸ among)))
          obtain ⟨next, nextNode, searched, nextFound, history⟩ := getNextZSES_found isTree
            wellFormed rootRegisters found otherFound same member below.copy_state
          rw [ran, ok_bind, searched] at unrolled
          rcases induction below nodupRest
              (fun known among => Nat.lt_of_lt_of_le (listedRest known among) adds.older)
              nextFound history (Nat.lt_of_succ_lt_succ enough)
            with lacks | ⟨result, descended, descends⟩
          · refine Or.inl ?_
            rw [unrolled]
            exact lacks
          · exact Or.inr ⟨result, unrolled.trans descended, adds.descends found member
              isCopyOf source remaining listed apart descends⟩

end Forward

section Selection

variable {tools : SymbolicTools} {tiosts : TIOSTS} {root : SymbolicState}
  {zset testTree : SymbolicExecutionTree} {trace : Nat → Trace}

theorem CopiesPath.length_le {acceptZSES reference copy : Nat}
    {beside : SymbolicNode → SymbolicTransition → List SymbolicTransition}
    {parent : Option SymbolicTransition} {path : List SymbolicTransition} {references : List Nat}
    (copies : CopiesPath zset testTree acceptZSES beside reference parent copy path references) :
    path.length < references.length := by
  induction copies with
  | accept => exact Nat.zero_lt_one
  | step _ _ _ _ _ _ _ induction =>
      simp only [List.length_cons, List.length_append]
      omega

/-- For an accept state other than the root, the selection returns a test tree if the
inconclusive locations can be created. -/
theorem selectTestCase_outcome (isTree : IsExecutionTree tools tiosts root zset trace)
    (wellFormed : tiosts.WellFormed) (rootRegisters : tiosts.Registers root.location)
    {acceptZSES : Nat} {node : SymbolicNode} (found : zset.getNode acceptZSES = some node)
    (notRoot : acceptZSES ≠ 0) (name : String) :
    LacksInconclusive zset (selectTestCase zset name acceptZSES) ∨
    ∃ testTree, selectTestCase zset name acceptZSES = .ok testTree ∧
      IsTestTree zset (inputsBeside zset) acceptZSES testTree := by
  obtain ⟨copied, top, path, references, climbed, initial, copies, only⟩ :=
    backwardTraversal_copies isTree found notRoot name
  have listed : ∀ known ∈ references, known < copied.next :=
    fun known among => List.mem_range.mp (only.mem_iff.mp among)
  have few : path.length < copied.next + 1 := by
    have length := only.length_eq
    rw [List.length_range] at length
    have shorter := copies.length_le
    omega
  obtain ⟨rootNode, rootFound, _⟩ := isTree.rootNode
  rw [selectTestCase, climbed, ok_bind, forwardTraversal, initial, isTree.initial]
  rcases descend_copies isTree wellFormed rootRegisters copies
      (only.nodup_iff.mpr List.nodup_range) listed rootFound rfl few
    with lacks | ⟨testTree, descended, ⟨all, whole, added⟩, older, sameInitial, _⟩
  · exact Or.inl lacks
  · refine Or.inr ⟨testTree, descended, 0, top, path, all, isTree.initial,
      sameInitial.trans initial, whole, ?_⟩
    have joined := added.trans (only.append_right _)
    have numbers := @List.range'_append_1 0 copied.next (testTree.next - copied.next)
    rw [Nat.zero_add, Nat.add_sub_of_le older, ← List.range_eq_range', ← List.range_eq_range']
      at numbers
    rwa [numbers] at joined

theorem selectTestCase_returns (isTree : IsExecutionTree tools tiosts root zset trace)
    (wellFormed : tiosts.WellFormed) (rootRegisters : tiosts.Registers root.location)
    (creates : CreatesInconclusive zset) {acceptZSES : Nat} {node : SymbolicNode}
    (found : zset.getNode acceptZSES = some node) (notRoot : acceptZSES ≠ 0) (name : String) :
    ∃ testTree, selectTestCase zset name acceptZSES = .ok testTree ∧
      IsTestTree zset (inputsBeside zset) acceptZSES testTree := by
  rcases selectTestCase_outcome isTree wellFormed rootRegisters found notRoot name with
    lacks | built
  · exact absurd creates lacks.1
  · exact built

/-- Without a parent, the accept state leaves the test tree without an initial state. -/
theorem selectTestCase_root (isTree : IsExecutionTree tools tiosts root zset trace)
    (name : String) : selectTestCase zset name 0 = .error .nullPointer := by
  obtain ⟨node, found, _, noParent⟩ := isTree.rootNode
  have state : zset.getState 0 = some node.state :=
    congrArg (Option.map SymbolicNode.state) found
  have climbed : ∀ testTree : SymbolicExecutionTree, climb zset (zset.next + 1) 0 none testTree.next
      (testTree.addSymbolicState (SymbolicNode.new node.state)) =
        .ok ((testTree.addSymbolicState (SymbolicNode.new node.state)).setInitialZSES none) := by
    intro testTree
    rw [climb, found, deref_some, ok_bind, noParent]
    rfl
  rw [selectTestCase, backwardTraversal, state, deref_some, ok_bind, climbed]
  rfl

theorem isTestTree_of_ok (isTree : IsExecutionTree tools tiosts root zset trace)
    (wellFormed : tiosts.WellFormed) (rootRegisters : tiosts.Registers root.location)
    {acceptZSES : Nat} {node : SymbolicNode} (found : zset.getNode acceptZSES = some node)
    {name : String} (selected : selectTestCase zset name acceptZSES = .ok testTree) :
    acceptZSES ≠ 0 ∧ IsTestTree zset (inputsBeside zset) acceptZSES testTree := by
  have notRoot : acceptZSES ≠ 0 := by
    rintro rfl
    cases (selectTestCase_root isTree name).symm.trans selected
  refine ⟨notRoot, ?_⟩
  rcases selectTestCase_outcome isTree wellFormed rootRegisters found notRoot name
    with ⟨_, failure, failed⟩ | ⟨other, returned, isTestTree⟩
  · cases failed.symm.trans selected
  · cases returned.symm.trans selected
    exact isTestTree

end Selection

end Symbolrt
