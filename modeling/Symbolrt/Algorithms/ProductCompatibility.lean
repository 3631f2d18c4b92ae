import Symbolrt.Algorithms.ProductRuns
import Symbolrt.Base.Assembly
import Symbolrt.Lib.Loops

/-!
# Compatibility for the product

Which specifications and test purposes the set-up of a product refuses.  The checks
read the lists of the product while the test purpose is added to them, so a parameter
of the test purpose passes as a variable of the specification if it is one of the test
purpose.
-/

namespace Symbolrt

namespace TIOSTS

/-- No name is declared twice in one of the lists. -/
structure DuplicateFree (model : TIOSTS) : Prop where
  modelVariables : (model.modelVariables.map TypedData.name).Nodup
  actionParameters : (model.actionParameters.map TypedData.name).Nodup
  clocks : model.clocks.Nodup

instance (model : TIOSTS) : Decidable model.DuplicateFree :=
  decidable_of_iff ((model.modelVariables.map TypedData.name).Nodup ∧
    (model.actionParameters.map TypedData.name).Nodup ∧ model.clocks.Nodup)
    ⟨fun all => ⟨all.1, all.2.1, all.2.2⟩,
      fun free => ⟨free.modelVariables, free.actionParameters, free.clocks⟩⟩

def HasVariable (model : TIOSTS) (name : String) : Prop :=
  name ∈ model.modelVariables.map TypedData.name

def HasParameter (model : TIOSTS) (name : String) : Prop :=
  name ∈ model.actionParameters.map TypedData.name

instance (model : TIOSTS) (name : String) : Decidable (model.HasVariable name) :=
  inferInstanceAs (Decidable (name ∈ model.modelVariables.map TypedData.name))

instance (model : TIOSTS) (name : String) : Decidable (model.HasParameter name) :=
  inferInstanceAs (Decidable (name ∈ model.actionParameters.map TypedData.name))

end TIOSTS

namespace SynchronousProduct

section Checks

variable {spec tp sp next : TIOSTS}

theorem any_equals_iff {data : TypedData} {list : List TypedData} :
    list.any (data.equals ·) = true ↔ data.name ∈ list.map TypedData.name := by
  rw [List.any_eq_true, List.mem_map]
  constructor
  · rintro ⟨other, member, same⟩
    exact ⟨other, member, (beq_iff_eq.mp same).symm⟩
  · rintro ⟨other, member, same⟩
    exact ⟨other, member, beq_iff_eq.mpr same.symm⟩

theorem addTpVariable_isOk_iff (sp : TIOSTS) (data : TypedData) :
    (∃ next, addTpVariable sp data = .ok next) ↔ ¬ sp.HasVariable data.name := by
  rw [addTpVariable]
  by_cases taken : sp.modelVariables.any (data.equals ·) = true
  · rw [if_pos taken]
    refine iff_of_false ?_ (not_not_intro (any_equals_iff.mp taken))
    rintro ⟨next, impossible⟩
    cases impossible
  · rw [if_neg taken]
    exact iff_of_true ⟨_, rfl⟩ (fun has => taken (any_equals_iff.mpr has))

theorem addTpVariable_hasVariable {data : TypedData} (added : addTpVariable sp data = .ok next)
    (name : String) : next.HasVariable name ↔ sp.HasVariable name ∨ name = data.name := by
  rw [addTpVariable] at added
  split at added
  · cases added
  · cases added
    rw [TIOSTS.HasVariable, TIOSTS.addVariable, List.map_append, List.mem_append]
    exact or_congr_right List.mem_singleton

theorem addTpClock_isOk_iff (sp : TIOSTS) (clock : String) :
    (∃ next, addTpClock sp clock = .ok next) ↔ clock ∉ sp.clocks := by
  rw [addTpClock]
  by_cases taken : clock ∈ sp.clocks
  · rw [if_pos taken]
    refine iff_of_false ?_ (not_not_intro taken)
    rintro ⟨next, impossible⟩
    cases impossible
  · rw [if_neg taken]
    exact iff_of_true ⟨_, rfl⟩ taken

theorem addTpClock_clocks {clock : String} (added : addTpClock sp clock = .ok next)
    (other : String) : other ∈ next.clocks ↔ other ∈ sp.clocks ∨ other = clock := by
  rw [addTpClock] at added
  split at added
  · cases added
  · cases added
    rw [TIOSTS.addClock, List.mem_append]
    exact or_congr_right List.mem_singleton

theorem checkTpParameter_isOk_iff (sp : TIOSTS) (data : TypedData) :
    checkTpParameter sp data = .ok () ↔
      sp.HasParameter data.name ∨ sp.HasVariable data.name := by
  rw [checkTpParameter, TIOSTS.HasParameter, TIOSTS.HasVariable, ← any_equals_iff,
    ← any_equals_iff]
  cases sp.actionParameters.any (data.equals ·) with
  | true => simp
  | false =>
      cases sp.modelVariables.any (data.equals ·) with
      | true => simp
      | false => simp

theorem forM_checkTpParameter_iff {parameters : List TypedData} :
    parameters.forM (checkTpParameter sp) = .ok () ↔
      ∀ data ∈ parameters, sp.HasParameter data.name ∨ sp.HasVariable data.name := by
  induction parameters with
  | nil => exact iff_of_true rfl (fun data member => nomatch member)
  | cons data parameters induction =>
      rw [List.forall_mem_cons, ← checkTpParameter_isOk_iff, ← induction]
      refine bind_eq_ok.trans ?_
      constructor
      · rintro ⟨_, here, rest⟩
        exact ⟨here, rest⟩
      · rintro ⟨here, rest⟩
        exact ⟨(), here, rest⟩

theorem foldlM_addTpVariable_isOk_iff (free : tp.DuplicateFree) (sp : TIOSTS) :
    (∃ next, tp.modelVariables.foldlM addTpVariable sp = .ok next) ↔
      ∀ data ∈ tp.modelVariables, ¬ sp.HasVariable data.name := by
  apply @Loops.foldlM_addsNew_iff _ _ _ addTpVariable String TypedData.name
    (fun state name => ¬ state.HasVariable name) addTpVariable_isOk_iff ?_ _ free.modelVariables
  intro state data next added name
  rw [addTpVariable_hasVariable added, not_or]

theorem foldlM_addTpClock_isOk_iff (free : tp.DuplicateFree) (sp : TIOSTS) :
    (∃ next, tp.clocks.foldlM addTpClock sp = .ok next) ↔
      ∀ clock ∈ tp.clocks, clock ∉ sp.clocks := by
  have distinct : (tp.clocks.map id).Nodup := by
    rw [List.map_id]
    exact free.clocks
  apply @Loops.foldlM_addsNew_iff _ _ _ addTpClock String id
    (fun state clock => clock ∉ state.clocks) addTpClock_isOk_iff ?_ _ distinct
  intro state clock next added other
  rw [addTpClock_clocks added, not_or]
  rfl

/-- The set-up ends with the exception of the product. -/
def ThrowsIncompatible (spec tp : TIOSTS) : Prop :=
  ∃ message, initializeSyncProduct spec tp = .error (.incompatibleSynchronousProduct message)

/-- The part of the set-up behind the checks. -/
def addSpecActions (spec sp : TIOSTS) : TIOSTS :=
  let sp := spec.inputActions.foldl (fun sp action => sp.addAction action) sp
  let sp := spec.outputActions.foldl (fun sp action => sp.addAction action) sp
  spec.internalActions.foldl (fun sp action => sp.addAction action) sp

theorem initializeSyncProduct_eq (spec tp : TIOSTS) : initializeSyncProduct spec tp =
    (tp.modelVariables.foldlM addTpVariable
      { TIOSTS.new (spec.name ++ "_X_" ++ tp.name) with modelVariables := spec.modelVariables } >>=
      fun sp =>
      tp.actionParameters.forM (checkTpParameter
        { sp with actionParameters := sp.actionParameters ++ spec.actionParameters }) >>= fun _ =>
      tp.clocks.foldlM addTpClock { sp with
        actionParameters := sp.actionParameters ++ spec.actionParameters
        clocks := sp.clocks ++ spec.clocks } >>= fun sp => .ok (addSpecActions spec sp)) := by
  rw [initializeSyncProduct]
  simp only [TIOSTS.foldl_addVariable, TIOSTS.foldl_addActionParameter, TIOSTS.foldl_addClock]
  rfl

/-- The set-up returns exactly if no variable and no clock of the test purpose is one of the
specification and each parameter of the test purpose is among the parameters of the
specification or the variables of both. -/
theorem initializeSyncProduct_isOk_iff (free : tp.DuplicateFree) :
    (∃ initial, initializeSyncProduct spec tp = .ok initial) ↔
      (∀ data ∈ tp.modelVariables, ¬ spec.HasVariable data.name) ∧
      (∀ data ∈ tp.actionParameters, spec.HasParameter data.name ∨ spec.HasVariable data.name ∨
        tp.HasVariable data.name) ∧
      ∀ clock ∈ tp.clocks, clock ∉ spec.clocks := by
  let start : TIOSTS :=
    { TIOSTS.new (spec.name ++ "_X_" ++ tp.name) with modelVariables := spec.modelVariables }
  let added : TIOSTS := { start with modelVariables := spec.modelVariables ++ tp.modelVariables }
  let typed : TIOSTS := { added with actionParameters := spec.actionParameters }
  let clocked : TIOSTS := { typed with clocks := spec.clocks }
  have hasVariable : ∀ name,
      typed.HasVariable name ↔ spec.HasVariable name ∨ tp.HasVariable name := by
    intro name
    rw [TIOSTS.HasVariable, List.map_append]
    exact List.mem_append
  have known : tp.actionParameters.forM (checkTpParameter typed) = .ok () ↔
      ∀ data ∈ tp.actionParameters, spec.HasParameter data.name ∨ spec.HasVariable data.name ∨
        tp.HasVariable data.name := by
    refine forM_checkTpParameter_iff.trans (forall₂_congr (fun data _ => ?_))
    exact or_congr_right (hasVariable data.name)
  have newVariables := foldlM_addTpVariable_isOk_iff free start
  have newClocks := foldlM_addTpClock_isOk_iff free clocked
  constructor
  · rintro ⟨initial, returned⟩
    rw [initializeSyncProduct_eq] at returned
    obtain ⟨sp, variablesAdded, returned⟩ := bind_eq_ok.mp returned
    obtain rfl : sp = added := foldlM_addTpVariable variablesAdded
    obtain ⟨_, checked, returned⟩ := bind_eq_ok.mp returned
    obtain ⟨final, clocksAdded, _⟩ := bind_eq_ok.mp returned
    exact ⟨newVariables.mp ⟨_, variablesAdded⟩, known.mp checked, newClocks.mp ⟨final, clocksAdded⟩⟩
  · rintro ⟨variablesNew, parametersKnown, clocksNew⟩
    obtain ⟨sp, variablesAdded⟩ := newVariables.mpr variablesNew
    obtain rfl : sp = added := foldlM_addTpVariable variablesAdded
    obtain ⟨final, clocksAdded⟩ := newClocks.mpr clocksNew
    refine ⟨addSpecActions spec final, ?_⟩
    rw [initializeSyncProduct_eq]
    refine bind_eq_ok.mpr ⟨added, variablesAdded,
      bind_eq_ok.mpr ⟨(), known.mpr parametersKnown, ?_⟩⟩
    exact bind_eq_ok.mpr ⟨final, clocksAdded, rfl⟩

theorem checkTpParameter_error {data : TypedData} {failure : Failure}
    (failed : checkTpParameter sp data = .error failure) :
    failure = .incompatibleSynchronousProduct parametersMessage := by
  rw [checkTpParameter] at failed
  split at failed
  · exact (Except.error.inj failed).symm
  · cases failed

/-- The set-up throws no other exception. -/
theorem initializeSyncProduct_error {failure : Failure}
    (failed : initializeSyncProduct spec tp = .error failure) : ThrowsIncompatible spec tp := by
  suffices isIncompatible : ∃ message, failure = .incompatibleSynchronousProduct message by
    obtain ⟨message, same⟩ := isIncompatible
    exact ⟨message, failed.trans (congrArg Except.error same)⟩
  rw [initializeSyncProduct_eq] at failed
  rcases bind_eq_error failed with failed | ⟨sp, _, failed⟩
  · obtain ⟨_, data, _, state, _, _, thrown⟩ :=
      Loops.foldlM_failed (fun _ _ => True) failed trivial (fun _ _ _ _ _ _ _ _ => trivial)
    rw [addTpVariable] at thrown
    split at thrown
    · exact ⟨_, (Except.error.inj thrown).symm⟩
    · cases thrown
  rcases bind_eq_error failed with failed | ⟨_, _, failed⟩
  · have thrown : ∀ parameters : List TypedData,
        parameters.forM (checkTpParameter { sp with
          actionParameters := sp.actionParameters ++ spec.actionParameters }) = .error failure →
            ∃ message, failure = .incompatibleSynchronousProduct message := by
      intro parameters
      induction parameters with
      | nil => exact fun impossible => by cases impossible
      | cons data parameters induction =>
          intro thrown
          rcases bind_eq_error thrown with here | ⟨_, _, later⟩
          · exact ⟨_, checkTpParameter_error here⟩
          · exact induction later
    exact thrown _ failed
  rcases bind_eq_error failed with failed | ⟨final, _, failed⟩
  · obtain ⟨_, clock, _, state, _, _, thrown⟩ :=
      Loops.foldlM_failed (fun _ _ => True) failed trivial (fun _ _ _ _ _ _ _ _ => trivial)
    rw [addTpClock] at thrown
    split at thrown
    · exact ⟨_, (Except.error.inj thrown).symm⟩
    · cases thrown
  · cases failed

end Checks

/-- A name of the test purpose stands where it may not. -/
def Clash (spec tp : TIOSTS) : Prop :=
  (∃ data ∈ tp.modelVariables, spec.HasVariable data.name) ∨
    (∃ data ∈ tp.actionParameters,
      ¬ spec.HasParameter data.name ∧ ¬ spec.HasVariable data.name) ∨
    ∃ clock ∈ tp.clocks, clock ∈ spec.clocks

/-- No parameter of the test purpose is one of its own variables only, unless the set-up
finds something else to refuse. -/
def OwnVariablesPass (spec tp : TIOSTS) : Prop :=
  (∀ data ∈ tp.actionParameters, tp.HasVariable data.name →
      spec.HasParameter data.name ∨ spec.HasVariable data.name) ∨
    (∃ data ∈ tp.modelVariables, spec.HasVariable data.name) ∨
    (∃ clock ∈ tp.clocks, clock ∈ spec.clocks) ∨
    ∃ data ∈ tp.actionParameters, ¬ spec.HasParameter data.name ∧
      ¬ spec.HasVariable data.name ∧ ¬ tp.HasVariable data.name

/-- What the set-up refuses. -/
theorem throwsIncompatible_iff {spec tp : TIOSTS} (free : tp.DuplicateFree) :
    ThrowsIncompatible spec tp ↔
      (∃ data ∈ tp.modelVariables, spec.HasVariable data.name) ∨
      (∃ data ∈ tp.actionParameters, ¬ spec.HasParameter data.name ∧
        ¬ spec.HasVariable data.name ∧ ¬ tp.HasVariable data.name) ∨
      ∃ clock ∈ tp.clocks, clock ∈ spec.clocks := by
  have returns := @initializeSyncProduct_isOk_iff spec tp free
  have either : ThrowsIncompatible spec tp ↔
      ¬ ∃ initial, initializeSyncProduct spec tp = .ok initial := by
    constructor
    · rintro ⟨message, thrown⟩ ⟨initial, returned⟩
      rw [thrown] at returned
      cases returned
    · intro never
      cases result : initializeSyncProduct spec tp with
      | ok initial => exact absurd ⟨initial, result⟩ never
      | error failure => exact initializeSyncProduct_error result
  rw [either, returns]
  simp only [not_and_or, not_forall, not_or, not_not, exists_prop]

end SynchronousProduct

open SynchronousProduct

/-- The set-up refuses exactly the specifications and test purposes whose names clash,
unless a parameter of the test purpose is one of its own variables only and nothing else
is refused. -/
theorem initializeSyncProduct_refuses_iff (spec tp : TIOSTS) (free : tp.DuplicateFree) :
    (ThrowsIncompatible spec tp ↔ Clash spec tp) ↔ OwnVariablesPass spec tp := by
  rw [throwsIncompatible_iff free, Clash]
  constructor
  · intro agree
    by_contra none
    obtain ⟨owned, noVariable, noClock, noParameter⟩ :=
      by simpa only [OwnVariablesPass, not_or] using none
    obtain ⟨data, member, isOwn, notSpec⟩ : ∃ data ∈ tp.actionParameters,
        tp.HasVariable data.name ∧
          ¬ (spec.HasParameter data.name ∨ spec.HasVariable data.name) := by
      simpa only [not_forall, exists_prop] using owned
    rcases agree.mpr (Or.inr (Or.inl ⟨data, member, not_or.mp notSpec⟩)) with one | two | three
    · exact noVariable one
    · exact noParameter two
    · exact noClock three
  · intro own
    apply or_congr_right'
    intro noVariable
    apply or_congr_left'
    intro noClock
    constructor
    · rintro ⟨data, member, notParameter, notVariable, _⟩
      exact ⟨data, member, notParameter, notVariable⟩
    · rintro ⟨data, member, notParameter, notVariable⟩
      rcases own with known | shared | clock | unknown
      · refine ⟨data, member, notParameter, notVariable, fun isOwn => ?_⟩
        exact (known data member isOwn).elim notParameter notVariable
      · exact absurd shared noVariable
      · exact absurd clock noClock
      · exact unknown

namespace CompatibilityInstance

def spec : TIOSTS := .declare "S" [] [⟨"total", .integer⟩] [⟨"amount", .integer⟩] ["x"]

/-- The test purpose reads a parameter into a variable of its own. -/
def tp (parameter : String) : TIOSTS :=
  .declare "T" [] [⟨"seen", .integer⟩] [⟨parameter, .integer⟩] ["y"]

end CompatibilityInstance

open CompatibilityInstance in
theorem initializeSyncProduct_refuses_iff_amount :
    ThrowsIncompatible spec (tp "amount") ↔ Clash spec (tp "amount") := by
  apply (initializeSyncProduct_refuses_iff spec (tp "amount") (by decide)).mpr
  left
  intro data member _
  rw [List.mem_singleton.mp member]
  exact Or.inl (by decide)

open CompatibilityInstance in
/-- A parameter that is only a variable of the test purpose itself is accepted. -/
theorem initializeSyncProduct_accepts_own_variable :
    ¬ ∀ spec tp : TIOSTS, spec.DuplicateFree → tp.DuplicateFree →
      (ThrowsIncompatible spec tp ↔ Clash spec tp) := by
  intro claimed
  have clash : Clash spec (tp "seen") :=
    Or.inr (Or.inl ⟨⟨"seen", .integer⟩, List.mem_singleton.mpr rfl, by decide, by decide⟩)
  obtain ⟨message, thrown⟩ := (claimed spec (tp "seen") (by decide) (by decide)).mpr clash
  obtain ⟨initial, returned⟩ : ∃ initial, initializeSyncProduct spec (tp "seen") = .ok initial :=
    exists_ok (by decide)
  rw [returned] at thrown
  cases thrown

end Symbolrt
