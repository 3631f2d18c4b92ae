import Symbolrt.Algorithms.KeyedGuards
import Symbolrt.Compiler.CompiledAssignments
import Symbolrt.SymbolicExecution.Executability

/-!
# Models that are written as the compiler writes them

The assignments of a transition are printed one behind the other, and no name in a guard or
on the right of an assignment has the separator of symbolic values.  Completion and the
product keep this form, and a model of this form can be executed.
-/

namespace Symbolrt

open SynchronousProduct SymbolicExecution

/-- An assignment to an allowed name without the separator on its right. -/
structure AbstractExpression.Assigns (allowed : String → Prop) (expr : AbstractExpression) :
    Prop where
  isAssignment : expr.IsAssignment
  target : allowed expr.target
  rightHandSide : '_' ∉ expr.rightHandSide.toString.toList

/-- The form of the texts of a transition. -/
structure Transition.IsWritten (allowed : String → Prop) (transition : Transition) : Prop where
  dataGuard : '_' ∉ transition.dataGuard.text.toList
  dataAssignments : ∃ exprs, HoldsAssignments exprs transition.dataAssignments ∧
    ∀ expr ∈ exprs, expr.Assigns allowed
  clockAssignments : ∃ exprs, HoldsAssignments exprs transition.clockAssignments ∧
    ∀ expr ∈ exprs, expr.IsAssignment

def TIOSTS.IsWritten (allowed : String → Prop) (model : TIOSTS) : Prop :=
  ∀ label, ∀ transition ∈ model.outOf label, transition.IsWritten allowed

section Keeping

variable {allowed : String → Prop}

theorem Transition.IsWritten.mono {others : String → Prop} {transition : Transition}
    (written : transition.IsWritten allowed) (weaker : ∀ name, allowed name → others name) :
    transition.IsWritten others := by
  obtain ⟨exprs, holds, assigns⟩ := written.dataAssignments
  refine { written with dataAssignments := ⟨exprs, holds, fun expr member => ?_⟩ }
  have here := assigns expr member
  exact { here with target := weaker _ here.target }

theorem Transition.IsWritten.bare {transition : Transition}
    (dataGuard : '_' ∉ transition.dataGuard.text.toList)
    (dataAssignments : transition.dataAssignments = none)
    (clockAssignments : transition.clockAssignments = none) : transition.IsWritten allowed where
  dataGuard := dataGuard
  dataAssignments := ⟨[], dataAssignments ▸ .none, fun _ member => nomatch member⟩
  clockAssignments := ⟨[], clockAssignments ▸ .none, fun _ member => nomatch member⟩

theorem createDataGuard_plain {specGuard tpGuard : DataGuard}
    (spec : '_' ∉ specGuard.text.toList) (tp : '_' ∉ tpGuard.text.toList) :
    '_' ∉ (createDataGuard specGuard tpGuard).text.toList := by
  rw [createDataGuard]
  split
  · exact spec
  · split
    · exact tp
    · have joint : '_' ∉ (" " ++ Constants.guardConjunction ++ " ").toList := by decide
      have whole : (specGuard.text ++ " " ++ Constants.guardConjunction ++ " " ++
          tpGuard.text).toList = specGuard.text.toList ++
            ((" " ++ Constants.guardConjunction ++ " ").toList ++ tpGuard.text.toList) := by
        simp
      intro member
      rw [DataGuard.text_written, whole] at member
      rcases List.mem_append.mp member with inSpec | later
      · exact spec inSpec
      · rcases List.mem_append.mp later with inJoint | inTp
        · exact joint inJoint
        · exact tp inTp

/-- Two written transitions are taken together. -/
theorem Transition.IsWritten.together {first second joined : Transition}
    (written : first.IsWritten allowed) (otherWritten : second.IsWritten allowed)
    (dataGuard : joined.dataGuard = createDataGuard first.dataGuard second.dataGuard)
    (dataAssignments : joined.dataAssignments =
      createAssignments first.dataAssignments second.dataAssignments)
    (clockAssignments : joined.clockAssignments =
      createAssignments first.clockAssignments second.clockAssignments) :
    joined.IsWritten allowed := by
  obtain ⟨data, dataHolds, dataAssigns⟩ := written.dataAssignments
  obtain ⟨otherData, otherDataHolds, otherDataAssigns⟩ := otherWritten.dataAssignments
  obtain ⟨clocks, clocksHold, clocksAssign⟩ := written.clockAssignments
  obtain ⟨otherClocks, otherClocksHold, otherClocksAssign⟩ := otherWritten.clockAssignments
  constructor
  · rw [dataGuard]
    exact createDataGuard_plain written.dataGuard otherWritten.dataGuard
  · refine ⟨data ++ otherData, ?_, List.forall_mem_append.mpr ⟨dataAssigns, otherDataAssigns⟩⟩
    rw [dataAssignments]
    exact dataHolds.createAssignments otherDataHolds
  · refine ⟨clocks ++ otherClocks, ?_,
      List.forall_mem_append.mpr ⟨clocksAssign, otherClocksAssign⟩⟩
    rw [clockAssignments]
    exact clocksHold.createAssignments otherClocksHold

theorem negatedGuards_plain {transition : Transition} {dataGuard : DataGuard}
    {clockGuard : ClockGuard} (plain : '_' ∉ transition.dataGuard.text.toList)
    (negated : Completion.negatedGuards transition = .ok (dataGuard, clockGuard)) :
    '_' ∉ dataGuard.text.toList := by
  rw [Completion.negatedGuards] at negated
  split at negated
  · cases negated
    have opening : '_' ∉ (Constants.guardNegation ++ " (").toList := by decide
    have closing : '_' ∉ ")".toList := by decide
    intro member
    rw [DataGuard.text_written, String.toList_append, String.toList_append] at member
    rcases List.mem_append.mp member with earlier | last
    · rcases List.mem_append.mp earlier with first | inGuard
      · exact opening first
      · exact plain inGuard
    · exact closing last
  · obtain ⟨clockGuard, _, ended⟩ := bind_eq_ok.mp negated
    cases ended
    decide

theorem complete_isWritten {order : IterationOrder} {tp tpComplete : TIOSTS}
    (wellFormed : tp.WellFormed) (written : tp.IsWritten allowed)
    (completed : Completion.complete order tp = .ok tpComplete) :
    tpComplete.IsWritten allowed := by
  obtain ⟨copy, isCopied, grown⟩ := Completion.complete_grown wellFormed completed
  have copyWritten : copy.IsWritten allowed := by
    intro label transition member
    obtain ⟨original, inTp, rfl⟩ := isCopied.exists_original wellFormed member
    have here := written label original inTp
    exact ⟨here.dataGuard, here.dataAssignments, here.clockAssignments⟩
  have constant : '_' ∉ DataGuard.constantTrue.text.toList := by decide
  intro label transition member
  cases grown.adds label transition member with
  | own inCopy => exact copyWritten label transition inCopy
  | loop unused => exact .bare constant rfl rfl
  | negation inCopy negated =>
      exact .bare (negatedGuards_plain (copyWritten label _ inCopy).dataGuard negated) rfl rfl

theorem product_isWritten {spec tp initial product : TIOSTS} {root : LocationPair}
    {final : List ProductMove} (run : IsProductRun spec tp initial root final product)
    (specWritten : spec.IsWritten allowed) (tpWritten : tp.IsWritten allowed) :
    product.IsWritten allowed := by
  intro label transition member
  rw [run.outOf] at member
  obtain ⟨move, inFinal, rfl⟩ := List.mem_map.mp member
  obtain ⟨pair, _, atPair⟩ := run.expands.sound_root move
    (List.mem_reverse.mp (List.mem_filter.mp inFinal).1)
  obtain ⟨_, inSpec, _, choice⟩ := mem_movesAt spec tp atPair
  have here := specWritten _ _ inSpec
  rcases choice with ⟨alone, _⟩ | ⟨tpTransition, inTp, together, _⟩
  · refine ⟨?_, ?_, ?_⟩
    · simpa only [Transition.mirror, ProductMove.transition, ProductMove.dataGuard, alone]
        using here.dataGuard
    · simpa only [Transition.mirror, ProductMove.transition, ProductMove.dataAssignments, alone]
        using here.dataAssignments
    · simpa only [Transition.mirror, ProductMove.transition, ProductMove.clockAssignments, alone]
        using here.clockAssignments
  · refine here.together (tpWritten _ _ inTp) ?_ ?_ ?_
    · simp only [Transition.mirror, ProductMove.transition, ProductMove.dataGuard, together]
    · simp only [Transition.mirror, ProductMove.transition, ProductMove.dataAssignments, together]
    · simp only [Transition.mirror, ProductMove.transition, ProductMove.clockAssignments,
        together]

end Keeping

section Executing

variable {allowed : String → Prop}

theorem AbstractExpression.Assigns.isAssignment_padded {expr : AbstractExpression}
    (assigns : expr.Assigns allowed) {part : List Char}
    (padded : Layout.IsPadded expr.toString.toList part) :
    Symbolrt.IsAssignment allowed (String.ofList part) := by
  obtain ⟨first, second, front, back, split⟩ := split_padded assigns.isAssignment padded
  rw [Symbolrt.IsAssignment, split]
  constructor
  · rw [Text.trim, String.toList_ofList, front.trim assigns.isAssignment.target_isSolid,
      String.ofList_toList]
    exact assigns.target
  · rw [String.toList_ofList]
    exact back.not_mem (by decide) assigns.rightHandSide

theorem Transition.IsWritten.isExecutable {model : TIOSTS} {isParameter : String → Prop}
    (written : model.IsWritten (fun target => target ∈ model.dataNames ∧ ¬ isParameter target))
    (names : ∀ name ∈ model.dataNames, IsWord name ∧ '_' ∉ name.toList)
    (parameters : ∀ label, ∀ transition ∈ model.outOf label,
      ∀ parameter ∈ transition.action.parameters,
        isParameter parameter ∧ parameter ∈ model.dataNames) :
    model.IsExecutable isParameter where
  names := names
  parameters := parameters
  guards := fun label transition member => (written label transition member).dataGuard
  dataAssignments := by
    intro label transition member text isText assignment listed
    obtain ⟨exprs, holds, assigns⟩ := (written label transition member).dataAssignments
    rw [Option.mem_def.mp isText] at holds
    cases holds with
    | text _ separated =>
        obtain ⟨parts, matched, split⟩ := split_holds
          (fun expr inside => (assigns expr inside).isAssignment) separated
        rw [split] at listed
        obtain ⟨part, inParts, rfl⟩ := List.mem_map.mp listed
        obtain ⟨expr, inside, padded⟩ := InStep.exists_left matched inParts
        exact (assigns expr inside).isAssignment_padded padded
  clockAssignments := by
    intro label transition member text isText assignment listed
    obtain ⟨exprs, holds, assigns⟩ := (written label transition member).clockAssignments
    rw [Option.mem_def.mp isText] at holds
    cases holds with
    | text _ separated =>
        obtain ⟨parts, matched, split⟩ := split_holds assigns separated
        rw [split] at listed
        obtain ⟨part, inParts, rfl⟩ := List.mem_map.mp listed
        obtain ⟨expr, inside, padded⟩ := InStep.exists_left matched inParts
        obtain ⟨_, _, _, _, here⟩ := split_padded (assigns expr inside) padded
        rw [here]
        exact List.cons_ne_nil _ _

end Executing

end Symbolrt
