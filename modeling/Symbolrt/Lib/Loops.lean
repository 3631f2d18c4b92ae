import Mathlib.Data.List.Basic

/-!
# Loops that may fail

A loop over a list whose body may throw returns, and keeps an invariant, when
every iteration does.
-/

namespace Loops

variable {State Item Failure : Type} {step : State → Item → Except Failure State}

/-- The loop rule: the invariant speaks about the items dealt with so far. -/
theorem foldlM_returns (invariant : List Item → State → Prop) {items : List Item}
    {start : State} (initially : invariant [] start)
    (body : ∀ done item rest state, items = done ++ item :: rest → invariant done state →
      ∃ next, step state item = .ok next ∧ invariant (done ++ [item]) next) :
    ∃ final, items.foldlM step start = .ok final ∧ invariant items final := by
  suffices general : ∀ rest done state, items = done ++ rest → invariant done state →
      ∃ final, rest.foldlM step state = .ok final ∧ invariant items final from
    general items [] start rfl initially
  intro rest
  induction rest with
  | nil =>
      intro done state whole holds
      refine ⟨state, rfl, ?_⟩
      rw [whole, List.append_nil]
      exact holds
  | cons item rest induction =>
      intro done state whole holds
      obtain ⟨next, stepped, nextHolds⟩ := body done item rest state whole holds
      obtain ⟨final, returned, finalHolds⟩ :=
        induction (done ++ [item]) next (by simp [whole]) nextHolds
      refine ⟨final, ?_, finalHolds⟩
      rw [List.foldlM_cons, stepped]
      exact returned

/-- Only what the step does with the items matters. -/
theorem foldlM_congr {other : State → Item → Except Failure State} {items : List Item}
    (same : ∀ item ∈ items, ∀ state, step state item = other state item) (start : State) :
    items.foldlM step start = items.foldlM other start := by
  induction items generalizing start with
  | nil => rfl
  | cons item items induction =>
      rw [List.foldlM_cons, List.foldlM_cons, same item List.mem_cons_self]
      congr 1
      funext next
      exact induction (fun later member => same later (List.mem_cons_of_mem _ member)) next

/-- The rule for a loop that is known to have returned. -/
theorem foldlM_returned (invariant : List Item → State → Prop) {items : List Item}
    {start final : State} (returned : items.foldlM step start = .ok final)
    (initially : invariant [] start)
    (body : ∀ done item rest state next, items = done ++ item :: rest →
      invariant done state → step state item = .ok next → invariant (done ++ [item]) next) :
    invariant items final := by
  suffices general : ∀ rest done state, items = done ++ rest → invariant done state →
      rest.foldlM step state = .ok final → invariant items final from
    general items [] start rfl initially returned
  intro rest
  induction rest with
  | nil =>
      intro done state whole holds ended
      cases ended
      rw [whole, List.append_nil]
      exact holds
  | cons item rest induction =>
      intro done state whole holds running
      rw [List.foldlM_cons] at running
      cases stepped : step state item with
      | error failure =>
          rw [stepped] at running
          cases running
      | ok next =>
          rw [stepped] at running
          apply induction (done ++ [item]) next (by simp [whole]) ?_ running
          exact body done item rest state next whole holds stepped

/-- A loop that throws does so in one of its iterations. -/
theorem foldlM_failed (invariant : List Item → State → Prop) {items : List Item}
    {start : State} {failure : Failure} (failed : items.foldlM step start = .error failure)
    (initially : invariant [] start)
    (body : ∀ done item rest state next, items = done ++ item :: rest →
      invariant done state → step state item = .ok next → invariant (done ++ [item]) next) :
    ∃ done item rest state, items = done ++ item :: rest ∧ invariant done state ∧
      step state item = .error failure := by
  suffices general : ∀ rest done state, items = done ++ rest → invariant done state →
      rest.foldlM step state = .error failure →
      ∃ done item rest state, items = done ++ item :: rest ∧ invariant done state ∧
        step state item = .error failure from
    general items [] start rfl initially failed
  intro rest
  induction rest with
  | nil =>
      intro done state _ _ ended
      cases ended
  | cons item rest induction =>
      intro done state whole holds running
      rw [List.foldlM_cons] at running
      cases stepped : step state item with
      | error other =>
          rw [stepped] at running
          obtain rfl := Except.error.inj running
          exact ⟨done, item, rest, state, whole, holds, stepped⟩
      | ok next =>
          rw [stepped] at running
          apply induction (done ++ [item]) next (by simp [whole]) ?_ running
          exact body done item rest state next whole holds stepped

/-- The rule for a loop that some item stops: the first such item decides. -/
theorem foldlM_throws (invariant : List Item → State → Prop) (stops : Item → Prop)
    (raised : Failure → Prop) {items : List Item} {start : State}
    (initially : invariant [] start)
    (body : ∀ done item rest state, items = done ++ item :: rest → invariant done state →
      ¬ stops item → ∃ next, step state item = .ok next ∧ invariant (done ++ [item]) next)
    (throws : ∀ done item rest state, items = done ++ item :: rest → invariant done state →
      stops item → ∃ failure, step state item = .error failure ∧ raised failure)
    (stopped : ∃ item ∈ items, stops item) :
    ∃ failure, items.foldlM step start = .error failure ∧ raised failure := by
  suffices general : ∀ rest done state, items = done ++ rest → invariant done state →
      (∃ item ∈ rest, stops item) →
        ∃ failure, rest.foldlM step state = .error failure ∧ raised failure from
    general items [] start rfl initially stopped
  intro rest
  induction rest with
  | nil =>
      rintro done state _ _ ⟨item, member, _⟩
      cases member
  | cons item rest induction =>
      rintro done state whole holds ⟨other, member, stopsOther⟩
      by_cases stopsHere : stops item
      · obtain ⟨failure, stepped, isRaised⟩ := throws done item rest state whole holds stopsHere
        refine ⟨failure, ?_, isRaised⟩
        rw [List.foldlM_cons, stepped]
        rfl
      · obtain ⟨next, stepped, nextHolds⟩ := body done item rest state whole holds stopsHere
        have later : other ∈ rest := by
          rcases List.mem_cons.mp member with rfl | later
          · exact absurd stopsOther stopsHere
          · exact later
        obtain ⟨failure, returned, isRaised⟩ := induction (done ++ [item]) next
          (by simp [whole]) nextHolds ⟨other, later, stopsOther⟩
        refine ⟨failure, ?_, isRaised⟩
        rw [List.foldlM_cons, stepped]
        exact returned

/-- A loop that takes in each item once returns exactly if all items are new to it. -/
theorem foldlM_addsNew_iff {Key : Type} {key : Item → Key} {isNew : State → Key → Prop}
    (adds : ∀ state item, (∃ next, step state item = .ok next) ↔ isNew state (key item))
    (remains : ∀ {state item next}, step state item = .ok next →
      ∀ other, isNew next other ↔ isNew state other ∧ other ≠ key item)
    {items : List Item} (distinct : (items.map key).Nodup) (start : State) :
    (∃ final, items.foldlM step start = .ok final) ↔
      ∀ item ∈ items, isNew start (key item) := by
  induction items generalizing start with
  | nil => exact iff_of_true ⟨start, rfl⟩ (fun item member => nomatch member)
  | cons item items induction =>
      rw [List.map_cons, List.nodup_cons] at distinct
      rw [List.foldlM_cons, List.forall_mem_cons, ← adds start item]
      cases stepped : step start item with
      | error failure =>
          constructor
          · rintro ⟨final, returned⟩
            cases returned
          · rintro ⟨⟨next, taken⟩, _⟩
            cases taken
      | ok next =>
          refine (induction distinct.2 next).trans ?_
          constructor
          · intro later
            refine ⟨⟨next, rfl⟩, ?_⟩
            exact fun other member => ((remains stepped _).mp (later other member)).1
          · intro both other member
            refine (remains stepped _).mpr ⟨both.2 other member, ?_⟩
            exact fun same => distinct.1 (same ▸ List.mem_map_of_mem member)

section Lookups

variable {Found : Type} {find : Item → Except Failure Found}

theorem mapM_cons_eq {item : Item} {items : List Item} {found : List Found} :
    (item :: items).mapM find = .ok found ↔ ∃ first rest, find item = .ok first ∧
      items.mapM find = .ok rest ∧ found = first :: rest := by
  rw [List.mapM_cons]
  cases looked : find item with
  | error failure =>
      constructor
      · intro impossible
        cases impossible
      · rintro ⟨first, rest, impossible, _⟩
        cases impossible
  | ok first =>
      cases others : items.mapM find with
      | error failure =>
          constructor
          · intro impossible
            cases impossible
          · rintro ⟨_, rest, _, impossible, _⟩
            cases impossible
      | ok rest =>
          constructor
          · intro whole
            exact ⟨first, rest, rfl, rfl, (Except.ok.inj whole).symm⟩
          · rintro ⟨_, _, same, sameRest, rfl⟩
            obtain rfl := Except.ok.inj same
            obtain rfl := Except.ok.inj sameRest
            rfl

/-- What is found stands in the order of the items, if it tells for which item it was
found. -/
theorem mapM_found {back : Found → Item}
    (inverse : ∀ item result, find item = .ok result → back result = item)
    {items : List Item} {found : List Found} (all : items.mapM find = .ok found) :
    found.map back = items ∧ ∀ result ∈ found, find (back result) = .ok result := by
  induction items generalizing found with
  | nil =>
      obtain rfl := Except.ok.inj all
      simp
  | cons item items induction =>
      obtain ⟨first, rest, looked, others, rfl⟩ := mapM_cons_eq.mp all
      obtain ⟨order, each⟩ := induction others
      have same := inverse item first looked
      constructor
      · rw [List.map_cons, order, same]
      · intro result member
        rcases List.mem_cons.mp member with rfl | later
        · rw [same]
          exact looked
        · exact each result later

/-- What is found for each item is found for all of them, in their order. -/
theorem mapM_forall₂ {R : Item → Found → Prop} {items : List Item}
    (each : ∀ item ∈ items, ∃ result, find item = .ok result ∧ R item result) :
    ∃ found, items.mapM find = .ok found ∧ List.Forall₂ R items found := by
  induction items with
  | nil => exact ⟨[], rfl, List.Forall₂.nil⟩
  | cons item items induction =>
      obtain ⟨first, looked, related⟩ := each item List.mem_cons_self
      obtain ⟨rest, others, allRelated⟩ :=
        induction (fun other later => each other (List.mem_cons_of_mem _ later))
      exact ⟨first :: rest, mapM_cons_eq.mpr ⟨first, rest, looked, others, rfl⟩,
        List.Forall₂.cons related allRelated⟩

/-- What is found stands to the first list as what it is found for does. -/
theorem mapM_forall₂_trans {Key : Type} {R : Key → Item → Prop} {S : Key → Found → Prop}
    {keys : List Key} {items : List Item} (all : List.Forall₂ R keys items)
    (each : ∀ key item, R key item → ∃ result, find item = .ok result ∧ S key result) :
    ∃ found, items.mapM find = .ok found ∧ List.Forall₂ S keys found := by
  induction all with
  | nil => exact ⟨[], rfl, List.Forall₂.nil⟩
  | cons first _ induction =>
      obtain ⟨result, looked, related⟩ := each _ _ first
      obtain ⟨rest, others, allRelated⟩ := induction
      exact ⟨result :: rest, mapM_cons_eq.mpr ⟨result, rest, looked, others, rfl⟩,
        List.Forall₂.cons related allRelated⟩

theorem mapM_mem {items : List Item} {found : List Found} (all : items.mapM find = .ok found)
    {result : Found} (member : result ∈ found) : ∃ item ∈ items, find item = .ok result := by
  induction items generalizing found with
  | nil =>
      obtain rfl := Except.ok.inj all
      cases member
  | cons item items induction =>
      obtain ⟨first, rest, looked, others, rfl⟩ := mapM_cons_eq.mp all
      rcases List.mem_cons.mp member with rfl | later
      · exact ⟨item, List.mem_cons_self, looked⟩
      · obtain ⟨other, among, lookedUp⟩ := induction others later
        exact ⟨other, List.mem_cons_of_mem item among, lookedUp⟩

/-- A loop that looks something up for each item is the loop over what it finds. -/
theorem foldlM_mapM {step : State → Found → Except Failure State} {items : List Item}
    {found : List Found} (all : items.mapM find = .ok found) (start : State) :
    items.foldlM (fun state item => find item >>= step state) start =
      found.foldlM step start := by
  induction items generalizing found start with
  | nil =>
      obtain rfl := Except.ok.inj all
      rfl
  | cons item items induction =>
      obtain ⟨first, rest, looked, others, rfl⟩ := mapM_cons_eq.mp all
      rw [List.foldlM_cons, List.foldlM_cons, looked]
      change (step start first >>= _) = _
      cases step start first with
      | error failure => rfl
      | ok next => exact induction others next

/-- A loop that has returned has found something for each item. -/
theorem exists_mapM {step : State → Found → Except Failure State} {items : List Item}
    {start final : State}
    (returned : items.foldlM (fun state item => find item >>= step state) start = .ok final) :
    ∃ found, items.mapM find = .ok found := by
  induction items generalizing start with
  | nil => exact ⟨[], rfl⟩
  | cons item items induction =>
      rw [List.foldlM_cons] at returned
      cases looked : find item with
      | error failure =>
          rw [looked] at returned
          cases returned
      | ok first =>
          rw [looked] at returned
          change (step start first >>= _) = _ at returned
          cases stepped : step start first with
          | error failure =>
              rw [stepped] at returned
              cases returned
          | ok next =>
              rw [stepped] at returned
              obtain ⟨rest, others⟩ := induction returned
              exact ⟨first :: rest, mapM_cons_eq.mpr ⟨first, rest, looked, others, rfl⟩⟩

end Lookups

/-- A loop that keeps the last of the items that match. -/
theorem foldl_last (isMatch : Item → Prop) [DecidablePred isMatch] (items : List Item) :
    items.foldl (fun found item => if isMatch item then some item else found) none =
      (items.filter (fun item => isMatch item)).getLast? := by
  suffices general : ∀ found : Option Item,
      items.foldl (fun found item => if isMatch item then some item else found) found =
        ((items.filter (fun item => isMatch item)).getLast?).or found by
    rw [general, Option.or_none]
  induction items with
  | nil =>
      intro found
      rfl
  | cons first rest induction =>
      intro found
      rw [List.foldl_cons, induction]
      by_cases matched : isMatch first
      · rw [if_pos matched, List.filter_cons_of_pos (by simpa using matched)]
        cases rest.filter (fun item => isMatch item) with
        | nil => rfl
        | cons head tail =>
            rw [List.getLast?_cons_cons, List.getLast?_eq_some_getLast (List.cons_ne_nil _ _)]
            rfl
      · rw [if_neg matched, List.filter_cons_of_neg (by simpa using matched)]

end Loops
