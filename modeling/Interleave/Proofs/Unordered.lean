import Interleave.Proofs.Counting

set_option autoImplicit false

/-! The number of linearizations without an order. Where no position waits for another, the
leaves below a walk depend only on how many calls each position has left, and what those numbers
ask of the multinomial coefficient holds of them by the recursion of the leaves. -/

namespace Interleave

open Finset

namespace Plan

variable {plan : Plan}

def remaining (plan : Plan) (choices : List Nat) (position : Nat) : Nat :=
  plan.bodyLength position - choices.count position

private theorem remaining_nil (position : Nat) :
    plan.remaining [] position = plan.bodyLength position := by
  rw [remaining, List.count_nil, Nat.sub_zero]

private theorem remaining_cons_self (choices : List Nat) (position : Nat) :
    plan.remaining (position :: choices) position = plan.remaining choices position - 1 := by
  rw [remaining, List.count_cons_self, remaining, Nat.sub_sub]

private theorem remaining_cons_of_ne (choices : List Nat) {position other : Nat}
    (different : other ≠ position) :
    plan.remaining (position :: choices) other = plan.remaining choices other := by
  rw [remaining, List.count_cons_of_ne different.symm, remaining]

private theorem Walk.sum_remaining {choices : List Nat} (walk : plan.Walk choices) :
    ∑ position ∈ range plan.bodies.size, plan.remaining choices position =
      plan.total - choices.length := by
  unfold remaining
  rw [sum_tsub_distrib _ (fun position _ => walk.count_le position), ← total_eq_sum,
    ← walk.length_eq_sum]

def Free (plan : Plan) : Prop := ∀ position, plan.predecessors.getD position [] = []

theorem Free.enabled_iff (free : plan.Free) {choices : List Nat} {position : Nat} :
    plan.Enabled choices position ↔ plan.remaining choices position ≠ 0 := by
  unfold Enabled
  rw [free position, remaining, Nat.sub_ne_zero_iff_lt]
  exact and_iff_left (fun before impossible => absurd impossible List.not_mem_nil)

/-- The positions that may advance have all remaining calls between them. -/
theorem Free.sum_nexts (free : plan.Free) {choices : List Nat} (walk : plan.Walk choices) :
    ((plan.nexts choices 0).map (plan.remaining choices)).sum = plan.total - choices.length := by
  have distinct : (plan.nexts choices 0).Nodup := (nexts_sorted choices 0).imp Nat.ne_of_lt
  rw [← List.sum_toFinset _ distinct, ← walk.sum_remaining]
  apply sum_subset
  · intro position member
    exact mem_range.mpr (mem_nexts.mp (List.mem_toFinset.mp member)).2.bounded
  · intro position _inRange absent
    by_contra some
    exact absent (List.mem_toFinset.mpr
      (mem_nexts.mpr ⟨Nat.zero_le _, free.enabled_iff.mpr some⟩))

/-- Advancing a position takes one factor out of the factorials. -/
theorem prod_remaining {choices : List Nat} {position : Nat}
    (inRange : position < plan.bodies.size) (some : plan.remaining choices position ≠ 0) :
    ∏ other ∈ range plan.bodies.size, (plan.remaining choices other).factorial =
      plan.remaining choices position *
        ∏ other ∈ range plan.bodies.size,
          (plan.remaining (position :: choices) other).factorial := by
  have member := mem_range.mpr inRange
  rw [← mul_prod_erase _ _ member, ← mul_prod_erase _ _ member, remaining_cons_self,
    ← mul_assoc, Nat.mul_factorial_pred some]
  congr 1
  apply prod_congr rfl
  intro other inErased
  rw [remaining_cons_of_ne choices (mem_erase.mp inErased).1]

/-- The leaves below a walk, counted with the orders of the remaining calls of each position,
are the orders of all remaining calls. -/
theorem Free.leaves_length_mul (free : plan.Free) {choices : List Nat}
    (walk : plan.Walk choices) :
    (plan.leaves (plan.total - choices.length) choices).length *
        ∏ position ∈ range plan.bodies.size, (plan.remaining choices position).factorial =
      (plan.total - choices.length).factorial := by
  generalize depth : plan.total - choices.length = room
  induction room generalizing choices with
  | zero =>
      have none : ∀ position ∈ range plan.bodies.size,
          plan.remaining choices position = 0 := by
        rw [← sum_eq_zero_iff, walk.sum_remaining]
        exact depth
      have ones : ∀ position ∈ range plan.bodies.size,
          (plan.remaining choices position).factorial = 1 := by
        intro position inRange
        rw [none position inRange, Nat.factorial_zero]
      rw [prod_eq_one ones, leaves, List.length_singleton, Nat.factorial_zero, Nat.one_mul]
  | succ room ih =>
      have deeper : plan.total - (choices.length + 1) = room := by omega
      have sum := free.sum_nexts walk
      rw [depth] at sum
      have some : plan.nexts choices 0 ≠ [] := by
        intro none
        rw [none] at sum
        cases sum
      -- Every branch has the factorial of one call less, as often as it has calls left.
      have branch : ∀ position ∈ plan.nexts choices 0,
          (plan.leaves room (position :: choices)).length *
            ∏ other ∈ range plan.bodies.size, (plan.remaining choices other).factorial =
          plan.remaining choices position * room.factorial := by
        intro position member
        have enabled := (mem_nexts.mp member).2
        rw [prod_remaining enabled.bounded (free.enabled_iff.mp enabled), mul_left_comm,
          ih (walk.advance enabled) (by rw [List.length_cons]; exact deeper)]
      rw [← depth, leaves_eq walk, if_neg some, List.nil_append, deeper, depth,
        List.length_flatMap, ← List.sum_map_mul_right, List.map_congr_left branch,
        List.sum_map_mul_right, sum, Nat.factorial_succ]

end Plan

namespace Scenario

variable {scenario : Scenario}

private theorem free_of_unordered (unordered : scenario.order = []) :
    (Plan.ofScenario scenario).Free := by
  intro position
  change scenario.predecessors.getD position [] = []
  have empty : scenario.predecessors = Array.replicate scenario.threads.length [] := by
    unfold predecessors positionPairs
    rw [unordered]
    rfl
  rw [empty, Array.getD_eq_getD_getElem?, Array.getElem?_replicate]
  split <;> rfl

def lengths (scenario : Scenario) : List Nat :=
  scenario.threads.map (fun thread => thread.calls.length)

theorem total_ofScenario (scenario : Scenario) :
    (Plan.ofScenario scenario).total = scenario.lengths.sum := by
  unfold Plan.total Plan.ofScenario
  rw [List.map_toArray, List.sum_toArray, List.map_map]
  rfl

private theorem prod_bodyLength (scenario : Scenario) :
    ∏ position ∈ range (Plan.ofScenario scenario).bodies.size,
        ((Plan.ofScenario scenario).bodyLength position).factorial =
      (scenario.lengths.map Nat.factorial).prod := by
  unfold lengths
  rw [bodies_size, prod_range, List.map_map, ← Fin.prod_univ_fun_getElem]
  apply prod_congr rfl
  intro position _
  rw [bodyLength_ofScenario (List.getElem?_eq_getElem position.isLt)]
  rfl

/-- Without an order, the linearizations are as many as the multinomial coefficient says. -/
theorem linearizationCount_of_unordered (valid : scenario.Valid)
    (unordered : scenario.order = []) :
    scenario.linearizationCount =
      scenario.lengths.sum.factorial / (scenario.lengths.map Nat.factorial).prod := by
  have free := free_of_unordered unordered
  have counted := free.leaves_length_mul .start
  simp only [Plan.remaining_nil, List.length_nil, Nat.sub_zero] at counted
  rw [leaves_length valid, prod_bodyLength, total_ofScenario] at counted
  apply Nat.eq_div_of_mul_eq_left _ counted
  rw [← prod_bodyLength]
  exact prod_ne_zero_iff.mpr (fun position _ => Nat.factorial_ne_zero _)

/-- A scenario without an order, with threads of `k₁`, …, `kₙ` calls: under every limit of at
least `(k₁ + … + kₙ)! / (k₁! ⋯ kₙ!)` the search returns that many sequences, and under a smaller
limit it returns none. -/
theorem linearizations_of_unordered {members : Members Json} {scenario : Scenario}
    (accepted : Scenario.read members = .ok scenario) (unordered : scenario.order = []) :
    ∃ count found,
      count = scenario.lengths.sum.factorial / (scenario.lengths.map Nat.factorial).prod ∧
      found.length = count ∧
      ∀ limit, scenario.linearizations limit =
        if count ≤ limit then .ok found else .error (.tooMany limit) := by
  have valid := valid_of_read accepted
  refine ⟨scenario.linearizationCount, _, linearizationCount_of_unordered valid unordered, ?_,
    linearizations_eq_ite valid⟩
  rw [List.length_map, leaves_length valid]

/-- Threads of two calls, one call, no call and one call. -/
def looseDocument : Members Json :=
  [("sequences", .array
    [.object [("index", .natural 3), ("invocations",
      .array [.object [("method", .string "put")], .object [("method", .string "put")]])],
    .object [("index", .natural 0), ("invocations",
      .array [.object [("method", .string "take")]])],
    .object [("index", .natural 8)],
    .object [("index", .natural 5), ("invocations",
      .array [.object [("method", .string "size")]])]])]

def looseScenario : Scenario :=
  { Scenario.empty with
    threads := [⟨3, [⟨"put", [], false, some 3⟩, ⟨"put", [], false, some 3⟩]⟩,
      ⟨0, [⟨"take", [], false, some 0⟩]⟩, ⟨8, []⟩, ⟨5, [⟨"size", [], false, some 5⟩]⟩] }

theorem linearizations_of_unordered_loose :
    Scenario.read looseDocument = .ok looseScenario ∧ looseScenario.order = [] ∧
    ∃ found, found.length = 12 ∧ ∀ limit, looseScenario.linearizations limit =
      if 12 ≤ limit then .ok found else .error (.tooMany limit) := by
  have accepted : Scenario.read looseDocument = .ok looseScenario := by rfl
  obtain ⟨count, found, formula, length, answers⟩ := linearizations_of_unordered accepted rfl
  have twelve : count = 12 := formula.trans (by rfl)
  subst twelve
  exact ⟨accepted, rfl, found, length, answers⟩

end Scenario

end Interleave
