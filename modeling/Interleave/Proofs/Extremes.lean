import Interleave.Proofs.Cycles
import Interleave.Proofs.Stages

set_option autoImplicit false

/-! The initial and the final thread. Each is singled out for being the only thread on one side
of no pair. The order has no cycles, so going on along its pairs comes to an end, and it can end
at such a thread only: the order leads from the initial thread to all others, and from all others
to the final one. -/

namespace Interleave.Scenario

/-- Where every member but one has a step to a member of lower rank, steps lead from each of them
to that one. -/
theorem transGen_of_descent {members : List Nat} {step : Nat → Nat → Prop} {rank : Nat → Nat}
    {goal : Nat}
    (descends : ∀ index ∈ members, index ≠ goal →
      ∃ next ∈ members, step index next ∧ rank next < rank index) :
    ∀ index ∈ members, index ≠ goal → Relation.TransGen step index goal := by
  have descent : ∀ height index, rank index = height → index ∈ members → index ≠ goal →
      Relation.TransGen step index goal := by
    intro height
    induction height using Nat.strongRecOn with
    | ind height ih =>
        intro index atHeight member other
        obtain ⟨next, inside, taken, lower⟩ := descends index member other
        by_cases arrived : next = goal
        · rw [arrived] at taken
          exact .single taken
        · exact .head taken (ih (rank next) (by omega) next rfl inside arrived)
  exact fun index => descent (rank index) index rfl

variable {scenario : Scenario}

/-! ### Along the pairs in one direction -/

/-- Some pair has one thread on this side and the next on the far side. -/
def Leads (scenario : Scenario) (side far : Nat × Nat → Nat) (index next : Nat) : Prop :=
  ∃ pair ∈ scenario.order, side pair = index ∧ far pair = next

theorem transGen_leads_forward (before after : Nat) :
    Relation.TransGen (scenario.Leads Prod.fst Prod.snd) before after ↔
      scenario.Precedes before after := by
  have same : scenario.Leads Prod.fst Prod.snd =
      fun before after => (before, after) ∈ scenario.order := by
    funext before after
    unfold Leads
    simp
  unfold Precedes
  rw [same]

private theorem transGen_leads_backward (before after : Nat) :
    Relation.TransGen (scenario.Leads Prod.snd Prod.fst) after before ↔
      scenario.Precedes before after := by
  rw [← transGen_leads_forward, ← Relation.transGen_swap]
  have same : Function.swap (scenario.Leads Prod.snd Prod.fst) =
      scenario.Leads Prod.fst Prod.snd := by
    funext before after
    unfold Function.swap Leads
    simp only [and_comm]
  rw [same]

private theorem only?_eq_some_of_alone {side : Nat × Nat → Nat} {only : Nat}
    (distinct : scenario.indices.Nodup) (ordered : scenario.order ≠ [])
    (alone : ∀ index, (index ∈ scenario.indices ∧ ∀ pair ∈ scenario.order, side pair ≠ index) ↔
      index = only) : scenario.only? side = some only := by
  unfold only?
  rw [if_neg (by rwa [List.isEmpty_iff]), unique?_eq_some_iff, ← List.perm_singleton,
    List.perm_ext_iff_of_nodup (distinct.filter _) (List.nodup_singleton only)]
  intro index
  rw [List.mem_filter, List.mem_singleton, ← alone index, List.all_eq_true]
  simp only [bne_iff_ne]

private theorem rank_lt_of_chain {side far : Nat × Nat → Nat} {rank : Nat → Nat}
    (falls : ∀ pair ∈ scenario.order, rank (far pair) < rank (side pair)) {index last : Nat}
    (chain : Relation.TransGen (scenario.Leads side far) index last) : rank last < rank index := by
  induction chain with
  | single leads =>
      obtain ⟨pair, inOrder, rfl, rfl⟩ := leads
      exact falls pair inOrder
  | tail _chain leads ih =>
      obtain ⟨pair, inOrder, rfl, rfl⟩ := leads
      exact (falls pair inOrder).trans ih

/-- With ranks that fall along the pairs, the only thread on this side of no pair is the one that
all others lead to. -/
theorem only?_eq_some_iff {side far : Nat × Nat → Nat} {rank : Nat → Nat}
    (distinct : scenario.indices.Nodup)
    (declared : ∀ pair ∈ scenario.order, far pair ∈ scenario.indices)
    (falls : ∀ pair ∈ scenario.order, rank (far pair) < rank (side pair)) (only : Nat) :
    scenario.only? side = some only ↔
      scenario.order ≠ [] ∧ only ∈ scenario.indices ∧
        ∀ other ∈ scenario.indices, other ≠ only →
          Relation.TransGen (scenario.Leads side far) other only := by
  constructor
  · intro found
    have alone := only?_iff found
    refine ⟨?_, ((alone only).mpr rfl).1, ?_⟩
    · intro empty
      unfold only? at found
      rw [empty] at found
      cases found
    · have descends : ∀ index ∈ scenario.indices, index ≠ only →
          ∃ next ∈ scenario.indices, scenario.Leads side far index next ∧
            rank next < rank index := by
        intro index member other
        have onSide : ∃ pair ∈ scenario.order, side pair = index := by
          by_contra none
          exact other ((alone index).mp
            ⟨member, fun pair inOrder same => none ⟨pair, inOrder, same⟩⟩)
        obtain ⟨pair, inOrder, rfl⟩ := onSide
        exact ⟨far pair, declared pair inOrder, ⟨pair, inOrder, rfl, rfl⟩, falls pair inOrder⟩
      exact transGen_of_descent descends
  · intro given
    obtain ⟨ordered, member, reached⟩ := given
    apply only?_eq_some_of_alone distinct ordered
    intro index
    constructor
    · intro free
      by_contra other
      obtain ⟨_next, leads, _rest⟩ := Relation.TransGen.head'_iff.mp (reached index free.1 other)
      obtain ⟨pair, inOrder, same, _far⟩ := leads
      exact free.2 pair inOrder same
    · intro same
      subst same
      refine ⟨member, ?_⟩
      -- A pair out of it would lead to a thread of lower rank, which leads back to it.
      intro pair inOrder same
      have below := falls pair inOrder
      rw [same] at below
      have back := reached (far pair) (declared pair inOrder) (fun loop => by
        rw [loop] at below
        exact Nat.lt_irrefl _ below)
      exact Nat.lt_irrefl _ (below.trans (rank_lt_of_chain falls back))

/-! ### The two ends -/

theorem initial?_eq_some_iff (valid : scenario.Valid) (first : Nat) :
    scenario.initial? = some first ↔
      scenario.order ≠ [] ∧ first ∈ scenario.indices ∧
        ∀ other ∈ scenario.indices, other ≠ first → scenario.Precedes first other := by
  obtain ⟨rank, rises⟩ := valid.ranked
  rw [initial?_eq, only?_eq_some_iff valid.distinct
    (fun pair member => (valid.declared pair member).1) rises]
  simp only [transGen_leads_backward]

/-- Ranks that fall along the order are counted down from a bound of those that rise. -/
theorem Valid.exists_falling (valid : scenario.Valid) :
    ∃ rank : Nat → Nat, ∀ pair ∈ scenario.order, rank pair.2 < rank pair.1 := by
  obtain ⟨rank, rises⟩ := valid.ranked
  refine ⟨fun index => (scenario.indices.map rank).sum - rank index, ?_⟩
  intro pair member
  have bound : rank pair.2 ≤ (scenario.indices.map rank).sum :=
    List.le_sum_of_mem (List.mem_map_of_mem (valid.declared pair member).2)
  have rise := rises pair member
  dsimp only
  omega

theorem final?_eq_some_iff (valid : scenario.Valid) (last : Nat) :
    scenario.final? = some last ↔
      scenario.order ≠ [] ∧ last ∈ scenario.indices ∧
        ∀ other ∈ scenario.indices, other ≠ last → scenario.Precedes other last := by
  obtain ⟨rank, falls⟩ := valid.exists_falling
  rw [final?_eq, only?_eq_some_iff valid.distinct
    (fun pair member => (valid.declared pair member).2) falls]
  simp only [transGen_leads_forward]

/-- A thread at both ends would be on no pair, yet precede the threads of some pair. -/
theorem initial_ne_final (valid : scenario.Valid) {first last : Nat}
    (initial : scenario.initial? = some first) (final : scenario.final? = some last) :
    first ≠ last := by
  intro same
  subst same
  obtain ⟨ordered, _declared, precedes⟩ := (initial?_eq_some_iff valid first).mp initial
  have free := ((only?_iff final first).mpr rfl).2
  obtain ⟨pair, member⟩ := List.exists_mem_of_ne_nil _ ordered
  have chain := precedes pair.1 (valid.declared pair member).1 (free pair member)
  obtain ⟨next, leads, _rest⟩ := Relation.TransGen.head'_iff.mp chain
  exact free _ leads rfl

/-- In a scenario that was read a thread is singled out as the initial one exactly when there is
an order and it leads from that thread to all others, and as the final one exactly when it leads
there from all others. No thread is both. -/
theorem initial_final_bound {members : Members Json} {scenario : Scenario}
    (accepted : Scenario.read members = .ok scenario) :
    (∀ first, scenario.initial? = some first ↔
      scenario.order ≠ [] ∧ first ∈ scenario.indices ∧
        ∀ other ∈ scenario.indices, other ≠ first → scenario.Precedes first other) ∧
    (∀ last, scenario.final? = some last ↔
      scenario.order ≠ [] ∧ last ∈ scenario.indices ∧
        ∀ other ∈ scenario.indices, other ≠ last → scenario.Precedes other last) ∧
    (∀ first last, scenario.initial? = some first → scenario.final? = some last →
      first ≠ last) := by
  have valid := valid_of_read accepted
  exact ⟨initial?_eq_some_iff valid, final?_eq_some_iff valid,
    fun _ _ => initial_ne_final valid⟩

/-- A chain against the order of declaration: no pair leads from its first thread to its last. -/
def chainDocument : Members Json :=
  [("sequences", .array [.object [("index", .natural 1)], .object [("index", .natural 0)],
      .object [("index", .natural 2)]]),
    ("order", .array [.array [.natural 0, .natural 1], .array [.natural 2, .natural 0]])]

def chainScenario : Scenario :=
  { Scenario.empty with
    threads := [⟨1, []⟩, ⟨0, []⟩, ⟨2, []⟩]
    order := [(0, 1), (2, 0)] }

theorem initial_final_bound_chain :
    Scenario.read chainDocument = .ok chainScenario ∧
    chainScenario.initial? = some 2 ∧ chainScenario.final? = some 1 ∧
    (2, 1) ∉ chainScenario.order ∧ chainScenario.Precedes 2 1 := by
  have accepted : Scenario.read chainDocument = .ok chainScenario := by rfl
  have initial : chainScenario.initial? = some 2 := by rfl
  obtain ⟨_, _, precedes⟩ := ((initial_final_bound accepted).1 2).mp initial
  exact ⟨accepted, initial, rfl, by decide, precedes 1 (by decide) (by decide)⟩

end Interleave.Scenario
