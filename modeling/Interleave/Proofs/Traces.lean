import Interleave.Proofs.SearchRun

set_option autoImplicit false

/-! The moves of the search, one for each round. A search that ends without an error has made the
tour of all walks: into a walk, into and out of each longer one in turn, and out of it again. -/

namespace Interleave

namespace Search

/-- What a round does to the word of choices: it goes into a longer word, or out of one. -/
inductive Move where
  | into (word : List Nat)
  | outOf (word : List Nat)
  deriving DecidableEq

def Move.word : Move → List Nat
  | .into word => word
  | .outOf word => word

/-- The move that leads from one word to the next. -/
def Move.between (before after : List Nat) : Move :=
  if before.length < after.length then .into after else .outOf before

private theorem Move.between_cons (position : Nat) (word : List Nat) :
    Move.between word (position :: word) = .into (position :: word) :=
  if_pos (Nat.lt_succ_self word.length)

private theorem Move.between_tail (position : Nat) (word : List Nat) :
    Move.between (position :: word) word = .outOf (position :: word) :=
  if_neg (Nat.not_lt_of_gt (Nat.lt_succ_self word.length))

/-- The moves from a state on, to the round that gives the answer. -/
inductive Trace (plan : Plan) (limit : Nat) :
    Search → List Move → Except LinearizationError (Array (CallSequence Call)) → Prop where
  | done {search : Search} {found : Array (CallSequence Call)}
      (stepped : search.step plan limit = .done found) : Trace plan limit search [] (.ok found)
  | stopped {search : Search} {error : LinearizationError}
      (stepped : search.step plan limit = .stopped error) :
      Trace plan limit search [] (.error error)
  | going {search next : Search} {moves : List Move}
      {answer : Except LinearizationError (Array (CallSequence Call))}
      (stepped : search.step plan limit = .going next)
      (later : Trace plan limit next moves answer) :
      Trace plan limit search (.between search.choices next.choices :: moves) answer

end Search

namespace Plan

variable (plan : Plan)

/-- All moves above a walk that is at most `room` steps short of its end. -/
def tour : (room : Nat) → (choices : List Nat) → List Search.Move
  | 0, _ => []
  | room + 1, choices =>
      (plan.nexts choices 0).flatMap (fun position =>
        .into (position :: choices) ::
          (tour room (position :: choices) ++ [.outOf (position :: choices)]))

/-- The moves into the branches of a walk from `first` on, through them and out of them. -/
def visits (choices : List Nat) (first : Nat) : List Search.Move :=
  (plan.nexts choices first).flatMap (fun position =>
    .into (position :: choices) ::
      (plan.tour (plan.total - (choices.length + 1)) (position :: choices) ++
        [.outOf (position :: choices)]))

/-- The moves that are left once all branches of a walk have been visited. -/
def wayBack : List Nat → List Search.Move
  | [] => []
  | latest :: choices =>
      .outOf (latest :: choices) :: (plan.visits choices (latest + 1) ++ wayBack choices)

def progressAfter : Search.Move → Nat
  | .into word => plan.progress word 0
  | .outOf word => plan.progress word.tail (word.headD 0 + 1)

variable {plan}

private theorem tour_eq {choices : List Nat} (walk : plan.Walk choices) :
    plan.tour (plan.total - choices.length) choices = plan.visits choices 0 := by
  by_cases none : plan.nexts choices 0 = []
  · rw [visits, none, List.flatMap_nil]
    cases plan.total - choices.length with
    | zero => rfl
    | succ room => rw [tour, none, List.flatMap_nil]
  · obtain ⟨position, member⟩ := List.exists_mem_of_ne_nil _ none
    have space := walk.length_lt (mem_nexts.mp member).2
    have room : plan.total - choices.length = plan.total - (choices.length + 1) + 1 := by omega
    rw [room, tour, visits]

/-- The first branch is visited before the others. -/
theorem visits_eq {choices rest : List Nat} {first position : Nat} (walk : plan.Walk choices)
    (nexts : plan.nexts choices first = position :: rest) :
    plan.visits choices first =
      .into (position :: choices) :: (plan.visits (position :: choices) 0 ++
        .outOf (position :: choices) :: plan.visits choices (position + 1)) := by
  have member : position ∈ plan.nexts choices first := by
    rw [nexts]
    exact List.mem_cons_self
  have inside := tour_eq (walk.advance (mem_nexts.mp member).2)
  rw [List.length_cons] at inside
  rw [visits, nexts, List.flatMap_cons, nexts_tail nexts, inside, List.cons_append,
    List.append_assoc, List.singleton_append]
  rfl

theorem branch_subset {choices : List Nat} {position : Nat} (walk : plan.Walk choices)
    (enabled : plan.Enabled choices position) :
    .into (position :: choices) ::
        (plan.visits (position :: choices) 0 ++ [.outOf (position :: choices)]) ⊆
      plan.visits choices 0 := by
  have inside := tour_eq (walk.advance enabled)
  rw [List.length_cons] at inside
  rw [← inside]
  intro move member
  exact List.mem_flatMap.mpr ⟨position, mem_nexts.mpr ⟨Nat.zero_le _, enabled⟩, member⟩

private theorem visits_subset {word : List Nat} (walk : plan.Walk word) :
    plan.visits word 0 ⊆ plan.visits [] 0 := by
  induction walk with
  | start => exact List.Subset.refl _
  | advance earlier enabled ih =>
      intro move member
      exact ih (branch_subset earlier enabled
        (List.mem_cons_of_mem _ (List.mem_append_left _ member)))

/-- The whole tour goes into and out of every walk but the empty one. -/
theorem mem_visits_of_walk {word : List Nat} (walk : plan.Walk word) (nonempty : word ≠ []) :
    .into word ∈ plan.visits [] 0 ∧ .outOf word ∈ plan.visits [] 0 := by
  cases walk with
  | start => exact absurd rfl nonempty
  | advance earlier enabled =>
      have visited := branch_subset earlier enabled
      have whole := visits_subset earlier
      exact ⟨whole (visited List.mem_cons_self),
        whole (visited (List.mem_cons_of_mem _ (List.mem_append_right _
          (List.mem_singleton_self _))))⟩

end Plan

namespace Search

variable {plan : Plan} {limit : Nat} {search next : Search} {moves : List Move}
  {answer : Except LinearizationError (Array (CallSequence Call))}
  {found : Array (CallSequence Call)}

private theorem advance_choices (search : Search) (position : Nat) (call : Call) :
    (search.advance position call).choices = position :: search.choices := rfl

private theorem advance_resume (search : Search) (position : Nat) (call : Call) :
    (search.advance position call).resume = 0 := rfl

/-! ### Moves -/

/-- The moves that a search without a limit would still make. -/
def ahead (plan : Plan) (search : Search) : List Move :=
  plan.visits search.choices search.resume ++ plan.wayBack search.choices

private theorem ahead_of_going (holds : Invariant plan search)
    (stepped : search.step plan limit = .going next) :
    search.ahead plan = .between search.choices next.choices :: next.ahead plan := by
  rcases going_cases holds stepped with
    ⟨position, call, rest, nexts, _, rfl⟩ | ⟨nexts, _, latest, _, _, shorter, resume, _⟩
  · rw [ahead, ahead, advance_choices, advance_resume, Move.between_cons,
      Plan.visits_eq holds.walk nexts, Plan.wayBack, List.cons_append, List.append_assoc,
      List.cons_append]
  · have visited : plan.visits search.choices search.resume = [] := by
      rw [Plan.visits, nexts, List.flatMap_nil]
    rw [ahead, ahead, visited, shorter, resume, Move.between_tail, Plan.wayBack, List.nil_append]

theorem progressAfter_eq (holds : Invariant plan search)
    (stepped : search.step plan limit = .going next) :
    plan.progressAfter (.between search.choices next.choices) =
      plan.progress next.choices next.resume := by
  rcases going_cases holds stepped with
    ⟨position, call, _, _, _, rfl⟩ | ⟨_, _, latest, _, _, shorter, resume, _⟩
  · rw [advance_choices, advance_resume, Move.between_cons, Plan.progressAfter]
  · rw [shorter, resume, Move.between_tail, Plan.progressAfter, List.tail_cons, List.headD_cons]

theorem walk_between (holds : Invariant plan search)
    (stepped : search.step plan limit = .going next) :
    (Move.between search.choices next.choices).word ≠ [] ∧
      plan.Walk (Move.between search.choices next.choices).word := by
  have nextHolds := (follows_of_going holds stepped).invariant
  rcases going_cases holds stepped with
    ⟨position, call, _, _, _, rfl⟩ | ⟨_, _, latest, _, _, shorter, _⟩
  · rw [advance_choices, Move.between_cons]
    exact ⟨List.cons_ne_nil _ _, nextHolds.walk⟩
  · rw [shorter, Move.between_tail]
    exact ⟨List.cons_ne_nil _ _, shorter ▸ holds.walk⟩

/-! ### Traces -/

/-- A search that ends without an error has made all moves that were ahead. -/
theorem Trace.moves_eq (trace : Trace plan limit search moves answer)
    (holds : Invariant plan search) (returned : answer = .ok found) :
    moves = search.ahead plan := by
  induction trace with
  | done stepped =>
      obtain ⟨nexts, empty, _⟩ := done_cases holds stepped
      rw [ahead, Plan.visits, nexts, empty]
      rfl
  | stopped => cases returned
  | going stepped _ ih =>
      rw [ahead_of_going holds stepped, ih (follows_of_going holds stepped).invariant returned]

theorem Trace.progress_chain (trace : Trace plan limit search moves answer)
    (holds : Invariant plan search) :
    List.IsChain (· < ·)
      (plan.progress search.choices search.resume :: moves.map plan.progressAfter) := by
  induction trace with
  | done => exact List.isChain_singleton _
  | stopped => exact List.isChain_singleton _
  | going stepped _ ih =>
      have follows := follows_of_going holds stepped
      rw [List.map_cons, progressAfter_eq holds stepped]
      exact List.isChain_cons_cons.mpr ⟨follows.progress_lt, ih follows.invariant⟩

theorem Trace.nodup (trace : Trace plan limit search moves answer)
    (holds : Invariant plan search) : moves.Nodup := by
  have rising := List.isChain_iff_pairwise.mp (trace.progress_chain holds)
  apply List.Nodup.of_map plan.progressAfter
  exact (List.pairwise_cons.mp rising).2.imp Nat.ne_of_lt

theorem Trace.walk (trace : Trace plan limit search moves answer)
    (holds : Invariant plan search) :
    ∀ move ∈ moves, move.word ≠ [] ∧ plan.Walk move.word := by
  induction trace with
  | done => exact List.forall_mem_nil _
  | stopped => exact List.forall_mem_nil _
  | going stepped _ ih =>
      exact List.forall_mem_cons.mpr
        ⟨walk_between holds stepped, ih (follows_of_going holds stepped).invariant⟩

theorem Trace.length_lt (trace : Trace plan limit search moves answer)
    (holds : Invariant plan search) :
    plan.progress search.choices search.resume + moves.length < plan.base ^ (plan.total + 1) := by
  induction trace with
  | done => exact progress_lt holds.walk holds.resume_le
  | stopped => exact progress_lt holds.walk holds.resume_le
  | going stepped _ ih =>
      have follows := follows_of_going holds stepped
      have rest := ih follows.invariant
      have further := follows.progress_lt
      rw [List.length_cons]
      omega

/-- From every state the search comes to an end. -/
theorem exists_trace (limit : Nat) (holds : Invariant plan search) :
    ∃ moves answer, Trace plan limit search moves answer := by
  -- What is missing of the greatest progress goes down in every round.
  generalize missing : plan.base ^ (plan.total + 1) -
    plan.progress search.choices search.resume = room
  induction room using Nat.strong_induction_on generalizing search with
  | _ room ih =>
      cases stepped : search.step plan limit with
      | done found => exact ⟨[], .ok found, .done stepped⟩
      | stopped error => exact ⟨[], .error error, .stopped stepped⟩
      | going next =>
          have follows := follows_of_going holds stepped
          have further := follows.progress_lt
          have bounded := progress_lt follows.invariant.walk follows.invariant.resume_le
          obtain ⟨moves, answer, later⟩ := ih _ (by omega) follows.invariant rfl
          exact ⟨_, answer, .going stepped later⟩

/-- With a step for each move and one for the answer, the run gives the answer. -/
theorem Trace.run_eq (trace : Trace plan limit search moves answer) {steps : Nat}
    (enough : moves.length < steps) : run plan limit steps search = answer := by
  induction trace generalizing steps with
  | done stepped =>
      obtain ⟨rest, rfl⟩ := Nat.exists_eq_succ_of_ne_zero (Nat.ne_of_gt enough)
      rw [run, stepped]
  | stopped stepped =>
      obtain ⟨rest, rfl⟩ := Nat.exists_eq_succ_of_ne_zero (Nat.ne_of_gt enough)
      rw [run, stepped]
  | going stepped _ ih =>
      obtain ⟨rest, rfl⟩ := Nat.exists_eq_succ_of_ne_zero (Nat.ne_zero_of_lt enough)
      rw [run, stepped]
      exact ih (Nat.lt_of_succ_lt_succ enough)

theorem Trace.exists_last (trace : Trace plan limit search moves answer)
    (reached : Reached plan limit search) (returned : answer = .ok found) :
    ∃ last, Reached plan limit last ∧ last.step plan limit = .done found := by
  induction trace with
  | @done search _ stepped =>
      cases returned
      exact ⟨search, reached, stepped⟩
  | stopped => cases returned
  | going stepped _ ih => exact ih (.step reached stepped) returned

theorem Trace.length_lt_stepBound (trace : Trace plan limit (start plan) moves answer) :
    moves.length < stepBound plan := by
  have bounded := trace.length_lt (start_invariant plan)
  unfold stepBound
  rw [Array.size_flatten]
  exact Nat.lt_of_le_of_lt (Nat.le_add_left _ _) bounded

end Search

namespace Scenario

variable {scenario : Scenario} {limit : Nat}

theorem linearizations_of_trace {moves : List Search.Move}
    {answer : Except LinearizationError (Array (CallSequence Call))}
    (trace : Search.Trace (Plan.ofScenario scenario) limit
      (Search.start (Plan.ofScenario scenario)) moves answer) :
    scenario.linearizations limit = answer.map Array.toList := by
  unfold linearizations
  dsimp only
  rw [trace.run_eq trace.length_lt_stepBound]

/-- Whatever the scenario and the limit, the search comes to an end, with the answer that is
given for its linearizations. It enters and leaves nothing but walks; when it ends without an
error, it has entered and left every walk but the empty one, each exactly once. -/
theorem search_tours (scenario : Scenario) (limit : Nat) :
    (∃ moves answer, Search.Trace (Plan.ofScenario scenario) limit
      (Search.start (Plan.ofScenario scenario)) moves answer) ∧
    ∀ moves answer, Search.Trace (Plan.ofScenario scenario) limit
        (Search.start (Plan.ofScenario scenario)) moves answer →
      scenario.linearizations limit = answer.map Array.toList ∧
      moves.length < Search.stepBound (Plan.ofScenario scenario) ∧
      (∀ move ∈ moves, move.word ≠ [] ∧ (Plan.ofScenario scenario).Walk move.word) ∧
      ∀ found, answer = .ok found →
        ∀ word ≠ [], (Plan.ofScenario scenario).Walk word →
          moves.count (.into word) = 1 ∧ moves.count (.outOf word) = 1 := by
  have holds := Search.start_invariant (Plan.ofScenario scenario)
  refine ⟨Search.exists_trace limit holds, ?_⟩
  intro moves answer trace
  refine ⟨linearizations_of_trace trace, trace.length_lt_stepBound, trace.walk holds, ?_⟩
  intro found returned word nonempty walk
  have distinct := trace.nodup holds
  have whole := trace.moves_eq holds returned
  have visited := Plan.mem_visits_of_walk walk nonempty
  have ahead : (Search.start (Plan.ofScenario scenario)).ahead (Plan.ofScenario scenario) =
      (Plan.ofScenario scenario).visits [] 0 := List.append_nil _
  rw [← ahead, ← whole] at visited
  exact ⟨List.count_eq_one_of_mem distinct visited.1,
    List.count_eq_one_of_mem distinct visited.2⟩

/-- No valid scenario: two threads wait for each other, and an index is declared twice. -/
def tangledScenario : Scenario :=
  { Scenario.empty with
    threads := [⟨1, [⟨"put", [], false, none⟩, ⟨"put", [], false, none⟩]⟩,
      ⟨3, [⟨"take", [], false, none⟩]⟩, ⟨4, [⟨"peek", [], false, none⟩]⟩, ⟨1, []⟩]
    order := [(3, 4), (4, 3), (1, 1)] }

/-- The threads that wait for each other never advance. -/
theorem search_tours_tangled :
    tangledScenario.validate = .error (.duplicateThread 1) ∧
    ∃ answer, Search.Trace (Plan.ofScenario tangledScenario) 1
      (Search.start (Plan.ofScenario tangledScenario))
      [.into [0], .into [0, 0], .outOf [0, 0], .outOf [0]] (.ok answer) ∧
    tangledScenario.linearizations 1 = .ok answer.toList ∧
    (Plan.ofScenario tangledScenario).Walk [0, 0] ∧
    [Search.Move.into [0], .into [0, 0], .outOf [0, 0], .outOf [0]].count (.into [0, 0]) = 1 := by
  obtain ⟨moves, answer, trace, rfl⟩ : ∃ moves answer,
      Search.Trace (Plan.ofScenario tangledScenario) 1
        (Search.start (Plan.ofScenario tangledScenario)) moves (.ok answer) ∧
      moves = [.into [0], .into [0, 0], .outOf [0, 0], .outOf [0]] :=
    ⟨_, _, .going (by rfl) (.going (by rfl) (.going (by rfl) (.going (by rfl)
      (.done (by rfl))))), by rfl⟩
  have walk : (Plan.ofScenario tangledScenario).Walk [0, 0] :=
    .advance (.advance .start (by decide)) (by decide)
  obtain ⟨returned, _, _, tour⟩ := (search_tours tangledScenario 1).2 _ _ trace
  exact ⟨by rfl, _, trace, returned, walk,
    (tour _ rfl [0, 0] (List.cons_ne_nil _ _) walk).1⟩

end Scenario

end Interleave
