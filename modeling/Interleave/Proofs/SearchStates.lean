import Interleave.Proofs.Attempts
import Interleave.Proofs.Traces
import Interleave.Proofs.Unordered

set_option autoImplicit false

/-! What the state of a search says of the choices it has made. It holds in every state that the
search of any scenario comes to, valid or not, so its reads and its subtraction are in range. -/

namespace Interleave

namespace Search

variable {plan : Plan} {limit : Nat} {search : Search}

/-- The counters and the path of a state are those of its choices. Each choice advanced an
unfinished thread whose predecessors had finished, and put the next call of the thread on the
path. Path and choices stand latest first. -/
structure Tracks (plan : Plan) (search : Search) : Prop where
  path_length : search.path.length = search.choices.length
  cursors_size : search.cursors.size = plan.bodies.size
  cursor_eq : ∀ position, search.cursor position = search.choices.count position
  cursor_le : ∀ position, search.cursor position ≤ (body plan position).size
  replays : ∀ later position earlier, search.choices = later ++ position :: earlier →
    ∃ call, search.path[later.length]? = some call ∧
      (body plan position)[earlier.count position]? = some call
  enabled : ∀ later position earlier, search.choices = later ++ position :: earlier →
    ∀ before ∈ plan.predecessors.getD position [],
      earlier.count before = (body plan before).size

end Search

namespace Plan

variable {plan : Plan}

private theorem Enabled.exists_call {choices : List Nat} {position : Nat}
    (enabled : plan.Enabled choices position) :
    ∃ call, (Search.body plan position)[choices.count position]? = some call ∧
      plan.replay (position :: choices) = call :: plan.replay choices := by
  have room : choices.count position < (Search.body plan position).size := enabled.1
  refine ⟨_, Array.getElem?_eq_getElem room, ?_⟩
  rw [replay, Array.getElem?_eq_getElem room]

private theorem Walk.length_replay {choices : List Nat} (walk : plan.Walk choices) :
    (plan.replay choices).length = choices.length := by
  induction walk with
  | start => rfl
  | advance _earlier enabled ih =>
      obtain ⟨call, _callAt, replayed⟩ := enabled.exists_call
      rw [replayed, List.length_cons, List.length_cons, ih]

/-- Each choice of a walk puts the next call of its thread on the path. -/
theorem Walk.exists_replay_eq {later earlier : List Nat} {position : Nat}
    (walk : plan.Walk (later ++ position :: earlier)) :
    ∃ call, (plan.replay (later ++ position :: earlier))[later.length]? = some call ∧
      (Search.body plan position)[earlier.count position]? = some call := by
  induction later with
  | nil =>
      obtain ⟨call, callAt, replayed⟩ := walk.enabled_of_cons.exists_call
      refine ⟨call, ?_, callAt⟩
      rw [List.nil_append, replayed]
      rfl
  | cons latest later ih =>
      obtain ⟨_, _, replayed⟩ := walk.enabled_of_cons.exists_call
      obtain ⟨call, here, callAt⟩ := ih (Walk.of_append
        (show plan.Walk ([latest] ++ (later ++ position :: earlier)) from walk))
      refine ⟨call, ?_, callAt⟩
      rw [List.cons_append, List.length_cons]
      exact (congrArg (·[later.length + 1]?) replayed).trans
        (List.getElem?_cons_succ.trans here)

end Plan

namespace Search

variable {plan : Plan} {limit : Nat} {search : Search}

private theorem Invariant.tracks (holds : Invariant plan search) : Tracks plan search := by
  refine ⟨?_, holds.cursors_size, holds.cursor_eq, ?_, ?_, ?_⟩
  · rw [holds.path_eq, holds.walk.length_replay]
  · intro position
    rw [holds.cursor_eq]
    exact holds.walk.count_le position
  · intro later position earlier split
    rw [holds.path_eq, split]
    exact (split ▸ holds.walk).exists_replay_eq
  · intro later position earlier split
    exact (Plan.Walk.of_append (split ▸ holds.walk)).enabled_of_cons.2

/-! ### Reads and the subtraction -/

/-- The test for a position to advance: not finished, while all its predecessors are. -/
def mayAdvance (plan : Plan) (search : Search) (position : Nat) : Bool :=
  !search.finished plan position &&
    (plan.predecessors.getD position []).all (search.finished plan)

/-- The first position still to be tried that passes the test. -/
def firstToAdvance? (plan : Plan) (search : Search) : Option Nat :=
  (List.range' search.resume (plan.bodies.size - search.resume)).find? (search.mayAdvance plan)

/-- What is compared with the length of the thread tells whether there is a next call. -/
theorem Tracks.finished_eq_false_iff (tracks : Tracks plan search) (position : Nat) :
    search.finished plan position = false ↔
      search.cursor position < (body plan position).size := by
  have bounded := tracks.cursor_le position
  rw [finished, beq_eq_false_iff_ne]
  omega

theorem Tracks.enabled?_eq (tracks : Tracks plan search) (position : Nat) :
    search.enabled? plan position =
      if search.mayAdvance plan position then (body plan position)[search.cursor position]?
      else none := by
  rw [enabled?, mayAdvance]
  generalize (plan.predecessors.getD position []).all (search.finished plan) = free
  by_cases room : search.cursor position < (body plan position).size
  · rw [Array.getElem?_eq_getElem room, (tracks.finished_eq_false_iff position).mpr room]
    cases free <;> rfl
  · have ended : search.finished plan position = true := by
      rw [← Bool.not_eq_false, tracks.finished_eq_false_iff position]
      exact room
    rw [Array.getElem?_eq_none (Nat.le_of_not_lt room), ended]
    rfl

theorem Tracks.exists_next? (tracks : Tracks plan search) {position : Nat}
    (first : search.firstToAdvance? plan = some position) :
    position < search.cursors.size ∧ ∃ call,
      (body plan position)[search.cursor position]? = some call ∧
      search.next? plan = some (position, call) := by
  obtain ⟨passed, earlier, later, split, refused⟩ := List.find?_eq_some_iff_append.mp first
  have unfinished : search.finished plan position = false := by
    rw [mayAdvance, Bool.and_eq_true, Bool.not_eq_true'] at passed
    exact passed.1
  have room := (tracks.finished_eq_false_iff position).mp unfinished
  refine ⟨?_, _, Array.getElem?_eq_getElem room, ?_⟩
  · rw [tracks.cursors_size]
    have inRange := List.mem_range'_1.mp (List.mem_of_find?_eq_some first)
    omega
  · rw [next?, List.findSome?_eq_some_iff]
    refine ⟨earlier, position, later, split, ?_, ?_⟩
    · rw [tracks.enabled?_eq, if_pos passed, Array.getElem?_eq_getElem room]
      rfl
    · intro other member
      have fails := refused other member
      rw [Bool.not_eq_true'] at fails
      rw [tracks.enabled?_eq, if_neg (by rw [fails]; exact Bool.false_ne_true)]
      rfl

theorem Tracks.of_choices (tracks : Tracks plan search) {latest : Nat} {choices : List Nat}
    (chosen : search.choices = latest :: choices) :
    latest < search.cursors.size ∧ 0 < search.cursor latest ∧ search.path ≠ [] := by
  have counted : 0 < search.cursor latest := by
    rw [tracks.cursor_eq, chosen, List.count_cons_self]
    exact Nat.succ_pos _
  refine ⟨?_, counted, ?_⟩
  · by_contra outside
    rw [cursor, Array.getD_eq_getD_getElem?, Array.getElem?_eq_none (Nat.le_of_not_lt outside)]
      at counted
    exact absurd counted (Nat.lt_irrefl 0)
  · rw [← List.length_pos_iff, tracks.path_length, chosen]
    exact Nat.succ_pos _

/-- An answer is given where the counters are all zero. -/
theorem Tracks.cursors_of_empty (tracks : Tracks plan search) (empty : search.choices = []) :
    search.cursors = Array.replicate plan.bodies.size 0 := by
  apply Array.ext
  · rw [tracks.cursors_size, Array.size_replicate]
  · intro position inCursors _
    have counted := tracks.cursor_eq position
    rw [empty, List.count_nil, cursor, Array.getD_eq_getD_getElem?,
      Array.getElem?_eq_getElem inCursors, Option.getD_some] at counted
    rw [counted, Array.getElem_replicate]

end Search

namespace Scenario

theorem total_eq_callCount (scenario : Scenario) :
    (Plan.ofScenario scenario).total = scenario.callCount := by
  rw [total_ofScenario, callCount, List.length_flatMap]
  rfl

/-- In every state that the search of a scenario comes to, valid or not, the counters and the path
are those of the choices, and there are no more of these than calls. So what passes the test has a
next call and advances, and what is taken back has been counted. An answer is given in a state
that has all its counters back at zero. -/
theorem search_tracks (scenario : Scenario) (limit : Nat) :
    (∀ search, Search.Reached (Plan.ofScenario scenario) limit search →
      Search.Tracks (Plan.ofScenario scenario) search ∧
      search.choices.length ≤ scenario.callCount ∧
      (∀ position, search.firstToAdvance? (Plan.ofScenario scenario) = some position →
        position < search.cursors.size ∧ ∃ call,
          (Search.body (Plan.ofScenario scenario) position)[search.cursor position]? = some call ∧
          search.next? (Plan.ofScenario scenario) = some (position, call)) ∧
      (∀ latest choices, search.choices = latest :: choices →
        latest < search.cursors.size ∧ 0 < search.cursor latest ∧ search.path ≠ [])) ∧
    ∀ found, scenario.linearizations limit = .ok found →
      ∃ last, Search.Reached (Plan.ofScenario scenario) limit last ∧
        last.step (Plan.ofScenario scenario) limit = .done found.toArray ∧
        last.cursors = Array.replicate scenario.threads.length 0 := by
  constructor
  · intro search reached
    have holds := reached.invariant
    have tracks := holds.tracks
    refine ⟨tracks, ?_, fun position first => tracks.exists_next? first,
      fun latest choices chosen => tracks.of_choices chosen⟩
    rw [← total_eq_callCount]
    exact holds.walk.length_le
  · intro found returned
    obtain ⟨moves, answer, trace⟩ := Search.exists_trace limit
      (Search.start_invariant (Plan.ofScenario scenario))
    rw [linearizations_of_trace trace] at returned
    obtain ⟨listed, answered, rfl⟩ := exists_of_map_ok returned
    obtain ⟨last, reached, stepped⟩ := trace.exists_last .start answered
    have holds := reached.invariant
    refine ⟨last, reached, stepped, ?_⟩
    rw [← bodies_size]
    exact holds.tracks.cursors_of_empty (Search.done_cases holds stepped).2.1

/-- The search of the tangled threads where it turns back: the free thread has made both its
calls, and the two others wait for each other. -/
def tangledTurn : Search :=
  ((Search.start (Plan.ofScenario tangledScenario)).advance 0 ⟨"put", [], false, none⟩).advance 0
    ⟨"put", [], false, none⟩

theorem search_tracks_tangled :
    Search.Reached (Plan.ofScenario tangledScenario) 1 tangledTurn ∧
    Search.Tracks (Plan.ofScenario tangledScenario) tangledTurn ∧
    tangledTurn.choices = [0, 0] ∧ tangledTurn.choices.length ≤ tangledScenario.callCount ∧
    0 < tangledTurn.cursor 0 ∧
    Search.firstToAdvance? (Plan.ofScenario tangledScenario) tangledTurn = none ∧
    ∃ found last, tangledScenario.linearizations 1 = .ok found ∧
      Search.Reached (Plan.ofScenario tangledScenario) 1 last ∧
      last.cursors = Array.replicate 4 0 := by
  have reached : Search.Reached (Plan.ofScenario tangledScenario) 1 tangledTurn :=
    .step (.step .start (by rfl)) (by rfl)
  obtain ⟨found, returned⟩ : ∃ found, tangledScenario.linearizations 1 = .ok found :=
    ⟨_, by rfl⟩
  obtain ⟨states, answers⟩ := search_tracks tangledScenario 1
  obtain ⟨tracks, few, _, back⟩ := states tangledTurn reached
  obtain ⟨last, lastReached, _, zero⟩ := answers found returned
  exact ⟨reached, tracks, rfl, few, (back 0 [0] rfl).2.1, by rfl, found, last, returned,
    lastReached, zero⟩

end Scenario

end Interleave
