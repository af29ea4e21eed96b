import Interleave.Proofs.Listing
import Interleave.Proofs.Stages

set_option autoImplicit false

/-! Native programs against the scenarios they are made from. Every execution performs a
linearization. The other way round, a linearization is some execution's unless the initial and
the final thread stand alone and nothing holds them in order. -/

namespace Interleave

/-! ### Making a program -/

theorem flatMap_zipIdx {α β : Type} (items : List α) (parts : α → List β) :
    items.zipIdx.flatMap (fun entry => parts entry.1) = items.flatMap parts := by
  conv_rhs => rw [← List.zipIdx_map_fst 0 items, List.flatMap_map]

namespace Scenario

theorem numbered_map (start : Nat) (threads : List Thread) :
    (numbered start threads).map (fun entry => entry.2.map Prod.fst) =
      threads.map Thread.calls := by
  induction threads generalizing start with
  | nil => rfl
  | cons thread threads ih =>
      rw [numbered, List.map_cons, List.map_cons, ih, List.zipIdx_map_fst]

theorem checks_of_checkNative {scenario : Scenario} (accepted : scenario.checkNative = .ok ()) :
    scenario.illegal? = none ∧ scenario.checkOutcomes = .ok () := by
  unfold checkNative at accepted
  split at accepted
  · cases accepted
  · split at accepted
    · cases accepted
    · split at accepted
      · cases accepted
      · rename_i legal
        exact ⟨legal, accepted⟩

variable {scenario : Scenario} {program : Program}

/-- What a program has of its scenario. -/
structure Makes (scenario : Scenario) (program : Program) : Prop where
  legal : scenario.illegal? = none
  functions : scenario.threadFunctions = .ok program.functions
  main : ∃ setup, program.main = scenario.mainActions setup

/-- The checks and the parts that a program was put together from. -/
theorem parts_of_program (made : scenario.program = .ok program) :
    scenario.checkNative = .ok () ∧ ∃ functions setup,
      scenario.threadFunctions = .ok functions ∧
      program =
        { sharedObject := scenario.sharedObject
          slots := scenario.resultSlots
          functions
          main := scenario.mainActions setup
          accepted := scenario.acceptedOutcomes } := by
  obtain ⟨_, checked, made⟩ := exists_of_bind_ok made
  obtain ⟨functions, written, made⟩ := exists_of_bind_ok made
  obtain ⟨setup, _, made⟩ := exists_of_bind_ok made
  exact ⟨checked, functions, setup, written, (Except.ok.inj made).symm⟩

theorem makes_of_program (made : scenario.program = .ok program) : scenario.Makes program := by
  obtain ⟨checked, functions, setup, written, rfl⟩ := parts_of_program made
  exact ⟨(checks_of_checkNative checked).1, written, setup, rfl⟩

/-- A statement is made of its call's arguments, all of them written. -/
theorem exists_of_statement {thread : Thread} {entry : Call × Nat} {statement : Statement}
    (made : scenario.statement thread entry = .ok statement) :
    ∃ arguments, Literal.ofItems scenario.targetLanguage entry.1.arguments = .ok arguments ∧
      statement =
        { call := entry.1
          expression := scenario.callExpression entry.1.method arguments
          slot := if scenario.records thread entry.1 then some entry.2 else none } :=
  exists_of_map_ok made

private theorem call_of_statement {thread : Thread} {entry : Call × Nat} {statement : Statement}
    (made : scenario.statement thread entry = .ok statement) : statement.call = entry.1 := by
  obtain ⟨arguments, _, rfl⟩ := exists_of_statement made
  rfl

private theorem writes_of_statement {thread : Thread} {entry : Call × Nat} {statement : Statement}
    (made : scenario.statement thread entry = .ok statement) :
    scenario.Writes statement.call statement.expression := by
  obtain ⟨arguments, written, rfl⟩ := exists_of_statement made
  exact writes_callExpression written

section

variable {α : Type} {view : Statement → α} {seen : Thread → Call × Nat → α}

/-- What is known of each statement of its thread and its call, seen on a whole function. -/
theorem view_of_threadFunction
    (agree : ∀ thread entry statement,
      scenario.statement thread entry = .ok statement → view statement = seen thread entry)
    (entry : (Thread × List (Call × Nat)) × Nat) (function : ThreadFunction)
    (made : scenario.threadFunction entry = .ok function) :
    (function.position, function.statements.map view) =
      (entry.2, entry.1.2.map (seen entry.1.1)) := by
  obtain ⟨statements, written, rfl⟩ := exists_of_map_ok made
  rw [map_eq_of_mapM_ok (agree entry.1.1) written]

theorem view_of_threadFunctions
    (agree : ∀ thread entry statement,
      scenario.statement thread entry = .ok statement → view statement = seen thread entry)
    {functions : List ThreadFunction} (made : scenario.threadFunctions = .ok functions) :
    functions.map (fun function => (function.position, function.statements.map view)) =
      (numbered 0 scenario.threads).zipIdx.map (fun entry =>
        (entry.2, entry.1.2.map (seen entry.1.1))) :=
  map_eq_of_mapM_ok (view_of_threadFunction agree) made

end

theorem functions_eq (makes : scenario.Makes program) :
    program.functions.map (fun function =>
        (function.position, function.statements.map Statement.call)) =
      (scenario.threads.map Thread.calls).zipIdx.map Prod.swap := by
  rw [view_of_threadFunctions (fun _ _ _ => call_of_statement) makes.functions,
    ← numbered_map 0, List.zipIdx_map, List.map_map]
  rfl

theorem writes_of_threadFunctions {functions : List ThreadFunction}
    (made : scenario.threadFunctions = .ok functions) :
    ∀ function ∈ functions, ∀ statement ∈ function.statements,
      scenario.Writes statement.call statement.expression := by
  intro function inFunctions statement inStatements
  obtain ⟨entry, _, functionMade⟩ := exists_of_mem_mapM made inFunctions
  obtain ⟨statements, written, rfl⟩ := exists_of_map_ok functionMade
  obtain ⟨call, _, statementMade⟩ := exists_of_mem_mapM written inStatements
  exact writes_of_statement statementMade

private theorem find?_zipIdx {α : Type} (items : List α) (start position : Nat) :
    (((items.zipIdx start).map Prod.swap).find? (fun entry => entry.1 == start + position)).map
      Prod.snd = items[position]? := by
  induction items generalizing start position with
  | nil => rfl
  | cons item items ih =>
      rw [List.zipIdx_cons, List.map_cons, List.find?_cons]
      cases position with
      | zero => simp
      | succ position =>
          have later : ((start + (position + 1) : Nat) = start + 1 + position) := by omega
          have missed : (Prod.swap (item, start)).1 ≠ start + (position + 1) := by
            change start ≠ start + (position + 1)
            omega
          rw [beq_eq_false_iff_ne.mpr missed, later, List.getElem?_cons_succ]
          exact ih (start + 1) position

theorem body_of_makes (makes : scenario.Makes program) {position : Nat} {thread : Thread}
    (atPosition : scenario.threads[position]? = some thread) :
    program.body position = thread.calls := by
  have found := find?_zipIdx (scenario.threads.map Thread.calls) 0 position
  rw [← functions_eq makes, List.find?_map, Option.map_map, Nat.zero_add, List.getElem?_map,
    atPosition] at found
  unfold Program.body
  exact congrArg (fun body => Option.getD body []) found

/-! ### Executions of the program -/

private theorem bodies_at (makes : scenario.Makes program) (placement : Placement) :
    (scenario.positionsOf placement).map program.body =
      (scenario.threadsAt placement).map Thread.calls := by
  unfold positionsOf threadsAt
  rw [List.map_map]
  have bodies : ∀ entry ∈ scenario.threads.zipIdx.filter
      (fun entry => scenario.placement entry.1.index == placement),
      (program.body ∘ Prod.snd) entry = (Thread.calls ∘ Prod.fst) entry := by
    intro entry member
    exact body_of_makes makes (List.mem_zipIdx_iff_getElem?.mp (List.mem_of_mem_filter member))
  have kept : (scenario.threads.zipIdx.filter
      (fun entry => scenario.placement entry.1.index == placement)).map Prod.fst =
      scenario.threads.filter (fun thread => scenario.placement thread.index == placement) := by
    rw [← List.zipIdx_map_fst 0 scenario.threads, List.filter_map, List.zipIdx_map_fst]
    rfl
  rw [List.map_congr_left bodies, ← List.map_map, kept]

private theorem positionsOf_nodup (scenario : Scenario) (placement : Placement) :
    (scenario.positionsOf placement).Nodup := by
  have all : (scenario.threads.zipIdx.map Prod.snd).Nodup := by
    rw [List.zipIdx_map_snd]
    exact List.nodup_range'
  exact all.sublist (List.filter_sublist.map _)

/-- A placement that only one index has is that of at most one thread. -/
theorem threadsAt_length_le_one (valid : scenario.Valid) {placement : Placement}
    (only : ∀ left right, scenario.placement left = placement →
      scenario.placement right = placement → left = right) :
    (scenario.threadsAt placement).length ≤ 1 := by
  have distinct := (valid.wellTagged.filter
    (fun thread => scenario.placement thread.index == placement)).distinct
  have placed : ∀ thread ∈ scenario.threadsAt placement,
      scenario.placement thread.index = placement :=
    fun thread member => ((mem_threadsAt _ _ _).mp member).2
  change ((scenario.threadsAt placement).map Thread.index).Nodup at distinct
  match threads : scenario.threadsAt placement with
  | [] => exact Nat.zero_le 1
  | [_] => exact Nat.le_refl 1
  | first :: second :: _ =>
      rw [threads] at distinct placed
      have same := only first.index second.index (placed first (by simp))
        (placed second (by simp))
      simp [same] at distinct

private theorem quiet_beginning (scenario : Scenario) (setup : Option String) :
    ∀ action ∈ (setup.map Action.setUp).toList ++
      (scenario.positionsOf .concurrent).map .declare, action.isSilent = true := by
  intro action member
  rcases List.mem_append.mp member with member | member
  · obtain ⟨expression, _found, rfl⟩ := Option.map_eq_some_iff.mp (Option.mem_toList.mp member)
    rfl
  · obtain ⟨position, _inPositions, rfl⟩ := List.mem_map.mp member
    rfl

theorem exists_performs (makes : scenario.Makes program) : ∃ calls, program.Performs calls := by
  obtain ⟨setup, main⟩ := makes.main
  have executions := Program.performs_iff (quiet_beginning scenario setup)
    (positionsOf_nodup scenario _) main
  exact ⟨_, (executions _).mpr ⟨_, Merges.flatten _, rfl⟩⟩

/-- The executions of the program are the interleavings of all threads that never return to an
earlier stage. -/
theorem performs_iff_staged (valid : scenario.Valid) (makes : scenario.Makes program)
    (calls : List Call) :
    program.Performs calls ↔ Covers scenario.threads calls ∧
      calls.Pairwise (fun earlier later =>
        scenario.stageOf earlier ≤ scenario.stageOf later) := by
  obtain ⟨setup, main⟩ := makes.main
  have wellTagged : ∀ placement, WellTagged (scenario.threadsAt placement) :=
    fun placement => valid.wellTagged.filter _
  have initials : (scenario.threadsAt .initial).length ≤ 1 := by
    apply threadsAt_length_le_one valid
    intro left right first second
    exact Option.some.inj ((initial_of_placement first).symm.trans (initial_of_placement second))
  have finals : (scenario.threadsAt .final).length ≤ 1 := by
    apply threadsAt_length_le_one valid
    intro left right first second
    exact Option.some.inj ((final_of_placement first).symm.trans (final_of_placement second))
  have executions := Program.performs_iff (quiet_beginning scenario setup)
    (positionsOf_nodup scenario _) main calls
  simp only [List.flatMap_def, bodies_at makes] at executions
  rw [executions, ← covers_staged_iff]
  constructor
  · rintro ⟨merged, merges, same⟩
    exact ⟨_, merged, _, (covers_iff_of_length_le_one (wellTagged _) initials _).mpr rfl,
      covers_of_merges (wellTagged _) merges,
      (covers_iff_of_length_le_one (wellTagged _) finals _).mpr rfl, same⟩
  · rintro ⟨before, merged, after, first, second, third, same⟩
    rw [(covers_iff_of_length_le_one (wellTagged _) initials _).mp first,
      (covers_iff_of_length_le_one (wellTagged _) finals _).mp third] at same
    exact ⟨merged, merges_of_covers (wellTagged _) second, same⟩

theorem isLinearization_iff (valid : scenario.Valid) (calls : List Call) :
    scenario.IsLinearization calls ↔ Covers scenario.threads calls ∧
      ∀ pair ∈ scenario.order, KeepsPair pair calls := by
  constructor
  · intro linear
    refine ⟨⟨?_, linear.program⟩, ?_⟩
    · intro call member
      obtain ⟨thread, inThreads, tag⟩ := linear.declared call member
      exact ⟨thread.index, List.mem_map_of_mem inThreads, tag⟩
    · intro pair member
      exact (keepsPair_iff (valid.pair_ne member) calls).mpr (linear.ordered pair member)
  · rintro ⟨covers, keeps⟩
    refine ⟨?_, covers.program, ?_⟩
    · intro call member
      obtain ⟨index, inIndices, tag⟩ := covers.declared call member
      obtain ⟨thread, inThreads, rfl⟩ := List.mem_map.mp inIndices
      exact ⟨thread, inThreads, tag⟩
    · intro pair member
      exact (keepsPair_iff (valid.pair_ne member) calls).mp (keeps pair member)

theorem isLinearization_of_performs (valid : scenario.Valid) (makes : scenario.Makes program)
    {calls : List Call} (performs : program.Performs calls) :
    scenario.IsLinearization calls := by
  obtain ⟨covers, sorted⟩ := (performs_iff_staged valid makes calls).mp performs
  rw [isLinearization_iff valid]
  refine ⟨covers, ?_⟩
  intro pair member
  apply sorted.imp
  rintro earlier later upward ⟨first, second⟩
  rw [stageOf_thread scenario first, stageOf_thread scenario second] at upward
  exact absurd (stage_lt valid makes.legal member) (Nat.not_lt.mpr upward)

theorem exists_program {library : Option String} {text : String}
    (generated : scenario.programText library = .ok text) :
    ∃ program, scenario.program = .ok program ∧ program.text library = text ∧
      program.Listed library text := by
  obtain ⟨program, made, same⟩ := exists_of_map_ok generated
  exact ⟨program, made, same.symm, (program.listed_iff library text).mpr same.symm⟩

/-- An accepted document with a translation: the text lists a program, each thread function of
which writes the calls of its thread; every execution of the program performs a linearization, and
there is an execution. -/
theorem program_refines {members : Members Json} {scenario : Scenario}
    {library : Option String} {text : String} (accepted : Scenario.read members = .ok scenario)
    (generated : scenario.programText library = .ok text) :
    ∃ program, scenario.program = .ok program ∧ program.text library = text ∧
      program.Listed library text ∧
      program.functions.map (fun function =>
          (function.position, function.statements.map Statement.call)) =
        (scenario.threads.map Thread.calls).zipIdx.map Prod.swap ∧
      (∀ function ∈ program.functions, ∀ statement ∈ function.statements,
        scenario.Writes statement.call statement.expression) ∧
      (∃ calls, program.Performs calls) ∧
      ∀ calls, program.Performs calls → scenario.IsLinearization calls ∧
        ∀ limit found, scenario.linearizations limit = .ok found →
          calls ∈ found.map CallSequence.toList := by
  have valid := valid_of_read accepted
  obtain ⟨program, made, written, listed⟩ := exists_program generated
  have makes := makes_of_program made
  refine ⟨program, made, written, listed, functions_eq makes,
    writes_of_threadFunctions makes.functions, exists_performs makes, ?_⟩
  intro calls performs
  have linear := isLinearization_of_performs valid makes performs
  exact ⟨linear, fun limit found returned =>
    (mem_linearizations_iff valid returned calls).mpr linear⟩

/-- A thread that comes before two others. -/
def forkDocument : Members Json :=
  [("sequences", .array
    [.object [("index", .natural 0), ("invocations",
      .array [.object [("method", .string "open")]])],
    .object [("index", .natural 1), ("invocations",
      .array [.object [("method", .string "read"), ("void", .bool true)]])],
    .object [("index", .natural 2), ("invocations",
      .array [.object [("method", .string "write"), ("void", .bool true)]])]]),
  ("order", .array [.array [.natural 0, .natural 1], .array [.natural 0, .natural 2]])]

def forkScenario : Scenario :=
  { Scenario.empty with
    threads := [⟨0, [⟨"open", [], false, some 0⟩]⟩, ⟨1, [⟨"read", [], true, some 1⟩]⟩,
      ⟨2, [⟨"write", [], true, some 2⟩]⟩]
    order := [(0, 1), (0, 2)] }

def forkProgram : Program :=
  { sharedObject := none
    slots := []
    functions := [⟨0, [⟨⟨"open", [], false, some 0⟩, "open()", none⟩]⟩,
      ⟨1, [⟨⟨"read", [], true, some 1⟩, "read()", none⟩]⟩,
      ⟨2, [⟨⟨"write", [], true, some 2⟩, "write()", none⟩]⟩]
    main := [.declare 1, .declare 2, .runInitial 0, .startThreads, .create 1, .create 2,
      .waitForThreads, .join 1, .join 2, .check]
    accepted := [] }

private theorem fork_generated :
    forkScenario.programText none = .ok (forkProgram.text none) := by
  have made : forkScenario.program = .ok forkProgram := by cbv
  unfold programText
  rw [made]
  rfl

theorem program_refines_fork :
    Scenario.read forkDocument = .ok forkScenario ∧
    forkScenario.programText none = .ok (forkProgram.text none) ∧
    ∃ program, forkScenario.program = .ok program ∧
      program.text none = forkProgram.text none ∧
      program.Listed none (forkProgram.text none) ∧
      program.functions.map (fun function =>
          (function.position, function.statements.map Statement.call)) =
        (forkScenario.threads.map Thread.calls).zipIdx.map Prod.swap ∧
      (∀ function ∈ program.functions, ∀ statement ∈ function.statements,
        forkScenario.Writes statement.call statement.expression) ∧
      (∃ calls, program.Performs calls) ∧
      ∀ calls, program.Performs calls → forkScenario.IsLinearization calls ∧
        ∀ limit found, forkScenario.linearizations limit = .ok found →
          calls ∈ found.map CallSequence.toList := by
  have accepted : Scenario.read forkDocument = .ok forkScenario := by rfl
  exact ⟨accepted, fork_generated, program_refines accepted fork_generated⟩

/-! ### Linearizations that no execution performs -/

/-- The initial and the final thread have calls, the order has not the pair of them, and no
other thread has calls. -/
def HasGap (scenario : Scenario) : Prop :=
  ∃ first ∈ scenario.threads, ∃ last ∈ scenario.threads,
    scenario.placement first.index = .initial ∧ scenario.placement last.index = .final ∧
    first.calls ≠ [] ∧ last.calls ≠ [] ∧ (first.index, last.index) ∉ scenario.order ∧
    ∀ thread ∈ scenario.threads, scenario.placement thread.index = .concurrent →
      thread.calls = []

/-- Where the only thread on one side of no pair is on the far side of every pair that another
thread has on this side, that thread has such a pair. -/
private theorem exists_pair {side far : Nat × Nat → Nat} {only index : Nat}
    (found : scenario.only? side = some only) (declared : index ∈ scenario.indices)
    (other : index ≠ only)
    (allowed : ∀ pair ∈ scenario.order, side pair = index → some only = some (far pair)) :
    ∃ pair ∈ scenario.order, side pair = index ∧ far pair = only := by
  by_contra missing
  apply other
  apply (only?_iff found index).mp
  refine ⟨declared, ?_⟩
  intro pair member same
  exact missing ⟨pair, member, same, (Option.some.inj (allowed pair member same)).symm⟩

private theorem initial_pair (legal : scenario.illegal? = none) {first index : Nat}
    (declared : index ∈ scenario.indices) (initial : scenario.placement first = .initial)
    (concurrent : scenario.placement index = .concurrent) : (first, index) ∈ scenario.order := by
  have found := initial_of_placement initial
  have other : index ≠ first := by
    rintro rfl
    rw [initial] at concurrent
    cases concurrent
  have allowed := (pairs_of_legal legal declared concurrent).1
  rw [found] at allowed
  obtain ⟨pair, member, rfl, rfl⟩ := exists_pair found declared other allowed
  exact member

private theorem final_pair (legal : scenario.illegal? = none) {last index : Nat}
    (declared : index ∈ scenario.indices) (final : scenario.placement last = .final)
    (concurrent : scenario.placement index = .concurrent) : (index, last) ∈ scenario.order := by
  have found := final_of_placement final
  have other : index ≠ last := by
    rintro rfl
    rw [final] at concurrent
    cases concurrent
  have allowed := (pairs_of_legal legal declared concurrent).2
  rw [found] at allowed
  obtain ⟨pair, member, rfl, rfl⟩ := exists_pair found declared other allowed
  exact member

private theorem IsLinearization.calls_ne_nil {calls : List Call}
    (linear : scenario.IsLinearization calls) {thread : Thread} (member : thread ∈ scenario.threads)
    {place : Nat} (atPlace : calls[place]?.bind Call.thread = some thread.index) :
    thread.calls ≠ [] := by
  intro empty
  obtain ⟨call, callAt, tag⟩ := Option.bind_eq_some_iff.mp atPlace
  have program := linear.program thread member
  rw [empty, List.filter_eq_nil_iff] at program
  exact program call (List.mem_of_getElem? callAt) (beq_iff_eq.mpr tag)

/-- Only an initial and a final thread can be at different stages without a pair. -/
theorem placements_of_no_pair (legal : scenario.illegal? = none) {first last : Nat}
    (firstDeclared : first ∈ scenario.indices) (lastDeclared : last ∈ scenario.indices)
    (noPair : (first, last) ∉ scenario.order)
    (back : (scenario.placement first).stage < (scenario.placement last).stage) :
    scenario.placement first = .initial ∧ scenario.placement last = .final := by
  cases firstPlaced : scenario.placement first with
  | initial =>
      cases lastPlaced : scenario.placement last with
      | initial => simp [firstPlaced, lastPlaced, Placement.stage] at back
      | concurrent =>
          exact absurd (initial_pair legal lastDeclared firstPlaced lastPlaced) noPair
      | final => exact ⟨rfl, rfl⟩
  | concurrent =>
      cases lastPlaced : scenario.placement last with
      | initial => simp [firstPlaced, lastPlaced, Placement.stage] at back
      | concurrent => simp [firstPlaced, lastPlaced, Placement.stage] at back
      | final => exact absurd (final_pair legal firstDeclared lastPlaced firstPlaced) noPair
  | final =>
      rw [firstPlaced] at back
      cases lastPlaced : scenario.placement last <;>
        simp [lastPlaced, Placement.stage] at back

/-- Calls of two threads that stand in this order in a linearization although the stages of
their threads do not. -/
theorem hasGap_of_stages (legal : scenario.illegal? = none)
    {calls : List Call} (linear : scenario.IsLinearization calls) {earlier later : Nat}
    {first last : Thread} (firstMember : first ∈ scenario.threads)
    (lastMember : last ∈ scenario.threads)
    (atEarlier : calls[earlier]?.bind Call.thread = some last.index)
    (atLater : calls[later]?.bind Call.thread = some first.index) (before : earlier < later)
    (back : (scenario.placement first.index).stage < (scenario.placement last.index).stage) :
    scenario.HasGap := by
  have declared : ∀ {thread}, thread ∈ scenario.threads → thread.index ∈ scenario.indices :=
    fun member => List.mem_map_of_mem member
  have noPair : (first.index, last.index) ∉ scenario.order := by
    intro pair
    have reversed := linear.ordered _ pair later earlier atLater atEarlier
    omega
  obtain ⟨initial, final⟩ :=
    placements_of_no_pair legal (declared firstMember) (declared lastMember) noPair back
  refine ⟨first, firstMember, last, lastMember, initial, final,
    linear.calls_ne_nil firstMember atLater, linear.calls_ne_nil lastMember atEarlier, noPair, ?_⟩
  intro thread member concurrent
  -- A call of a thread in between would stand after `first` and before `last`.
  by_contra some
  have program := linear.program thread member
  obtain ⟨call, inCalls⟩ := List.exists_mem_of_ne_nil _ some
  rw [← program, List.mem_filter, beq_iff_eq] at inCalls
  obtain ⟨place, callAt⟩ := List.mem_iff_getElem?.mp inCalls.1
  have atPlace : calls[place]?.bind Call.thread = Option.some thread.index := by
    rw [callAt]
    exact inCalls.2
  have after := linear.ordered _ (initial_pair legal (declared member) initial concurrent) later
    place atLater atPlace
  have earlierStill := linear.ordered _ (final_pair legal (declared member) final concurrent)
    place earlier atPlace atEarlier
  omega

theorem performs_of_isLinearization (valid : scenario.Valid) (makes : scenario.Makes program)
    (closed : ¬scenario.HasGap) {calls : List Call} (linear : scenario.IsLinearization calls) :
    program.Performs calls := by
  rw [performs_iff_staged valid makes]
  refine ⟨((isLinearization_iff valid calls).mp linear).1, ?_⟩
  rw [List.pairwise_iff_getElem]
  intro earlier later earlierBound laterBound before
  by_contra back
  obtain ⟨last, lastMember, lastTag⟩ := linear.declared _ (List.getElem_mem earlierBound)
  obtain ⟨first, firstMember, firstTag⟩ := linear.declared _ (List.getElem_mem laterBound)
  rw [stageOf_thread scenario lastTag, stageOf_thread scenario firstTag, Nat.not_le] at back
  apply closed
  apply hasGap_of_stages makes.legal linear firstMember lastMember _ _ before back
  · rw [List.getElem?_eq_getElem earlierBound]
    exact lastTag
  · rw [List.getElem?_eq_getElem laterBound]
    exact firstTag

private theorem keepsPair_calls (valid : scenario.Valid) {pair : Nat × Nat}
    (inOrder : pair ∈ scenario.order) {thread : Thread} (member : thread ∈ scenario.threads) :
    KeepsPair pair thread.calls := by
  unfold KeepsPair
  apply List.pairwise_of_forall_mem_list
  rintro earlier earlierMember later laterMember ⟨second, first⟩
  rw [valid.tagged thread member earlier earlierMember] at second
  rw [valid.tagged thread member later laterMember] at first
  exact valid.pair_ne inOrder (Option.some.inj (first.symm.trans second))

private theorem covers_two (valid : scenario.Valid) {first last : Thread}
    (firstMember : first ∈ scenario.threads) (lastMember : last ∈ scenario.threads)
    (different : first.index ≠ last.index)
    (others : ∀ thread ∈ scenario.threads, thread.index ≠ first.index →
      thread.index ≠ last.index → thread.calls = []) :
    Covers scenario.threads (last.calls ++ first.calls) := by
  have wellTagged := valid.wellTagged
  constructor
  · intro call member
    rcases List.mem_append.mp member with inLast | inFirst
    · exact ⟨_, List.mem_map_of_mem lastMember, valid.tagged last lastMember call inLast⟩
    · exact ⟨_, List.mem_map_of_mem firstMember, valid.tagged first firstMember call inFirst⟩
  · intro thread member
    rw [List.filter_append]
    by_cases isFirst : thread.index = first.index
    · rw [wellTagged.ext member firstMember isFirst,
        wellTagged.filter_other lastMember different.symm, wellTagged.filter_own firstMember,
        List.nil_append]
    · by_cases isLast : thread.index = last.index
      · rw [wellTagged.ext member lastMember isLast,
          wellTagged.filter_other firstMember different, wellTagged.filter_own lastMember,
          List.append_nil]
      · rw [others thread member isFirst isLast,
          wellTagged.filter_other lastMember (Ne.symm isLast),
          wellTagged.filter_other firstMember (Ne.symm isFirst), List.nil_append]

/-- Where there is a gap, the calls of the final thread may come first. -/
theorem exists_unperformable (valid : scenario.Valid) (makes : scenario.Makes program)
    (gap : scenario.HasGap) :
    ∃ calls, scenario.IsLinearization calls ∧ ¬program.Performs calls := by
  obtain ⟨first, firstMember, last, lastMember, initial, final, firstCalls, lastCalls, noPair,
    others⟩ := gap
  refine ⟨last.calls ++ first.calls, ?_, ?_⟩
  · rw [isLinearization_iff valid]
    constructor
    · apply covers_two valid firstMember lastMember
      · intro same
        rw [same, final] at initial
        cases initial
      · intro thread member notFirst notLast
        apply others thread member
        cases placed : scenario.placement thread.index with
        | initial =>
            exact absurd (Option.some.inj ((initial_of_placement placed).symm.trans
              (initial_of_placement initial))) notFirst
        | concurrent => rfl
        | final =>
            exact absurd (Option.some.inj ((final_of_placement placed).symm.trans
              (final_of_placement final))) notLast
    · intro pair member
      unfold KeepsPair
      rw [List.pairwise_append]
      refine ⟨keepsPair_calls valid member lastMember, keepsPair_calls valid member firstMember,
        ?_⟩
      rintro earlier earlierMember later laterMember ⟨second, start⟩
      rw [valid.tagged last lastMember earlier earlierMember] at second
      rw [valid.tagged first firstMember later laterMember] at start
      apply noPair
      rw [Option.some.inj start, Option.some.inj second]
      exact member
  · rw [performs_iff_staged valid makes, List.pairwise_append]
    rintro ⟨_covers, _last, _first, upward⟩
    obtain ⟨lastCall, inLast⟩ := List.exists_mem_of_ne_nil _ lastCalls
    obtain ⟨firstCall, inFirst⟩ := List.exists_mem_of_ne_nil _ firstCalls
    have back := upward lastCall inLast firstCall inFirst
    rw [stageOf_thread scenario (valid.tagged last lastMember lastCall inLast), final,
      stageOf_thread scenario (valid.tagged first firstMember firstCall inFirst), initial] at back
    exact absurd back (by decide)

/-- The returned orderings are all executions of the translation exactly when there is no
gap. -/
theorem orderings_performed_iff {members : Members Json} {scenario : Scenario}
    {library : Option String} {text : String} {limit : Nat} {found : List (CallSequence Call)}
    (accepted : Scenario.read members = .ok scenario)
    (generated : scenario.programText library = .ok text)
    (returned : scenario.linearizations limit = .ok found) :
    ∃ program, scenario.program = .ok program ∧ program.text library = text ∧
      program.Listed library text ∧
      ((∀ ordering ∈ found, program.Performs ordering.toList) ↔ ¬scenario.HasGap) := by
  have valid := valid_of_read accepted
  obtain ⟨program, made, written, listed⟩ := exists_program generated
  have makes := makes_of_program made
  refine ⟨program, made, written, listed, ?_⟩
  constructor
  · intro all gap
    obtain ⟨calls, linear, never⟩ := exists_unperformable valid makes gap
    have listed := (mem_linearizations_iff valid returned calls).mpr linear
    obtain ⟨ordering, member, rfl⟩ := List.mem_map.mp listed
    exact never (all ordering member)
  · intro closed ordering member
    apply performs_of_isLinearization valid makes closed
    exact (mem_linearizations_iff valid returned _).mp (List.mem_map_of_mem member)

def forkOrderings : List (CallSequence Call) :=
  [CallSequence.ofList [⟨"open", [], false, some 0⟩, ⟨"read", [], true, some 1⟩,
      ⟨"write", [], true, some 2⟩],
    CallSequence.ofList [⟨"open", [], false, some 0⟩, ⟨"write", [], true, some 2⟩,
      ⟨"read", [], true, some 1⟩]]

theorem orderings_performed_iff_fork :
    Scenario.read forkDocument = .ok forkScenario ∧
    forkScenario.programText none = .ok (forkProgram.text none) ∧
    forkScenario.linearizations 2 = .ok forkOrderings ∧
    ∃ program, forkScenario.program = .ok program ∧
      program.text none = forkProgram.text none ∧
      program.Listed none (forkProgram.text none) ∧
      ((∀ ordering ∈ forkOrderings, program.Performs ordering.toList) ↔
        ¬forkScenario.HasGap) := by
  have accepted : Scenario.read forkDocument = .ok forkScenario := by rfl
  have returned : forkScenario.linearizations 2 = .ok forkOrderings := by cbv
  exact ⟨accepted, fork_generated, returned,
    orderings_performed_iff accepted fork_generated returned⟩

/-- A chain of three threads of which the one in the middle has no calls. -/
def gapDocument : Members Json :=
  [("sequences", .array
    [.object [("index", .natural 0), ("invocations",
      .array [.object [("method", .string "open")]])],
    .object [("index", .natural 1)],
    .object [("index", .natural 2), ("invocations",
      .array [.object [("method", .string "close")]])]]),
  ("order", .array [.array [.natural 0, .natural 1], .array [.natural 1, .natural 2]])]

def gapScenario : Scenario :=
  { Scenario.empty with
    threads := [⟨0, [⟨"open", [], false, some 0⟩]⟩, ⟨1, []⟩,
      ⟨2, [⟨"close", [], false, some 2⟩]⟩]
    order := [(0, 1), (1, 2)] }

def gapOrderings : List (CallSequence Call) :=
  [CallSequence.ofList [⟨"open", [], false, some 0⟩, ⟨"close", [], false, some 2⟩],
    CallSequence.ofList [⟨"close", [], false, some 2⟩, ⟨"open", [], false, some 0⟩]]

def gapProgram : Program :=
  { sharedObject := none
    slots := [1]
    functions := [⟨0, [⟨⟨"open", [], false, some 0⟩, "open()", none⟩]⟩, ⟨1, []⟩,
      ⟨2, [⟨⟨"close", [], false, some 2⟩, "close()", some 1⟩]⟩]
    main := [.declare 1, .runInitial 0, .startThreads, .create 1, .waitForThreads, .join 1,
      .runFinal 2, .check]
    accepted := [] }

/-- The search lets the last thread go first; the program never does. -/
theorem gap_ordering_unperformed :
    Scenario.read gapDocument = .ok gapScenario ∧ gapScenario.program = .ok gapProgram ∧
    gapScenario.linearizations 2 = .ok gapOrderings ∧
    ∃ ordering ∈ gapOrderings, ¬gapProgram.Performs ordering.toList := by
  have accepted : Scenario.read gapDocument = .ok gapScenario := by rfl
  have made : gapScenario.program = .ok gapProgram := by cbv
  have returned : gapScenario.linearizations 2 = .ok gapOrderings := by cbv
  refine ⟨accepted, made, returned, gapOrderings[1], List.getElem_mem _, ?_⟩
  rw [performs_iff_staged (valid_of_read accepted) (makes_of_program made)]
  rintro ⟨_covers, sorted⟩
  revert sorted
  decide

end Scenario

end Interleave
