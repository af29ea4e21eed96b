import Mathlib
import Interleave.Native.Program

set_option autoImplicit false

/-! Executions of native programs. Main does its actions in order; a thread function that it
calls performs all its calls before main goes on, and one that it starts performs them at any
time until main has joined it. The calls of a program that starts all its concurrent threads
and then joins them are those of the opening functions, an interleaving of the started ones,
and those of the closing functions. -/

namespace Interleave

/-! ### Interleavings -/

/-- A word that takes its items one at a time from the fronts of some strands until all are
empty. -/
inductive Merges {α : Type} : List (List α) → List α → Prop where
  | done {strands : List (List α)} (empty : ∀ strand ∈ strands, strand = []) : Merges strands []
  | pick {before after : List (List α)} {item : α} {strand merged : List α}
      (later : Merges (before ++ strand :: after) merged) :
      Merges (before ++ (item :: strand) :: after) (item :: merged)

namespace Merges

variable {α : Type}

private theorem cons_nil {strands : List (List α)} {merged : List α}
    (merges : Merges strands merged) :
    Merges ([] :: strands) merged := by
  induction merges with
  | done empty =>
      apply Merges.done
      intro strand member
      rcases List.mem_cons.mp member with rfl | later
      · rfl
      · exact empty strand later
  | @pick before after item strand merged _later ih =>
      rw [← List.cons_append] at ih ⊢
      exact ih.pick

theorem flatten (strands : List (List α)) : Merges strands strands.flatten := by
  induction strands with
  | nil => exact .done (fun strand impossible => absurd impossible List.not_mem_nil)
  | cons strand strands ih =>
      rw [List.flatten_cons]
      induction strand with
      | nil => exact ih.cons_nil
      | cons item strand later =>
          have picked : Merges ([] ++ (item :: strand) :: strands)
              (item :: (strand ++ strands.flatten)) := .pick later
          exact picked

end Merges

/-! ### Machines -/

/-- The position of the function that an action calls directly. -/
def Action.called? : Action → Option Nat
  | .runInitial position => some position
  | .runFinal position => some position
  | _ => none

/-- Actions that perform no call of the scenario and wait for nothing. -/
def Action.isSilent : Action → Bool
  | .setUp _ => true
  | .declare _ => true
  | .startThreads => true
  | .waitForThreads => true
  | .check => true
  | _ => false

namespace Program

def body (program : Program) (position : Nat) : List Call :=
  ((program.functions.find? (fun function => function.position == position)).map
    (fun function => function.statements.map Statement.call)).getD []

structure Machine where
  /-- What main has still to do. -/
  actions : List Action
  /-- What is left of the function that main has called. -/
  inside : List Call
  /-- The threads that have been started and not joined, with the calls left to each. -/
  running : List (Nat × List Call)
  performed : List Call

inductive Step (program : Program) : Machine → Machine → Prop where
  | enter (machine : Machine) (action : Action) (actions : List Action) (position : Nat)
      (next : machine.actions = action :: actions) (idle : machine.inside = [])
      (called : action.called? = some position) :
      Step program machine { machine with actions, inside := program.body position }
  | mainCall (machine : Machine) (call : Call) (calls : List Call)
      (inside : machine.inside = call :: calls) :
      Step program machine
        { machine with inside := calls, performed := machine.performed ++ [call] }
  | create (machine : Machine) (position : Nat) (actions : List Action)
      (next : machine.actions = .create position :: actions) (idle : machine.inside = []) :
      Step program machine
        { machine with
          actions
          running := machine.running ++ [(position, program.body position)] }
  | threadCall (machine : Machine) (before after : List (Nat × List Call)) (position : Nat)
      (call : Call) (calls : List Call)
      (running : machine.running = before ++ (position, call :: calls) :: after) :
      Step program machine
        { machine with
          running := before ++ (position, calls) :: after
          performed := machine.performed ++ [call] }
  | join (machine : Machine) (position : Nat) (actions : List Action)
      (before after : List (Nat × List Call))
      (next : machine.actions = .join position :: actions) (idle : machine.inside = [])
      (ended : machine.running = before ++ (position, []) :: after) :
      Step program machine { machine with actions, running := before ++ after }
  | pass (machine : Machine) (action : Action) (actions : List Action)
      (next : machine.actions = action :: actions) (idle : machine.inside = [])
      (silent : action.isSilent = true) :
      Step program machine { machine with actions }

abbrev Steps (program : Program) : Machine → Machine → Prop :=
  Relation.ReflTransGen (Step program)

def Machine.Ended (machine : Machine) : Prop := machine.actions = [] ∧ machine.inside = []

/-- The calls of some execution from the start of main to its end, in the order in which they
are performed. -/
def Performs (program : Program) (calls : List Call) : Prop :=
  ∃ final : Machine, program.Steps ⟨program.main, [], [], []⟩ final ∧ final.Ended ∧
    final.performed = calls

/-- Some machine at the end of main has performed `calls`. -/
def Ends (program : Program) (machine : Machine) (calls : List Call) : Prop :=
  ∃ final : Machine, program.Steps machine final ∧ final.Ended ∧ final.performed = calls

/-! ### Main alone -/

variable {program : Program}

private theorem Ends.of_step {machine next : Machine} {calls : List Call}
    (step : program.Step machine next) (ends : program.Ends next calls) :
    program.Ends machine calls := by
  obtain ⟨final, steps, ended, performed⟩ := ends
  exact ⟨final, .head step steps, ended, performed⟩

/-- Where only one step is possible, every execution goes on with it. -/
theorem Ends.of_only_step {machine next : Machine} {calls : List Call}
    (only : ∀ other, program.Step machine other → other = next) (going : ¬machine.Ended)
    (ends : program.Ends machine calls) : program.Ends next calls := by
  obtain ⟨final, steps, ended, performed⟩ := ends
  rcases steps.cases_head with same | ⟨other, step, later⟩
  · rw [same] at going
    exact absurd ended going
  · rw [only other step] at later
    exact ⟨final, later, ended, performed⟩

/-- What can happen while main is between two actions. -/
private theorem step_idle {action : Action} {actions : List Action}
    {running : List (Nat × List Call)} {performed : List Call} {other : Machine}
    (step : program.Step ⟨action :: actions, [], running, performed⟩ other) :
    (∃ position, action.called? = some position ∧
      other = ⟨actions, program.body position, running, performed⟩) ∨
    (∃ position, action = .create position ∧
      other = ⟨actions, [], running ++ [(position, program.body position)], performed⟩) ∨
    (∃ before after position call calls, running = before ++ (position, call :: calls) :: after ∧
      other = ⟨action :: actions, [], before ++ (position, calls) :: after,
        performed ++ [call]⟩) ∨
    (∃ before after position, action = .join position ∧
      running = before ++ (position, []) :: after ∧
      other = ⟨actions, [], before ++ after, performed⟩) ∨
    (action.isSilent = true ∧ other = ⟨actions, [], running, performed⟩) := by
  cases step with
  | enter _ _ position next _ called =>
      cases next
      exact Or.inl ⟨position, called, rfl⟩
  | mainCall _ _ inside => cases inside
  | create position _ next _ =>
      cases next
      exact Or.inr (Or.inl ⟨position, rfl, rfl⟩)
  | threadCall before after position call calls same =>
      exact Or.inr (Or.inr (Or.inl ⟨before, after, position, call, calls, same, rfl⟩))
  | join position _ before after next _ ended =>
      cases next
      exact Or.inr (Or.inr (Or.inr (Or.inl ⟨before, after, position, rfl, ended, rfl⟩)))
  | pass _ _ next _ silent =>
      cases next
      exact Or.inr (Or.inr (Or.inr (Or.inr ⟨silent, rfl⟩)))

theorem ends_pass_iff (action : Action) (actions : List Action) (performed calls : List Call)
    (silent : action.isSilent = true) :
    program.Ends ⟨action :: actions, [], [], performed⟩ calls ↔
      program.Ends ⟨actions, [], [], performed⟩ calls := by
  constructor
  · apply Ends.of_only_step
    · intro other step
      rcases step_idle step with ⟨position, called, _⟩ | ⟨position, same, _⟩ |
        ⟨before, after, position, call, rest, same, _⟩ | ⟨before, after, position, _, same, _⟩ |
        ⟨_, same⟩
      · cases action <;> cases silent <;> cases called
      · subst same
        cases silent
      · simp at same
      · simp at same
      · exact same
    · rintro ⟨impossible, _inside⟩
      cases impossible
  · exact Ends.of_step (.pass ⟨action :: actions, [], [], performed⟩ action actions rfl rfl silent)

theorem ends_silent_iff (silent actions : List Action) (performed calls : List Call)
    (all : ∀ action ∈ silent, action.isSilent = true) :
    program.Ends ⟨silent ++ actions, [], [], performed⟩ calls ↔
      program.Ends ⟨actions, [], [], performed⟩ calls := by
  induction silent with
  | nil => rfl
  | cons action silent ih =>
      rw [List.cons_append, ends_pass_iff _ _ _ _ (all action List.mem_cons_self)]
      exact ih (fun other member => all other (List.mem_cons_of_mem _ member))

theorem ends_inside_iff (actions : List Action) (inside performed calls : List Call) :
    program.Ends ⟨actions, inside, [], performed⟩ calls ↔
      program.Ends ⟨actions, [], [], performed ++ inside⟩ calls := by
  induction inside generalizing performed with
  | nil => rw [List.append_nil]
  | cons call inside ih =>
      have rest := ih (performed ++ [call])
      rw [List.append_assoc, List.singleton_append] at rest
      rw [← rest]
      constructor
      · apply Ends.of_only_step
        · intro other step
          cases step with
          | enter _ _ _ _ idle _ => cases idle
          | mainCall _ _ same =>
              cases same
              rfl
          | create _ _ _ idle => cases idle
          | threadCall _ _ _ _ _ running => exact absurd running.symm (by simp)
          | join _ _ _ _ _ idle _ => cases idle
          | pass _ _ _ idle _ => cases idle
        · rintro ⟨_actions, impossible⟩
          cases impossible
      · exact Ends.of_step (.mainCall ⟨actions, call :: inside, [], performed⟩ call inside rfl)

theorem ends_called_iff (action : Action) (position : Nat) (actions : List Action)
    (performed calls : List Call) (called : action.called? = some position) :
    program.Ends ⟨action :: actions, [], [], performed⟩ calls ↔
      program.Ends ⟨actions, [], [], performed ++ program.body position⟩ calls := by
  rw [← ends_inside_iff]
  constructor
  · apply Ends.of_only_step
    · intro other step
      rcases step_idle step with ⟨again, calledAgain, same⟩ | ⟨again, same, _⟩ |
        ⟨before, after, again, call, rest, same, _⟩ | ⟨before, after, again, _, same, _⟩ |
        ⟨silent, _⟩
      · rw [same, Option.some.inj (calledAgain.symm.trans called)]
      · subst same
        cases called
      · simp at same
      · simp at same
      · cases action <;> cases silent <;> cases called
    · rintro ⟨impossible, _inside⟩
      cases impossible
  · exact Ends.of_step
      (.enter ⟨action :: actions, [], [], performed⟩ action actions position rfl rfl called)

theorem ends_calls_iff (call : Nat → Action) (positions : List Nat) (actions : List Action)
    (performed calls : List Call)
    (called : ∀ position, (call position).called? = some position) :
    program.Ends ⟨positions.map call ++ actions, [], [], performed⟩ calls ↔
      program.Ends ⟨actions, [], [], performed ++ positions.flatMap program.body⟩ calls := by
  induction positions generalizing performed with
  | nil => rw [List.flatMap_nil, List.append_nil, List.map_nil, List.nil_append]
  | cons position positions ih =>
      rw [List.map_cons, List.cons_append, ends_called_iff _ position _ _ _ (called position), ih,
        List.flatMap_cons, List.append_assoc]

theorem ends_nil_iff (performed calls : List Call) :
    program.Ends ⟨[], [], [], performed⟩ calls ↔ performed = calls := by
  constructor
  · rintro ⟨final, steps, _ended, same⟩
    rcases steps.cases_head with stopped | ⟨other, step, _later⟩
    · subst stopped
      exact same
    · cases step with
      | enter _ _ _ next _ _ => cases next
      | mainCall _ _ inside => cases inside
      | create _ _ next _ => cases next
      | threadCall _ _ _ _ _ running => exact absurd running.symm (by simp)
      | join _ _ _ _ next _ _ => cases next
      | pass _ _ next _ _ => cases next
  · rintro rfl
    exact ⟨_, .refl, ⟨rfl, rfl⟩, rfl⟩

/-! ### Main with threads -/

/-- What main has to do while it starts threads, says that it waits, and joins them. -/
def concurrently (todo : List Nat) (silent : List Action) (running : List (Nat × List Call))
    (tail : List Action) : List Action :=
  todo.map .create ++ (silent ++ ((running.map Prod.fst ++ todo).map .join ++ tail))

/-- What can happen until the last thread has been joined. A join takes the thread that was
started first, as no position is started twice. -/
theorem step_concurrently {todo : List Nat} {silent : List Action}
    {running : List (Nat × List Call)} {tail : List Action} {performed : List Call}
    {other : Machine} (distinct : (running.map Prod.fst ++ todo).Nodup)
    (quiet : ∀ action ∈ silent, action.isSilent = true)
    (going : ¬(todo = [] ∧ silent = [] ∧ running = []))
    (step : program.Step ⟨concurrently todo silent running tail, [], running, performed⟩ other) :
    (∃ position rest, todo = position :: rest ∧
      other = ⟨concurrently rest silent (running ++ [(position, program.body position)]) tail, [],
        running ++ [(position, program.body position)], performed⟩) ∨
    (∃ action rest, todo = [] ∧ silent = action :: rest ∧
      other = ⟨concurrently [] rest running tail, [], running, performed⟩) ∨
    (∃ before after position call calls, running = before ++ (position, call :: calls) :: after ∧
      other = ⟨concurrently todo silent (before ++ (position, calls) :: after) tail, [],
        before ++ (position, calls) :: after, performed ++ [call]⟩) ∨
    (∃ position rest, todo = [] ∧ silent = [] ∧ running = (position, []) :: rest ∧
      other = ⟨concurrently [] [] rest tail, [], rest, performed⟩) := by
  have threadCase : ∀ before after position call calls,
      running = before ++ (position, call :: calls) :: after →
      concurrently todo silent running tail =
        concurrently todo silent (before ++ (position, calls) :: after) tail := by
    rintro before after position call calls rfl
    simp only [concurrently, List.map_append, List.map_cons]
  cases todo with
  | cons position todo =>
      have actions : concurrently (position :: todo) silent running tail =
          .create position ::
            concurrently todo silent (running ++ [(position, program.body position)]) tail := by
        simp only [concurrently, List.map_cons, List.map_append, List.map_nil, List.cons_append,
          List.append_assoc, List.nil_append]
      rw [actions] at step threadCase
      rcases step_idle step with ⟨again, called, _⟩ | ⟨again, same, next⟩ |
        ⟨before, after, again, call, rest, same, next⟩ | ⟨before, after, again, impossible, _⟩ |
        ⟨impossible, _⟩
      · cases called
      · cases same
        exact Or.inl ⟨position, todo, rfl, next⟩
      · rw [threadCase before after again call rest same] at next
        exact Or.inr (Or.inr (Or.inl ⟨before, after, again, call, rest, same, next⟩))
      · cases impossible
      · cases impossible
  | nil =>
      cases silent with
      | cons action silent =>
          have actions : concurrently [] (action :: silent) running tail =
              action :: concurrently [] silent running tail := rfl
          have actionQuiet := quiet action List.mem_cons_self
          rw [actions] at step threadCase
          rcases step_idle step with ⟨again, called, _⟩ | ⟨again, same, _⟩ |
            ⟨before, after, again, call, rest, same, next⟩ | ⟨before, after, again, same, _⟩ |
            ⟨_, next⟩
          · cases action <;> cases actionQuiet <;> cases called
          · subst same
            cases actionQuiet
          · rw [threadCase before after again call rest same] at next
            exact Or.inr (Or.inr (Or.inl ⟨before, after, again, call, rest, same, next⟩))
          · subst same
            cases actionQuiet
          · exact Or.inr (Or.inl ⟨action, silent, rfl, rfl, next⟩)
      | nil =>
          cases running with
          | nil => exact absurd ⟨rfl, rfl, rfl⟩ going
          | cons thread running =>
              obtain ⟨position, left⟩ := thread
              have actions : concurrently [] [] ((position, left) :: running) tail =
                  .join position :: concurrently [] [] running tail := rfl
              rw [actions] at step threadCase
              rcases step_idle step with ⟨again, called, _⟩ | ⟨again, impossible, _⟩ |
                ⟨before, after, again, call, rest, same, next⟩ |
                ⟨before, after, again, joined, same, next⟩ | ⟨impossible, _⟩
              · cases called
              · cases impossible
              · rw [threadCase before after again call rest same] at next
                exact Or.inr (Or.inr (Or.inl ⟨before, after, again, call, rest, same, next⟩))
              · cases joined
                cases before with
                | nil =>
                    cases same
                    exact Or.inr (Or.inr (Or.inr ⟨position, running, rfl, rfl, rfl, next⟩))
                | cons first before =>
                    cases same
                    simp at distinct
              · cases impossible

/-- Until the last thread has been joined, main adds an interleaving of what is left to all
threads. -/
theorem merges_of_ends {todo : List Nat} {silent : List Action}
    {running : List (Nat × List Call)} {tail : List Action} {performed calls : List Call}
    (distinct : (running.map Prod.fst ++ todo).Nodup)
    (quiet : ∀ action ∈ silent, action.isSilent = true)
    (ends : program.Ends ⟨concurrently todo silent running tail, [], running, performed⟩ calls) :
    ∃ merged, Merges (running.map Prod.snd ++ todo.map program.body) merged ∧
      program.Ends ⟨tail, [], [], performed ++ merged⟩ calls := by
  obtain ⟨final, steps, ended, same⟩ := ends
  have onlyTail : ∀ performed, program.Steps ⟨concurrently [] [] [] tail, [], [], performed⟩ final →
      ∃ merged, Merges (([] : List (Nat × List Call)).map Prod.snd ++ [].map program.body) merged ∧
        program.Ends ⟨tail, [], [], performed ++ merged⟩ calls := by
    intro performed rest
    refine ⟨[], .done (by simp), final, ?_, ended, same⟩
    rw [List.append_nil]
    exact rest
  generalize started :
    (⟨concurrently todo silent running tail, [], running, performed⟩ : Machine) = machine at steps
  induction steps using Relation.ReflTransGen.head_induction_on generalizing
    todo silent running performed with
  | refl =>
      have stopped : concurrently todo silent running tail = [] := by
        rw [← started] at ended
        exact ended.1
      unfold concurrently at stopped
      simp only [List.append_eq_nil_iff, List.map_eq_nil_iff] at stopped
      obtain ⟨noneTodo, noneSilent, ⟨noneRunning, _⟩, _⟩ := stopped
      subst noneTodo noneSilent noneRunning
      exact onlyTail performed (started ▸ .refl)
  | @head machine next step later ih =>
      subst started
      by_cases going : todo = [] ∧ silent = [] ∧ running = []
      · obtain ⟨rfl, rfl, rfl⟩ := going
        exact onlyTail performed (.head step later)
      rcases step_concurrently distinct quiet going step with
        ⟨position, rest, rfl, rfl⟩ | ⟨action, rest, rfl, rfl, rfl⟩ |
        ⟨before, after, position, call, left, rfl, rfl⟩ | ⟨position, rest, rfl, rfl, rfl, rfl⟩
      · obtain ⟨merged, merges, ends⟩ := ih (by simpa using distinct) quiet rfl
        refine ⟨merged, ?_, ends⟩
        simpa using merges
      · exact ih distinct (fun other member => quiet other (List.mem_cons_of_mem _ member)) rfl
      · obtain ⟨merged, merges, ends⟩ := ih (by simpa using distinct) quiet rfl
        refine ⟨call :: merged, ?_, ?_⟩
        · simp only [List.map_append, List.map_cons, List.append_assoc, List.cons_append]
            at merges ⊢
          exact merges.pick
        · rw [List.append_assoc, List.singleton_append] at ends
          exact ends
      · rw [List.map_cons, List.cons_append, List.nodup_cons] at distinct
        obtain ⟨merged, merges, ends⟩ := ih distinct.2 quiet rfl
        exact ⟨merged, merges.cons_nil, ends⟩

theorem ends_of_empty {running : List (Nat × List Call)} {tail : List Action}
    {performed calls : List Call} (empty : ∀ thread ∈ running, thread.2 = [])
    (ends : program.Ends ⟨tail, [], [], performed⟩ calls) :
    program.Ends ⟨concurrently [] [] running tail, [], running, performed⟩ calls := by
  induction running with
  | nil => exact ends
  | cons thread running ih =>
      obtain ⟨position, left⟩ := thread
      have atEnd : left = [] := empty _ List.mem_cons_self
      subst atEnd
      have rest := ih (fun other member => empty other (List.mem_cons_of_mem _ member))
      exact rest.of_step (.join ⟨concurrently [] [] ((position, []) :: running) tail, [],
        (position, []) :: running, performed⟩ position _ [] running rfl rfl rfl)

private theorem ends_of_started {running : List (Nat × List Call)} {tail : List Action}
    {performed calls merged : List Call} (merges : Merges (running.map Prod.snd) merged)
    (ends : program.Ends ⟨tail, [], [], performed ++ merged⟩ calls) :
    program.Ends ⟨concurrently [] [] running tail, [], running, performed⟩ calls := by
  generalize strandsEq : running.map Prod.snd = strands at merges
  induction merges generalizing running performed with
  | done empty =>
      rw [List.append_nil] at ends
      apply ends_of_empty _ ends
      intro thread member
      apply empty
      rw [← strandsEq]
      exact List.mem_map_of_mem member
  | @pick before after call left merged later ih =>
      obtain ⟨first, rest, rfl, rfl, restEq⟩ := List.map_eq_append_iff.mp strandsEq
      obtain ⟨⟨position, calls⟩, last, rfl, same, rfl⟩ := List.map_eq_cons_iff.mp restEq
      dsimp only at same
      subst same
      rw [← List.singleton_append, ← List.append_assoc] at ends
      have called : program.Step
          ⟨concurrently [] [] (first ++ (position, call :: left) :: last) tail, [],
            first ++ (position, call :: left) :: last, performed⟩
          ⟨concurrently [] [] (first ++ (position, left) :: last) tail, [],
            first ++ (position, left) :: last, performed ++ [call]⟩ := by
        simp only [concurrently, List.map_append, List.map_cons]
        exact .threadCall _ first last position call left rfl
      exact (ih ends (by simp)).of_step called

/-- Any interleaving can be performed, even by starting all threads before the first call. -/
theorem ends_of_merges {todo : List Nat} {silent : List Action}
    {running : List (Nat × List Call)} {tail : List Action} {performed calls merged : List Call}
    (quiet : ∀ action ∈ silent, action.isSilent = true)
    (merges : Merges (running.map Prod.snd ++ todo.map program.body) merged)
    (ends : program.Ends ⟨tail, [], [], performed ++ merged⟩ calls) :
    program.Ends ⟨concurrently todo silent running tail, [], running, performed⟩ calls := by
  induction todo generalizing running with
  | cons position todo ih =>
      have created : program.Step
          ⟨concurrently (position :: todo) silent running tail, [], running, performed⟩
          ⟨concurrently todo silent (running ++ [(position, program.body position)]) tail, [],
            running ++ [(position, program.body position)], performed⟩ :=
        .create _ position _ (by simp [concurrently]) rfl
      exact (ih (by simpa using merges)).of_step created
  | nil =>
      induction silent with
      | cons action silent ih =>
          have rest := ih (fun other member => quiet other (List.mem_cons_of_mem _ member))
          exact rest.of_step (.pass ⟨concurrently [] (action :: silent) running tail, [], running,
            performed⟩ action _ rfl rfl (quiet action List.mem_cons_self))
      | nil =>
          rw [List.map_nil, List.append_nil] at merges
          exact ends_of_started merges ends

/-- The executions of a main function that calls some functions, runs others on threads, and
then calls the rest. -/
theorem performs_iff {silent : List Action} {initials concurrent finals : List Nat}
    (quiet : ∀ action ∈ silent, action.isSilent = true) (distinct : concurrent.Nodup)
    (main : program.main = silent ++ initials.map .runInitial ++
      .startThreads :: concurrent.map .create ++ .waitForThreads :: concurrent.map .join ++
      finals.map .runFinal ++ [.check]) (calls : List Call) :
    program.Performs calls ↔ ∃ merged, Merges (concurrent.map program.body) merged ∧
      calls = initials.flatMap program.body ++ merged ++ finals.flatMap program.body := by
  have start : program.main = silent ++ (initials.map .runInitial ++ ([.startThreads] ++
      concurrently concurrent [.waitForThreads] []
        (finals.map .runFinal ++ ([.check] ++ [])))) := by
    rw [main]
    simp [concurrently]
  have finish : ∀ performed, program.Ends ⟨finals.map .runFinal ++ ([.check] ++ []), [], [],
      performed⟩ calls ↔ performed ++ finals.flatMap program.body = calls := by
    intro performed
    rw [ends_calls_iff .runFinal finals _ _ _ (fun position => rfl),
      ends_silent_iff [.check] _ _ _ (by simp [Action.isSilent]), ends_nil_iff]
  change program.Ends ⟨program.main, [], [], []⟩ calls ↔ _
  rw [start, ends_silent_iff _ _ _ _ quiet,
    ends_calls_iff .runInitial initials _ _ _ (fun position => rfl), List.nil_append,
    ends_silent_iff [.startThreads] _ _ _ (by simp [Action.isSilent])]
  have waits : ∀ action ∈ [Action.waitForThreads], action.isSilent = true := by
    simp [Action.isSilent]
  constructor
  · intro ends
    obtain ⟨merged, merges, rest⟩ := merges_of_ends (by simpa using distinct) waits ends
    exact ⟨merged, merges, ((finish _).mp rest).symm⟩
  · rintro ⟨merged, merges, same⟩
    exact ends_of_merges waits merges ((finish _).mpr same.symm)

end Program

end Interleave
