import Interleave.Proofs.Enumerated
import Interleave.Proofs.Output
import Interleave.Proofs.Translation

set_option autoImplicit false

/-! Enumerated scenarios are accepted everywhere: they are valid, they have a native program, and
what is written of them is read back. -/

namespace Interleave

namespace Choice

variable {spec : ClassSpec} {request : EnumerationRequest} {target : MethodSpec}
  {choice : Choice}

def numbered (className : String) (id : Nat) (choice : Choice) : Scenario :=
  { choice.scenario className with id := some id }

theorem numbered_tagged (choice : Choice) (className : String) (id : Nat) :
    ∀ thread ∈ (choice.numbered className id).threads, ∀ call ∈ thread.calls,
      call.thread = some thread.index := by
  intro thread member call inside
  obtain ⟨entry, _, rfl⟩ := List.mem_map.mp member
  obtain ⟨slot, _, rfl⟩ := List.mem_map.mp inside
  rfl

theorem Allowed.shapes (allowed : choice.Allowed spec request target) :
    (∃ first second, choice = ⟨[], [first, second]⟩) ∨
      ∃ first second third, choice = ⟨[], [first, second, third]⟩ ∨
        choice = ⟨[(0, 1), (0, 2)], [first, second, third]⟩ ∨
        choice = ⟨[(0, 2), (1, 2)], [first, second, third]⟩ ∨
        choice = ⟨[(0, 1), (1, 2)], [first, second, third]⟩ := by
  have shape := allowed.order
  have length := allowed.threads
  obtain ⟨order, threads⟩ := choice
  obtain ⟨_, count, _, _⟩ := request
  dsimp only at shape length
  cases shape
  case two =>
    obtain ⟨first, second, rfl⟩ := List.length_eq_two.mp length
    exact Or.inl ⟨first, second, rfl⟩
  all_goals
    obtain ⟨first, second, third, rfl⟩ := List.length_eq_three.mp length
    exact Or.inr ⟨first, second, third, by simp⟩

theorem Allowed.validate_numbered (allowed : choice.Allowed spec request target)
    (className : String) (id : Nat) : (choice.numbered className id).validate = .ok () := by
  rcases allowed.shapes with ⟨first, second, rfl⟩ | ⟨first, second, third, rfl | rfl | rfl | rfl⟩
    <;> cbv

private theorem Allowed.checkNative_numbered (allowed : choice.Allowed spec request target)
    (className : String) (id : Nat) : (choice.numbered className id).checkNative = .ok () := by
  rcases allowed.shapes with ⟨first, second, rfl⟩ | ⟨first, second, third, rfl | rfl | rfl | rfl⟩
    <;> rfl

end Choice

/-! ### The native program -/

theorem Choice.numbered_objects (choice : Choice) (className : String) (id : Nat) :
    (choice.numbered className id).objects = [] := by
  by_contra some
  rcases (Scenario.objects_ne_nil_iff _).mp some with
    ⟨thread, member, call, inside, argument, given, holds⟩ | ⟨setup, _⟩
  · obtain ⟨entry, _, rfl⟩ := List.mem_map.mp member
    obtain ⟨slot, _, rfl⟩ := List.mem_map.mp inside
    obtain ⟨number, _, rfl⟩ := List.mem_map.mp given
    cases holds
  · cases setup

theorem Choice.Allowed.exists_programText {spec : ClassSpec} {request : EnumerationRequest}
    {target : MethodSpec} {choice : Choice} (allowed : choice.Allowed spec request target)
    (className : String) (id : Nat) (library : Option String) :
    ∃ code, (choice.numbered className id).programText library = .ok code := by
  have written : Refuses _ _ ((choice.numbered className id).programText library) :=
    Scenario.refuses_programText (allowed.checkNative_numbered className id)
  rw [numbered_objects] at written
  exact written

theorem Harness.exists_nativeTest? {scenario : Scenario}
    (programmed : ∀ library, ∃ code, scenario.programText library = .ok code)
    (document : Members Json) (settings : Settings) :
    ∃ test, nativeTest? document scenario settings = .ok test := by
  unfold nativeTest? NativeTest.make
  obtain ⟨code, made⟩ := programmed settings.library
  rw [made]
  split
  · exact ⟨_, rfl⟩
  · exact ⟨_, rfl⟩

/-! ### The written form -/

private theorem Choice.members_numbered (choice : Choice) (className : String) (id : Nat) :
    (choice.numbered className id).members =
      [("class", .string className), ("id", .natural id),
        ("sequences", .array ((choice.numbered className id).threads.map Thread.toJson)),
        ("order", .array (choice.order.map (fun pair =>
          .array [.natural pair.1, .natural pair.2])))] := rfl

namespace Json

/-- Names that an object can have and that hold no three dashes. -/
def FieldNames (names : List String) : Prop :=
  names.Nodup ∧ ∀ name ∈ names, ¬Frame.dashes <:+: name.toList

instance (names : List String) : Decidable (FieldNames names) :=
  inferInstanceAs (Decidable (names.Nodup ∧ ∀ name ∈ names, ¬Frame.dashes <:+: name.toList))

/-- Values whose numbers are naturals of 64 bits and whose names and strings hold no three dashes,
of at most so many levels. -/
inductive Plain : Nat → Json → Prop where
  | bool (levels : Nat) (value : Bool) : Plain levels (.bool value)
  | natural (levels : Nat) {value : Nat} (small : value < 2 ^ 64) : Plain levels (.natural value)
  | string (levels : Nat) {text : String} (clean : ¬Frame.dashes <:+: text.toList) :
      Plain levels (.string text)
  | array {levels : Nat} {items : List Json} (all : ∀ item ∈ items, Plain levels item) :
      Plain (levels + 1) (.array items)
  | object {levels : Nat} {members : Members Json}
      (fields : FieldNames members.names)
      (all : ∀ member ∈ members, Plain levels member.2) : Plain (levels + 1) (.object members)

namespace Plain

variable {levels : Nat} {value : Json}

theorem readable (plain : Plain levels value) : Readable levels value := by
  induction plain with
  | bool levels value => exact .bool levels value
  | natural levels small => exact Run.natural_readable levels small
  | string levels clean => exact .string levels _
  | array all ih => exact .array ih
  | object fields all ih => exact .object fields.1 ih

theorem reread (plain : Plain levels value) : value.reread = value := by
  induction plain with
  | bool levels value => rw [Json.reread]
  | natural levels small =>
      unfold Json.natural
      rw [Json.reread]
      rfl
  | string levels clean => rw [Json.reread]
  | @array levels items all ih =>
      rw [Json.reread]
      congr 1
      induction items with
      | nil => rw [rereadItems]
      | cons item items later =>
          obtain ⟨first, rest⟩ := List.forall_mem_cons.mp ih
          rw [rereadItems, first, later (List.forall_mem_cons.mp all).2 rest]
  | @object levels members fields all ih =>
      rw [Json.reread]
      congr 1
      clear fields
      induction members with
      | nil => rw [rereadMembers]
      | cons member members later =>
          obtain ⟨first, rest⟩ := List.forall_mem_cons.mp ih
          rw [rereadMembers, first, later (List.forall_mem_cons.mp all).2 rest]

theorem not_someDashes (plain : Plain levels value) : ¬SomeDashes value.texts := by
  induction plain with
  | bool levels value =>
      rw [texts]
      exact someDashes_nil
  | natural levels small =>
      unfold Json.natural
      rw [texts]
      exact someDashes_nil
  | string levels clean =>
      rw [texts, someDashes_cons]
      exact not_or.mpr ⟨clean, someDashes_nil⟩
  | @array levels items all ih =>
      rw [texts]
      clear all
      induction items with
      | nil =>
          rw [itemTexts]
          exact someDashes_nil
      | cons item items later =>
          obtain ⟨first, rest⟩ := List.forall_mem_cons.mp ih
          rw [itemTexts, someDashes_append]
          exact not_or.mpr ⟨first, later rest⟩
  | @object levels members fields all ih =>
      have clean := fields.2
      rw [texts]
      clear fields all
      induction members with
      | nil =>
          rw [memberTexts]
          exact someDashes_nil
      | cons member members later =>
          obtain ⟨first, rest⟩ := List.forall_mem_cons.mp ih
          obtain ⟨own, others⟩ := List.forall_mem_cons.mp clean
          rw [memberTexts, someDashes_cons, someDashes_append]
          exact not_or.mpr ⟨own, not_or.mpr ⟨first, later rest others⟩⟩

end Plain

end Json

namespace Slot

variable {values : Nat} {slot : Slot}

private theorem plain_call (fits : slot.Fits values) (few : values ≤ 2 ^ 64)
    (clean : ¬Frame.dashes <:+: slot.method.name.toList) (levels index : Nat) :
    Json.Plain (levels + 2) (slot.call index).toJson := by
  have arguments : Json.Plain (levels + 1) (.array (slot.arguments.map .natural)) := by
    apply Json.Plain.array
    intro item member
    obtain ⟨value, given, rfl⟩ := List.mem_map.mp member
    exact .natural levels (Nat.lt_of_lt_of_le (fits.2 value given) few)
  unfold Slot.call Call.toJson
  dsimp only
  cases slot.method.isVoid with
  | true =>
      apply Json.Plain.object
      · change Json.FieldNames ["method", "arguments", "void"]
        decide
      · rw [if_pos rfl, List.forall_mem_cons, List.forall_mem_cons, List.forall_mem_singleton]
        exact ⟨.string _ clean, arguments, .bool _ true⟩
  | false =>
      apply Json.Plain.object
      · change Json.FieldNames ["method", "arguments"]
        decide
      · rw [if_neg Bool.false_ne_true, List.forall_mem_cons, List.forall_mem_singleton]
        exact ⟨.string _ clean, arguments⟩

theorem plain_thread {slots : List Slot} (fits : ∀ slot ∈ slots, slot.Fits values)
    (few : values ≤ 2 ^ 64)
    (clean : ∀ slot ∈ slots, ¬Frame.dashes <:+: slot.method.name.toList) {index : Nat}
    (small : index < 2 ^ 64) (levels : Nat) :
    Json.Plain (levels + 4) (Thread.toJson ⟨index, slots.map (Slot.call index)⟩) := by
  have calls : Json.Plain (levels + 3)
      (.array ((slots.map (Slot.call index)).map Call.toJson)) := by
    apply Json.Plain.array
    intro item member
    obtain ⟨call, inCalls, rfl⟩ := List.mem_map.mp member
    obtain ⟨slot, inSlots, rfl⟩ := List.mem_map.mp inCalls
    exact plain_call (fits slot inSlots) few (clean slot inSlots) levels index
  unfold Thread.toJson
  apply Json.Plain.object
  · change Json.FieldNames ["index", "invocations"]
    decide
  · rw [List.forall_mem_cons, List.forall_mem_singleton]
    exact ⟨.natural _ small, calls⟩

end Slot

namespace Choice

variable {spec : ClassSpec} {request : EnumerationRequest} {target : MethodSpec}
  {choice : Choice}

private theorem Allowed.order_lt (allowed : choice.Allowed spec request target) :
    ∀ pair ∈ choice.order, pair.1 < 2 ^ 64 ∧ pair.2 < 2 ^ 64 := by
  rcases allowed.shapes with ⟨first, second, rfl⟩ | ⟨first, second, third, rfl | rfl | rfl | rfl⟩
    <;> dsimp only <;> decide

private theorem Allowed.threads_le (allowed : choice.Allowed spec request target) :
    choice.threads.length ≤ 3 := by
  rcases allowed.shapes with ⟨first, second, rfl⟩ | ⟨first, second, third, rfl | rfl | rfl | rfl⟩
    <;> simp

theorem Allowed.plain_numbered (allowed : choice.Allowed spec request target)
    (few : request.values ≤ 2 ^ 64) {className : String}
    (cleanClass : ¬Frame.dashes <:+: className.toList)
    (clean : ∀ method ∈ choice.methods, ¬Frame.dashes <:+: method.name.toList) {id : Nat}
    (small : id < 2 ^ 64) (levels : Nat) :
    Json.Plain (levels + 6) (choice.numbered className id).toJson := by
  have threads : Json.Plain (levels + 5)
      (.array ((choice.numbered className id).threads.map Thread.toJson)) := by
    apply Json.Plain.array
    intro item member
    obtain ⟨thread, inThreads, rfl⟩ := List.mem_map.mp member
    obtain ⟨entry, inChoice, rfl⟩ := List.mem_map.mp inThreads
    have own : ∀ slot ∈ entry.1, slot ∈ choice.slots := fun slot inside =>
      List.mem_flatten.mpr ⟨entry.1, List.fst_mem_of_mem_zipIdx inChoice, inside⟩
    have bound := List.snd_lt_of_mem_zipIdx inChoice
    have count := allowed.threads_le
    exact Slot.plain_thread (fun slot inside => allowed.arguments slot (own slot inside)) few
      (fun slot inside => clean slot.method (List.mem_map_of_mem (own slot inside)))
      (by omega) levels
  have order : Json.Plain (levels + 5) (.array (choice.order.map (fun pair =>
      .array [.natural pair.1, .natural pair.2]))) := by
    apply Json.Plain.array
    intro item member
    obtain ⟨pair, inOrder, rfl⟩ := List.mem_map.mp member
    obtain ⟨first, second⟩ := allowed.order_lt pair inOrder
    apply Json.Plain.array
    rw [List.forall_mem_cons, List.forall_mem_singleton]
    exact ⟨.natural _ first, .natural _ second⟩
  unfold Scenario.toJson
  rw [members_numbered]
  apply Json.Plain.object
  · change Json.FieldNames ["class", "id", "sequences", "order"]
    decide
  · rw [List.forall_mem_cons, List.forall_mem_cons, List.forall_mem_cons,
      List.forall_mem_singleton]
    exact ⟨.string _ cleanClass, .natural _ small, threads, order⟩

end Choice

end Interleave
