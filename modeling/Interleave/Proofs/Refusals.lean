import Interleave.Proofs.Enumerated

set_option autoImplicit false

/-! Requests that no enumeration answers. A request is refused for the method it names, for its
number of threads, or for the type of a parameter; the type is looked at in each layout, and the
method reported is the first that the layouts come to, which is the first of the target and the
trusted methods in the order of declaration. -/

namespace Interleave

def MethodSpec.IntsOnly (method : MethodSpec) : Prop := ∀ type ∈ method.parameters, type = "int"

/-- The first of some methods that has a parameter of another type than int bears this name, and
this is the first such type of it. -/
def MethodSpec.FirstForeign (methods : List MethodSpec) (name type : String) : Prop :=
  ∃ earlier culprit later ints rest, methods = earlier ++ culprit :: later ∧
    (∀ method ∈ earlier, method.IntsOnly) ∧ culprit.name = name ∧
    culprit.parameters = ints ++ type :: rest ∧ (∀ other ∈ ints, other = "int") ∧ type ≠ "int"

namespace Enumeration

variable {α β ε : Type}

/-! ### The first error -/

def fault? : Except ε α → Option ε
  | .error error => some error
  | .ok _ => none

theorem fault?_eq_some_iff {attempt : Except ε α} {error : ε} :
    fault? attempt = some error ↔ attempt = .error error := by
  cases attempt <;> simp [fault?]

theorem fault?_eq_none_iff {attempt : Except ε α} :
    fault? attempt = none ↔ ∃ result, attempt = .ok result := by
  cases attempt <;> simp [fault?]

private theorem fault?_map (finish : α → β) (attempt : Except ε α) :
    fault? (attempt.map finish) = fault? attempt := by
  cases attempt <;> rfl

/-- A traversal fails with the error of the first item that fails. -/
theorem fault?_mapM (action : α → Except ε β) (items : List α) :
    fault? (items.mapM action) = items.findSome? (fun item => fault? (action item)) := by
  induction items with
  | nil => rfl
  | cons item items ih =>
      rw [List.mapM_cons, List.findSome?_cons, ← ih]
      cases action item with
      | error error => rfl
      | ok result => cases items.mapM action <;> rfl

/-! ### What is found first in a list of lists -/

private theorem findSome?_flatMap (block : α → List β) (view : β → Option ε) (items : List α) :
    (items.flatMap block).findSome? view =
      items.findSome? (fun item => (block item).findSome? view) := by
  induction items with
  | nil => rfl
  | cons item items ih =>
      rw [List.flatMap_cons, List.findSome?_append, List.findSome?_cons, ih]
      cases (block item).findSome? view <;> rfl

private theorem findSome?_const {items : List α} (some : items ≠ []) (found : Option β) :
    items.findSome? (fun _ => found) = found := by
  cases items with
  | nil => exact absurd rfl some
  | cons item items =>
      rw [List.findSome?_cons]
      cases found with
      | none => exact List.findSome?_eq_none_iff.mpr (fun _ _ => rfl)
      | some value => rfl

theorem findSome?_map_cons {lists : List (List α)} (some : lists ≠ []) (view : α → Option β)
    (item : α) :
    (lists.map (item :: ·)).findSome? (List.findSome? view) =
      (view item).or (lists.findSome? (List.findSome? view)) := by
  rw [List.findSome?_map]
  cases seen : view item with
  | none =>
      rw [Option.none_or]
      congr 1
      funext list
      rw [Function.comp_apply, List.findSome?_cons, seen]
  | some value =>
      have each : List.findSome? view ∘ (item :: ·) = fun _ => Option.some value := by
        funext list
        rw [Function.comp_apply, List.findSome?_cons, seen]
      rw [each, findSome?_const some, Option.some_or]

/-- What is found after the first item of all is found after every other too. -/
theorem findSome?_or_self (view : α → Option β) (items : List α) :
    items.findSome? (fun item => (view item).or (items.findSome? view)) =
      items.findSome? view := by
  cases found : items.findSome? view with
  | none =>
      simp only [Option.or_none]
      exact found
  | some value =>
      cases items with
      | nil => cases found
      | cons first others =>
          rw [List.findSome?_cons] at found ⊢
          cases here : view first with
          | none => rfl
          | some other =>
              rw [here] at found
              exact found

private theorem product_replicate_ne_nil {items : List α} (some : items ≠ []) (count : Nat) :
    product (List.replicate count items) ≠ [] := by
  obtain ⟨item, member⟩ := List.exists_mem_of_ne_nil _ some
  apply List.ne_nil_of_mem (a := List.replicate count item)
  rw [mem_product, forall₂_replicate]
  refine ⟨List.length_replicate, fun other inside => ?_⟩
  rw [List.eq_of_mem_replicate inside]
  exact member

/-- The choices of one item for each place come to the items in their own order. -/
theorem findSome?_product (view : α → Option β) {items : List α} (some : items ≠ [])
    (count : Nat) :
    (product (List.replicate (count + 1) items)).findSome? (List.findSome? view) =
      items.findSome? view := by
  induction count with
  | zero =>
      rw [List.replicate_one, product_cons, findSome?_flatMap]
      congr 1
      funext item
      exact (findSome?_map_cons (List.cons_ne_nil [] []) view item).trans Option.or_none
  | succ count ih =>
      rw [List.replicate_succ, product_cons, findSome?_flatMap]
      have each : ∀ item, ((product (List.replicate (count + 1) items)).map
          (item :: ·)).findSome? (List.findSome? view) =
            (view item).or (items.findSome? view) := by
        intro item
        rw [findSome?_map_cons (product_replicate_ne_nil some (count + 1)), ih]
      simp only [each]
      exact findSome?_or_self view items

/-! ### Parameters of another type -/

def complaint? (method : MethodSpec) : Option EnumerationError :=
  method.parameters.findSome?
    (fun type => if type = "int" then none else some (.unsupportedType method.name type))

private theorem fault?_withArguments (className : String) (order : List (Nat × Nat))
    (shape : List Nat) (values : Nat) (methods : List MethodSpec) :
    fault? (withArguments className order shape values methods) =
      methods.findSome? complaint? := by
  have one : ∀ (method : MethodSpec) (type : String),
      fault? (valuesOf method values type) =
        if type = "int" then none else some (.unsupportedType method.name type) := by
    intro method type
    unfold valuesOf
    split <;> rfl
  have choices : fault? (argumentChoices methods values) = methods.findSome? complaint? := by
    refine (fault?_map List.flatten _).trans ?_
    simp only [fault?_mapM, one]
    rfl
  rw [← choices]
  exact fault?_map _ _

theorem complaint?_eq_none_iff (method : MethodSpec) :
    complaint? method = none ↔ method.IntsOnly := by
  unfold complaint? MethodSpec.IntsOnly
  rw [List.findSome?_eq_none_iff]
  apply forall₂_congr
  intro type _
  by_cases int : type = "int" <;> simp [int]

theorem findSome?_complaint_iff (methods : List MethodSpec) (error : EnumerationError) :
    methods.findSome? complaint? = some error ↔
      ∃ name type, error = .unsupportedType name type ∧
        MethodSpec.FirstForeign methods name type := by
  rw [List.findSome?_eq_some_iff]
  constructor
  · intro given
    obtain ⟨earlier, culprit, later, split, complained, free⟩ := given
    obtain ⟨ints, type, rest, parameters, foreign, before⟩ :=
      List.findSome?_eq_some_iff.mp complained
    have other : type ≠ "int" := by
      intro int
      rw [if_pos int] at foreign
      cases foreign
    rw [if_neg other, Option.some.injEq] at foreign
    refine ⟨culprit.name, type, foreign.symm, earlier, culprit, later, ints, rest, split, ?_, rfl,
      parameters, ?_, other⟩
    · exact fun method member => (complaint?_eq_none_iff method).mp (free method member)
    · intro int member
      by_contra foreignInt
      have silent := before int member
      rw [if_neg foreignInt] at silent
      cases silent
  · intro given
    obtain ⟨_, type, rfl, earlier, culprit, later, ints, rest, split, free, rfl, parameters,
      before, other⟩ := given
    refine ⟨earlier, culprit, later, split, ?_, ?_⟩
    · apply List.findSome?_eq_some_iff.mpr
      exact ⟨ints, type, rest, parameters, if_neg other, fun int member =>
        if_pos (before int member)⟩
    · exact fun method member => (complaint?_eq_none_iff method).mpr (free method member)

theorem findSome?_complaint_eq_none_iff (methods : List MethodSpec) :
    methods.findSome? complaint? = none ↔ ∀ method ∈ methods, method.IntsOnly := by
  rw [List.findSome?_eq_none_iff]
  exact forall₂_congr (fun method _ => complaint?_eq_none_iff method)

/-! ### The methods that layouts come to -/

section

variable {trusted : List MethodSpec} {target : MethodSpec}

private theorem fillings_first (count : Nat) :
    fillings trusted target (count + 1) 0 = product (List.replicate count trusted) := by
  unfold fillings
  have places := map_range_if 0 count
    (trusted.filter (fun method => method.name != target.name)) trusted
  rw [Nat.zero_add, List.replicate_zero, List.nil_append] at places
  dsimp only
  rw [Nat.add_sub_cancel, places]

private theorem methodChoices_eq_nil {calls : Nat} (several : 2 ≤ calls) :
    methodChoices [] target calls = [] := by
  apply List.eq_nil_iff_forall_not_mem.mpr
  intro methods member
  obtain ⟨length, before, after, rfl, early, late⟩ := mem_methodChoices.mp member
  have noneBefore : before = [] := List.eq_nil_iff_forall_not_mem.mpr
    (fun method inside => List.not_mem_nil (early method inside).1)
  have noneAfter : after = [] := List.eq_nil_iff_forall_not_mem.mpr
    (fun method inside => List.not_mem_nil (late method inside))
  rw [noneBefore, noneAfter] at length
  change 1 = calls at length
  omega

/-- The layouts come to the target first, and then to the trusted methods in their order. -/
theorem findSome?_methodChoices (view : MethodSpec → Option β) (some : trusted ≠ [])
    {calls : Nat} (several : 2 ≤ calls) :
    (methodChoices trusted target calls).findSome? (List.findSome? view) =
      (target :: trusted).findSome? view := by
  obtain ⟨count, rfl⟩ : ∃ count, calls = count + 2 := ⟨calls - 2, by omega⟩
  cases found : (target :: trusted).findSome? view with
  | none =>
      -- No layout has another method in it.
      have silent := List.findSome?_eq_none_iff.mp found
      refine List.findSome?_eq_none_iff.mpr (fun methods inChoices => ?_)
      exact List.findSome?_eq_none_iff.mpr (fun method member =>
        silent method (mem_of_methodChoices inChoices method member))
  | some value =>
      have first : ((fillings trusted target (count + 2) 0).map
          (fun filling => filling.insertIdx 0 target)).findSome? (List.findSome? view) =
            Option.some value := by
        have front := findSome?_map_cons (product_replicate_ne_nil some (count + 1)) view target
        rw [findSome?_product view some count] at front
        rw [fillings_first]
        refine front.trans ?_
        rw [← found, List.findSome?_cons]
        cases view target <;> rfl
      unfold methodChoices
      rw [List.range_succ_eq_map, List.flatMap_cons, List.findSome?_append, first,
        Option.some_or]

end

/-! ### Answers -/

private theorem orderShapes_known {threads : Nat} (supported : threads = 2 ∨ threads = 3) :
    ∃ orders, orderShapes threads = .ok orders ∧ orders ≠ [] := by
  rcases supported with two | three
  · rw [two]
    exact ⟨_, rfl, List.cons_ne_nil _ _⟩
  · rw [three]
    exact ⟨_, rfl, List.cons_ne_nil _ _⟩

private theorem orderShapes_unknown {threads : Nat} (two : threads ≠ 2) (three : threads ≠ 3) :
    orderShapes threads = .error (.unsupportedThreadCount threads) := by
  unfold orderShapes
  split
  · exact absurd rfl two
  · exact absurd rfl three
  · rfl

private theorem slotShapes_ne_nil {threads : Nat} (positive : 0 < threads) (extra : Nat) :
    slotShapes threads extra ≠ [] := by
  obtain ⟨count, rfl⟩ := Nat.exists_eq_add_of_lt positive
  apply List.ne_nil_of_mem (a := (extra + 1) :: List.replicate count 1)
  rw [mem_slotShapes]
  refine ⟨?_, ?_, ?_⟩
  · rw [List.length_cons, List.length_replicate]
    omega
  · intro slots member
    rcases List.mem_cons.mp member with rfl | one
    · exact Nat.succ_pos extra
    · rw [List.eq_of_mem_replicate one]
      exact Nat.one_pos
  · rw [List.sum_cons, List.sum_replicate, smul_eq_mul]
    omega

variable {spec : ClassSpec} {request : EnumerationRequest} {target : MethodSpec}

private theorem enumerate_of_unknown (absent : spec.method? request.method = none) :
    spec.enumerate request = .error (.unknownMethod request.method) := by
  unfold ClassSpec.enumerate
  rw [absent]

private theorem enumerate_of_unsupported (found : spec.method? request.method = some target)
    (two : request.threads ≠ 2) (three : request.threads ≠ 3) :
    spec.enumerate request = .error (.unsupportedThreadCount request.threads) := by
  unfold ClassSpec.enumerate
  rw [found, orderShapes_unknown two three]
  rfl

/-- With enough calls, only what stands in the way of calling the target or a trusted method is
in the way, and only when there is a trusted method to fill the other slots. -/
theorem fault?_enumerate (found : spec.method? request.method = some target)
    (supported : request.threads = 2 ∨ request.threads = 3)
    (enough : request.threads ≤ request.calls) :
    fault? (spec.enumerate request) =
      if spec.trusted = [] then none else (target :: spec.trusted).findSome? complaint? := by
  obtain ⟨orders, known, someOrders⟩ := orderShapes_known supported
  have someShapes : slotShapes request.threads (request.calls - request.threads) ≠ [] :=
    slotShapes_ne_nil (by omega) _
  have several : 2 ≤ request.calls := by omega
  rw [enumerate_eq found known enough, fault?_map]
  simp only [fault?_mapM, fault?_withArguments]
  rw [findSome?_const someOrders, findSome?_const someShapes]
  by_cases none : spec.trusted = []
  · rw [if_pos none, none, methodChoices_eq_nil several]
    rfl
  · rw [if_neg none]
    exact findSome?_methodChoices complaint? none several

theorem enumerate_eq_error_iff (found : spec.method? request.method = some target)
    (supported : request.threads = 2 ∨ request.threads = 3)
    (enough : request.threads ≤ request.calls) (error : EnumerationError) :
    spec.enumerate request = .error error ↔
      spec.trusted ≠ [] ∧ ∃ name type, error = .unsupportedType name type ∧
        MethodSpec.FirstForeign (target :: spec.trusted) name type := by
  rw [← fault?_eq_some_iff, fault?_enumerate found supported enough,
    ← findSome?_complaint_iff]
  by_cases none : spec.trusted = []
  · rw [if_pos none]
    exact iff_of_false (fun same => by cases same) (fun both => both.1 none)
  · rw [if_neg none]
    exact (and_iff_right none).symm

theorem exists_enumerate_eq_ok_iff (found : spec.method? request.method = some target)
    (supported : request.threads = 2 ∨ request.threads = 3)
    (enough : request.threads ≤ request.calls) :
    (∃ scenarios, spec.enumerate request = .ok scenarios) ↔
      spec.trusted = [] ∨ ∀ method ∈ target :: spec.trusted, method.IntsOnly := by
  rw [← fault?_eq_none_iff, fault?_enumerate found supported enough,
    ← findSome?_complaint_eq_none_iff]
  by_cases none : spec.trusted = []
  · rw [if_pos none]
    exact iff_of_true rfl (Or.inl none)
  · rw [if_neg none]
    exact (or_iff_right none).symm

theorem refusal_of_found (found : spec.method? request.method = some target)
    {error : EnumerationError} (refused : spec.enumerate request = .error error) :
    (error = .unsupportedThreadCount request.threads ∧
        request.threads ≠ 2 ∧ request.threads ≠ 3) ∨
      (request.threads = 2 ∨ request.threads = 3) ∧
        ∃ name type, error = .unsupportedType name type := by
  by_cases supported : request.threads = 2 ∨ request.threads = 3
  · refine Or.inr ⟨supported, ?_⟩
    rcases Nat.lt_or_ge request.calls request.threads with few | enough
    · obtain ⟨orders, known, _some⟩ := orderShapes_known supported
      rw [enumerate_of_few found known few] at refused
      cases refused
    · obtain ⟨_, name, type, same, _⟩ :=
        (enumerate_eq_error_iff found supported enough error).mp refused
      exact ⟨name, type, same⟩
  · rw [not_or] at supported
    rw [enumerate_of_unsupported found supported.1 supported.2] at refused
    exact Or.inl ⟨(Except.error.inj refused).symm, supported⟩

theorem enumerate_eq_unknownMethod_iff (spec : ClassSpec) (request : EnumerationRequest) :
    spec.enumerate request = .error (.unknownMethod request.method) ↔
      ∀ method ∈ spec.methods, method.name ≠ request.method := by
  have absent : spec.method? request.method = none ↔
      ∀ method ∈ spec.methods, method.name ≠ request.method := by
    unfold ClassSpec.method?
    rw [List.find?_eq_none]
    simp only [beq_iff_eq, ne_eq]
  rw [← absent]
  constructor
  · intro refused
    by_contra present
    obtain ⟨target, found⟩ := Option.ne_none_iff_exists'.mp present
    rcases refusal_of_found found refused with ⟨other, _⟩ | ⟨_, name, type, other⟩
    · cases other
    · cases other
  · exact enumerate_of_unknown

theorem enumerate_eq_unsupportedThreadCount_iff
    (found : spec.method? request.method = some target) :
    spec.enumerate request = .error (.unsupportedThreadCount request.threads) ↔
      request.threads ≠ 2 ∧ request.threads ≠ 3 := by
  constructor
  · intro refused
    rcases refusal_of_found found refused with ⟨_, other⟩ | ⟨_, name, type, impossible⟩
    · exact other
    · cases impossible
  · exact fun other => enumerate_of_unsupported found other.1 other.2

end Enumeration

open Enumeration

/-- A request is refused for an unknown method, then for a number of threads other than two and
three. With fewer calls than threads its answer is empty. Else it is refused exactly when there is
a trusted method and, of the target and the trusted methods, one has a parameter of another type
than int; the first of these in order is named, with its first such type. -/
theorem ClassSpec.enumerate_answers (spec : ClassSpec) (request : EnumerationRequest) :
    (spec.enumerate request = .error (.unknownMethod request.method) ↔
      ∀ method ∈ spec.methods, method.name ≠ request.method) ∧
    ∀ target, spec.method? request.method = some target →
      (spec.enumerate request = .error (.unsupportedThreadCount request.threads) ↔
        request.threads ≠ 2 ∧ request.threads ≠ 3) ∧
      (request.threads = 2 ∨ request.threads = 3 →
        (request.calls < request.threads → spec.enumerate request = .ok []) ∧
        (request.threads ≤ request.calls →
          ((∃ name type, spec.enumerate request = .error (.unsupportedType name type)) ↔
            spec.trusted ≠ [] ∧ ∃ method ∈ target :: spec.trusted, ¬method.IntsOnly) ∧
          (∀ name type, spec.enumerate request = .error (.unsupportedType name type) ↔
            spec.trusted ≠ [] ∧ MethodSpec.FirstForeign (target :: spec.trusted) name type) ∧
          ((∃ scenarios, spec.enumerate request = .ok scenarios) ↔
            spec.trusted = [] ∨ ∀ method ∈ target :: spec.trusted, method.IntsOnly))) := by
  refine ⟨enumerate_eq_unknownMethod_iff spec request, fun target found => ?_⟩
  refine ⟨enumerate_eq_unsupportedThreadCount_iff found, fun supported => ?_⟩
  obtain ⟨orders, known, _some⟩ := orderShapes_known supported
  refine ⟨enumerate_of_few found known, fun enough => ?_⟩
  have refused := enumerate_eq_error_iff found supported enough
  have answered := exists_enumerate_eq_ok_iff found supported enough
  refine ⟨?_, ?_, answered⟩
  · have either : (∃ name type, spec.enumerate request = .error (.unsupportedType name type)) ↔
        ¬∃ scenarios, spec.enumerate request = .ok scenarios := by
      cases outcome : spec.enumerate request with
      | ok scenarios => simp
      | error error =>
          obtain ⟨_, name, type, same, _⟩ := (refused error).mp outcome
          simp [same]
    rw [either, answered]
    push Not
    rfl
  · intro name type
    rw [refused]
    constructor
    · intro given
      obtain ⟨some, _, _, same, first⟩ := given
      cases same
      exact ⟨some, first⟩
    · exact fun given => ⟨given.1, name, type, rfl, given.2⟩

/-- The target takes an int; of the trusted methods the first does too, and the other two take
another type each, after an int or at once. -/
def storeSpec : ClassSpec :=
  ⟨"Store", [⟨"get", ["int"], false, false⟩, ⟨"clear", ["int"], true, true⟩,
    ⟨"put", ["int", "String", "long"], true, true⟩, ⟨"add", ["double"], true, true⟩]⟩

/-- The second trusted method is named, although there are no values for any parameter. -/
theorem ClassSpec.enumerate_answers_store :
    storeSpec.method? "get" = some ⟨"get", ["int"], false, false⟩ ∧
    storeSpec.enumerate ⟨"get", 3, 4, 0⟩ = .error (.unsupportedType "put" "String") := by
  have found : storeSpec.method? "get" = some ⟨"get", ["int"], false, false⟩ := by rfl
  have first : MethodSpec.FirstForeign (⟨"get", ["int"], false, false⟩ :: storeSpec.trusted)
      "put" "String" := by
    refine ⟨[⟨"get", ["int"], false, false⟩, ⟨"clear", ["int"], true, true⟩],
      ⟨"put", ["int", "String", "long"], true, true⟩, [⟨"add", ["double"], true, true⟩],
      ["int"], ["long"], rfl, ?_, rfl, rfl, by decide, by decide⟩
    unfold MethodSpec.IntsOnly
    decide
  obtain ⟨_, answers⟩ := ClassSpec.enumerate_answers storeSpec ⟨"get", 3, 4, 0⟩
  obtain ⟨_, supported⟩ := answers _ found
  obtain ⟨_, enough⟩ := supported (Or.inr rfl)
  obtain ⟨_, named, _⟩ := enough (by decide)
  exact ⟨found, (named "put" "String").mpr ⟨by decide, first⟩⟩

end Interleave
