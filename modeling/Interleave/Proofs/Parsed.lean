import Interleave.Proofs.Rereading

set_option autoImplicit false

/-! What readers give: numbers in range, members of different names, and no deeper nesting than
they were allowed. -/

namespace Interleave

open Token

namespace Token

/-! ### Numbers -/

section

variable {negative : Bool} {significand : Nat} {exponent : Int} {bytes rest : List UInt8}
  {value : Number}

private theorem real_inRange (read : real negative significand exponent bytes = .ok (value, rest)) :
    value.InRange := by
  unfold real at read
  split at read
  · cases read
    trivial
  · cases read

private theorem exponentPart_inRange
    (read : exponentPart negative significand exponent bytes = .ok (value, rest)) :
    value.InRange := by
  unfold exponentPart at read
  dsimp only at read
  split at read
  · cases read
  · split at read
    · split at read
      · exact real_inRange read
      · split_ifs at read
        · exact real_inRange read
    · cases read

private theorem fractionPart_inRange
    (read : fractionPart negative significand exponent bytes = .ok (value, rest)) :
    value.InRange := by
  unfold fractionPart at read
  dsimp only at read
  split at read
  · split at read
    · cases read
    · cases read
  · split at read
    · exact exponentPart_inRange read
    · exact exponentPart_inRange read
    · exact real_inRange read

private theorem wholeNumber_inRange (fits : significand ≤ largestSignificand)
    (read : wholeNumber negative significand bytes = .ok (value, rest)) : value.InRange := by
  have limit : largestSignificand = 18446744073709551615 := rfl
  rw [limit] at fits
  unfold wholeNumber at read
  split at read
  · split at read
    · exact real_inRange read
    · cases read
      constructor <;> omega
  · cases read
    change -2 ^ 63 ≤ (significand : Int) ∧ (significand : Int) < 2 ^ 64
    constructor <;> omega

private theorem afterDigits_inRange {digits : List UInt8}
    (read : afterDigits negative digits bytes = .ok (value, rest)) : value.InRange := by
  obtain ⟨taken, left, _, within, same⟩ := absorb_parts digits (Nat.zero_le largestSignificand)
  unfold afterDigits at read
  rw [same] at read
  dsimp only at read
  split at read
  · exact fractionPart_inRange read
  · exact exponentPart_inRange read
  · exact exponentPart_inRange read
  · split at read
    · exact wholeNumber_inRange within read
    · exact real_inRange read

private theorem number_inRange (read : number negative bytes = .ok (value, rest)) :
    value.InRange := by
  unfold number at read
  split at read
  · cases read
  · split at read
    · split at read
      · exact afterDigits_inRange read
      · split at read
        · cases read
        · exact afterDigits_inRange read
    · split at read
      · exact afterDigits_inRange read
      · cases read

end

end Token

/-! ### Members -/

namespace Members

variable {α : Type}

theorem mem_names_set (members : Members α) (name : String) (value : α) (other : String) :
    other ∈ (members.set name value).names ↔ other = name ∨ other ∈ members.names := by
  induction members with
  | nil => simp [set, names]
  | cons member members ih =>
      obtain ⟨key, old⟩ := member
      unfold set
      split
      · rename_i same
        subst same
        change other ∈ key :: names members ↔ other = key ∨ other ∈ key :: names members
        rw [List.mem_cons]
        constructor
        · exact Or.inr
        · intro found
          rcases found with same | present
          · exact Or.inl same
          · exact present
      · change other ∈ key :: names (set members name value) ↔
          other = name ∨ other ∈ key :: names members
        rw [List.mem_cons, List.mem_cons, ih, or_left_comm]

private theorem nodup_names_set {members : Members α} (distinct : members.names.Nodup)
    (name : String) (value : α) : (members.set name value).names.Nodup := by
  induction members with
  | nil => exact List.nodup_singleton name
  | cons member members ih =>
      obtain ⟨key, old⟩ := member
      change (key :: names members).Nodup at distinct
      unfold set
      split
      · exact distinct
      · rename_i other
        rw [List.nodup_cons] at distinct
        change (key :: names (set members name value)).Nodup
        rw [List.nodup_cons, mem_names_set, not_or]
        exact ⟨⟨other, distinct.1⟩, ih distinct.2⟩

private theorem mem_set {members : Members α} {name : String} {value : α} {member : String × α}
    (present : member ∈ members.set name value) : member.2 = value ∨ member ∈ members := by
  induction members with
  | nil =>
      rw [set, List.mem_singleton] at present
      exact Or.inl (by rw [present])
  | cons first members ih =>
      obtain ⟨key, old⟩ := first
      unfold set at present
      split at present
      · rcases List.mem_cons.mp present with same | later
        · exact Or.inl (by rw [same])
        · exact Or.inr (List.mem_cons_of_mem _ later)
      · rcases List.mem_cons.mp present with same | later
        · exact Or.inr (by rw [same]; exact List.mem_cons_self)
        · rcases ih later with same | inMembers
          · exact Or.inl same
          · exact Or.inr (List.mem_cons_of_mem _ inMembers)

end Members

/-! ### Values -/

namespace Reader

theorem items_all {α : Type} {item : List UInt8 → Read α} {holds : α → Prop}
    (each : ∀ bytes value rest, item bytes = .ok (value, rest) → holds value)
    {size : Nat} {first : Bool} {done : List α} {bytes : List UInt8} {values : List α}
    {rest : List UInt8} (before : ∀ value ∈ done, holds value)
    (read : items item size first done bytes = .ok (values, rest)) :
    ∀ value ∈ values, holds value := by
  induction size generalizing first done bytes with
  | zero => cases read
  | succ size ih =>
      unfold items at read
      split at read
      · cases read
      · cases read
        intro value member
        exact before value (List.mem_reverse.mp member)
      · split at read
        · cases read
        · rename_i found
          refine ih ?_ read
          intro value member
          rcases List.mem_cons.mp member with rfl | earlier
          · exact each _ _ _ found
          · exact before value earlier

theorem fields_all {α : Type} {field : α → String → List UInt8 → Read α} {holds : α → Prop}
    (each : ∀ done name bytes value rest, holds done →
      field done name bytes = .ok (value, rest) → holds value)
    {size : Nat} {first : Bool} {done : α} {bytes : List UInt8} {value : α} {rest : List UInt8}
    (before : holds done) (read : fields field size first done bytes = .ok (value, rest)) :
    holds value := by
  induction size generalizing first done bytes with
  | zero => cases read
  | succ size ih =>
      unfold fields at read
      split at read
      · cases read
      · cases read
        exact before
      · split at read
        · cases read
        · split at read
          · cases read
          · rename_i found
            exact ih (each _ _ _ _ _ before found) read

private theorem scalar_readable {byte : UInt8} {bytes rest : List UInt8} {value : Json}
    (read : scalar byte bytes = .ok (value, rest)) (levels : Nat) :
    Json.Readable levels value := by
  unfold scalar at read
  split_ifs at read
  · obtain ⟨left, _, same⟩ := exists_of_map_ok read
    cases same
    exact .null levels
  · obtain ⟨left, _, same⟩ := exists_of_map_ok read
    cases same
    exact .bool levels true
  · obtain ⟨left, _, same⟩ := exists_of_map_ok read
    cases same
    exact .bool levels false
  · obtain ⟨⟨number, left⟩, done, same⟩ := exists_of_map_ok read
    cases same
    exact .number levels (number_inRange done)
  · obtain ⟨⟨number, left⟩, done, same⟩ := exists_of_map_ok read
    cases same
    exact .number levels (number_inRange done)
  · obtain ⟨⟨text, left⟩, done, same⟩ := exists_of_map_ok read
    cases same
    exact .string levels text

/-- Members of different names with readable values. -/
def Sound (levels : Nat) (members : Members Json) : Prop :=
  members.names.Nodup ∧ ∀ member ∈ members, Json.Readable levels member.2

theorem sound_set {levels : Nat} {members : Members Json} (sound : Sound levels members)
    (name : String) {value : Json} (readable : Json.Readable levels value) :
    Sound levels (Members.set members name value) := by
  refine ⟨Members.nodup_names_set sound.1 name value, ?_⟩
  intro member present
  rcases Members.mem_set present with same | earlier
  · rw [same]
    exact readable
  · exact sound.2 member earlier

private theorem fields_sound {reader : List UInt8 → Read Json} {levels : Nat}
    (each : ∀ bytes value rest, reader bytes = .ok (value, rest) → Json.Readable levels value)
    {size : Nat} {first : Bool} {bytes rest : List UInt8} {members : Members Json}
    (read : fields (member reader) size first [] bytes = .ok (members, rest)) :
    Sound levels members := by
  have empty : Sound levels [] := ⟨List.nodup_nil, fun _ absent => by cases absent⟩
  refine fields_all ?_ empty read
  intro done name bytes members rest sound found
  unfold member at found
  split at found
  · cases found
  · obtain ⟨⟨value, left⟩, inner, same⟩ := exists_of_map_ok found
    cases same
    exact sound_set sound name (each _ _ _ inner)

private theorem value_readable (size levels : Nat) (bytes : List UInt8) (value : Json)
    (rest : List UInt8) (read : Reader.value size levels bytes = .ok (value, rest)) :
    Json.Readable levels value := by
  induction levels generalizing bytes value rest with
  | zero =>
      rw [Reader.value.eq_def] at read
      dsimp only at read
      split at read
      · cases read
      · split_ifs at read
        · exact scalar_readable read 0
  | succ levels ih =>
      rw [Reader.value.eq_def] at read
      dsimp only at read
      split at read
      · cases read
      · split_ifs at read
        · obtain ⟨⟨values, left⟩, inner, same⟩ := exists_of_map_ok read
          cases same
          exact .array (items_all ih (fun _ absent => by cases absent) inner)
        · obtain ⟨⟨members, left⟩, inner, same⟩ := exists_of_map_ok read
          cases same
          have sound := fields_sound ih inner
          exact .object sound.1 sound.2
        · exact scalar_readable read _

private theorem object_sound {size : Nat} {bytes rest : List UInt8} {members : Members Json}
    (read : object size bytes = .ok (members, rest)) : Sound (deepest - 1) members := by
  unfold object at read
  split at read
  · cases read
  · split_ifs at read
    · exact fields_sound (value_readable size (deepest - 1)) read

end Reader

/-- The members of an object that has been read can be printed and read again. -/
theorem Json.sound_of_parseObject {text : List UInt8} {members : Members Json}
    (read : Json.parseObject text = .ok members) :
    Reader.Sound (Reader.deepest - 1) members := by
  unfold Json.parseObject Reader.whole at read
  split at read
  · cases read
  · rename_i found
    split at read
    · cases read
      exact Reader.object_sound found
    · cases read

end Interleave
