import Emend.Proofs.SchemaLaws
import Emend.Schema.Traversal

/-! The traversal does what the operations of a validation library are documented to do. -/

namespace Emend.Schema

open Text

variable {α β : Type}

theorem refused_complain (complaint : Complaint) : Refused (complain complaint : Checked α) :=
  ⟨_, rfl, List.cons_ne_nil _ _⟩

theorem Refused.map {checked : Checked α} (refused : Refused checked) (f : α → β) : Refused (checked.map f) := by
  obtain ⟨issues, rfl, some⟩ := refused
  exact ⟨issues, rfl, some⟩

theorem Refused.bind {checked : Checked α} (refused : Refused checked) (next : α → Checked β) :
    Refused (checked >>= next) := by
  obtain ⟨issues, rfl, some⟩ := refused
  exact ⟨issues, rfl, some⟩

section Both

variable {first : Checked α} {second : Checked β}

theorem both_refused (refused : Refused first ∨ Refused second) : Refused (both first second) := by
  obtain ⟨issues, rfl, some⟩ | ⟨issues, rfl, some⟩ := refused
  · cases second with
    | ok => exact ⟨issues, rfl, some⟩
    | error more => exact ⟨issues ++ more, rfl, List.append_ne_nil_of_left_ne_nil some _⟩
  · cases first with
    | ok => exact ⟨issues, rfl, some⟩
    | error more => exact ⟨more ++ issues, rfl, List.append_ne_nil_of_right_ne_nil _ some⟩

variable {γ : Type} {place : List Text} {part : Checked γ}

theorem Fails.both_left (fails : Fails place part first) : Fails place part (both first second) := by
  intro issues failed
  obtain ⟨all, rfl, among⟩ := fails issues failed
  cases second with
  | ok => exact ⟨all, rfl, among⟩
  | error more => exact ⟨all ++ more, rfl, fun issue member => List.mem_append_left _ (among issue member)⟩

theorem Fails.both_right (fails : Fails place part second) : Fails place part (both first second) := by
  intro issues failed
  obtain ⟨all, rfl, among⟩ := fails issues failed
  cases first with
  | ok => exact ⟨all, rfl, among⟩
  | error more => exact ⟨more ++ all, rfl, fun issue member => List.mem_append_right _ (among issue member)⟩

theorem Fails.map (fails : Fails place part first) (f : α → β) : Fails place part (first.map f) := by
  intro issues failed
  obtain ⟨all, rfl, among⟩ := fails issues failed
  exact ⟨all, rfl, among⟩

theorem fails_placed (place : Text) : Fails [place] part (placed place part) := by
  rintro issues rfl
  exact ⟨_, rfl, fun issue member => List.mem_map_of_mem member⟩

end Both

namespace Check

theorem guarded_ok {check : Check α} {bad : α → Prop} [DecidablePred bad] (complaint : Complaint) {value : Option Json}
    {kept : α} (passed : check value = .ok kept) (fine : ¬ bad kept) :
    check.guarded bad complaint value = .ok kept := by
  simp only [guarded, passed, bind, Except.bind]
  exact if_neg fine

theorem guarded_refused {check : Check α} {bad : α → Prop} [DecidablePred bad] (complaint : Complaint)
    {value : Option Json} {kept : α} (passed : check value = .ok kept) (against : bad kept) :
    Refused (check.guarded bad complaint value) := by
  simp only [guarded, passed, bind, Except.bind, if_pos against]
  exact refused_complain complaint

theorem fails_guarded (check : Check α) (bad : α → Prop) [DecidablePred bad] (complaint : Complaint)
    (value : Option Json) : Fails [] (check value) (check.guarded bad complaint value) := by
  intro issues failed
  simp only [guarded, failed, bind, Except.bind]
  exact ⟨issues, rfl, fun issue member => member⟩

theorem wanted_refused {name : String} {read : Json → Option α} {value : Option Json} (unread : value.bind read = none) :
    Refused (wanted name read value) := by
  cases value with
  | none => exact refused_complain _
  | some json =>
    rw [Option.bind_some] at unread
    rw [wanted, unread]
    exact refused_complain _

theorem array_other {value : Option Json} (other : ∀ items, value ≠ some (.array items)) : Refused (array value) := by
  apply wanted_refused
  match value with
  | none | some .null | some (.boolean _) | some (.number _) | some (.string _) | some (.object _) => rfl
  | some (.array items) => exact absurd rfl (other items)

theorem items_ok {check : Check α} {values : List Json} {kept : List α}
    (each : List.Forall₂ (fun item one => check (some item) = .ok one) values kept) (first : Nat) :
    items check first values = .ok kept := by
  induction each generalizing first with
  | nil => rfl
  | cons here rest ih => rw [items, here, ih]; rfl

theorem fails_items (check : Check α) {values : List Json} {i : Nat} {item : Json} (there : values[i]? = some item)
    (first : Nat) : Fails [ofNat (first + i)] (check (some item)) (items check first values) := by
  induction values generalizing first i with
  | nil => cases there
  | cons value values ih =>
    cases i with
    | zero =>
      obtain rfl := Option.some.inj there
      exact (fails_placed (ofNat first)).both_left.map _
    | succ i =>
      rw [← Nat.add_assoc, Nat.add_right_comm]
      exact (ih there (first + 1)).both_right.map _

theorem list_short {n : Nat} (check : Check α) {values : List Json} (short : values.length < n) :
    Refused (list n check (some (.array values))) := by
  show Refused (Except.map _ _)
  rw [if_pos short]
  exact (both_refused (.inl (refused_complain _))).map _

theorem pair_other (first : Check α) (second : Check β) {value : Option Json}
    (other : ∀ one two, value ≠ some (.array [one, two])) : Refused (pair first second value) := by
  by_cases array : ∃ values, value = some (.array values)
  · obtain ⟨values, rfl⟩ := array
    match values with
    | [] | [_] => exact refused_complain _
    | [one, two] => exact absurd rfl (other one two)
    | one :: two :: three :: more => exact (both_refused (.inl (refused_complain _))).map _
  · exact (array_other (not_exists.mp array)).bind _

theorem members_ok {value : Json} {fields : Fields Check α} {kept : α} (keeps : fields.Keeps value kept) :
    members value fields = .ok kept := by
  induction fields with
  | nil => rfl
  | cons name schema rest ih =>
    obtain ⟨first, others⟩ := keeps
    have here : schema (value.member? name) = .ok kept.1 := first
    rw [members, here, ih others]
    rfl

theorem fails_members {γ : Type} {value : Json} {fields : Fields Check α} {name : Text} {schema : Check γ}
    (declared : fields.Declares name schema) :
    Fails [name] (schema (value.member? name)) (members value fields) := by
  induction declared with
  | here => exact (fails_placed name).both_left
  | later _ ih => exact ih.both_right

end Check

instance : Validation.Lawful where
  text_string t := rfl
  text_other value other := by
    apply Check.wanted_refused
    match value with
    | none | some .null | some (.boolean _) | some (.number _) | some (.array _) | some (.object _) => rfl
    | some (.string t) => exact absurd rfl (other t)
  atLeast_enough n check value t kept enough := Check.guarded_ok _ kept (Nat.not_lt_of_le enough)
  atLeast_short n check value t kept short := Check.guarded_refused _ kept short
  atLeast_fails n check value := Check.fails_guarded check _ _ value
  atMost_enough n check value t kept enough := Check.guarded_ok _ kept (Nat.not_lt_of_le enough)
  atMost_long n check value t kept long := Check.guarded_refused _ kept long
  atMost_fails n check value := Check.fails_guarded check _ _ value
  optional_none check := rfl
  optional_some check json := rfl
  list_array n check values kept each enough := by
    have listed : Check.items check 0 values = .ok kept := Check.items_ok each 0
    show Except.map _ _ = _
    rw [if_neg (Nat.not_lt_of_le enough), listed]
    rfl
  list_fails n check values i item there := by
    have fails := Check.fails_items check there 0
    rw [Nat.zero_add] at fails
    exact fails.both_right.map _
  list_short n check values short := Check.list_short check short
  list_other n check value other := (Check.array_other other).bind _
  pair_array first second one two kept other accepted acceptedToo := by
    have here : first (some one) = .ok kept := accepted
    have there : second (some two) = .ok other := acceptedToo
    show Except.map _ _ = _
    rw [here, there]
    rfl
  pair_first first second one two := (fails_placed (ofNat 0)).both_left.both_right.map _
  pair_second first second one two := (fails_placed (ofNat 1)).both_right.both_right.map _
  pair_other first second value other := Check.pair_other first second other
  object_fields fields members kept keeps := Check.members_ok keeps
  object_fails fields members name check declared := Check.fails_members declared
  object_other fields value other := by
    apply Refused.bind
    apply Check.wanted_refused
    match value with
    | none | some .null | some (.boolean _) | some (.number _) | some (.array _) | some (.string _) => rfl
    | some (.object members) => exact absurd rfl (other members)

end Emend.Schema
