import Emend.Schema
import Mathlib.Data.List.Forall2

/-! What the operations of a validation library are documented to do, and from it which values each operation accepts.
Nothing is said of the wording of an issue, of the order of issues, or of those that a value has beside the first one of
its own. -/

namespace Emend.Schema

open Text Validation

namespace Fields

inductive Declares {Schema : Type → Type} {γ : Type} (name : Text) (schema : Schema γ) :
    {α : Type} → Fields Schema α → Prop where
  | here {β : Type} {rest : Fields Schema β} : Declares name schema (.cons name schema rest)
  | later {α β : Type} {other : Text} {first : Schema α} {rest : Fields Schema β} (declares : Declares name schema rest) :
    Declares name schema (.cons other first rest)

/-- Each declared member of a value is accepted, and these are what is kept of them. -/
def Keeps [Validation] (value : Json) : {α : Type} → Fields Schema α → α → Prop
  | _, .nil, _ => True
  | _, .cons name schema rest, (kept, others) => check schema (value.member? name) = .ok kept ∧ rest.Keeps value others

end Fields

def Refused {α : Type} (checked : Checked α) : Prop := ∃ issues, checked = .error issues ∧ issues ≠ []

/-- When a part is refused then so is the whole, with the issues of the part at its place. -/
def Fails {α β : Type} (place : List Text) (part : Checked α) (whole : Checked β) : Prop :=
  ∀ issues, part = .error issues → ∃ all, whole = .error all ∧ ∀ issue ∈ issues, issue.under place ∈ all

/-- What the operations of a validation library do. Nothing is said of the wording of an issue, of the order of issues
or of those that a value has beside its first one. -/
class Validation.Lawful [Validation] : Prop where
  text_string (t : Text) : check text (some (.string t)) = .ok t
  text_other (value : Option Json) (other : ∀ t, value ≠ some (.string t)) : Refused (check text value)
  atLeast_enough (n : Nat) (schema : Schema Text) (value : Option Json) (t : Text) (kept : check schema value = .ok t)
    (enough : n ≤ t.length) : check (atLeast n schema) value = .ok t
  atLeast_short (n : Nat) (schema : Schema Text) (value : Option Json) (t : Text) (kept : check schema value = .ok t)
    (short : t.length < n) : Refused (check (atLeast n schema) value)
  atLeast_fails (n : Nat) (schema : Schema Text) (value : Option Json) :
    Fails [] (check schema value) (check (atLeast n schema) value)
  atMost_enough (n : Nat) (schema : Schema Text) (value : Option Json) (t : Text) (kept : check schema value = .ok t)
    (enough : t.length ≤ n) : check (atMost n schema) value = .ok t
  atMost_long (n : Nat) (schema : Schema Text) (value : Option Json) (t : Text) (kept : check schema value = .ok t)
    (long : n < t.length) : Refused (check (atMost n schema) value)
  atMost_fails (n : Nat) (schema : Schema Text) (value : Option Json) :
    Fails [] (check schema value) (check (atMost n schema) value)
  optional_none {α : Type} (schema : Schema α) : check (optional schema) none = .ok none
  optional_some {α : Type} (schema : Schema α) (json : Json) :
    check (optional schema) (some json) = (check schema (some json)).map some
  list_array {α : Type} (n : Nat) (schema : Schema α) (items : List Json) (kept : List α)
    (each : List.Forall₂ (fun item one => check schema (some item) = .ok one) items kept) (enough : n ≤ items.length) :
    check (list n schema) (some (.array items)) = .ok kept
  list_fails {α : Type} (n : Nat) (schema : Schema α) (items : List Json) (i : Nat) (item : Json)
    (there : items[i]? = some item) :
    Fails [ofNat i] (check schema (some item)) (check (list n schema) (some (.array items)))
  list_short {α : Type} (n : Nat) (schema : Schema α) (items : List Json) (short : items.length < n) :
    Refused (check (list n schema) (some (.array items)))
  list_other {α : Type} (n : Nat) (schema : Schema α) (value : Option Json) (other : ∀ items, value ≠ some (.array items)) :
    Refused (check (list n schema) value)
  pair_array {α β : Type} (first : Schema α) (second : Schema β) (one two : Json) (kept : α) (other : β)
    (accepted : check first (some one) = .ok kept) (acceptedToo : check second (some two) = .ok other) :
    check (pair first second) (some (.array [one, two])) = .ok (kept, other)
  pair_first {α β : Type} (first : Schema α) (second : Schema β) (one two : Json) :
    Fails [ofNat 0] (check first (some one)) (check (pair first second) (some (.array [one, two])))
  pair_second {α β : Type} (first : Schema α) (second : Schema β) (one two : Json) :
    Fails [ofNat 1] (check second (some two)) (check (pair first second) (some (.array [one, two])))
  pair_other {α β : Type} (first : Schema α) (second : Schema β) (value : Option Json)
    (other : ∀ one two, value ≠ some (.array [one, two])) : Refused (check (pair first second) value)
  object_fields {α : Type} (fields : Fields Schema α) (members : List (Text × Json)) (kept : α)
    (keeps : fields.Keeps (.object members) kept) : check (object fields) (some (.object members)) = .ok kept
  object_fails {α γ : Type} (fields : Fields Schema α) (members : List (Text × Json)) (name : Text) (schema : Schema γ)
    (declared : fields.Declares name schema) :
    Fails [name] (check schema ((Json.object members).member? name)) (check (object fields) (some (.object members)))
  object_other {α : Type} (fields : Fields Schema α) (value : Option Json)
    (other : ∀ members, value ≠ some (.object members)) : Refused (check (object fields) value)

section

variable {α β : Type} {checked : Checked α} {whole : Checked β}

theorem Fails.refused {place : List Text} (fails : Fails place checked whole) (refused : Refused checked) :
    Refused whole := by
  obtain ⟨issues, failed, some⟩ := refused
  obtain ⟨issue, member⟩ := List.exists_mem_of_ne_nil issues some
  obtain ⟨all, failedToo, among⟩ := fails issues failed
  exact ⟨all, failedToo, List.ne_nil_of_mem (among issue member)⟩

/-- A check comes to the one value of which something holds, or is refused as it holds of none. -/
def Settles (Kept : α → Prop) (checked : Checked α) : Prop :=
  (∃ value, checked = .ok value ∧ ∀ other, Kept other ↔ other = value) ∨ Refused checked ∧ ∀ value, ¬ Kept value

namespace Settles

variable {Kept Same : α → Prop}

theorem eq_ok_iff (settles : Settles Kept checked) {value : α} : checked = .ok value ↔ Kept value := by
  rcases settles with ⟨kept, passed, only⟩ | ⟨⟨issues, failed, _⟩, none⟩
  · rw [passed, only, Except.ok.injEq, eq_comm]
  · simp [failed, none]

theorem ne_nil (settles : Settles Kept checked) {issues : List Issue} (failed : checked = .error issues) :
    issues ≠ [] := by
  rcases settles with ⟨kept, passed, _⟩ | ⟨⟨others, failedToo, some⟩, _⟩
  · cases passed.symm.trans failed
  · cases failedToo.symm.trans failed
    exact some

theorem imp (settles : Settles Kept checked) (same : ∀ value, Kept value ↔ Same value) : Settles Same checked := by
  rwa [← (funext fun value => propext (same value) : Kept = Same)]

theorem map (settles : Settles Kept checked) (f : α → β) :
    Settles (fun kept => ∃ value, Kept value ∧ f value = kept) (checked.map f) := by
  rcases settles with ⟨value, kept, only⟩ | ⟨⟨issues, failed, some⟩, none⟩
  · exact .inl ⟨f value, congrArg (Except.map f) kept, fun other => by simp [only, eq_comm]⟩
  · refine .inr ⟨⟨issues, congrArg (Except.map f) failed, some⟩, ?_⟩
    rintro _ ⟨value, held, _⟩
    exact none value held

theorem guarded {whole : Checked α} {good : α → Prop} {place : List Text} (settles : Settles Kept checked)
    (passes : ∀ value, checked = .ok value → good value → whole = .ok value)
    (refuses : ∀ value, checked = .ok value → ¬ good value → Refused whole) (fails : Fails place checked whole) :
    Settles (fun value => Kept value ∧ good value) whole := by
  rcases settles with ⟨value, kept, only⟩ | ⟨refused, none⟩
  · by_cases fine : good value
    · refine .inl ⟨value, passes value kept fine, fun other => ?_⟩
      exact ⟨fun held => (only other).mp held.1, fun same => ⟨(only other).mpr same, same ▸ fine⟩⟩
    · refine .inr ⟨refuses value kept fine, ?_⟩
      rintro other ⟨held, good⟩
      obtain rfl := (only other).mp held
      exact fine good
  · exact .inr ⟨fails.refused refused, fun value held => none value held.1⟩

end Settles

end

section

variable [Validation] {α β : Type} {Form : Option Json → α → Prop} {Other : Option Json → β → Prop}
  {schema : Schema α} {second : Schema β}

def Decides (Form : Option Json → α → Prop) (schema : Schema α) : Prop :=
  ∀ value, Settles (Form value) (check schema value)

inductive Describes : {α : Type} → (Json → α → Prop) → Fields Schema α → Prop where
  | nil : Describes (fun _ _ => True) .nil
  | cons {α β : Type} {Form : Option Json → α → Prop} {Rest : Json → β → Prop} {schema : Schema α}
      {rest : Fields Schema β} (name : Text) (first : Decides Form schema) (others : Describes Rest rest) :
    Describes (fun value kept => Form (value.member? name) kept.1 ∧ Rest value kept.2) (.cons name schema rest)

variable [lawful : Validation.Lawful]

theorem decides_text : Decides (fun value t => value = some (.string t)) text := by
  intro value
  by_cases string : ∃ t, value = some (.string t)
  · obtain ⟨t, rfl⟩ := string
    exact .inl ⟨t, Lawful.text_string t, fun other => by simp [eq_comm]⟩
  · exact .inr ⟨Lawful.text_other value (not_exists.mp string), not_exists.mp string⟩

theorem Decides.atLeast {Form : Option Json → Text → Prop} {schema : Schema Text} (decides : Decides Form schema)
    (n : Nat) : Decides (fun value t => Form value t ∧ n ≤ t.length) (atLeast n schema) := by
  intro value
  exact (decides value).guarded (fun t kept enough => Lawful.atLeast_enough n schema value t kept enough)
    (fun t kept short => Lawful.atLeast_short n schema value t kept (Nat.lt_of_not_le short))
    (Lawful.atLeast_fails n schema value)

theorem Decides.atMost {Form : Option Json → Text → Prop} {schema : Schema Text} (decides : Decides Form schema)
    (n : Nat) : Decides (fun value t => Form value t ∧ t.length ≤ n) (atMost n schema) := by
  intro value
  exact (decides value).guarded (fun t kept enough => Lawful.atMost_enough n schema value t kept enough)
    (fun t kept long => Lawful.atMost_long n schema value t kept (Nat.lt_of_not_le long))
    (Lawful.atMost_fails n schema value)

theorem Decides.optional (decides : Decides Form schema) :
    Decides (fun value kept => value = none ∧ kept = none ∨ ∃ json one, value = some json ∧ Form (some json) one ∧
      kept = some one) (optional schema) := by
  intro value
  cases value with
  | none => exact .inl ⟨none, Lawful.optional_none schema, fun other => by simp⟩
  | some json =>
    have same := Lawful.optional_some schema json
    rcases decides (some json) with ⟨one, kept, only⟩ | ⟨⟨issues, failed, some⟩, none⟩
    · rw [kept] at same
      exact .inl ⟨Option.some one, same, fun other => by simp [only]⟩
    · rw [failed] at same
      exact .inr ⟨⟨issues, same, some⟩, fun other => by simp [none]⟩

omit lawful in
/-- Either all items of a list are kept, each in its place, or one of them is refused. -/
theorem Decides.items (decides : Decides Form schema) (items : List Json) :
    (∃ kept, List.Forall₂ (fun item one => check schema (some item) = .ok one) items kept ∧
        ∀ other, List.Forall₂ (fun item one => Form (some item) one) items other ↔ other = kept) ∨
      (∃ (i : Nat) (item : Json), items[i]? = some item ∧ Refused (check schema (some item))) ∧
        ∀ kept, ¬ List.Forall₂ (fun item one => Form (some item) one) items kept := by
  induction items with
  | nil => exact .inl ⟨[], .nil, fun other => List.forall₂_nil_left_iff⟩
  | cons item items ih =>
    rcases decides (some item) with ⟨one, kept, only⟩ | ⟨refused, none⟩
    · rcases ih with ⟨others, each, onlyToo⟩ | ⟨⟨i, later, there, refused⟩, none⟩
      · refine .inl ⟨one :: others, .cons kept each, fun other => ?_⟩
        constructor
        · rintro (_ | ⟨first, rest⟩)
          rw [(only _).mp first, (onlyToo _).mp rest]
        · rintro rfl
          exact .cons ((only one).mpr rfl) ((onlyToo others).mpr rfl)
      · refine .inr ⟨⟨i + 1, later, there, refused⟩, ?_⟩
        rintro _ (_ | ⟨_, rest⟩)
        exact none _ rest
    · refine .inr ⟨⟨0, item, rfl, refused⟩, ?_⟩
      rintro _ (_ | ⟨first, _⟩)
      exact none _ first

theorem Decides.list (decides : Decides Form schema) (n : Nat) :
    Decides (fun value kept => ∃ items, value = some (.array items) ∧ n ≤ items.length ∧
      List.Forall₂ (fun item one => Form (some item) one) items kept) (list n schema) := by
  intro value
  by_cases array : ∃ items, value = some (.array items)
  · obtain ⟨items, rfl⟩ := array
    by_cases enough : n ≤ items.length
    · rcases decides.items items with ⟨kept, each, only⟩ | ⟨⟨i, item, there, refused⟩, none⟩
      · exact .inl ⟨kept, Lawful.list_array n schema items kept each enough, fun other => by simp [enough, only]⟩
      · exact .inr ⟨(Lawful.list_fails n schema items i item there).refused refused, fun other => by simp [none]⟩
    · exact .inr ⟨Lawful.list_short n schema items (Nat.lt_of_not_le enough), fun other => by simp [enough]⟩
  · refine .inr ⟨Lawful.list_other n schema value (not_exists.mp array), ?_⟩
    rintro other ⟨items, same, _⟩
    exact array ⟨items, same⟩

theorem Decides.pair (decides : Decides Form schema) (decidesToo : Decides Other second) :
    Decides (fun value kept => ∃ one two, value = some (.array [one, two]) ∧ Form (some one) kept.1 ∧
      Other (some two) kept.2) (pair schema second) := by
  intro value
  by_cases array : ∃ one two, value = some (.array [one, two])
  · obtain ⟨one, two, rfl⟩ := array
    rcases decides (some one) with ⟨kept, passed, only⟩ | ⟨refused, none⟩
    · rcases decidesToo (some two) with ⟨other, passedToo, onlyToo⟩ | ⟨refused, none⟩
      · refine .inl ⟨(kept, other), Lawful.pair_array schema second one two kept other passed passedToo, fun both => ?_⟩
        simp [only, onlyToo, Prod.ext_iff]
      · exact .inr ⟨(Lawful.pair_second schema second one two).refused refused, fun both => by simp [none]⟩
    · exact .inr ⟨(Lawful.pair_first schema second one two).refused refused, fun both => by simp [none]⟩
  · refine .inr ⟨Lawful.pair_other schema second value fun one two same => array ⟨one, two, same⟩, ?_⟩
    rintro both ⟨one, two, same, _⟩
    exact array ⟨one, two, same⟩

omit lawful in
theorem Describes.members {α : Type} {Form : Json → α → Prop} {fields : Fields Schema α}
    (describes : Describes Form fields) (value : Json) :
    (∃ kept, fields.Keeps value kept ∧ ∀ other, Form value other ↔ other = kept) ∨
      (∃ (γ : Type) (name : Text) (schema : Schema γ), fields.Declares name schema ∧
        Refused (check schema (value.member? name))) ∧ ∀ kept, ¬ Form value kept := by
  induction describes with
  | nil => exact .inl ⟨(), trivial, fun other => by simp⟩
  | @cons α β _ _ schema rest name first others ih =>
    rcases first (value.member? name) with ⟨one, kept, only⟩ | ⟨refused, none⟩
    · rcases ih with ⟨rest, keeps, onlyToo⟩ | ⟨⟨γ, other, later, declares, refused⟩, none⟩
      · exact .inl ⟨(one, rest), ⟨kept, keeps⟩, fun other => by simp [only, onlyToo, Prod.ext_iff]⟩
      · exact .inr ⟨⟨γ, other, later, .later declares, refused⟩, fun kept held => none kept.2 held.2⟩
    · exact .inr ⟨⟨α, name, schema, .here, refused⟩, fun kept held => none kept.1 held.1⟩

theorem Describes.object {Form : Json → α → Prop} {fields : Fields Schema α} (describes : Describes Form fields) :
    Decides (fun value kept => ∃ members, value = some (.object members) ∧ Form (.object members) kept)
      (object fields) := by
  intro value
  by_cases object : ∃ members, value = some (.object members)
  · obtain ⟨members, rfl⟩ := object
    rcases describes.members (.object members) with ⟨kept, keeps, only⟩ | ⟨⟨γ, name, schema, declared, refused⟩, none⟩
    · exact .inl ⟨kept, Lawful.object_fields fields members kept keeps, fun other => by simp [only]⟩
    · exact .inr ⟨(Lawful.object_fails fields members name schema declared).refused refused, fun other => by simp [none]⟩
  · refine .inr ⟨Lawful.object_other fields value (not_exists.mp object), ?_⟩
    rintro other ⟨members, same, _⟩
    exact object ⟨members, same⟩

end

end Emend.Schema
