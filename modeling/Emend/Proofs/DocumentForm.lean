import Emend.Proofs.TablePasses
import Emend.Proofs.TraversalLaws

/-! The form that a JSON value must have to be a document, said of the value alone, and the schemas as a decision of that
form for every validation library that is lawful: the values of the form are accepted, of which what is declared is kept,
and every other one has an issue. -/

namespace Emend

open Text

namespace Schema

/-- A text that a document or a rule may have for a name: of 1 to 80 units. -/
def IsName (t : Text) : Prop := 1 ≤ t.length ∧ t.length ≤ 80

/-- A JSON object that writes a rule: with a name, a pattern that is not empty, and a replacement. -/
structure RuleForm (value : Json) (rule : RuleSource) : Prop where
  name : value.member? (units "name") = some (.string rule.name)
  named : IsName rule.name
  pattern : value.member? (units "pattern") = some (.string rule.pattern)
  occupied : rule.pattern ≠ []
  replacement : value.member? (units "replacement") = some (.string rule.replacement)

/-- A JSON array that writes a phrase: two texts, the first one not empty. -/
structure PhraseForm (value : Json) (phrase : Phrase) : Prop where
  pair : value = .array [.string phrase.key, .string phrase.value]
  occupied : phrase.key ≠ []

/-- A JSON object that writes a document: with a name, perhaps a description, and under a member of their own the items,
of which there is at least one. -/
structure DocumentForm {α : Type} (member : String) (Item : Json → α → Prop) (value : Json) (document : Document α) :
    Prop where
  name : value.member? (units "name") = some (.string document.name)
  named : IsName document.name
  description : value.member? (units "description") = document.description.map .string
  items : ∃ values, value.member? (units member) = some (.array values) ∧ values ≠ [] ∧
    List.Forall₂ Item values document.items

/-- The form of what stands somewhere, where something must stand. -/
def Present {α : Type} (Form : Json → α → Prop) (value : Option Json) (kept : α) : Prop :=
  ∃ json, value = some json ∧ Form json kept

theorem exists_members {value inner : Json} {name : Text} (found : value.member? name = some inner) :
    ∃ members, value = .object members := by
  cases value with
  | object members => exact ⟨members, rfl⟩
  | null | boolean | number | string | array => cases found

section

open Validation

variable [Validation] [lawful : Validation.Lawful]

theorem decides_name : Decides (fun value t => value = some (.string t) ∧ IsName t) name := by
  intro value
  apply ((decides_text.atLeast 1).atMost 80 value).imp
  exact fun t => and_assoc

theorem decides_filled : Decides (fun value t => value = some (.string t) ∧ t ≠ []) (atLeast 1 text) := by
  intro value
  apply (decides_text.atLeast 1 value).imp
  exact fun t => and_congr_right fun _ => List.length_pos_iff

theorem decides_optional : Decides (fun value (t : Option Text) => value = t.map .string) (optional text) := by
  intro value
  apply (decides_text.optional value).imp
  intro kept
  cases kept <;> simp

theorem decides_ruleSource : Decides (fun value parts => Present RuleForm value parts.toRule) ruleSource := by
  have described := Describes.cons (units "name") decides_name
    (.cons (units "pattern") decides_filled (.cons (units "replacement") decides_text .nil))
  intro value
  apply (described.object value).imp
  intro parts
  constructor
  · rintro ⟨members, same, ⟨name, named⟩, ⟨pattern, occupied⟩, replacement, _⟩
    exact ⟨_, same, ⟨name, named, pattern, occupied, replacement⟩⟩
  · rintro ⟨json, same, form⟩
    obtain ⟨members, rfl⟩ := exists_members form.name
    exact ⟨members, same, ⟨form.name, form.named⟩, ⟨form.pattern, form.occupied⟩, form.replacement, trivial⟩

theorem decides_phrase : Decides (fun value kept => Present PhraseForm value ⟨kept.1, kept.2⟩) phrase := by
  intro value
  apply (decides_filled.pair decides_text value).imp
  intro kept
  constructor
  · rintro ⟨one, two, rfl, ⟨first, occupied⟩, second⟩
    obtain rfl := Option.some.inj first
    obtain rfl := Option.some.inj second
    exact ⟨_, rfl, rfl, occupied⟩
  · rintro ⟨_, rfl, rfl, occupied⟩
    exact ⟨_, _, rfl, ⟨rfl, occupied⟩, rfl⟩

theorem decides_document {α β : Type} (member : String) {Item : Json → α → Prop} {item : Schema β} {make : β → α}
    (decides : Decides (fun value part => Present Item value (make part)) item) :
    Decides (fun value parts => Present (DocumentForm member Item) value (parts.toDocument make))
      (document member item) := by
  have described := Describes.cons (units "name") decides_name
    (.cons (units "description") decides_optional (.cons (units member) (decides.list 1) .nil))
  have standing (values : List Json) (parts : List β) :
      List.Forall₂ (fun item part => Present Item (some item) (make part)) values parts ↔
        List.Forall₂ Item values (parts.map make) := by
    have present : (fun item part => Present Item (some item) (make part)) = fun item part => Item item (make part) := by
      funext item part
      simp [Present]
    rw [present, List.forall₂_map_right_iff]
  intro value
  apply (described.object value).imp
  intro parts
  constructor
  · rintro ⟨members, same, ⟨name, named⟩, description, ⟨values, listed, enough, each⟩, _⟩
    exact ⟨_, same, ⟨name, named, description, values, listed, List.length_pos_iff.mp enough, (standing _ _).mp each⟩⟩
  · rintro ⟨json, same, form⟩
    obtain ⟨members, rfl⟩ := exists_members form.name
    obtain ⟨values, listed, some, each⟩ := form.items
    exact ⟨members, same, ⟨form.name, form.named⟩, form.description,
      ⟨values, listed, List.length_pos_iff.mpr some, (standing _ _).mpr each⟩, trivial⟩

end
def keeping (declared : List (String × (Json → Json))) (value : Json) : Json :=
  .object (declared.filterMap fun (name, keep) =>
    (value.member? (units name)).map fun inner => (units name, keep inner))

def keepingItems (keep : Json → Json) : Json → Json
  | .array items => .array (items.map keep)
  | other => other

def keptRule : Json → Json := keeping [("name", id), ("pattern", id), ("replacement", id)]

def keptDocument (member : String) (keep : Json → Json) : Json → Json :=
  keeping [("name", id), ("description", id), (member, keepingItems keep)]

section Kept

variable {value : Json} {rule : RuleSource} {phrase : Phrase}

theorem RuleForm.kept (form : RuleForm value rule) : rule.toJson = keptRule value := by
  simp [keptRule, keeping, form.name, form.pattern, form.replacement, RuleSource.toJson, Json.record]

theorem RuleForm.again (form : RuleForm value rule) : RuleForm rule.toJson rule :=
  ⟨rfl, form.named, rfl, form.occupied, rfl⟩

theorem PhraseForm.kept (form : PhraseForm value phrase) : phrase.toJson = value := form.pair.symm

theorem PhraseForm.again (form : PhraseForm value phrase) : PhraseForm phrase.toJson phrase := ⟨rfl, form.occupied⟩

variable {α : Type} {member : String} {Item : Json → α → Prop} {write : α → Json} {keep : Json → Json}
  {document : Document α}

theorem kept_items {values : List Json} {items : List α} (each : List.Forall₂ Item values items)
    (item : ∀ value one, Item value one → write one = keep value) : items.map write = values.map keep := by
  induction each with
  | nil => rfl
  | cons first rest ih => rw [List.map_cons, List.map_cons, ih, item _ _ first]

theorem again_items {values : List Json} {items : List α} (each : List.Forall₂ Item values items)
    (item : ∀ value one, Item value one → Item (write one) one) : List.Forall₂ Item (items.map write) items := by
  induction each with
  | nil => exact .nil
  | cons first rest ih => exact .cons (item _ _ first) ih

theorem occupied_items {values : List Json} {phrases : List Phrase} (each : List.Forall₂ PhraseForm values phrases) :
    ∀ phrase ∈ phrases, phrase.key ≠ [] := by
  induction each with
  | nil => exact List.forall_mem_nil _
  | cons first rest ih => exact List.forall_mem_cons.mpr ⟨first.occupied, ih⟩

theorem DocumentForm.kept (form : DocumentForm member Item value document)
    (item : ∀ value one, Item value one → write one = keep value) :
    document.toJson member write = keptDocument member keep value := by
  obtain ⟨values, listed, _, each⟩ := form.items
  have items := kept_items each item
  have description := form.description
  rw [keptDocument, keeping, Document.toJson]
  cases described : document.description with
  | none =>
    rw [described, Option.map_none] at description
    simp [form.name, description, listed, items, keepingItems, Json.record]
  | some told =>
    rw [described, Option.map_some] at description
    simp [form.name, description, listed, items, keepingItems, Json.record]

/-- What is written of a document has the form of a document, and that of the same one. -/
theorem DocumentForm.again (form : DocumentForm member Item value document)
    (item : ∀ value one, Item value one → Item (write one) one) (unnamed : units member ≠ units "name")
    (undescribed : units member ≠ units "description") :
    DocumentForm member Item (document.toJson member write) document := by
  obtain ⟨values, _, occupied, each⟩ := form.items
  have written : document.items.map write ≠ [] := by
    intro none
    have length := each.length_eq
    rw [List.map_eq_nil_iff.mp none] at length
    exact occupied (List.eq_nil_of_length_eq_zero length)
  -- No member hides another one: a look-up goes past those that stand before it.
  have apart : (units "description" == units "name") = false := by decide
  have first : (units member == units "name") = false := beq_eq_false_iff_ne.mpr unnamed
  have second : (units member == units "description") = false := beq_eq_false_iff_ne.mpr undescribed
  have third : (units "description" == units member) = false := beq_eq_false_iff_ne.mpr undescribed.symm
  refine ⟨rfl, form.named, ?_, document.items.map write, ?_, written, again_items each item⟩
  · rw [Document.toJson]
    cases document.description with
    | none => simp [Json.record, Json.member?, List.lookup_cons, apart, third]
    | some told => simp [Json.record, Json.member?, List.lookup_cons, apart]
  · rw [Document.toJson]
    cases document.description with
    | none => simp [Json.record, Json.member?, List.lookup_cons, first]
    | some told => simp [Json.record, Json.member?, List.lookup_cons, first, second]

end Kept

/-- A check judges documents by their form: it accepts the objects of the form, keeps of them what is declared, keeps
the same when it is given what it has kept, and has an issue with everything else. -/
structure Judges {α : Type} (check : Option Json → Checked (Document α)) (member : String) (Item : Json → α → Prop)
    (write : α → Json) (keep : Json → Json) : Prop where
  accepts : ∀ value document, check (some value) = .ok document ↔ DocumentForm member Item value document
  keeps : ∀ value document, check (some value) = .ok document →
    document.toJson member write = keptDocument member keep value ∧
      check (some (document.toJson member write)) = .ok document
  refuses : ∀ value issues, check (some value) = .error issues → issues ≠ []

section

open Validation

variable [Validation] [lawful : Validation.Lawful]

theorem Decides.judges {α β : Type} {member : String} {Item : Json → α → Prop} {item : Schema β} {make : β → α}
    {write : α → Json} {keep : Json → Json} (decides : Decides (fun value part => Present Item value (make part)) item)
    (onto : Function.Surjective make) (kept : ∀ value one, Item value one → write one = keep value)
    (again : ∀ value one, Item value one → Item (write one) one) (unnamed : units member ≠ units "name")
    (undescribed : units member ≠ units "description") :
    Judges (fun value => (check (document member item) value).map (DocumentParts.toDocument make)) member Item write
      keep := by
  have settles (value : Json) := (decides_document member decides (some value)).map (DocumentParts.toDocument make)
  have accepts (value : Json) (one : Document α) :
      (check (document member item) (some value)).map (DocumentParts.toDocument make) = .ok one ↔
        DocumentForm member Item value one := by
    apply (settles value).eq_ok_iff.trans
    constructor
    · rintro ⟨parts, ⟨_, there, form⟩, rfl⟩
      obtain rfl := Option.some.inj there
      exact form
    · intro form
      obtain ⟨items, same⟩ := onto.list_map one.items
      have made : DocumentParts.toDocument make (one.name, one.description, items, ()) = one := by
        rw [DocumentParts.toDocument, same]
      exact ⟨_, ⟨value, rfl, made ▸ form⟩, made⟩
  refine ⟨accepts, fun value one passed => ?_, fun value issues => (settles value).ne_nil⟩
  have form := (accepts value one).mp passed
  exact ⟨form.kept kept, (accepts _ one).mpr (form.again again unnamed undescribed)⟩

/-- Rules and phrases are accepted exactly in the form of a document, nothing but what is declared is kept of them, and
what is kept is a document again. A table can be made of every document of phrases. -/
theorem check_judges :
    Judges checkRules "rules" RuleForm RuleSource.toJson keptRule ∧
      Judges checkPhrases "entries" PhraseForm Phrase.toJson id ∧
      ∀ value document, checkPhrases (some value) = .ok document → ∃ table, document.table = .ok table := by
  have rules : Judges checkRules "rules" RuleForm RuleSource.toJson keptRule :=
    decides_ruleSource.judges (fun rule => ⟨(rule.name, rule.pattern, rule.replacement, ()), rfl⟩)
      (fun _ _ form => form.kept) (fun _ _ form => form.again) (by decide) (by decide)
  have phrases : Judges checkPhrases "entries" PhraseForm Phrase.toJson id :=
    decides_phrase.judges (fun phrase => ⟨(phrase.key, phrase.value), rfl⟩) (fun _ _ form => form.kept)
      (fun _ _ form => form.again) (by decide) (by decide)
  refine ⟨rules, phrases, ?_⟩
  intro value document passed
  obtain ⟨values, _, _, each⟩ := ((phrases.accepts value document).mp passed).items
  obtain ⟨table, made, _⟩ := PhraseTable.exists_ofEntries (occupied_items each)
  exact ⟨table, made⟩

end

private def noted : Json :=
  .record [("note", .null), ("entries", .array [.array [.string (units "a"), .string (units "b")],
    .array [.string (units "a"), .string []]]), ("name", .string (units "n"))]

private def notedPhrases : PhraseDocument := ⟨units "n", none, [⟨units "a", units "b"⟩, ⟨units "a", []⟩]⟩

private def nameless : Json := .record [("entries", .array []), ("name", .null)]

private def namelessIssues : List Issue :=
  [⟨[units "name"], units "Expected string, received null"⟩,
    ⟨[units "entries"], units "Array must contain at least 1 element(s)"⟩]

/-- By the traversal, two phrases are kept with one key, and the member that is not declared is dropped. -/
theorem check_judges_noted :
    Validation.Lawful ∧ notedPhrases.toJson "entries" Phrase.toJson = keptDocument "entries" id noted ∧
      (∃ table, notedPhrases.table = .ok table) ∧ ¬ DocumentForm "entries" PhraseForm nameless notedPhrases ∧
      namelessIssues ≠ [] := by
  obtain ⟨-, judges, tables⟩ := check_judges
  have passed : checkPhrases (some noted) = .ok notedPhrases := rfl
  have failed : checkPhrases (some nameless) = .error namelessIssues := rfl
  refine ⟨inferInstance, (judges.keeps _ _ passed).1, tables _ _ passed, ?_, judges.refuses _ _ failed⟩
  intro form
  rw [(judges.accepts _ _).mpr form] at failed
  cases failed

end Schema

end Emend
