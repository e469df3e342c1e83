import Emend.Document

/-! The schemas of documents, composed of what a validation library offers. The library is given from outside, and the
schemas hold of any library that does what its operations are documented to do. -/

namespace Emend.Schema

open Text

/-- What is wrong with a value, and where: member names and positions from the root. -/
structure Issue where
  path : List Text
  message : Text
  deriving DecidableEq, Repr

namespace Issue

def line (issue : Issue) : Text :=
  (if issue.path.isEmpty then units "(root)" else join (units ".") issue.path) ++ units ": " ++ issue.message

def under (place : List Text) (issue : Issue) : Issue := ⟨place ++ issue.path, issue.message⟩

end Issue

def issuesMessage (issues : List Issue) : Text := join (units "; ") (issues.map Issue.line)

abbrev Checked (α : Type) := Except (List Issue) α

inductive Fields (Schema : Type → Type) : Type → Type 1 where
  | nil : Fields Schema Unit
  | cons {α β : Type} (name : Text) (schema : Schema α) (rest : Fields Schema β) : Fields Schema (α × β)

/-- A validation library. A schema tells which values are accepted and what is kept of them. -/
class Validation where
  Schema : Type → Type
  text : Schema Text
  /-- Texts of at least so many units, among those of a schema. -/
  atLeast : Nat → Schema Text → Schema Text
  /-- Texts of at most so many units, among those of a schema. -/
  atMost : Nat → Schema Text → Schema Text
  /-- A value that may be missing, though not null. -/
  optional {α : Type} : Schema α → Schema (Option α)
  /-- An array of at least so many items. -/
  list {α : Type} : Nat → Schema α → Schema (List α)
  /-- An array of just two items. -/
  pair {α β : Type} : Schema α → Schema β → Schema (α × β)
  /-- An object, of which no more is kept than the declared members. -/
  object {α : Type} : Fields Schema α → Schema α
  /-- Check a value, or the absence of one. -/
  check {α : Type} : Schema α → Option Json → Checked α

section Documents

open Validation

variable [Validation]

def name : Schema Text := atMost 80 (atLeast 1 text)

abbrev RuleParts := Text × Text × Text × Unit

def ruleSource : Schema RuleParts :=
  object (.cons (units "name") name (.cons (units "pattern") (atLeast 1 text)
    (.cons (units "replacement") text .nil)))

def RuleParts.toRule : RuleParts → RuleSource
  | (name, pattern, replacement, _) => ⟨name, pattern, replacement⟩

def phrase : Schema (Text × Text) := pair (atLeast 1 text) text

abbrev DocumentParts (α : Type) := Text × Option Text × List α × Unit

def document {α : Type} (member : String) (item : Schema α) : Schema (DocumentParts α) :=
  object (.cons (units "name") name (.cons (units "description") (optional text)
    (.cons (units member) (list 1 item) .nil)))

def DocumentParts.toDocument {α β : Type} (make : α → β) : DocumentParts α → Document β
  | (name, description, items, _) => ⟨name, description, items.map make⟩

def checkRules (value : Option Json) : Checked RuleDocument :=
  (check (document "rules" ruleSource) value).map (DocumentParts.toDocument RuleParts.toRule)

def checkPhrases (value : Option Json) : Checked PhraseDocument :=
  (check (document "entries" phrase) value).map (DocumentParts.toDocument fun (key, value) => ⟨key, value⟩)

end Documents

end Emend.Schema
