import Emend.Json.Basic
import Emend.Phrase

/-! Documents hold the rules or the phrases of one named source. -/

namespace Emend

inductive SourceKind where
  | rules
  | phrases
  deriving DecidableEq, Repr

namespace SourceKind

def name : SourceKind → Text
  | rules => units "rules"
  | phrases => units "phrases"

def label : SourceKind → Text
  | rules => units "rule set"
  | phrases => units "phrase table"

end SourceKind

/-- A named list of items with an optional description. -/
structure Document (α : Type) where
  name : Text
  description : Option Text
  items : List α
  deriving DecidableEq, Repr

abbrev RuleDocument := Document RuleSource

abbrev PhraseDocument := Document Phrase

namespace Document

/-- The compiled rules of a document. Each is known by the name of the document and its own. -/
def compileRules (document : RuleDocument) : Except Rule.Defect (List Rule) :=
  document.items.mapM fun rule =>
    Rule.compile { rule with name := document.name ++ units "/" ++ rule.name }

def table (document : PhraseDocument) : Except PhraseTable.Defect PhraseTable :=
  PhraseTable.ofEntries document.items

def toJson {α : Type} (itemsName : String) (item : α → Json) (document : Document α) : Json :=
  .record ([("name", .string document.name)] ++
    (match document.description with
      | none => []
      | some description => [("description", .string description)]) ++
    [(itemsName, .array (document.items.map item))])

end Document

def RuleSource.toJson (rule : RuleSource) : Json :=
  .record [("name", .string rule.name), ("pattern", .string rule.pattern),
    ("replacement", .string rule.replacement)]

/-- A phrase is written as a pair, so that the order of phrases is an order of array items. -/
def Phrase.toJson (phrase : Phrase) : Json := .array [.string phrase.key, .string phrase.value]

end Emend
