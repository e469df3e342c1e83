import Emend.Phrase

/-! A plan is what one run does to a text: all structural rules first, then each phrase table on
the whole output of the one before. -/

namespace Emend

structure Plan where
  rules : List Rule
  tables : List PhraseTable

structure Revision where
  text : Text
  changed : Bool
  structural : Nat
  phrases : Nat
  deriving DecidableEq, Repr

namespace Plan

def applyTables (tables : List PhraseTable) (text : Text) : Count :=
  tables.foldl (fun current table =>
    let next := table.apply current.text
    ⟨next.text, current.count + next.count⟩) ⟨text, 0⟩

def revise (plan : Plan) (text : Text) : Revision :=
  let structural := Rule.applyAll plan.rules text
  let lexical := applyTables plan.tables structural.text
  ⟨lexical.text, lexical.text != text, structural.count, lexical.count⟩

/-- The revisions of that many runs, each on the text of the one before it. -/
def revisions (plan : Plan) (text : Text) : Nat → List Revision
  | 0 => []
  | count + 1 =>
    let first := plan.revise text
    first :: plan.revisions first.text count

end Plan

/-- A text that no rule and no entry applied to. -/
def Revision.untouched (revision : Revision) : Bool :=
  revision.structural == 0 && revision.phrases == 0

end Emend
