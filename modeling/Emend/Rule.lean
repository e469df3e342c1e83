import Emend.Template.Pattern
import Emend.Template.Replacement

/-! A structural rule replaces each match of its pattern with its replacement, filled in from that
match. A rule whose replacement names a hole that its pattern lacks is refused when compiled, so a
rule in hand never fails. -/

namespace Emend

open Text

structure RuleSource where
  name : Text
  pattern : Text
  replacement : Text
  deriving DecidableEq, Repr

/-- A compiled rule, whose replacement draws on captured holes only. -/
structure Rule where
  name : Text
  pattern : Pattern
  replacement : Replacement
  known : ∀ name ∈ replacement.holes, name ∈ pattern.holes

structure Count where
  text : Text
  count : Nat
  deriving DecidableEq, Repr

namespace Rule

inductive Cause where
  | template (defect : Template.Defect)
  | unknownHoles (names : List Text)
  deriving DecidableEq, Repr

structure Defect where
  rule : Text
  cause : Cause
  deriving DecidableEq, Repr

def Cause.message (reading : Expression.Defect → Text) : Cause → Text
  | template defect => defect.message reading
  | unknownHoles names =>
    units "Replacement uses hole" ++ (if names.length = 1 then [] else units "s") ++
      units " not captured by the pattern: " ++
      join (units ", ") (names.map fun name => units "\"" ++ name ++ units "\"") ++ units "."

def Defect.message (reading : Expression.Defect → Text) (defect : Defect) : Text :=
  units "Rule \"" ++ defect.rule ++ units "\": " ++ defect.cause.message reading

def unknownHoles (pattern : Pattern) (replacement : Replacement) : List Text :=
  replacement.holes.filter fun name => !pattern.holes.contains name

theorem known_of_unknownHoles_eq_nil {pattern : Pattern} {replacement : Replacement}
    (none_unknown : unknownHoles pattern replacement = []) :
    ∀ name ∈ replacement.holes, name ∈ pattern.holes := by
  simpa [unknownHoles, List.filter_eq_nil_iff] using none_unknown

def compileParts (source : RuleSource) : Except Cause Rule := do
  let pattern ← (Pattern.compile source.pattern).mapError .template
  let replacement ← (Replacement.compile source.replacement).mapError .template
  if fits : unknownHoles pattern replacement = [] then
    .ok ⟨source.name, pattern, replacement, known_of_unknownHoles_eq_nil fits⟩
  else .error (.unknownHoles (unknownHoles pattern replacement))

def compile (source : RuleSource) : Except Defect Rule :=
  (compileParts source).mapError (⟨source.name, ·⟩)

/-- A text whose first unit stands at an offset, each match replaced. The matches are in order and
do not overlap. -/
def replaceMatches (rule : Rule) (offset : Nat) (text : Text) : List Match → Text
  | [] => text
  | found :: rest =>
    text.take (found.start - offset) ++ rule.replacement.fill found.captures ++
      rule.replaceMatches found.stop (text.drop (found.stop - offset)) rest

def apply (rule : Rule) (text : Text) : Count :=
  let found := rule.pattern.matchesIn text
  ⟨rule.replaceMatches 0 text found, found.length⟩

/-- Apply rules in order, each to the whole output of the one before it. -/
def applyAll (rules : List Rule) (text : Text) : Count :=
  rules.foldl (fun current rule =>
    let next := rule.apply current.text
    ⟨next.text, current.count + next.count⟩) ⟨text, 0⟩

end Rule

end Emend
