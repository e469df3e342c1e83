import Emend.Proofs.PatternInstances
import Emend.Proofs.RuleRewrites

/-! The search of a pattern with regular constraints, place by place. Where an instance starts the node of
the pattern matches, and each match is an instance whose segments are its captures. -/

namespace Emend.Pattern

open Text Template Expression

variable {source : Text} {pattern : Pattern} {tokens : List Token}

/-- A pattern that has a literal unit and nothing but regular constraints. -/
structure Searchable (source : Text) (pattern : Pattern) (tokens : List Token) : Prop where
  compile : Pattern.compile source = .ok pattern
  read : Template.tokens source = .ok tokens
  solid : ∃ u value, .literal value ∈ tokens ∧ u ∈ value ∧ isBlank u = false
  regular : ∀ hole constraint, .hole hole ∈ tokens → hole.constraint = some constraint → Regular pattern constraint

namespace Searchable

variable (searchable : Searchable source pattern tokens)
include searchable

theorem compiled : ∃ groups pieces nodes, Compiled source pattern tokens groups pieces nodes := by
  obtain ⟨others, groups, pieces, nodes, compiled⟩ := compiled_of_compile searchable.compile
  obtain rfl := Except.ok.inj (compiled.read.symm.trans searchable.read)
  exact ⟨groups, pieces, nodes, compiled⟩

theorem segments {text : Array UInt16} {start : Nat} {point : Point} (inside : start ≤ text.size)
    (hit : pattern.expression.node.matchAt text start = some point) :
    ∃ segments final, Segments InLanguage [] (trimOuter tokens) segments final ∧
      Span.units text ⟨start, point.position⟩ = segments.flatten ∧
      (pattern.matchOf text start point).captures = final.filter fun pair => pair.1 != reservedName := by
  obtain ⟨groups, pieces, nodes, compiled⟩ := searchable.compiled
  obtain ⟨segments, final, met, fits, units, recorded⟩ := compiled.segments
    (fun hole inner body member within met point next inText way =>
      ((compiled.matches_holes searchable.regular text member within).sound met point next inText way).2)
    inside hit
  exact ⟨segments, final, fits, units, compiled.captures_eq_filter start fits recorded⟩

theorem captures {text : Text} {found : Match} (member : found ∈ pattern.matchesIn text) :
    ∃ segments final, Segments InLanguage [] (trimOuter tokens) segments final ∧ found.text = segments.flatten ∧
      found.captures = final.filter fun pair => pair.1 != reservedName := by
  obtain ⟨start, point, hit, _, inside, rfl⟩ := mem_matchesFrom member
  exact searchable.segments inside hit

/-- Where an instance starts, the node of the pattern matches. -/
theorem hit {text : Array UInt16} {start stop : Nat} (order : start ≤ stop) (inside : stop ≤ text.size)
    (instance_ : IsInstance tokens (Span.units text ⟨start, stop⟩)) :
    pattern.expression.node.matchAt text start ≠ none := by
  obtain ⟨groups, pieces, nodes, compiled⟩ := searchable.compiled
  obtain ⟨segments, final, fits, units⟩ := instance_
  obtain ⟨last, way⟩ := ways_of_segments compiled.composed
    (fun hole inner body member within met =>
      (compiled.matches_holes searchable.regular text member within).complete met) rfl
    (show Recorded text groups 0 [] (Point.mk start fun _ => none).groups from
      fun _ _ none => nomatch none) fits order inside units
  rw [← compiled.node] at way
  rw [Node.matchAt_eq, Ne, List.head?_eq_none_iff]
  exact List.ne_nil_of_mem way

/-- The search finds exactly the instances. -/
theorem finds : pattern.Finds (IsInstance tokens) where
  sound text found member := by
    obtain ⟨segments, final, fits, units, _⟩ := searchable.captures member
    exact ⟨segments, final, fits, units⟩
  complete text position inside miss := by
    rintro ⟨found, after, cut, instance_⟩
    have size := congrArg List.length cut
    rw [List.length_drop, List.length_append] at size
    have units : Span.units text.toArray ⟨position, position + found.length⟩ = found := by
      rw [Span.units_eq, Nat.add_sub_cancel_left, show text.toArray.toList = text from rfl, cut, List.take_left]
    refine searchable.hit (Nat.le_add_right position found.length) ?_ (units.symm ▸ instance_) miss
    rw [List.size_toArray]
    omega
  moves text position point inside hit := by
    obtain ⟨segments, final, fits, units, _⟩ := @Searchable.segments _ _ _ searchable text.toArray _ _ inside hit
    obtain ⟨u, value, member, among, unblank⟩ := searchable.solid
    by_cases moved : position < point.position
    · exact moved
    · rw [Span.units_of_le _ (Nat.le_of_not_lt moved)] at units
      exact absurd units.symm (fits.solid unblank (solid_mem_trimOuter unblank ⟨value, member, among⟩))

end Searchable

end Emend.Pattern
