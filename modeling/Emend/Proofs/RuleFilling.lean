import Emend.Proofs.PatternMatches
import Emend.Rule

/-! Filling in the replacement of a rule. What a rule draws on has been captured in every match of its pattern, so a
rule that has been compiled fails on no text. -/

namespace Emend

open Template

namespace Pattern

theorem mem_seenAfter {seen : List Text} {token : Token} {name : Text} :
    name ∈ seenAfter seen token ↔ name ∈ seen ∨ token.captureName? = some name := by
  rw [seenAfter]
  cases token.captureName? with
  | none => simp
  | some other =>
    simp only
    split
    next old =>
      refine ⟨.inl, ?_⟩
      rintro (member | same)
      · exact member
      · exact Option.some.inj same ▸ List.contains_iff_mem.mp old
    next => simp [eq_comm]

theorem mem_foldl_seenAfter {seen : List Text} {tokens : List Token} {name : Text} :
    name ∈ tokens.foldl seenAfter seen ↔ name ∈ seen ∨ ∃ token ∈ tokens, token.captureName? = some name := by
  induction tokens generalizing seen with
  | nil => simp
  | cons token tokens ih => rw [List.foldl_cons, ih, mem_seenAfter, or_assoc, List.exists_mem_cons_iff]

theorem mem_holesOf_iff {tokens : List Token} {name : Text} :
    name ∈ holesOf tokens ↔ ∃ token ∈ tokens, token.captureName? = some name :=
  mem_foldl_seenAfter.trans (or_iff_right List.not_mem_nil)

theorem captures_isSome {pattern : Pattern} {text : Text} {found : Match} (member : found ∈ pattern.matchesIn text)
    {name : Text} (hole : name ∈ pattern.holes) (unreserved : name ≠ reservedName) :
    (found.captures.lookup name).isSome = true := by
  obtain ⟨start, point, _, _, _, rfl⟩ := mem_matchesFrom member
  rw [List.lookup_isSome_iff]
  exact ⟨_, List.mem_map.mpr ⟨name, List.mem_filter.mpr ⟨hole, bne_iff_ne.mpr unreserved⟩, rfl⟩, BEq.rfl⟩

end Pattern

namespace Replacement

variable {replacement : Replacement} {captures : List (Text × Text)}

theorem mem_holes_iff {name : Text} :
    name ∈ replacement.holes ↔ ∃ token ∈ replacement.tokens, token.captureName? = some name :=
  Pattern.mem_holesOf_iff

theorem renderToken_eq {token : Token}
    (captured : ∀ name, token.captureName? = some name → name = reservedName ∨ (captures.lookup name).isSome = true) :
    renderToken captures token = .ok (fillToken captures token) := by
  cases token with
  | literal value => rfl
  | hole hole =>
    rw [renderToken, fillToken]
    split
    next => rfl
    next named =>
      cases found : captures.lookup hole.name with
      | some value => rfl
      | none =>
        have reserved : hole.name = reservedName := by
          rcases captured hole.name (if_neg named) with reserved | known
          · exact reserved
          · rw [found] at known
            cases known
        simp only [if_pos reserved]

/-- A replacement all of whose holes have been captured is filled in without fail. -/
theorem render_eq (captured : ∀ name ∈ replacement.holes, name = reservedName ∨ (captures.lookup name).isSome = true) :
    replacement.render captures = .ok (replacement.fill captures) := by
  have each : replacement.tokens.mapM (renderToken captures) = .ok (replacement.tokens.map (fillToken captures)) := by
    have own : ∀ token ∈ replacement.tokens, renderToken captures token = .ok (fillToken captures token) :=
      fun token among => renderToken_eq fun name named => captured name (mem_holes_iff.mpr ⟨token, among, named⟩)
    generalize replacement.tokens = tokens at own
    induction tokens with
    | nil => rfl
    | cons token tokens ih =>
      rw [List.mapM_cons, own token List.mem_cons_self, ih fun other among => own other (List.mem_cons_of_mem _ among)]
      rfl
  rw [render, each, fill, List.flatMap_def]
  rfl

end Replacement

namespace Rule

theorem compile_eq {source : RuleSource} {pattern : Pattern} {replacement : Replacement}
    (compile : Pattern.compile source.pattern = .ok pattern)
    (read : Replacement.compile source.replacement = .ok replacement)
    (fits : unknownHoles pattern replacement = []) :
    Rule.compile source = .ok ⟨source.name, pattern, replacement, known_of_unknownHoles_eq_nil fits⟩ := by
  simp only [Rule.compile, compileParts, compile, read, Except.mapError, bind, Except.bind, dif_pos fits]

theorem exists_compile {source : RuleSource} {pattern : Pattern} {tokens : List Token}
    (compile : Pattern.compile source.pattern = .ok pattern) (read : Template.tokens source.replacement = .ok tokens)
    (fits : unknownHoles pattern ⟨source.replacement, tokens⟩ = []) :
    ∃ rule, Rule.compile source = .ok rule ∧ rule.pattern = pattern ∧ rule.replacement.tokens = tokens := by
  have made : Replacement.compile source.replacement = .ok ⟨source.replacement, tokens⟩ := by
    rw [Replacement.compile, read]
    rfl
  exact ⟨_, compile_eq compile made fits, rfl, rfl⟩

end Rule

/-- No match of a rule lacks what its replacement draws on. -/
theorem Rule.render_eq (rule : Rule) {text : Text} {found : Match} (member : found ∈ rule.pattern.matchesIn text) :
    rule.replacement.render found.captures = .ok (rule.replacement.fill found.captures) := by
  apply Replacement.render_eq
  intro name drawn
  by_cases reserved : name = reservedName
  · exact .inl reserved
  · exact .inr (Pattern.captures_isSome member (rule.known name drawn) reserved)

end Emend
