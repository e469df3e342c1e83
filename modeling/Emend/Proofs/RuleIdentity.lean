import Emend.Proofs.PatternPieces
import Emend.Proofs.RulePass

/-! A template that is read both ways, as what to search for and as what to write. Where nothing of it is lost to one
of the readings, to fill it in from a match gives the match again. -/

namespace Emend

open Text Template

namespace Template

/-- No literal text has a blank, which a pattern would match against any blanks, and each hole captures, and under a
name that is kept. -/
structure Faithful (tokens : List Token) : Prop where
  solid : ∀ value, .literal value ∈ tokens → ∀ u ∈ value, isBlank u = false
  named : ∀ hole, .hole hole ∈ tokens → hole.anonymous = false ∧ hole.name ≠ reservedName

def Token.isFaithful : Token → Bool
  | .literal value => value.all fun u => !isBlank u
  | .hole place => !place.anonymous && place.name != reservedName

theorem all_isFaithful_iff {tokens : List Token} : tokens.all Token.isFaithful = true ↔ Faithful tokens := by
  rw [List.all_eq_true]
  constructor
  · intro each
    exact ⟨fun value member => by simpa [Token.isFaithful] using each _ member,
      fun hole member => by simpa [Token.isFaithful] using each _ member⟩
  · intro faithful token member
    cases token with
    | literal value => simpa [Token.isFaithful] using faithful.solid value member
    | hole hole => simpa [Token.isFaithful] using faithful.named hole member

instance (tokens : List Token) : Decidable (Faithful tokens) := decidable_of_iff _ all_isFaithful_iff

theorem Faithful.tail {token : Token} {tokens : List Token} (faithful : Faithful (token :: tokens)) :
    Faithful tokens where
  solid value member := faithful.solid value (List.mem_cons_of_mem _ member)
  named hole member := faithful.named hole (List.mem_cons_of_mem _ member)

end Template

namespace Pattern

namespace Segments

variable {allowed : Hole → Text → Prop} {bound final : List (Text × Text)} {tokens : List Token} {segments : List Text}

theorem keeps (fits : Segments allowed bound tokens segments final) {name segment : Text}
    (known : bound.lookup name = some segment) : final.lookup name = some segment := by
  induction fits with
  | nil => exact known
  | literal _ _ ih | anonymous _ _ _ ih | again _ _ _ ih => exact ih known
  | first _ _ _ _ ih =>
    apply ih
    rw [List.lookup_append, known]
    rfl

theorem fills (fits : Segments allowed bound tokens segments final) (faithful : Faithful tokens) :
    Replacement.Fills final tokens segments.flatten := by
  induction fits with
  | nil => exact .nil
  | @literal _ _ tokens segments value segment own rest ih =>
    obtain rfl := (literalFits_solid_iff (faithful.solid value List.mem_cons_self)).mp own
    exact .literal segment (ih faithful.tail)
  | anonymous unnamed =>
    rw [(faithful.named _ List.mem_cons_self).1] at unnamed
    cases unnamed
  | first named fresh _ rest ih =>
    have bind := rest.keeps (by rw [List.lookup_append, fresh]; exact List.lookup_cons_self)
    exact .named named bind (ih faithful.tail)
  | again named same rest ih => exact .named named (rest.keeps same) (ih faithful.tail)

end Segments

end Pattern

namespace Replacement

theorem Fills.eq_flatMap {captures : List (Text × Text)} {tokens : List Token} {value : Text}
    (fills : Fills captures tokens value) : value = tokens.flatMap (fillToken captures) := by
  induction fills with
  | nil => rfl
  | literal value _ ih => rw [List.flatMap_cons, ← ih, fillToken]
  | anonymous unnamed _ ih => rw [List.flatMap_cons, ← ih, fillToken, if_pos unnamed, List.nil_append]
  | named named captured _ ih =>
    rw [List.flatMap_cons, ← ih]
    simp only [fillToken, named, captured, Bool.false_eq_true, if_false]

end Replacement

namespace Rule

variable {source : Text} {pattern : Pattern} {replacement : Replacement}

structure Twofold (source : Text) (pattern : Pattern) (replacement : Replacement) : Prop where
  read : Template.tokens source = .ok replacement.tokens
  whole : Pattern.trimOuter replacement.tokens = replacement.tokens
  holes : pattern.holes = replacement.holes
  unreserved : reservedName ∉ pattern.holes

theorem twofold_of_compile (compile : Pattern.compile source = .ok pattern)
    (read : Replacement.compile source = .ok replacement) (faithful : Faithful replacement.tokens) :
    Twofold source pattern replacement := by
  obtain ⟨tokens, survey, pieces, nodes, compiled⟩ := Pattern.compiled_of_compile compile
  rw [Replacement.compile, compiled.read] at read
  obtain rfl := Except.ok.inj read
  have whole : Pattern.trimOuter tokens = tokens :=
    Pattern.trimOuter_eq_self (tokens_occupied compiled.read) faithful.solid
  have holes : pattern.holes = Pattern.holesOf tokens := compiled.holes.trans (congrArg _ whole)
  refine ⟨compiled.read, whole, holes, fun among => ?_⟩
  obtain ⟨token, member, draws⟩ := Pattern.mem_holesOf_iff.mp (holes ▸ among)
  cases token with
  | literal => cases draws
  | hole hole =>
    obtain ⟨named, kept⟩ := faithful.named hole member
    simp only [Token.captureName?, named, Bool.false_eq_true, if_false, Option.some.injEq] at draws
    exact kept draws

theorem fill_self (compile : Pattern.compile source = .ok pattern)
    (read : Replacement.compile source = .ok replacement) (faithful : Faithful replacement.tokens) {text : Text}
    {found : Match} (member : found ∈ pattern.matchesIn text) : replacement.fill found.captures = found.text := by
  have twofold := twofold_of_compile compile read faithful
  obtain ⟨segments, _, fits, units, _⟩ :=
    Pattern.matchesIn_segments compile twofold.read twofold.unreserved text member
  rw [twofold.whole] at fits
  rw [units, (fits.fills faithful).eq_flatMap]
  rfl

/-- A template that has no blanks in its literal text, no anonymous hole and none of the reserved name is filled in from
each match of its own to the units of that match. As a rule from itself to itself it leaves every text as it is, and it
counts the matches. -/
theorem apply_self {name : Text} (compile : Pattern.compile source = .ok pattern)
    (read : Replacement.compile source = .ok replacement) (faithful : Faithful replacement.tokens) :
    (∀ text, ∀ found ∈ pattern.matchesIn text, replacement.render found.captures = .ok found.text) ∧
      ∃ rule, Rule.compile ⟨name, source, source⟩ = .ok rule ∧ rule.pattern = pattern ∧
        rule.replacement = replacement ∧ ∀ text, rule.apply text = ⟨text, (pattern.matchesIn text).length⟩ := by
  have twofold := twofold_of_compile compile read faithful
  have fits : unknownHoles pattern replacement = [] := by
    rw [unknownHoles, ← twofold.holes, List.filter_eq_nil_iff]
    simp
  have made := @compile_eq ⟨name, source, source⟩ _ _ compile read fits
  generalize known_of_unknownHoles_eq_nil fits = known at made
  refine ⟨fun text found member => ?_, _, made, rfl, rfl, fun text => ?_⟩
  · rw [render_eq ⟨name, pattern, replacement, known⟩ member, fill_self compile read faithful member]
  · have same := weave_matchesIn ⟨name, pattern, replacement, known⟩ text
    rw [apply_eq_weave, List.map_congr_left fun found member => fill_self compile read faithful member, same]

/-- A colon that is escaped, units that mean something in a regular expression, a constraint, and a name that occurs
twice. -/
private def quoteSource : Text := units "$\\:(:[x~[a-c]+],:[y],:[x])"

private def quoteText : Text := units "a $:(ab,1,ab) $:(c,d,b)"

theorem apply_self_quoted :
    ∃ pattern replacement, Pattern.compile quoteSource = .ok pattern ∧
      Replacement.compile quoteSource = .ok replacement ∧ Faithful replacement.tokens ∧
      (pattern.matchesIn quoteText).map Match.text = [units "$:(ab,1,ab)"] ∧
      (∀ text, ∀ found ∈ pattern.matchesIn text, replacement.render found.captures = .ok found.text) ∧
      ∃ rule, Rule.compile ⟨units "quote", quoteSource, quoteSource⟩ = .ok rule ∧ rule.pattern = pattern ∧
        rule.replacement = replacement ∧ ∀ text, rule.apply text = ⟨text, (pattern.matchesIn text).length⟩ := by
  have compiles : (match Pattern.compile quoteSource with
      | .ok pattern => decide ((pattern.matchesIn quoteText).map Match.text = [units "$:(ab,1,ab)"])
      | .error _ => false) = true := by decide +kernel
  have reads : (match Replacement.compile quoteSource with
      | .ok replacement => decide (Faithful replacement.tokens)
      | .error _ => false) = true := by decide +kernel
  split at compiles
  · next pattern compile =>
    split at reads
    · next replacement read =>
      have faithful : Faithful replacement.tokens := of_decide_eq_true reads
      exact ⟨pattern, replacement, compile, read, faithful, of_decide_eq_true compiles,
        apply_self compile read faithful⟩
    · cases reads
  · cases compiles

end Rule

end Emend
