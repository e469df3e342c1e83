import Emend.Proofs.PatternInstances
import Emend.Proofs.RuleFilling
import Emend.Proofs.RuleRewrites
import Mathlib.Data.List.Forall2

/-! What one rule does to one text. The matches cut the text into gaps and pieces; the gaps stay as they are, and each
piece gives way to the replacement with the texts of its own holes. No match is passed over: a place from which the
regular expression would match something lies in one of them. -/

namespace Emend

open Text Template Expression

/-- Gaps with pieces between them, a gap first and a gap last. -/
def weave : List Text → List Text → Text
  | gap :: gaps, piece :: pieces => gap ++ (piece ++ weave gaps pieces)
  | gaps, _ => gaps.flatten

theorem Text.slice_append_drop (t : Text) {start stop : Nat} (order : start ≤ stop) :
    slice t start stop ++ t.drop stop = t.drop start := by
  rw [slice, ← Nat.add_sub_cancel' order, Nat.add_sub_cancel_left, ← List.drop_drop, List.take_append_drop]

theorem Text.take_append_slice (t : Text) {start stop : Nat} (order : start ≤ stop) :
    t.take start ++ slice t start stop = t.take stop := by
  rw [slice, ← List.take_add, Nat.add_sub_cancel' order]

/-- The parts of a text from an offset on that lie between some matches. -/
def Match.gaps (text : Text) : Nat → List Match → List Text
  | offset, [] => [text.drop offset]
  | offset, found :: rest => slice text offset found.start :: gaps text found.stop rest

/-- Matches that come one after the other, each with its own units. -/
structure Match.Ordered (text : Text) (offset : Nat) (matches_ : List Match) : Prop where
  starts : ∀ found ∈ matches_, offset ≤ found.start
  apart : matches_.Pairwise fun one next => one.stop ≤ next.start
  onward : ∀ found ∈ matches_, found.start ≤ found.stop
  units : ∀ found ∈ matches_, found.text = slice text found.start found.stop

namespace Match

variable {text : Text} {offset : Nat} {found : Match} {rest : List Match}

theorem length_gaps (text : Text) (offset : Nat) (matches_ : List Match) :
    (gaps text offset matches_).length = matches_.length + 1 := by
  induction matches_ generalizing offset with
  | nil => rfl
  | cons found rest ih => rw [gaps, List.length_cons, List.length_cons, ih]

theorem Ordered.tail (ordered : Ordered text offset (found :: rest)) : Ordered text found.stop rest where
  starts _ member := List.rel_of_pairwise_cons ordered.apart member
  apart := ordered.apart.of_cons
  onward := (List.forall_mem_cons.mp ordered.onward).2
  units := (List.forall_mem_cons.mp ordered.units).2

/-- The text is its gaps with the matches between them. -/
theorem Ordered.weave_gaps {matches_ : List Match} (ordered : Ordered text offset matches_) :
    weave (gaps text offset matches_) (matches_.map Match.text) = text.drop offset := by
  induction matches_ generalizing offset with
  | nil => exact List.append_nil _
  | cons found rest ih =>
    rw [gaps, List.map_cons, weave, ih ordered.tail, ordered.units found List.mem_cons_self,
      slice_append_drop text (ordered.onward found List.mem_cons_self),
      slice_append_drop text (ordered.starts found List.mem_cons_self)]

/-- The text of a rule is the same gaps with the filled replacements between them. -/
theorem Ordered.replaceMatches (rule : Rule) {matches_ : List Match} (ordered : Ordered text offset matches_) :
    rule.replaceMatches offset (text.drop offset) matches_ =
      weave (gaps text offset matches_) (matches_.map fun found => rule.replacement.fill found.captures) := by
  induction matches_ generalizing offset with
  | nil => exact (List.append_nil _).symm
  | cons found rest ih =>
    have before := ordered.starts found List.mem_cons_self
    have within := ordered.onward found List.mem_cons_self
    have left : (text.drop offset).drop (found.stop - offset) = text.drop found.stop := by
      rw [List.drop_drop, show offset + (found.stop - offset) = found.stop by omega]
    rw [Rule.replaceMatches, left, ih ordered.tail, gaps, List.map_cons, weave, List.append_assoc]
    rfl

end Match

namespace Pattern

/-- A match of a pattern in a text: from its start on, the regular expression matches its units, of which there is at
least one, and for each hole it has what the group of the hole has captured. -/
structure Matched (pattern : Pattern) (text : Text) (found : Match) : Prop where
  occupied : found.text ≠ []
  order : found.start < found.stop
  inside : found.stop ≤ text.length
  units : found.text = slice text found.start found.stop
  hit : ∃ point, pattern.expression.node.matchAt text.toArray found.start = some point ∧
    point.position = found.stop ∧ ∀ name ∈ pattern.holes, ∃ segment,
      pattern.expression.capture? text.toArray point name = some segment ∧ found.captures.lookup name = some segment

/-- All matches of a pattern in a text, from left to right: they do not overlap, and where the regular expression would
match at least one unit, there is a match already. -/
structure AllMatches (pattern : Pattern) (text : Text) (matches_ : List Match) : Prop where
  each : ∀ found ∈ matches_, pattern.Matched text found
  apart : matches_.Pairwise fun one next => one.stop ≤ next.start
  thorough : ∀ position ≤ text.length, ∀ point,
    pattern.expression.node.matchAt text.toArray position = some point → position < point.position →
      ∃ found ∈ matches_, found.start ≤ position ∧ position < found.stop

section

variable {pattern : Pattern}

theorem matchesFrom_apart (text : Array UInt16) (position : Nat) :
    (pattern.matchesFrom text position).Pairwise fun one next => one.stop ≤ next.start := by
  induction position using matchesFrom.induct pattern text with
  | case1 position beyond =>
    rw [matchesFrom_beyond beyond]
    exact .nil
  | case2 position inside miss ih => rwa [matchesFrom_miss inside miss]
  | case3 position inside point hit moved ih =>
    rw [matchesFrom_hit inside hit moved]
    exact .cons (fun later member => (order_of_mem_matchesFrom member).1) ih
  | case4 position inside point hit still ih => rwa [matchesFrom_empty inside hit still]

theorem ordered_matchesFrom (text : Text) (position : Nat) :
    Match.Ordered text position (pattern.matchesFrom text.toArray position) where
  starts found member := (order_of_mem_matchesFrom member).1
  apart := matchesFrom_apart text.toArray position
  onward found member := Nat.le_of_lt (order_of_mem_matchesFrom member).2
  units found member := by
    obtain ⟨start, point, _, _, _, rfl⟩ := mem_matchesFrom member
    exact Span.units_eq text.toArray start point.position

theorem occupied_of_mem {text : Text} {found : Match} (member : found ∈ pattern.matchesIn text) :
    found.stop ≤ text.length ∧ found.text ≠ [] := by
  obtain ⟨start, point, hit, moved, begins, rfl⟩ := mem_matchesFrom member
  have way : point ∈ pattern.expression.node.ways text.toArray .forward ⟨start, fun _ => none⟩ := by
    rw [Node.matchAt_eq] at hit
    exact List.mem_of_mem_head? hit
  have inside : point.position ≤ text.length := (Node.ways_onward way).inside begins
  have size := Span.length_units text.toArray start inside
  exact ⟨inside, List.ne_nil_of_length_pos (size ▸ Nat.sub_pos_of_lt moved)⟩

theorem Compiled.captured {source : Text} {tokens : List Token} {survey : Survey} {pieces : List Lexeme}
    {nodes : List Node} (compiled : Compiled source pattern tokens survey pieces nodes)
    (unreserved : reservedName ∉ pattern.holes) {text : Array UInt16} {start : Nat} {point : Point}
    (inside : start ≤ text.size) (hit : pattern.expression.node.matchAt text start = some point) :
    ∀ name ∈ pattern.holes, ∃ segment, pattern.expression.capture? text point name = some segment ∧
      (pattern.matchOf text start point).captures.lookup name = some segment := by
  obtain ⟨segments, final, met, fits, _, recorded⟩ := @Compiled.segments _ _ _ _ _ _ (fun _ _ => True) compiled _
    (fun _ _ _ _ _ _ _ _ _ _ => trivial) _ _ inside hit
  intro name among
  rw [← compiled.names_eq_holes fits] at among
  obtain ⟨segment, found⟩ := exists_lookup_of_mem among
  rw [compiled.captures_eq unreserved start fits recorded]
  exact ⟨segment, capture?_of_recorded compiled.names recorded found, found⟩

theorem allMatches_matchesIn {source : Text} (compile : Pattern.compile source = .ok pattern)
    (unreserved : reservedName ∉ pattern.holes) (text : Text) : pattern.AllMatches text (pattern.matchesIn text) where
  each found member := by
    obtain ⟨tokens, survey, pieces, nodes, compiled⟩ := compiled_of_compile compile
    have units := (ordered_matchesFrom text 0).units found member
    obtain ⟨inside, occupied⟩ := occupied_of_mem member
    obtain ⟨start, point, hit, moved, begins, rfl⟩ := mem_matchesFrom member
    exact ⟨occupied, moved, inside, units, point, hit, rfl, compiled.captured unreserved begins hit⟩
  apart := matchesFrom_apart text.toArray 0
  thorough position inside point hit moved := covered_of_moved (Nat.zero_le position) inside hit moved

end

end Pattern

namespace Replacement

/-- What tokens are filled in to: literal text as it stands, each named hole with what its name has captured, and each
anonymous one with nothing. -/
inductive Fills (captures : List (Text × Text)) : List Token → Text → Prop where
  | nil : Fills captures [] []
  | literal {tokens : List Token} {rest : Text} (value : Text) (later : Fills captures tokens rest) :
      Fills captures (.literal value :: tokens) (value ++ rest)
  | anonymous {hole : Hole} {tokens : List Token} {rest : Text} (unnamed : hole.anonymous = true)
      (later : Fills captures tokens rest) : Fills captures (.hole hole :: tokens) rest
  | named {hole : Hole} {segment : Text} {tokens : List Token} {rest : Text} (named : hole.anonymous = false)
      (captured : captures.lookup hole.name = some segment) (later : Fills captures tokens rest) :
      Fills captures (.hole hole :: tokens) (segment ++ rest)

theorem fills_fill {captures : List (Text × Text)} {tokens : List Token}
    (captured : ∀ name, (∃ token ∈ tokens, token.captureName? = some name) →
      (captures.lookup name).isSome = true) : Fills captures tokens (tokens.flatMap (fillToken captures)) := by
  induction tokens with
  | nil => exact .nil
  | cons token tokens ih =>
    have later := ih fun name ⟨other, among, draws⟩ => captured name ⟨other, List.mem_cons_of_mem _ among, draws⟩
    rw [List.flatMap_cons]
    cases token with
    | literal value => exact .literal value later
    | hole hole =>
      cases named : hole.anonymous with
      | true =>
        rw [fillToken, if_pos named]
        exact .anonymous named later
      | false =>
        have draws : (Token.hole hole).captureName? = some hole.name := by simp [Token.captureName?, named]
        obtain ⟨segment, found⟩ := Option.isSome_iff_exists.mp (captured hole.name ⟨_, List.mem_cons_self, draws⟩)
        simp only [fillToken, named, found, Bool.false_eq_true, if_false]
        exact .named named found later

end Replacement

namespace Rule

theorem parts_of_compile {source : RuleSource} {rule : Rule} (compile : Rule.compile source = .ok rule) :
    Pattern.compile source.pattern = .ok rule.pattern ∧
      Template.tokens source.replacement = .ok rule.replacement.tokens := by
  have parts : compileParts source = .ok rule := by
    cases made : compileParts source with
    | error cause =>
      rw [Rule.compile, made] at compile
      cases compile
    | ok other =>
      rw [Rule.compile, made] at compile
      exact congrArg Except.ok (Except.ok.inj compile)
  rw [compileParts, Replacement.compile] at parts
  cases pattern : Pattern.compile source.pattern with
  | error defect =>
    rw [pattern] at parts
    cases parts
  | ok pattern =>
    cases tokens : Template.tokens source.replacement with
    | error defect =>
      rw [pattern, tokens] at parts
      cases parts
    | ok tokens =>
      simp only [pattern, tokens, Except.mapError, bind, Except.bind, pure, Except.pure] at parts
      split at parts
      · cases parts
        exact ⟨rfl, rfl⟩
      · cases parts

variable (rule : Rule) (text : Text)

/-- A rule keeps the gaps between its matches, which are those that the text has. -/
theorem apply_eq_weave : rule.apply text =
    ⟨weave (Match.gaps text 0 (rule.pattern.matchesIn text))
      ((rule.pattern.matchesIn text).map fun found => rule.replacement.fill found.captures),
      (rule.pattern.matchesIn text).length⟩ :=
  congrArg (Count.mk · _) ((Pattern.ordered_matchesFrom text 0).replaceMatches rule)

theorem weave_matchesIn : weave (Match.gaps text 0 (rule.pattern.matchesIn text))
    ((rule.pattern.matchesIn text).map Match.text) = text :=
  (Pattern.ordered_matchesFrom text 0).weave_gaps

variable {rule text}

theorem fills_fill (unreserved : reservedName ∉ rule.pattern.holes) {found : Match}
    (member : found ∈ rule.pattern.matchesIn text) :
    Replacement.Fills found.captures rule.replacement.tokens (rule.replacement.fill found.captures) := by
  apply Replacement.fills_fill
  intro name drawn
  have hole := rule.known name (Replacement.mem_holes_iff.mpr drawn)
  exact Pattern.captures_isSome member hole fun same => unreserved (same ▸ hole)

/-- What a rule that compiles makes of a text: the text is its gaps with the matches between them, the new text is the
same gaps with what is written for the matches, and as many matches are counted. What is written for a match is the
replacement with the texts that the holes have captured, and to write it never fails. That the regular expression may
match nothing at some places makes no difference. -/
theorem apply_weaves {source : RuleSource} (compile : Rule.compile source = .ok rule)
    (unreserved : reservedName ∉ rule.pattern.holes) (text : Text) :
    ∃ tokens written,
      Pattern.compile source.pattern = .ok rule.pattern ∧ Template.tokens source.replacement = .ok tokens ∧
      rule.pattern.AllMatches text (rule.pattern.matchesIn text) ∧
      (Match.gaps text 0 (rule.pattern.matchesIn text)).length = (rule.pattern.matchesIn text).length + 1 ∧
      weave (Match.gaps text 0 (rule.pattern.matchesIn text)) ((rule.pattern.matchesIn text).map Match.text) = text ∧
      rule.apply text = ⟨weave (Match.gaps text 0 (rule.pattern.matchesIn text)) written,
        (rule.pattern.matchesIn text).length⟩ ∧
      List.Forall₂ (fun found value => rule.replacement.render found.captures = .ok value ∧
        Replacement.Fills found.captures tokens value) (rule.pattern.matchesIn text) written := by
  obtain ⟨pattern, tokens⟩ := parts_of_compile compile
  refine ⟨_, _, pattern, tokens, Pattern.allMatches_matchesIn pattern unreserved text, Match.length_gaps _ _ _,
    weave_matchesIn rule text, apply_eq_weave rule text, ?_⟩
  rw [List.forall₂_map_right_iff, List.forall₂_same]
  exact fun found member => ⟨render_eq rule member, fills_fill unreserved member⟩

private def swapSource : RuleSource := ⟨units "swap", units ":[x~a*] :[y~b*]", units "<:[y]:[_]:[x]>"⟩

/-- A pattern that matches nothing before each letter it does not know. -/
theorem apply_weaves_optional :
    ∃ rule tokens written, Rule.compile swapSource = .ok rule ∧ reservedName ∉ rule.pattern.holes ∧
      (rule.pattern.expression.node.matchAt (units "ca bbc").toArray 0).map Point.position = some 0 ∧
      rule.apply (units "ca bbc") = ⟨units "c<bba>c", 1⟩ ∧
      Pattern.compile swapSource.pattern = .ok rule.pattern ∧ Template.tokens swapSource.replacement = .ok tokens ∧
      rule.pattern.AllMatches (units "ca bbc") (rule.pattern.matchesIn (units "ca bbc")) ∧
      (Match.gaps (units "ca bbc") 0 (rule.pattern.matchesIn (units "ca bbc"))).length =
        (rule.pattern.matchesIn (units "ca bbc")).length + 1 ∧
      weave (Match.gaps (units "ca bbc") 0 (rule.pattern.matchesIn (units "ca bbc")))
        ((rule.pattern.matchesIn (units "ca bbc")).map Match.text) = units "ca bbc" ∧
      rule.apply (units "ca bbc") =
        ⟨weave (Match.gaps (units "ca bbc") 0 (rule.pattern.matchesIn (units "ca bbc"))) written,
          (rule.pattern.matchesIn (units "ca bbc")).length⟩ ∧
      List.Forall₂ (fun found value => rule.replacement.render found.captures = .ok value ∧
        Replacement.Fills found.captures tokens value) (rule.pattern.matchesIn (units "ca bbc")) written := by
  have compiles : (match Rule.compile swapSource with
      | .ok rule => decide (reservedName ∉ rule.pattern.holes) &&
        decide ((rule.pattern.expression.node.matchAt (units "ca bbc").toArray 0).map Point.position = some 0) &&
        decide (rule.apply (units "ca bbc") = ⟨units "c<bba>c", 1⟩)
      | .error _ => false) = true := by decide +kernel
  split at compiles
  · next rule compile =>
    simp only [Bool.and_eq_true, decide_eq_true_eq] at compiles
    obtain ⟨⟨unreserved, nothing⟩, swapped⟩ := compiles
    obtain ⟨tokens, written, facts⟩ := apply_weaves compile unreserved (units "ca bbc")
    exact ⟨rule, tokens, written, compile, unreserved, nothing, swapped, facts⟩
  · cases compiles

end Rule

end Emend
