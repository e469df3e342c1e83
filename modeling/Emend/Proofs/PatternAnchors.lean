import Emend.Proofs.PatternInstances
import Emend.Proofs.TemplatePrinting

/-! What holds a pattern to a text. A pattern must have literal text, and any unit of it that is not blank stands in
every match. But blanks between two holes are literal text as well, and nothing holds a pattern that has no other. -/

namespace Emend.Pattern

open Text Template Expression

/-- Literal text among some tokens has a unit that is not blank. -/
def Anchors (tokens : List Token) (u : UInt16) : Prop :=
  isBlank u = false ∧ ∃ value, .literal value ∈ tokens ∧ u ∈ value

/-- Wherever the node of a pattern matches, every unit that anchors the pattern has been consumed. -/
theorem Compiled.mem_units {source : Text} {pattern : Pattern} {tokens : List Token} {survey : Survey}
    {pieces : List Lexeme} {nodes : List Node} (compiled : Compiled source pattern tokens survey pieces nodes)
    {u : UInt16} (anchors : Anchors (trimOuter tokens) u) {text : Array UInt16} {start : Nat}
    (inside : start ≤ text.size) {point : Point} (hit : pattern.expression.node.matchAt text start = some point) :
    u ∈ Span.units text ⟨start, point.position⟩ := by
  obtain ⟨segments, final, met, fits, units, _⟩ := @Compiled.segments source pattern tokens survey pieces nodes
    (fun _ _ => True) compiled text (fun _ _ _ _ _ _ _ _ _ _ => trivial) start point inside hit
  rw [units]
  exact fits.mem anchors.1 anchors.2

section Blanks

variable {tokens : List Token}

section

variable {value : Text} (blank : ∀ u ∈ value, isBlank u = true)
include blank

theorem trimStart_blank : trimStart value = [] := List.dropWhile_eq_nil_iff.mpr blank

theorem trimEnd_blank : trimEnd value = [] := by
  rw [trimEnd, List.reverse_eq_nil_iff, List.dropWhile_eq_nil_iff]
  exact fun u member => blank u (List.mem_reverse.mp member)

end

/-- A trim that leaves nothing of literal text changes at most the first token, of which nothing is left. -/
theorem trimFirst_blank {trim : Text → Text} (empties : ∀ value, .literal value ∈ tokens → trim value = []) :
    ∃ edge, trimFirst trim tokens = edge ++ tokens.tail ∧ ∀ value, .literal value ∈ edge → value = [] := by
  cases tokens with
  | nil => exact ⟨[], rfl, fun value member => nomatch member⟩
  | cons first rest =>
    cases first with
    | literal other =>
      refine ⟨[.literal (trim other)], rfl, fun value member => ?_⟩
      rw [Token.literal.inj (List.mem_singleton.mp member), empties other List.mem_cons_self]
    | hole hole => exact ⟨[.hole hole], rfl, fun value member => nomatch List.mem_singleton.mp member⟩

theorem exists_between {token : Token} (member : token ∈ tokens.tail.dropLast) :
    ∃ front one two back, tokens = front ++ one :: token :: two :: back := by
  cases tokens with
  | nil => cases member
  | cons first rest =>
    rw [List.tail_cons] at member
    have occupied : rest ≠ [] := by
      rintro rfl
      cases member
    obtain ⟨before, after, cut⟩ := List.append_of_mem member
    have whole := List.dropLast_append_getLast occupied
    rw [cut] at whole
    obtain ⟨front, one, same⟩ : ∃ front one, first :: before = front ++ [one] :=
      ⟨_, _, (List.dropLast_append_getLast (List.cons_ne_nil first before)).symm⟩
    obtain ⟨two, back, tail⟩ : ∃ two back, after ++ [rest.getLast occupied] = two :: back :=
      List.exists_cons_of_ne_nil (List.append_ne_nil_of_right_ne_nil _ (List.cons_ne_nil _ _))
    refine ⟨front, one, two, back, ?_⟩
    rw [← whole, List.append_assoc, List.cons_append, tail, ← List.cons_append, same, List.append_assoc]
    rfl

section

variable (blank : ∀ value, .literal value ∈ tokens → ∀ u ∈ value, isBlank u = true)
include blank

/-- Where all literal text is blank, what is left of it after trimming is neither the first token nor the last one. -/
theorem mem_inner {value : Text} (member : .literal value ∈ trimOuter tokens) :
    .literal value ∈ tokens.tail.dropLast := by
  obtain ⟨member, kept⟩ := List.mem_filter.mp member
  have occupied : value ≠ [] := fun empty => bne_iff_ne.mp kept (empty ▸ rfl)
  obtain ⟨first, left, firstEmpty⟩ := trimFirst_blank fun other among => trimStart_blank (blank other among)
  have ends : ∀ other, .literal other ∈ tokens.tail.reverse ++ first.reverse → trimEnd other = [] := by
    intro other among
    rcases List.mem_append.mp among with inside | edge
    · exact trimEnd_blank (blank other (List.mem_of_mem_tail (List.mem_reverse.mp inside)))
    · rw [firstEmpty other (List.mem_reverse.mp edge)]
      rfl
  obtain ⟨last, right, lastEmpty⟩ := trimFirst_blank ends
  have outside : .literal value ∉ first.reverse := fun edge => occupied (firstEmpty value (List.mem_reverse.mp edge))
  rw [List.mem_reverse, left, List.reverse_append, right] at member
  have within := (List.mem_append.mp member).resolve_left fun edge => occupied (lastEmpty value edge)
  cases shape : tokens.tail.reverse with
  | nil =>
    rw [shape, List.nil_append] at within
    exact absurd (List.mem_of_mem_tail within) outside
  | cons final others =>
    rw [shape, List.cons_append, List.tail_cons] at within
    rw [List.reverse_eq_cons_iff.mp shape, List.dropLast_concat, List.mem_reverse]
    exact (List.mem_append.mp within).resolve_right outside

theorem between_holes (canonical : Canonical tokens) {value : Text} (member : .literal value ∈ trimOuter tokens) :
    ∃ front one two back, tokens = front ++ .hole one :: .literal value :: .hole two :: back := by
  obtain ⟨front, one, two, back, rfl⟩ := exists_between (mem_inner blank member)
  have apart := List.isChain_iff_forall_rel_of_append_cons_cons.mp canonical.apart
  cases one with
  | literal other => exact absurd ⟨rfl, rfl⟩ (apart rfl)
  | hole one =>
    cases two with
    | literal other => exact absurd ⟨rfl, rfl⟩ (apart (List.append_cons front _ _))
    | hole two => exact ⟨front, one, two, back, rfl⟩

end

end Blanks

/-- A pattern that is accepted is held by a unit of its literal text, or all its literal text is blank and some of it
stands between two holes. Every unit that holds a pattern is in each of its matches, and where there is one, the
pattern does not match the empty text anywhere. -/
theorem compile_anchored {source : Text} {pattern : Pattern} {tokens : List Token}
    (compile : Pattern.compile source = .ok pattern) (read : Template.tokens source = .ok tokens) :
    ((∃ u, Anchors (trimOuter tokens) u) ∨
      (∀ value, .literal value ∈ tokens → ∀ u ∈ value, isBlank u = true) ∧
        ∃ front one value two back, tokens = front ++ .hole one :: .literal value :: .hole two :: back) ∧
    ∀ u, Anchors (trimOuter tokens) u → ∀ text : Text, (∀ found ∈ pattern.matchesIn text, u ∈ found.text) ∧
      ∀ start point, start ≤ text.length → pattern.expression.node.matchAt text.toArray start = some point →
        start < point.position := by
  obtain ⟨others, survey, pieces, nodes, compiled⟩ := compiled_of_compile compile
  obtain rfl := Except.ok.inj (compiled.read.symm.trans read)
  refine ⟨?_, fun u anchors text => ⟨fun found member => ?_, fun start point inside hit => ?_⟩⟩
  · by_cases anchored : ∃ u, Anchors (trimOuter others) u
    · exact .inl anchored
    · have blank : ∀ value, .literal value ∈ others → ∀ u ∈ value, isBlank u = true := by
        intro value member u among
        by_contra solid
        have kept := solid_mem_trimOuter (Bool.eq_false_iff.mpr solid) ⟨value, member, among⟩
        exact anchored ⟨u, Bool.eq_false_iff.mpr solid, kept⟩
      obtain ⟨token, member, literal⟩ := List.any_eq_true.mp compiled.anchored
      cases token with
      | literal value =>
        obtain ⟨front, one, two, back, shape⟩ := between_holes blank (canonical_of_tokens read) member
        exact .inr ⟨blank, front, one, value, two, back, shape⟩
      | hole hole => cases literal
  · obtain ⟨start, point, hit, _, inside, rfl⟩ := mem_matchesFrom member
    exact compiled.mem_units anchors inside hit
  · have member := compiled.mem_units anchors inside hit
    by_contra still
    rw [Span.units_of_le text.toArray (Nat.le_of_not_lt still)] at member
    cases member

theorem compile_anchored_optional :
    ∃ pattern tokens found,
      Pattern.compile (units ":[x~a*] , :[y~b*]") = .ok pattern ∧
      Template.tokens (units ":[x~a*] , :[y~b*]") = .ok tokens ∧
      found ∈ pattern.matchesIn (units "aa,b") ∧ Anchors (trimOuter tokens) comma ∧ comma ∈ found.text ∧
      ∀ start point, start ≤ (units "aa,b").length →
        pattern.expression.node.matchAt (units "aa,b").toArray start = some point → start < point.position := by
  have compiles : (match Pattern.compile (units ":[x~a*] , :[y~b*]") with
      | .ok pattern => decide (pattern.matchesIn (units "aa,b") ≠ [])
      | .error _ => false) = true := by decide +kernel
  have reads : (match Template.tokens (units ":[x~a*] , :[y~b*]") with
      | .ok tokens => decide (.literal (units " , ") ∈ trimOuter tokens)
      | .error _ => false) = true := by decide +kernel
  split at compiles
  · next pattern compile =>
    split at reads
    · next tokens read =>
      have anchors : Anchors (trimOuter tokens) comma :=
        ⟨by decide, units " , ", of_decide_eq_true reads, by decide⟩
      obtain ⟨found, member⟩ := List.exists_mem_of_ne_nil _ (of_decide_eq_true compiles)
      obtain ⟨every, onward⟩ := (compile_anchored compile read).2 comma anchors (units "aa,b")
      exact ⟨pattern, tokens, found, compile, read, member, anchors, every found member, onward⟩
    · cases reads
  · cases compiles

/-- Nothing holds a pattern of two holes and a blank: it matches the empty text, and text without blanks. -/
theorem compile_unanchored :
    ∃ pattern tokens,
      Pattern.compile (units ":[a~x*] :[b~x*]") = .ok pattern ∧
      Template.tokens (units ":[a~x*] :[b~x*]") = .ok tokens ∧
      (¬ ∃ u, Anchors (trimOuter tokens) u) ∧
      (∃ point, pattern.expression.node.matchAt [].toArray 0 = some point ∧ point.position = 0) ∧
      ∃ found ∈ pattern.matchesIn (units "xx"), found.text = units "xx" := by
  have compiles : (match Pattern.compile (units ":[a~x*] :[b~x*]") with
      | .ok pattern =>
        decide ((pattern.expression.node.matchAt [].toArray 0).map Point.position = some 0) &&
          decide (units "xx" ∈ (pattern.matchesIn (units "xx")).map Match.text)
      | .error _ => false) = true := by decide +kernel
  have reads : (match Template.tokens (units ":[a~x*] :[b~x*]") with
      | .ok tokens => decide (trimOuter tokens =
        [.hole ⟨units "a", some (units "x*")⟩, .literal (units " "), .hole ⟨units "b", some (units "x*")⟩])
      | .error _ => false) = true := by decide +kernel
  split at compiles
  · next pattern compile =>
    split at reads
    · next tokens read =>
      rw [Bool.and_eq_true, decide_eq_true_iff, decide_eq_true_iff] at compiles
      obtain ⟨point, hit, place⟩ := Option.map_eq_some_iff.mp compiles.1
      obtain ⟨found, member, text⟩ := List.mem_map.mp compiles.2
      refine ⟨pattern, tokens, compile, read, ?_, ⟨point, hit, place⟩, found, member, text⟩
      rintro ⟨u, solid, value, among, inside⟩
      rw [of_decide_eq_true reads] at among
      obtain rfl : value = units " " := by simpa using among
      obtain rfl := List.mem_singleton.mp (show u ∈ [space] from inside)
      cases solid
    · cases reads
  · cases compiles

end Emend.Pattern
