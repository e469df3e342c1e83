import Emend.Proofs.PatternParse
import Emend.Proofs.PhraseSeparators
import Emend.Proofs.RuleIdentity
import Emend.Proofs.TemplatePrinting
import Mathlib.Data.Bool.AllAny

/-! Rules and phrases on literal text. A template that is nothing but escaped text stands for that text, so that the
rule of two such templates and a table of one phrase search for the same and write the same. The rule goes over the
whole text and the table line by line, but a key without blanks never reaches over the end of a line. -/

namespace Emend

open Text Template Expression

namespace Template

/-- An escaped text has no holes, and it is filled in to the text. -/
theorem exists_tokens_escaped (t : Text) : ∃ tokens, Template.tokens (escaped t) = .ok tokens ∧
    Replacement.holes ⟨escaped t, tokens⟩ = [] ∧ ∀ captures, Replacement.fill ⟨escaped t, tokens⟩ captures = t := by
  by_cases empty : t = []
  · subst empty
    exact ⟨[], by rw [Template.tokens, escaped, List.flatMap_nil, tokensFrom], rfl, fun _ => rfl⟩
  · exact ⟨[.literal t], tokens_escaped empty, rfl, fun _ => List.append_nil t⟩

end Template

namespace Pattern

section

variable {key : Text} (occupied : key ≠ []) (solid : ∀ u ∈ key, isBlank u = false)
include occupied solid

theorem trimOuter_literal : trimOuter [.literal key] = [.literal key] := by
  apply trimOuter_eq_self
  · simpa using occupied.symm
  · intro value member
    obtain rfl := Token.literal.inj (List.mem_singleton.mp member)
    exact solid

theorem isInstance_literal_iff {t : Text} : IsInstance [.literal key] t ↔ t = key := by
  simp only [IsInstance, trimOuter_literal occupied solid, segments_literal_iff, segments_nil_iff,
    literalFits_solid_iff solid]
  constructor
  · rintro ⟨_, _, ⟨_, _, rfl, rfl, rfl, rfl⟩, rfl⟩
    simp
  · rintro rfl
    exact ⟨[t], [], ⟨t, [], rfl, rfl, rfl, rfl⟩, by simp⟩

theorem exists_finds_literal : ∃ pattern, Pattern.compile (escaped key) = .ok pattern ∧ pattern.Finds (· = key) := by
  have read := tokens_escaped occupied
  have plain : ∀ hole, .hole hole ∉ [Token.literal key] := fun hole member => nomatch List.mem_singleton.mp member
  obtain ⟨pattern, compile, _⟩ := exists_compile read (by rw [trimOuter_literal occupied solid]; rfl)
    fun hole _ member => absurd member (plain hole)
  obtain ⟨u, rest, shape⟩ := List.exists_cons_of_ne_nil occupied
  have among : u ∈ key := shape ▸ List.mem_cons_self
  have searchable : Searchable (escaped key) pattern [.literal key] :=
    ⟨compile, read, ⟨u, key, List.mem_cons_self, among, solid u among⟩, fun hole _ member => absurd member (plain hole)⟩
  have same : IsInstance [.literal key] = (· = key) := funext fun t => propext (isInstance_literal_iff occupied solid)
  exact ⟨pattern, compile, same ▸ searchable.finds⟩

end

end Pattern

namespace Match

theorem gaps_copy {text : Text} {offset : Nat} (short : offset < text.length) {matches_ : List Match}
    (later : ∀ found ∈ matches_, offset < found.start) :
    gaps text offset matches_ = copyInto text[offset] (gaps text (offset + 1) matches_) := by
  cases matches_ with
  | nil => rw [gaps, gaps, copyInto, List.drop_eq_getElem_cons short]
  | cons found rest =>
    have after := later found List.mem_cons_self
    rw [gaps, gaps, copyInto, slice, slice, List.drop_eq_getElem_cons short,
      show found.start - offset = found.start - (offset + 1) + 1 by omega, List.take_succ_cons]

end Match

/-- A pattern that finds a key leaves the gaps that a pass over the text leaves. -/
theorem Pattern.Finds.gaps_eq {pattern : Pattern} {key : Text} (finds : pattern.Finds (· = key)) (occupied : key ≠ [])
    (text : Text) {position : Nat} (sound : ∀ found ∈ pattern.matchesFrom text.toArray position, found.text = key) :
    Match.gaps text position (pattern.matchesFrom text.toArray position) = gaps key 0 (text.drop position) := by
  -- The cases are those of the search: the end, no match here, a match, and an empty match, which cannot be.
  induction position using Pattern.matchesFrom.induct pattern text.toArray with
  | case1 position beyond =>
    have done : text.drop position = [] := List.drop_eq_nil_of_le (Nat.le_of_lt (by simpa using beyond))
    rw [matchesFrom_beyond beyond, Match.gaps, done, gaps]
  | case2 position inside miss ih =>
    rw [matchesFrom_miss inside miss] at sound ⊢
    have within : position ≤ text.length := by simpa using inside
    rcases Nat.lt_or_eq_of_le within with short | rfl
    · have none : ¬ key <+: text.drop position := by
        rintro ⟨after, cut⟩
        exact finds.complete text position within miss ⟨key, after, cut.symm, rfl⟩
      rw [Match.gaps_copy short fun found member => (order_of_mem_matchesFrom member).1, ih sound]
      rw [List.drop_eq_getElem_cons short] at none ⊢
      rw [gaps_copied none]
    · rw [matchesFrom_beyond (by simp), Match.gaps, List.drop_length, gaps]
  | case3 position inside point hit moved ih =>
    rw [matchesFrom_hit inside hit moved] at sound ⊢
    have here : slice text position point.position = key := by
      rw [← sound _ List.mem_cons_self]
      exact (Span.units_eq text.toArray position point.position).symm
    have cut := slice_append_drop text (Nat.le_of_lt moved)
    have empty : slice text position position = [] := by rw [slice, Nat.sub_self, List.take_zero]
    rw [Match.gaps, ← cut, here, gaps_met occupied]
    exact congrArg₂ (· :: ·) empty (ih fun found member => sound found (List.mem_cons_of_mem _ member))
  | case4 position inside point hit still ih =>
    exact absurd (finds.moves text position point (by simpa using inside) hit) still

theorem weave_replicate {piece : Text} {parts : List Text} {count : Nat} (length : parts.length = count + 1) :
    weave parts (List.replicate count piece) = join piece parts := by
  induction parts generalizing count with
  | nil => cases length
  | cons part parts ih =>
    cases count with
    | zero =>
      obtain rfl : parts = [] := List.eq_nil_of_length_eq_zero (Nat.succ.inj length)
      simp [weave, join]
    | succ count =>
      have left : parts.length = count + 1 := Nat.succ.inj length
      rw [List.replicate_succ, weave, ih left, join_cons _ (List.ne_nil_of_length_eq_add_one left)]

section

variable {key value : Text} (occupied : key ≠ [])
include occupied

theorem length_gaps_key (t : Text) : (gaps key 0 t).length = countKey key 0 t + 1 := by
  induction t using scan_induction occupied with
  | nil => rfl
  | met rest ih => rw [gaps_met occupied, countKey_met occupied, List.length_cons, ih]
  | copied u rest here ih =>
    obtain ⟨gap, others, shape⟩ := List.exists_cons_of_ne_nil (@gaps_ne_nil key 0 rest)
    rw [gaps_copied here, countKey_copied here, ← ih, shape]
    rfl

/-- A rule that finds a key and writes a value for it does what a phrase of both does, if it is given the whole text. -/
theorem Rule.apply_eq_replaceKey {rule : Rule} (finds : rule.pattern.Finds (· = key))
    (written : ∀ captures, rule.replacement.fill captures = value) (text : Text) :
    rule.apply text = ⟨replaceKey key value 0 text, countKey key 0 text⟩ := by
  have same : Match.gaps text 0 (rule.pattern.matchesIn text) = gaps key 0 text :=
    finds.gaps_eq occupied text (finds.sound text)
  have count : (rule.pattern.matchesIn text).length = countKey key 0 text := by
    have sizes := congrArg List.length same
    rw [Match.length_gaps, length_gaps_key occupied] at sizes
    exact Nat.succ.inj sizes
  have pieces : ((rule.pattern.matchesIn text).map fun found => rule.replacement.fill found.captures) =
      List.replicate (countKey key 0 text) value := by
    simp only [written, List.map_const', count]
  rw [apply_eq_weave, same, pieces, weave_replicate (length_gaps_key occupied text), replaceKey_eq_join occupied, count]

end

section Lines

variable {key value : Text} (occupied : key ≠ []) (flat : lineFeed ∉ key)
include occupied flat

/-- A pass over a text is a pass over each of its lines. -/
theorem replaceKey_join {lines : List Text} (some : lines ≠ []) :
    replaceKey key value 0 (join [lineFeed] lines) = join [lineFeed] (lines.map (replaceKey key value 0)) ∧
      countKey key 0 (join [lineFeed] lines) = (lines.map (countKey key 0)).sum := by
  induction lines with
  | nil => exact absurd rfl some
  | cons line lines ih =>
    cases lines with
    | nil => simp [join]
    | cons next lines =>
      obtain ⟨text, count⟩ := ih (List.cons_ne_nil _ _)
      have step := @replaceKey_between key value lineFeed occupied flat line (join [lineFeed] (next :: lines))
      have some : (next :: lines).map (replaceKey key value 0) ≠ [] := List.cons_ne_nil _ _
      rw [join_cons _ (List.cons_ne_nil _ _), List.singleton_append, step.1, step.2, text, count,
        @List.map_cons _ _ (replaceKey key value 0) line, join_cons _ some]
      exact ⟨rfl, rfl⟩

/-- A table of one phrase does what the phrase does to the whole text. -/
theorem PhraseTable.exists_single (apart : key ≠ value) : ∃ table, ofEntries [⟨key, value⟩] = .ok table ∧
    ∀ text, table.apply text = ⟨replaceKey key value 0 text, countKey key 0 text⟩ := by
  obtain ⟨table, made, entries⟩ := @exists_ofEntries [⟨key, value⟩] (by simpa using occupied)
  refine ⟨table, made, fun text => ?_⟩
  have single : table.entries = [⟨key, value⟩] := entries
  have active : Phrase.active ⟨key, value⟩ = true := bne_iff_ne.mpr apart
  have run : Phrase.run [⟨key, value⟩] = replaceKey key value 0 := by
    funext line
    rw [Phrase.run, Phrase.run, Phrase.rewrite_of_active active]
  have total : Phrase.total [⟨key, value⟩] = countKey key 0 := by
    funext line
    rw [Phrase.total, Phrase.total, Phrase.replaced_of_active active, Nat.add_zero]
  obtain ⟨whole, count⟩ := @replaceKey_join key value occupied flat _ (@split_ne_nil lineFeed text)
  rw [join_split] at whole count
  rw [Plan.apply_table, single, run, total, whole, count]

end Lines

/-- A rule of literal text and a table of one phrase agree. Whatever the units of the key mean in a template or in a
regular expression, and whatever the value would be as a template, on every text both write the same and count the
same. -/
theorem Rule.apply_eq_table {key value : Text} (occupied : key ≠ []) (solid : ∀ u ∈ key, isBlank u = false)
    (apart : value ≠ key) (name : Text) :
    ∃ rule table, Rule.compile ⟨name, escaped key, escaped value⟩ = .ok rule ∧
      PhraseTable.ofEntries [⟨key, value⟩] = .ok table ∧ ∀ text, rule.apply text = table.apply text := by
  obtain ⟨pattern, compile, finds⟩ := Pattern.exists_finds_literal occupied solid
  obtain ⟨tokens, read, free, fill⟩ := exists_tokens_escaped value
  have fits : Rule.unknownHoles pattern ⟨escaped value, tokens⟩ = [] := by rw [unknownHoles, free, List.filter_nil]
  have made : Replacement.compile (escaped value) = .ok ⟨escaped value, tokens⟩ := by
    rw [Replacement.compile, read]
    rfl
  have flat : lineFeed ∉ key := fun member => absurd (solid lineFeed member) (by decide)
  obtain ⟨table, single, phrase⟩ := @PhraseTable.exists_single key value occupied flat apart.symm
  refine ⟨_, table, compile_eq compile made fits, single, fun text => ?_⟩
  rw [phrase, Rule.apply_eq_replaceKey occupied finds fill]

/-- A key that overlaps itself, and a value that would be a hole and a reference to a group. -/
theorem Rule.apply_eq_table_overlapping :
    units "$:$" ≠ [] ∧ (∀ u ∈ units "$:$", isBlank u = false) ∧ units ":[x]$&\\\n" ≠ units "$:$" ∧
      ∃ rule table,
        Rule.compile ⟨units "price", escaped (units "$:$"), escaped (units ":[x]$&\\\n")⟩ = .ok rule ∧
        PhraseTable.ofEntries [⟨units "$:$", units ":[x]$&\\\n"⟩] = .ok table ∧
        (∀ text, rule.apply text = table.apply text) ∧
        rule.apply (units "$:$:$\n$:$") = ⟨units ":[x]$&\\\n:$\n:[x]$&\\\n", 2⟩ := by
  have occupied : units "$:$" ≠ [] := by decide
  have solid : ∀ u ∈ units "$:$", isBlank u = false := List.all_iff_forall_prop.mp (by decide)
  have apart : units ":[x]$&\\\n" ≠ units "$:$" := by decide
  obtain ⟨rule, table, compile, made, same⟩ := apply_eq_table occupied solid apart (units "price")
  have runs : (match Rule.compile ⟨units "price", escaped (units "$:$"), escaped (units ":[x]$&\\\n")⟩ with
      | .ok rule => decide (rule.apply (units "$:$:$\n$:$") = ⟨units ":[x]$&\\\n:$\n:[x]$&\\\n", 2⟩)
      | .error _ => false) = true := by decide +kernel
  rw [compile] at runs
  exact ⟨occupied, solid, apart, rule, table, compile, made, same, of_decide_eq_true runs⟩

end Emend
