import Emend.Proofs.RulePass
import Emend.Proofs.TemplateWellFormed
import Emend.Proofs.Utf8Names

/-! Rules and surrogate pairs. A hole takes single units, so a match may start or stop between the two halves of a pair,
and what is written in its place decides whether the halves on both sides still belong to something. Where no match and
no capture cuts a pair, or every hole of the pattern stands between literal text, nothing can go wrong. -/

namespace Emend

open Text Template

namespace Pattern

theorem LiteralFits.pairing {value segment : Text} (fits : LiteralFits value segment) {half : Bool}
    (read : Text.pairing half value = some false) : Text.pairing half segment = some false := by
  induction fits generalizing half with
  | nil => exact read
  | unit _ _ ih =>
    obtain ⟨low, after⟩ := pairing_cons.mp read
    exact pairing_cons.mpr ⟨low, ih after⟩
  | blanks nonempty runBlank _ blanksBlank _ ih =>
    obtain ⟨middle, run, after⟩ := pairing_append_iff.mp read
    obtain ⟨rfl, rfl⟩ := pairing_unique nonempty run (pairing_plain fun u member => isHalf_of_isBlank (runBlank u member))
    exact pairing_append_iff.mpr
      ⟨false, pairing_plain fun u member => isHalf_of_isBlank (blanksBlank u member), ih after⟩

/-- Every hole stands between literal text, and none of that is blank. -/
inductive Enclosed : List Token → Prop where
  | last {value : Text} (solid : ∃ u ∈ value, isBlank u = false) : Enclosed [.literal value]
  | hole {value : Text} {hole : Hole} {tokens : List Token} (solid : ∃ u ∈ value, isBlank u = false)
      (rest : Enclosed tokens) : Enclosed (.literal value :: .hole hole :: tokens)

/-- In a well-formed text, a match of such tokens cuts no pair, and none of its holes does. -/
theorem Segments.enclosed {allowed : Hole → Text → Prop} {bound final : List (Text × Text)} {tokens : List Token}
    {segments : List Text} (fits : Segments allowed bound tokens segments final) (enclosed : Enclosed tokens)
    (proper : ∀ value, .literal value ∈ tokens → wellFormed value = true) {half after : Bool}
    (read : Text.pairing half segments.flatten = some after) :
    half = false ∧ after = false ∧
      ((∀ pair ∈ bound, wellFormed pair.2 = true) → ∀ pair ∈ final, wellFormed pair.2 = true) := by
  have opens {value segment rest : Text} (own : LiteralFits value segment) (solid : ∃ u ∈ value, isBlank u = false)
      (properValue : wellFormed value = true) {half after : Bool}
      (read : Text.pairing half (segment ++ rest) = some after) :
      half = false ∧ Text.pairing false rest = some after := by
    obtain ⟨u, member, solid⟩ := solid
    obtain ⟨middle, first, later⟩ := pairing_append_iff.mp read
    have properSegment := wellFormed_iff.mpr (own.pairing (wellFormed_iff.mp properValue))
    obtain ⟨rfl, rfl⟩ := pairing_of_wellFormed properSegment (List.ne_nil_of_mem (own.mem solid member)) first
    exact ⟨rfl, later⟩
  induction enclosed generalizing bound segments half with
  | last solid =>
    cases fits with
    | literal own rest =>
      cases rest
      obtain ⟨rfl, later⟩ := opens own solid (proper _ List.mem_cons_self) read
      exact ⟨rfl, (Option.some.inj later).symm, id⟩
  | @hole value hole tokens solid enclosed ih =>
    cases fits with
    | literal own others =>
      obtain ⟨rfl, later⟩ := opens own solid (proper _ List.mem_cons_self) read
      have properRest : ∀ value, .literal value ∈ tokens → wellFormed value = true := fun value member =>
        proper value (List.mem_cons_of_mem _ (List.mem_cons_of_mem _ member))
      cases others with
      | anonymous _ _ rest =>
        obtain ⟨middle, _, last⟩ := pairing_append_iff.mp later
        obtain ⟨_, closed, kept⟩ := ih rest properRest last
        exact ⟨rfl, closed, kept⟩
      | @first _ _ _ _ _ segment _ _ _ rest =>
        obtain ⟨middle, here, last⟩ := pairing_append_iff.mp later
        obtain ⟨rfl, closed, kept⟩ := ih rest properRest last
        refine ⟨rfl, closed, fun known => kept fun pair member => ?_⟩
        rcases List.mem_append.mp member with old | new
        · exact known pair old
        · rw [List.mem_singleton.mp new]
          exact wellFormed_iff.mpr here
      | again _ _ rest =>
        obtain ⟨middle, _, last⟩ := pairing_append_iff.mp later
        obtain ⟨_, closed, kept⟩ := ih rest properRest last
        exact ⟨rfl, closed, kept⟩

theorem mem_of_captured {pattern : Pattern} {text : Text} {found : Match} (member : found ∈ pattern.matchesIn text)
    {name value : Text} (captured : found.captures.lookup name = some value) {u : UInt16} (inside : u ∈ value) :
    u ∈ text := by
  obtain ⟨start, point, _, _, _, rfl⟩ := mem_matchesFrom member
  obtain ⟨other, _, same⟩ := List.mem_map.mp (pair_mem_of_lookup captured)
  obtain ⟨rfl, rfl⟩ := Prod.mk.inj same
  cases recorded : pattern.expression.capture? text.toArray point other with
  | none =>
    rw [recorded] at inside
    cases inside
  | some value =>
    rw [recorded, Option.getD_some] at inside
    obtain ⟨index, _, spanned⟩ := Option.bind_eq_some_iff.mp recorded
    obtain ⟨span, _, units⟩ := Option.bind_eq_some_iff.mp spanned
    rw [← Option.some.inj units, Expression.Span.units_eq] at inside
    exact List.mem_of_mem_drop (List.mem_of_mem_take inside)

end Pattern

namespace Match.Ordered

variable {text : Text} {offset : Nat} {found : Match} {matches_ rest : List Match} (write : Match → Text)

theorem take_weave (ordered : Ordered text offset (found :: rest)) :
    text.take offset ++ weave (gaps text offset (found :: rest)) ((found :: rest).map write) =
      (text.take found.start ++ write found) ++ weave (gaps text found.stop rest) (rest.map write) := by
  rw [gaps, List.map_cons, weave, ← List.append_assoc, take_append_slice text (ordered.starts found List.mem_cons_self),
    List.append_assoc]

/-- Where all that is written fits, the new text is read as the old one. -/
theorem pairing_weave (ordered : Ordered text offset matches_) (fits : ∀ found ∈ matches_,
      pairing false (text.take found.start ++ write found) = pairing false (text.take found.stop)) :
    pairing false (text.take offset ++ weave (gaps text offset matches_) (matches_.map write)) =
      pairing false text := by
  induction matches_ generalizing offset with
  | nil =>
    have left : weave (gaps text offset []) [] = text.drop offset := List.append_nil _
    rw [List.map_nil, left, List.take_append_drop]
  | cons found rest ih =>
    rw [List.forall_mem_cons] at fits
    rw [ordered.take_weave, pairing_append, fits.1, ← pairing_append, ih ordered.tail fits.2]

/-- Where a unit stands between any two matches, the new text is not well formed unless all that is written fits. -/
theorem fits_of_weave (ordered : Ordered text offset matches_) (inside : ∀ found ∈ matches_, found.start ≤ text.length)
    (apart : matches_.Pairwise fun one next => one.stop < next.start) (proper : wellFormed text = true)
    (read : pairing false (text.take offset ++ weave (gaps text offset matches_) (matches_.map write)) = some false) :
    ∀ found ∈ matches_, pairing false (text.take found.start ++ write found) = pairing false (text.take found.stop) := by
  induction matches_ generalizing offset with
  | nil => exact fun _ member => nomatch member
  | cons found rest ih =>
    rw [List.forall_mem_cons] at inside ⊢
    rw [ordered.take_weave, pairing_append_iff] at read
    obtain ⟨middle, here, after⟩ := read
    have whole := wellFormed_iff.mp proper
    rw [← List.take_append_drop found.stop text, pairing_append_iff] at whole
    obtain ⟨half, before, left⟩ := whole
    -- What comes next is the same in both texts, and tells what is open before it.
    have same : middle = half := by
      cases rest with
      | nil =>
        have last : weave (gaps text found.stop []) [] = text.drop found.stop := List.append_nil _
        rw [List.map_nil, last] at after
        by_cases empty : text.drop found.stop = []
        · rw [empty] at after left
          exact (Option.some.inj after).trans (Option.some.inj left).symm
        · exact (pairing_unique empty after left).1
      | cons next more =>
        have beyond := List.rel_of_pairwise_cons apart List.mem_cons_self
        rw [gaps, List.map_cons, weave, pairing_append_iff] at after
        rw [← slice_append_drop text (Nat.le_of_lt beyond), pairing_append_iff] at left
        obtain ⟨_, gap, _⟩ := after
        obtain ⟨_, gapToo, _⟩ := left
        refine (pairing_unique (fun empty => ?_) gap gapToo).1
        have size := congrArg List.length empty
        have within := (List.forall_mem_cons.mp inside.2).1
        rw [slice, List.length_take, List.length_drop, List.length_nil] at size
        omega
    subst same
    refine ⟨here.trans before.symm, ih ordered.tail inside.2 apart.of_cons ?_⟩
    rw [pairing_append, before, Option.bind_some, after]

end Match.Ordered

namespace Rule

/-- What is written for a match, read behind the text before it, leaves a half of a pair open if and only if the match
does. -/
def Fits (rule : Rule) (text : Text) (found : Match) : Prop :=
  pairing false (text.take found.start ++ rule.replacement.fill found.captures) = pairing false (text.take found.stop)

/-- Neither a match cuts a pair nor any of its captures that the replacement uses. -/
structure Whole (rule : Rule) (found : Match) : Prop where
  text : wellFormed found.text = true
  captures : ∀ name ∈ rule.replacement.holes, ∀ value, found.captures.lookup name = some value → wellFormed value = true

section

variable {rule : Rule} {text : Text} {found : Match}

theorem fill_wellFormed (proper : ∀ value, .literal value ∈ rule.replacement.tokens → wellFormed value = true)
    (whole : rule.Whole found) : wellFormed (rule.replacement.fill found.captures) = true := by
  refine wellFormed_flatMap fun token member => ?_
  cases token with
  | literal value => exact proper value member
  | hole hole =>
    rw [Replacement.fillToken]
    split
    · rfl
    next named =>
      have drawn : hole.name ∈ rule.replacement.holes :=
        Replacement.mem_holes_iff.mpr ⟨_, member, if_neg named⟩
      split
      next value captured => exact whole.captures _ drawn value captured
      · split <;> decide

theorem pairing_of_mem (proper : wellFormed text = true) (member : found ∈ rule.pattern.matchesIn text) :
    ∃ half after, pairing false (text.take found.start) = some half ∧ pairing half found.text = some after ∧
      pairing false (text.take found.stop) = some after := by
  have ordered : Match.Ordered text 0 (rule.pattern.matchesIn text) := Pattern.ordered_matchesFrom text 0
  have whole := wellFormed_iff.mp proper
  rw [← List.take_append_drop found.stop text, pairing_append_iff] at whole
  obtain ⟨after, before, _⟩ := whole
  have parts := before
  rw [← take_append_slice text (ordered.onward found member), ← ordered.units found member, pairing_append_iff] at parts
  obtain ⟨half, front, own⟩ := parts
  exact ⟨half, after, front, own, before⟩

theorem fits_of_whole (proper : ∀ value, .literal value ∈ rule.replacement.tokens → wellFormed value = true)
    (properText : wellFormed text = true) (member : found ∈ rule.pattern.matchesIn text) (whole : rule.Whole found) :
    rule.Fits text found := by
  obtain ⟨half, after, front, own, before⟩ := pairing_of_mem properText member
  obtain ⟨rfl, rfl⟩ := pairing_of_wellFormed whole.text (Pattern.occupied_of_mem member).2 own
  rw [Fits, pairing_append, front, Option.bind_some, before]
  exact wellFormed_iff.mp (fill_wellFormed proper whole)

theorem whole_of_plain (plain : ∀ u ∈ text, isHalf u = false) (member : found ∈ rule.pattern.matchesIn text) :
    rule.Whole found where
  text := wellFormed_plain fun u inside => by
    rw [(Pattern.ordered_matchesFrom text 0).units found member] at inside
    exact plain u (List.mem_of_mem_drop (List.mem_of_mem_take inside))
  captures _ _ _ captured := wellFormed_plain fun u inside => plain u (Pattern.mem_of_captured member captured inside)

theorem whole_of_enclosed {source : Text} {tokens : List Token} (compile : Pattern.compile source = .ok rule.pattern)
    (read : Template.tokens source = .ok tokens) (proper : wellFormed source = true)
    (enclosed : Pattern.Enclosed (Pattern.trimOuter tokens)) (properText : wellFormed text = true)
    (member : found ∈ rule.pattern.matchesIn text) : rule.Whole found := by
  obtain ⟨others, survey, pieces, nodes, compiled⟩ := Pattern.compiled_of_compile compile
  obtain rfl := Except.ok.inj (compiled.read.symm.trans read)
  have literals := Pattern.wellFormed_trimOuter (wellFormed_of_tokens read proper)
  obtain ⟨half, after, _, own, _⟩ := pairing_of_mem properText member
  obtain ⟨start, point, hit, _, inside, rfl⟩ := Pattern.mem_matchesFrom member
  obtain ⟨segments, final, met, fits, units, recorded⟩ := @Pattern.Compiled.segments _ _ _ _ _ _ (fun _ _ => True)
    compiled _ (fun _ _ _ _ _ _ _ _ _ _ => trivial) _ _ inside hit
  have cut : (rule.pattern.matchOf text.toArray start point).text = segments.flatten := units
  obtain ⟨rfl, rfl, kept⟩ := fits.enclosed enclosed literals (cut ▸ own)
  refine ⟨wellFormed_iff.mpr own, fun name _ value captured => ?_⟩
  rw [compiled.captures_eq_filter start fits recorded] at captured
  exact kept (fun _ none => nomatch none) _ (List.mem_filter.mp (pair_mem_of_lookup captured)).1

end

/-- A rule made of well-formed sources makes a well-formed text of a well-formed one if what it writes for each match
fits there, and where no two matches touch, only if so. All of it fits where no match cuts a pair and no capture does
that is used, and none can do so where the text has no pairs or where each hole of the pattern stands between literal
text. A result that is well formed is written as UTF-8, and any other one is refused. -/
theorem apply_keeps_pairs {source : RuleSource} {rule : Rule} {tokens : List Token}
    (compile : Rule.compile source = .ok rule) (read : Template.tokens source.pattern = .ok tokens)
    (properPattern : wellFormed source.pattern = true) (properReplacement : wellFormed source.replacement = true)
    {text : Text} (properText : wellFormed text = true) :
    ((∀ found ∈ rule.pattern.matchesIn text, rule.Fits text found) → wellFormed (rule.apply text).text = true) ∧
      ((rule.pattern.matchesIn text).Pairwise (fun one next => one.stop < next.start) →
        wellFormed (rule.apply text).text = true → ∀ found ∈ rule.pattern.matchesIn text, rule.Fits text found) ∧
      (∀ found ∈ rule.pattern.matchesIn text, rule.Whole found → rule.Fits text found) ∧
      ((∀ u ∈ text, isHalf u = false) ∨ Pattern.Enclosed (Pattern.trimOuter tokens) →
        ∀ found ∈ rule.pattern.matchesIn text, rule.Whole found) ∧
      ∀ name file, Encoding.named? name = some .utf8 →
        encodeLosslessly (rule.apply text).text name file =
          if wellFormed (rule.apply text).text then .ok (Utf8.encode (rule.apply text).text)
          else .error (.unencodable file name) := by
  obtain ⟨pattern, replacement⟩ := parts_of_compile compile
  have ordered : Match.Ordered text 0 (rule.pattern.matchesIn text) := Pattern.ordered_matchesFrom text 0
  have woven : (rule.apply text).text = text.take 0 ++ weave (Match.gaps text 0 (rule.pattern.matchesIn text))
      ((rule.pattern.matchesIn text).map fun found => rule.replacement.fill found.captures) :=
    congrArg Count.text (apply_eq_weave rule text)
  refine ⟨fun fits => ?_, fun apart proper => ?_, fun found member => ?_, fun ways found member => ?_,
    fun name file named => ?_⟩
  · rw [wellFormed_iff, woven, ordered.pairing_weave _ fits]
    exact wellFormed_iff.mp properText
  · rw [wellFormed_iff, woven] at proper
    have inside : ∀ found ∈ rule.pattern.matchesIn text, found.start ≤ text.length := fun found member =>
      Nat.le_trans (ordered.onward found member) (Pattern.occupied_of_mem member).1
    exact ordered.fits_of_weave _ inside apart properText proper
  · exact fits_of_whole (wellFormed_of_tokens replacement properReplacement) properText member
  · rcases ways with plain | enclosed
    · exact whole_of_plain plain member
    · exact whole_of_enclosed pattern read properPattern enclosed properText member
  · split
    next proper => exact encodeLosslessly_wellFormed named proper file
    next malformed => exact encodeLosslessly_malformed named malformed file

private def turnSource : RuleSource := ⟨units "turn", units "a:[x]b", units "b:[x]a"⟩

private def turnText : Text := [0x61, 0xD83D, 0xDE00, 0x62, 0xD83D, 0xDE01]

theorem apply_keeps_pairs_enclosed :
    ∃ rule tokens, Rule.compile turnSource = .ok rule ∧ Template.tokens turnSource.pattern = .ok tokens ∧
      wellFormed turnSource.pattern = true ∧ wellFormed turnSource.replacement = true ∧ wellFormed turnText = true ∧
      Pattern.Enclosed (Pattern.trimOuter tokens) ∧
      (∀ found ∈ rule.pattern.matchesIn turnText, rule.Whole found ∧ rule.Fits turnText found) ∧
      (rule.apply turnText).text = [0x62, 0xD83D, 0xDE00, 0x61, 0xD83D, 0xDE01] ∧
      wellFormed (rule.apply turnText).text = true ∧
      encodeLosslessly (rule.apply turnText).text (units "utf8") (units "note") =
        .ok (Utf8.encode (rule.apply turnText).text) := by
  have compiles : (match Rule.compile turnSource with
      | .ok rule => decide ((rule.apply turnText).text = [0x62, 0xD83D, 0xDE00, 0x61, 0xD83D, 0xDE01])
      | .error _ => false) = true := by decide +kernel
  have named : Encoding.named? (units "utf8") = some .utf8 := by decide +kernel
  split at compiles
  · next rule compile =>
    have read : Template.tokens turnSource.pattern =
        .ok [.literal (units "a"), .hole ⟨units "x", none⟩, .literal (units "b")] := by decide +kernel
    have enclosed : Pattern.Enclosed
        (Pattern.trimOuter [.literal (units "a"), .hole ⟨units "x", none⟩, .literal (units "b")]) :=
      .hole (by decide) (.last (by decide))
    have properText : wellFormed turnText = true := by decide
    obtain ⟨paired, _, fits, whole, encodes⟩ := apply_keeps_pairs compile read (by decide) (by decide) properText
    have each := fun found member => whole (.inr enclosed) found member
    have proper := paired fun found member => fits found member (each found member)
    refine ⟨rule, _, compile, read, by decide, by decide, properText, enclosed,
      fun found member => ⟨each found member, fits found member (each found member)⟩, of_decide_eq_true compiles, proper,
      ?_⟩
    rw [encodes _ _ named, if_pos proper]
  · cases compiles

/-- A hole at the end of a pattern, which takes one unit. -/
private def cutSource : RuleSource := ⟨units "turn", units "x:[a]", units ":[a]x"⟩

private def cutText : Text := [0x78, 0xD83D, 0xDE00]

/-- The hole takes the first half of a pair, and the replacement puts a letter between the two. -/
theorem apply_parts_pair :
    ∃ rule, Rule.compile cutSource = .ok rule ∧ wellFormed cutSource.pattern = true ∧
      wellFormed cutSource.replacement = true ∧ wellFormed cutText = true ∧
      (rule.apply cutText).text = [0xD83D, 0x78, 0xDE00] ∧ wellFormed (rule.apply cutText).text = false ∧
      ∀ file, encodeLosslessly (rule.apply cutText).text (units "utf8") file =
        .error (.unencodable file (units "utf8")) := by
  have compiles : (match Rule.compile cutSource with
      | .ok rule => decide ((rule.apply cutText).text = [0xD83D, 0x78, 0xDE00])
      | .error _ => false) = true := by decide +kernel
  have named : Encoding.named? (units "utf8") = some .utf8 := by decide +kernel
  split at compiles
  · next rule compile =>
    have result := of_decide_eq_true compiles
    have malformed : wellFormed (rule.apply cutText).text = false := by
      rw [result]
      decide
    exact ⟨rule, compile, by decide, by decide, by decide, result, malformed,
      encodeLosslessly_malformed named (Bool.eq_false_iff.mp malformed)⟩
  · cases compiles

end Rule

end Emend
