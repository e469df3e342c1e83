import Emend.Rule
import Emend.Proofs.PatternMatches

/-! What a rule does to a text, said without positions: units are copied and matches are exchanged for what
is written in their place. Where everything that is written begins with a mark, a text around it can be
taken back to the text before, and so can whatever starts there. -/

namespace Emend

open Text Expression

/-- A text rewritten from left to right. What holds of the rest of the old text wherever a unit is copied,
and what is exchanged for what, is left open. -/
inductive Rewrites (free : Text → Prop) (step : Text → Text → Prop) : Text → Text → Prop where
  | nil : Rewrites free step [] []
  | copy {u : UInt16} {old new : Text} (here : free (u :: old)) (rest : Rewrites free step old new) :
      Rewrites free step (u :: old) (u :: new)
  | exchange {found written old new : Text} (here : step found written)
      (rest : Rewrites free step old new) : Rewrites free step (found ++ old) (written ++ new)

def Starts (kind : Text → Prop) (t : Text) : Prop := ∃ inside after, t = inside ++ after ∧ kind inside

def Occurs (kind : Text → Prop) (t : Text) : Prop := ∃ before after, t = before ++ after ∧ Starts kind after

theorem Text.first_outside (sort : UInt16 → Bool) {left right rest others : Text} {u v : UInt16}
    (inLeft : ∀ a ∈ left, sort a = true) (inRight : ∀ a ∈ right, sort a = true) (afterLeft : sort u = false)
    (afterRight : sort v = false) (same : left ++ u :: rest = right ++ v :: others) :
    left = right ∧ u = v ∧ rest = others := by
  induction left generalizing right with
  | nil =>
    cases right with
    | nil =>
      obtain ⟨rfl, rfl⟩ := List.cons.inj same
      exact ⟨rfl, rfl, rfl⟩
    | cons a right =>
      obtain ⟨rfl, _⟩ := List.cons.inj same
      rw [inRight u List.mem_cons_self] at afterLeft
      cases afterLeft
  | cons a left ih =>
    cases right with
    | nil =>
      obtain ⟨rfl, _⟩ := List.cons.inj same
      rw [inLeft a List.mem_cons_self] at afterRight
      cases afterRight
    | cons b right =>
      obtain ⟨rfl, later⟩ := List.cons.inj same
      obtain ⟨rfl, facts⟩ := ih (fun c member => inLeft c (List.mem_cons_of_mem _ member))
        (fun c member => inRight c (List.mem_cons_of_mem _ member)) later
      exact ⟨rfl, facts⟩

theorem Text.first_of {left right rest others : Text} {u : UInt16} (absentLeft : u ∉ left) (absentRight : u ∉ right)
    (same : left ++ u :: rest = right ++ u :: others) : left = right ∧ rest = others := by
  have among {t : Text} (absent : u ∉ t) : ∀ a ∈ t, (a != u) = true :=
    fun a member => bne_iff_ne.mpr fun same => absent (same ▸ member)
  obtain ⟨fronts, _, ends⟩ := first_outside (· != u) (among absentLeft) (among absentRight) (by simp) (by simp) same
  exact ⟨fronts, ends⟩

theorem Text.end_of_concat {t front back : Text} {u : UInt16} (cut : t ++ [u] = front ++ back) (occupied : back ≠ []) :
    ∃ middle, back = middle ++ [u] ∧ t = front ++ middle := by
  rcases List.eq_nil_or_concat back with rfl | ⟨middle, v, rfl⟩
  · exact absurd rfl occupied
  · rw [List.concat_eq_append, ← List.append_assoc] at cut
    obtain ⟨rfl, same⟩ := List.append_inj' cut rfl
    exact ⟨middle, by rw [List.concat_eq_append, same], rfl⟩

theorem Text.append_eq_of_not_mem {left right rest others : Text} {u : UInt16} (absent : u ∉ left)
    (same : left ++ rest = right ++ u :: others) : ∃ middle, right = left ++ middle ∧ rest = middle ++ u :: others := by
  rcases List.append_eq_append_iff.mp same with ⟨middle, rfl, later⟩ | ⟨middle, rfl, later⟩
  · exact ⟨middle, rfl, later⟩
  · cases middle with
    | nil => exact ⟨[], by simp, later.symm⟩
    | cons v middle =>
      obtain ⟨rfl, _⟩ := List.cons.inj later
      exact absurd (List.mem_append_right _ List.mem_cons_self) absent

/-- A property of texts holds from no unit of a text on, whatever comes after the text. -/
def Never (property : Text → Prop) (t : Text) : Prop :=
  ∀ front back after, t = front ++ back → back ≠ [] → ¬ property (back ++ after)

namespace Never

variable {property : Text → Prop} {t : Text}

theorem nil : Never property [] := by
  intro front back after cut occupied
  exact absurd (List.append_eq_nil_iff.mp cut.symm).2 occupied

theorem append (first : Never property t) {other : Text} (second : Never property other) :
    Never property (t ++ other) := by
  intro front back after cut occupied
  rcases List.append_eq_append_iff.mp cut with ⟨middle, rfl, same⟩ | ⟨middle, same, rfl⟩
  · exact second middle back after same occupied
  · cases middle with
    | nil => exact second [] _ after rfl occupied
    | cons u middle =>
      rw [List.append_assoc]
      exact first front _ _ same (List.cons_ne_nil _ _)

theorem of_not_mem {u : UInt16} (first : ∀ s, property s → s.head? = some u) (absent : u ∉ t) :
    Never property t := by
  rintro front back after rfl occupied holds
  cases back with
  | nil => exact occupied rfl
  | cons v back =>
    obtain rfl := Option.some.inj (first _ holds)
    exact absent (List.mem_append_right _ List.mem_cons_self)

theorem mono (never : Never property t) {other : Text → Prop} (stronger : ∀ s, other s → property s) :
    Never other t :=
  fun front back after cut occupied holds => never front back after cut occupied (stronger _ holds)

/-- What begins with a word and a certain unit after it does not begin in a word with another unit after it. -/
theorem of_word {word : Text} {u : UInt16} (inWord : ∀ a ∈ t, isWord a = true) (outside : isWord u = false)
    (first : ∀ s, property s → ∃ v rest, s = word ++ v :: rest ∧ isWord v = false ∧ v ≠ u)
    (isWords : ∀ a ∈ word, isWord a = true) : Never property (t ++ [u]) := by
  intro front back after cut occupied holds
  obtain ⟨middle, rfl, rfl⟩ := end_of_concat cut occupied
  obtain ⟨v, rest, same, after_word, other⟩ := first _ holds
  rw [List.append_assoc] at same
  have ends := first_outside isWord (fun a member => inWord a (List.mem_append_right _ member)) isWords outside
    after_word same
  exact other ends.2.1.symm

end Never

namespace Rewrites

variable {free : Text → Prop} {step : Text → Text → Prop} {old new : Text}

/-- A place of the new text is a place of the old text too, or it is inside of something written. -/
theorem cut (rewrites : Rewrites free step old new) {before after : Text} (place : new = before ++ after) :
    (∃ front back, old = front ++ back ∧ Rewrites free step back after) ∨
      ∃ found left right rest, step found (left ++ right) ∧ left ≠ [] ∧ right ≠ [] ∧ after = right ++ rest := by
  induction rewrites generalizing before with
  | nil =>
    obtain ⟨-, rfl⟩ := List.append_eq_nil_iff.mp place.symm
    exact .inl ⟨[], [], rfl, .nil⟩
  | @copy u old new here rest ih =>
    cases before with
    | nil =>
      obtain rfl : u :: new = after := place
      exact .inl ⟨[], u :: old, rfl, .copy here rest⟩
    | cons v before =>
      obtain ⟨rfl, later⟩ := List.cons.inj place
      rcases ih later with ⟨front, back, rfl, rewrites⟩ | inside
      · exact .inl ⟨u :: front, back, rfl, rewrites⟩
      · exact .inr inside
  | @exchange found written old new here rest ih =>
    rcases List.append_eq_append_iff.mp place with ⟨middle, rfl, later⟩ | ⟨right, rfl, rfl⟩
    · rcases ih later with ⟨front, back, rfl, rewrites⟩ | inside
      · exact .inl ⟨found ++ front, back, (List.append_assoc ..).symm, rewrites⟩
      · exact .inr inside
    · -- The place is at the start of what is written, at the end of it, or properly inside.
      by_cases start : before = []
      · subst start
        exact .inl ⟨[], found ++ old, rfl, .exchange here rest⟩
      · by_cases stop : right = []
        · subst stop
          exact .inl ⟨found, old, rfl, rest⟩
        · exact .inr ⟨found, before, right, new, here, start, stop, rfl⟩

section

variable {mark : Text} (marks : ∀ found written, step found written → mark <+: written)
include marks

theorem copied {u : UInt16} (rewrites : Rewrites free step old (u :: new)) (unmarked : ¬ mark <+: u :: new) :
    ∃ rest, old = u :: rest ∧ free old ∧ Rewrites free step rest new := by
  generalize whole : u :: new = t at rewrites unmarked
  cases rewrites with
  | nil => cases whole
  | copy here rest =>
    obtain ⟨rfl, rfl⟩ := List.cons.inj whole
    exact ⟨_, rfl, here, rest⟩
  | exchange here rest => exact absurd ((marks _ _ here).trans (List.prefix_append ..)) unmarked

theorem peel {t : Text} (unmarked : Never (mark <+: ·) t) (rewrites : Rewrites free step old (t ++ new)) :
    ∃ rest, old = t ++ rest ∧ Rewrites free step rest new := by
  induction t generalizing old with
  | nil => exact ⟨old, rfl, rewrites⟩
  | cons u t ih =>
    obtain ⟨rest, rfl, _, later⟩ :=
      rewrites.copied marks (unmarked [] (u :: t) new rfl (List.cons_ne_nil _ _))
    obtain ⟨last, rfl, remaining⟩ :=
      ih (fun front back after cut => unmarked (u :: front) back after (congrArg (u :: ·) cut)) later
    exact ⟨last, rfl, remaining⟩

/-- Where nothing of a kind starts at a unit that is copied, and nothing of that kind starts inside of what is
written, the new text has nothing of the kind: what would start elsewhere would have started there before. -/
theorem not_occurs {kind : Text → Prop} (unmarked : ∀ t, Starts kind t → t ≠ [] ∧ ¬ mark <+: t)
    (lifts : ∀ old new, Rewrites (fun t => ¬ Starts kind t) step old new → Starts kind new → Starts kind old)
    (inside : ∀ found u more, step found (u :: more) → Never (Starts kind) more)
    (rewrites : Rewrites (fun t => ¬ Starts kind t) step old new) : ¬ Occurs kind new := by
  rintro ⟨before, after, place, starts⟩
  -- What starts at a copied unit is taken back to the old text, where the rule had nothing to find.
  rcases rewrites.cut place with ⟨front, back, _, later⟩ | ⟨found, left, right, rest, here, more, occupied, rfl⟩
  · obtain ⟨occupied, none⟩ := unmarked after starts
    cases after with
    | nil => exact occupied rfl
    | cons u after =>
      obtain ⟨_, _, here, _⟩ := later.copied marks none
      exact here (lifts back _ later starts)
  · cases left with
    | nil => exact more rfl
    | cons u left => exact inside found u (left ++ right) here left right rest rfl occupied starts

end

section

variable {kind : Text → Prop} (kinds : ∀ found written, step found written → kind found)
include kinds

theorem skip {t : Text} (never : Never (Starts kind) t) (rewrites : Rewrites free step (t ++ old) new) :
    ∃ rest, new = t ++ rest ∧ Rewrites free step old rest := by
  induction t generalizing new with
  | nil => exact ⟨new, rfl, rewrites⟩
  | cons u t ih =>
    generalize whole : u :: t ++ old = place at rewrites
    cases rewrites with
    | nil => cases whole
    | copy here later =>
      obtain ⟨rfl, rfl⟩ := List.cons.inj whole
      obtain ⟨rest, rfl, remaining⟩ :=
        ih (fun front back after cut => never (u :: front) back after (congrArg (u :: ·) cut)) later
      exact ⟨rest, rfl, remaining⟩
    | exchange here later =>
      exact absurd ⟨_, _, whole, kinds _ _ here⟩ (never [] (u :: t) old rfl (List.cons_ne_nil _ _))

theorem eq_of_not_occurs (rewrites : Rewrites free step old new) (none : ¬ Occurs kind old) : new = old := by
  induction rewrites with
  | nil => rfl
  | @copy u old new here later ih =>
    rw [ih fun ⟨before, after, place, starts⟩ => none ⟨u :: before, after, congrArg (u :: ·) place, starts⟩]
  | @exchange found written old new here later =>
    exact absurd ⟨[], found ++ old, rfl, found, old, rfl, kinds _ _ here⟩ none

end

/-- Where one of a kind starts, and no other does, it is exchanged. -/
theorem front {kind : Text → Prop} {t : Text}
    (rewrites : Rewrites (fun t => ¬ Starts kind t) step (t ++ old) new) (here : kind t) (occupied : t ≠ [])
    (unique : ∀ found written rest, step found written → t ++ old = found ++ rest → t = found ∧ old = rest) :
    ∃ written rest, step t written ∧ new = written ++ rest ∧ Rewrites (fun t => ¬ Starts kind t) step old rest := by
  generalize whole : t ++ old = place at rewrites
  cases rewrites with
  | nil => exact absurd (List.append_eq_nil_iff.mp whole).1 occupied
  | copy none => exact absurd ⟨t, old, whole.symm, here⟩ none
  | exchange exchanged later =>
    obtain ⟨rfl, rfl⟩ := unique _ _ _ exchanged whole
    exact ⟨_, _, exchanged, rfl, later⟩

end Rewrites

theorem not_occurs_of_not_mem {kind : Text → Prop} {t : Text} {u : UInt16} (contains : ∀ s, kind s → u ∈ s)
    (absent : u ∉ t) : ¬ Occurs kind t := by
  rintro ⟨before, _, rfl, inside, after, rfl, own⟩
  exact absent (List.mem_append_right _ (List.mem_append_left _ (contains inside own)))

theorem not_occurs_across {kind : Text → Prop} {left right : Text} {u : UInt16} (lacks : ∀ s, kind s → u ∉ s)
    (first : ¬ Occurs kind left) (second : ¬ Occurs kind right) : ¬ Occurs kind (left ++ u :: right) := by
  rintro ⟨before, _, place, inside, after, rfl, own⟩
  rcases List.append_eq_append_iff.mp place with ⟨middle, rfl, later⟩ | ⟨middle, rfl, later⟩
  · cases middle with
    | nil =>
      have start : inside ++ after = [] ++ u :: right := later.symm
      obtain ⟨rest, same, _⟩ := Text.append_eq_of_not_mem (lacks inside own) start
      obtain ⟨rfl, _⟩ := List.append_eq_nil_iff.mp same.symm
      exact first ⟨left, [], (List.append_nil _).symm, [], [], rfl, own⟩
    | cons v middle =>
      obtain ⟨rfl, rfl⟩ := List.cons.inj later
      exact second ⟨middle, _, rfl, inside, after, rfl, own⟩
  · obtain ⟨rest, rfl, _⟩ := Text.append_eq_of_not_mem (lacks inside own) later
    exact first ⟨before, _, rfl, inside, rest, rfl, own⟩

theorem not_starts_of_not_occurs {kind : Text → Prop} {t before after : Text} (none : ¬ Occurs kind t)
    (place : t = before ++ after) : ¬ Starts kind after :=
  fun starts => none ⟨before, after, place, starts⟩

namespace Pattern

variable {pattern : Pattern} {text : Array UInt16} {position : Nat}

theorem order_of_mem_matchesFrom {found : Match} (member : found ∈ pattern.matchesFrom text position) :
    position ≤ found.start ∧ found.start < found.stop := by
  induction position using matchesFrom.induct pattern text with
  | case1 position beyond =>
    rw [matchesFrom_beyond beyond] at member
    cases member
  | case2 position inside miss ih =>
    rw [matchesFrom_miss inside miss] at member
    exact ⟨Nat.le_of_succ_le (ih member).1, (ih member).2⟩
  | case3 position inside point hit moved ih =>
    rw [matchesFrom_hit inside hit moved] at member
    rcases List.mem_cons.mp member with rfl | later
    · exact ⟨Nat.le_refl _, moved⟩
    · exact ⟨Nat.le_trans (Nat.le_of_lt moved) (ih later).1, (ih later).2⟩
  | case4 position inside point hit still ih =>
    rw [matchesFrom_empty inside hit still] at member
    exact ⟨Nat.le_of_succ_le (ih member).1, (ih member).2⟩

/-- The search of a pattern finds exactly what is of a kind. -/
structure Finds (pattern : Pattern) (kind : Text → Prop) : Prop where
  sound : ∀ text, ∀ found ∈ pattern.matchesIn text, kind found.text
  complete : ∀ (text : Text) position, position ≤ text.length →
    pattern.expression.node.matchAt text.toArray position = none → ¬ Starts kind (text.drop position)
  moves : ∀ (text : Text) position point, position ≤ text.length →
    pattern.expression.node.matchAt text.toArray position = some point → position < point.position

theorem Finds.occurs {kind : Text → Prop} (finds : pattern.Finds kind) {t : Text} {found : Match}
    (member : found ∈ pattern.matchesIn t) : ∃ before after, t = before ++ (found.text ++ after) ∧ kind found.text := by
  have own := finds.sound t found member
  obtain ⟨start, point, _, _, _, rfl⟩ := mem_matchesFrom member
  refine ⟨t.take start, (t.drop start).drop (point.position - start), ?_, own⟩
  rw [show (pattern.matchOf t.toArray start point).text = _ from Span.units_eq t.toArray start point.position,
    show t.toArray.toList = t from rfl, List.take_append_drop, List.take_append_drop]

theorem Finds.matchesIn_eq_nil {kind : Text → Prop} (finds : pattern.Finds kind) {t : Text} (none : ¬ Occurs kind t) :
    pattern.matchesIn t = [] := by
  rw [List.eq_nil_iff_forall_not_mem]
  intro found member
  obtain ⟨before, after, place, own⟩ := finds.occurs member
  exact none ⟨before, _, place, found.text, after, rfl, own⟩

end Pattern

namespace Rule

variable (rule : Rule)

theorem replaceMatches_copy (u : UInt16) (rest : Text) {offset : Nat} {matches_ : List Match}
    (later : ∀ found ∈ matches_, offset < found.start ∧ found.start < found.stop) :
    rule.replaceMatches offset (u :: rest) matches_ = u :: rule.replaceMatches (offset + 1) rest matches_ := by
  cases matches_ with
  | nil => rfl
  | cons found others =>
    obtain ⟨first, moved⟩ := later found List.mem_cons_self
    rw [replaceMatches, replaceMatches, show found.start - offset = (found.start - (offset + 1)) + 1 by omega,
      show found.stop - offset = (found.stop - (offset + 1)) + 1 by omega]
    rfl

section

variable {rule} {kind : Text → Prop} (finds : rule.pattern.Finds kind)
include finds

theorem rewrites_from {free : Text → Prop} {step : Text → Text → Prop} (text : Text)
    (frees : ∀ before after, text = before ++ after → ¬ Starts kind after → free after) (position : Nat)
    (steps : ∀ found ∈ rule.pattern.matchesFrom text.toArray position,
      step found.text (rule.replacement.fill found.captures)) :
    Rewrites free step (text.drop position)
      (rule.replaceMatches position (text.drop position) (rule.pattern.matchesFrom text.toArray position)) := by
  -- The cases are those of the search: the end, no match here, a match, and an empty match, which no kind allows.
  induction position using Pattern.matchesFrom.induct rule.pattern text.toArray with
  | case1 position beyond =>
    have done : text.drop position = [] := List.drop_eq_nil_of_le (Nat.le_of_lt (by simpa using beyond))
    rw [Pattern.matchesFrom_beyond beyond, done]
    exact .nil
  | case2 position inside miss ih =>
    rw [Pattern.matchesFrom_miss inside miss] at steps ⊢
    have within : position ≤ text.length := by simpa using inside
    rcases Nat.lt_or_eq_of_le within with short | rfl
    · have later : ∀ found ∈ rule.pattern.matchesFrom text.toArray (position + 1),
          position < found.start ∧ found.start < found.stop :=
        fun found member => Pattern.order_of_mem_matchesFrom member
      have none := finds.complete text position within miss
      have here := frees _ _ (List.take_append_drop position text).symm none
      rw [List.drop_eq_getElem_cons short] at here ⊢
      rw [rule.replaceMatches_copy _ _ later]
      exact .copy here (ih steps)
    · rw [Pattern.matchesFrom_beyond (by simp), List.drop_length]
      exact .nil
  | case3 position inside point hit moved ih =>
    rw [Pattern.matchesFrom_hit inside hit moved] at steps ⊢
    have here := steps _ List.mem_cons_self
    have cut : text.drop position =
        Span.units text.toArray ⟨position, point.position⟩ ++ text.drop point.position := by
      rw [Span.units_eq]
      conv => lhs; rw [← List.take_append_drop (point.position - position) (text.drop position)]
      rw [List.drop_drop, show position + (point.position - position) = point.position by omega]
    have rest := ih fun found member => steps found (List.mem_cons_of_mem _ member)
    rw [replaceMatches, show (rule.pattern.matchOf text.toArray position point).start - position = 0 from
      Nat.sub_self position, List.take_zero, List.nil_append, List.drop_drop,
      show position + ((rule.pattern.matchOf text.toArray position point).stop - position) = point.position from
        Nat.add_sub_cancel' (Nat.le_of_lt moved), cut]
    exact .exchange here rest
  | case4 position inside point hit still ih =>
    exact absurd (finds.moves text position point (by simpa using inside) hit) still

/-- A rule copies the units that nothing of its kind starts at, and exchanges its matches. -/
theorem rewrites_apply {free : Text → Prop} {step : Text → Text → Prop} (text : Text)
    (frees : ∀ before after, text = before ++ after → ¬ Starts kind after → free after)
    (steps : ∀ found ∈ rule.pattern.matchesIn text, step found.text (rule.replacement.fill found.captures)) :
    Rewrites free step text (rule.apply text).text :=
  rewrites_from finds text frees 0 steps

theorem apply_eq_self {text : Text} (none : ¬ Occurs kind text) : rule.apply text = ⟨text, 0⟩ := by
  rw [apply, finds.matchesIn_eq_nil none]
  rfl

end

end Rule

end Emend
