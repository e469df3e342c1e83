import Emend.Proofs.PatternSearch

/-! The pieces of an instance, each by itself: segments are taken apart at a token, literal text at a unit,
and the commonest constraint, one set of units once or more, is said without expressions. -/

namespace Emend.Pattern

open Text Template Expression

section

variable {allowed : Hole → Text → Prop} {bound final : List (Text × Text)} {tokens : List Token} {segments : List Text}

theorem segments_nil_iff : Segments allowed bound [] segments final ↔ segments = [] ∧ final = bound := by
  constructor
  · intro fits
    cases fits
    exact ⟨rfl, rfl⟩
  · rintro ⟨rfl, rfl⟩
    exact .nil _

theorem segments_literal_iff {value : Text} : Segments allowed bound (.literal value :: tokens) segments final ↔
    ∃ segment rest, segments = segment :: rest ∧ LiteralFits value segment ∧
      Segments allowed bound tokens rest final := by
  constructor
  · intro fits
    cases fits with
    | literal own rest => exact ⟨_, _, rfl, own, rest⟩
  · rintro ⟨segment, rest, rfl, own, fits⟩
    exact .literal own fits

theorem segments_first_iff {hole : Hole} (named : hole.anonymous = false) (fresh : bound.lookup hole.name = none) :
    Segments allowed bound (.hole hole :: tokens) segments final ↔
      ∃ segment rest, segments = segment :: rest ∧ allowed hole segment ∧
        Segments allowed (bound ++ [(hole.name, segment)]) tokens rest final := by
  constructor
  · intro fits
    cases fits with
    | anonymous unnamed =>
      rw [named] at unnamed
      cases unnamed
    | first _ _ own rest => exact ⟨_, _, rfl, own, rest⟩
    | again _ same =>
      rw [fresh] at same
      cases same
  · rintro ⟨segment, rest, rfl, own, fits⟩
    exact .first named fresh own fits

end

namespace LiteralFits

variable {value segment : Text}

theorem solid_cons {u : UInt16} (plain : isBlank u = false) (fits : LiteralFits (u :: value) segment) :
    ∃ rest, segment = u :: rest ∧ LiteralFits value rest := by
  generalize whole : u :: value = literal at fits
  cases fits with
  | nil => cases whole
  | unit _ rest =>
    obtain ⟨rfl, rfl⟩ := List.cons.inj whole
    exact ⟨_, rfl, rest⟩
  | @blanks run _ _ _ occupied run_blank =>
    cases run with
    | nil => exact absurd rfl occupied
    | cons v run =>
      obtain ⟨rfl, _⟩ := List.cons.inj whole
      rw [run_blank u List.mem_cons_self] at plain
      cases plain

theorem solid_append {front : Text} (plain : ∀ u ∈ front, isBlank u = false)
    (fits : LiteralFits (front ++ value) segment) : ∃ rest, segment = front ++ rest ∧ LiteralFits value rest := by
  induction front generalizing segment with
  | nil => exact ⟨segment, rfl, fits⟩
  | cons u front ih =>
    obtain ⟨rest, rfl, later⟩ := fits.solid_cons (plain u List.mem_cons_self)
    obtain ⟨last, rfl, own⟩ := ih (fun v member => plain v (List.mem_cons_of_mem _ member)) later
    exact ⟨last, rfl, own⟩

theorem blank_run {run : Text} {u : UInt16} (occupied : run ≠ []) (blank : ∀ v ∈ run, isBlank v = true)
    (plain : isBlank u = false) (fits : LiteralFits (run ++ u :: value) segment) :
    ∃ blanks rest, segment = blanks ++ u :: rest ∧ (∀ v ∈ blanks, isBlank v = true) ∧ LiteralFits value rest := by
  generalize whole : run ++ u :: value = literal at fits
  cases fits with
  | nil => simp at whole
  | unit solid =>
    cases run with
    | nil => exact absurd rfl occupied
    | cons v run =>
      obtain ⟨rfl, _⟩ := List.cons.inj whole
      rw [blank v List.mem_cons_self] at solid
      cases solid
  | @blanks other inner blanks segment _ other_blank longest blanks_blank fits =>
    cases inner with
    | nil =>
      rw [List.append_nil] at whole
      rw [other_blank u (whole ▸ List.mem_append_right _ List.mem_cons_self)] at plain
      cases plain
    | cons v inner =>
      obtain ⟨rfl, rfl, rfl⟩ := first_outside isBlank blank other_blank plain (longest v rfl) whole
      obtain ⟨rest, rfl, later⟩ := fits.solid_cons plain
      exact ⟨blanks, rest, rfl, blanks_blank, later⟩

/-- Where two texts agree, so do the starts of them that fit the same literal text, if that does not end with
a blank. -/
theorem prefix_unique {other rest others : Text} (fits : LiteralFits value segment)
    (last : ∀ u, value.getLast? = some u → isBlank u = false) (again : LiteralFits value other)
    (same : segment ++ rest = other ++ others) : segment = other ∧ rest = others := by
  induction fits generalizing other with
  | nil =>
    generalize whole : ([] : Text) = literal at again
    cases again with
    | nil => exact ⟨rfl, same⟩
    | unit => cases whole
    | blanks occupied => exact absurd (List.append_eq_nil_iff.mp whole.symm).1 occupied
  | @unit u value segment solid fits ih =>
    obtain ⟨other, rfl, later⟩ := again.solid_cons solid
    obtain ⟨_, same⟩ := List.cons.inj same
    obtain ⟨rfl, rfl⟩ := ih (fun v final => last v (by simp [List.getLast?_cons, final])) later same
    exact ⟨rfl, rfl⟩
  | @blanks run value blanks segment occupied run_blank longest blanks_blank fits ih =>
    cases value with
    | nil =>
      obtain ⟨front, v, rfl⟩ := (List.eq_nil_or_concat run).resolve_left occupied
      rw [List.concat_eq_append] at run_blank
      have final := last v (by simp)
      rw [run_blank v (List.mem_append_right _ List.mem_cons_self)] at final
      cases final
    | cons u value =>
      have solid := longest u rfl
      obtain ⟨otherBlanks, left, rfl, others_blank, later⟩ := again.blank_run occupied run_blank solid
      obtain ⟨segment, rfl, own⟩ := fits.solid_cons solid
      rw [List.append_assoc, List.append_assoc] at same
      obtain ⟨rfl, _, agree⟩ := first_outside isBlank blanks_blank others_blank solid solid same
      obtain ⟨tail, rfl⟩ := ih (fun v final => last v (by simp_all)) (.unit solid later) (congrArg (u :: ·) agree)
      exact ⟨by rw [tail], rfl⟩

theorem refl (t : Text) : LiteralFits t t := by
  induction measure : t.length using Nat.strongRecOn generalizing t with
  | ind size ih =>
    cases t with
    | nil => exact .nil
    | cons u t =>
      rw [List.length_cons] at measure
      cases blank : isBlank u with
      | false => exact .unit blank (ih t.length (by omega) t rfl)
      | true =>
        have cut := @List.takeWhile_append_dropWhile _ isBlank t
        have shorter : (t.dropWhile isBlank).length < size := by
          have whole := congrArg List.length cut
          rw [List.length_append] at whole
          omega
        have run_blank : ∀ v ∈ u :: t.takeWhile isBlank, isBlank v = true := by
          intro v member
          rcases List.mem_cons.mp member with rfl | later
          · exact blank
          · exact List.all_eq_true.mp List.all_takeWhile v later
        have fits : LiteralFits (u :: t.takeWhile isBlank ++ t.dropWhile isBlank)
            (u :: t.takeWhile isBlank ++ t.dropWhile isBlank) := by
          refine .blanks (List.cons_ne_nil _ _) run_blank (fun v first => ?_) run_blank (ih _ shorter _ rfl)
          have outside := List.head?_dropWhile_not isBlank t
          rw [first] at outside
          simpa using outside
        rwa [List.cons_append, cut] at fits

theorem mem_or_blank (fits : LiteralFits value segment) {u : UInt16} (member : u ∈ segment) :
    u ∈ value ∨ isBlank u = true := by
  induction fits with
  | nil => cases member
  | unit _ _ ih =>
    rcases List.mem_cons.mp member with rfl | later
    · exact .inl List.mem_cons_self
    · exact (ih later).imp_left (List.mem_cons_of_mem _)
  | blanks _ _ _ blanks_blank _ ih =>
    rcases List.mem_append.mp member with before | after
    · exact .inr (blanks_blank u before)
    · exact (ih after).imp_left (List.mem_append_right _)

theorem not_mem (fits : LiteralFits value segment) {u : UInt16} (absent : u ∉ value) (solid : isBlank u = false) :
    u ∉ segment := by
  intro member
  rcases fits.mem_or_blank member with inside | blank
  · exact absent inside
  · rw [solid] at blank
    cases blank

end LiteralFits

theorem literalFits_nil_iff {segment : Text} : LiteralFits [] segment ↔ segment = [] := by
  constructor
  · intro fits
    generalize whole : ([] : Text) = value at fits
    cases fits with
    | nil => rfl
    | unit => cases whole
    | blanks occupied => exact absurd (List.append_eq_nil_iff.mp whole.symm).1 occupied
  · rintro rfl
    exact .nil

theorem literalFits_solid_iff {value segment : Text} (solid : ∀ u ∈ value, isBlank u = false) :
    LiteralFits value segment ↔ segment = value := by
  constructor
  · intro fits
    rw [← List.append_nil value] at fits
    obtain ⟨rest, rfl, done⟩ := fits.solid_append solid
    rw [literalFits_nil_iff.mp done, List.append_nil]
  · rintro rfl
    exact .refl _

theorem literalFits_concat_iff {value segment : Text} {u : UInt16} (solid : isBlank u = false) :
    LiteralFits (value ++ [u]) segment ↔ ∃ front, segment = front ++ [u] ∧ LiteralFits value front := by
  constructor
  · intro fits
    generalize whole : value ++ [u] = literal at fits
    induction fits generalizing value with
    | nil => simp at whole
    | @unit v inner rest plain fits ih =>
      cases value with
      | nil =>
        obtain ⟨rfl, rfl⟩ := List.cons.inj whole
        exact ⟨[], by rw [literalFits_nil_iff.mp fits]; rfl, .nil⟩
      | cons w value =>
        obtain ⟨rfl, later⟩ := List.cons.inj whole
        obtain ⟨front, rfl, own⟩ := ih later
        exact ⟨w :: front, rfl, .unit plain own⟩
    | @blanks run inner blanks rest occupied run_blank longest blanks_blank _ ih =>
      rcases List.append_eq_append_iff.mp whole.symm with ⟨middle, rfl, later⟩ | ⟨middle, rfl, later⟩
      · obtain ⟨front, rfl, own⟩ := ih later.symm
        refine ⟨blanks ++ front, (List.append_assoc ..).symm, .blanks occupied run_blank ?_ blanks_blank own⟩
        intro v first
        exact longest v (by rw [later, List.head?_append, first]; rfl)
      · rcases List.singleton_eq_append_iff.mp later with ⟨rfl, rfl⟩ | ⟨rfl, rfl⟩
        · obtain ⟨front, rfl, own⟩ := @ih [] rfl
          rw [List.append_nil] at occupied run_blank
          refine ⟨blanks ++ front, (List.append_assoc ..).symm, ?_⟩
          rw [← List.append_nil value]
          exact .blanks occupied run_blank (fun _ none => nomatch none) blanks_blank own
        · rw [run_blank u (List.mem_append_right _ List.mem_cons_self)] at solid
          cases solid
  · rintro ⟨front, rfl, fits⟩
    induction fits with
    | nil => exact .unit solid .nil
    | unit plain _ ih => exact .unit plain ih
    | @blanks run value blanks rest occupied run_blank longest blanks_blank _ ih =>
      rw [List.append_assoc, List.append_assoc]
      refine .blanks occupied run_blank (fun v first => ?_) blanks_blank ih
      cases value with
      | nil =>
        obtain rfl := Option.some.inj first
        exact solid
      | cons w value => exact longest v first

structure Run (constraint : Text) (set : UnitSet) : Prop where
  reads : ∀ groups, lexemes groups constraint = .ok [.atom (.unit set), .quantifier 1 none true]

namespace Run

variable {constraint : Text} {set : UnitSet} (run : Run constraint set)
include run

theorem parse : Expression.parse constraint =
    .ok ⟨constraint, .sequence (.loop (.unit set) 1 none true) .empty, []⟩ := by
  simp only [Expression.parse, run.reads, bind, Except.bind]
  rfl

theorem regular (pattern : Pattern) : Regular pattern constraint where
  alone := ⟨_, run.parse, rfl, rfl⟩
  inside first groups _ _ := ⟨_, run.reads groups, fun index member => by simp at member⟩

theorem language (t : Text) : Language constraint t ↔ t ≠ [] ∧ ∀ u ∈ t, set.contains u = true := by
  constructor
  · rintro ⟨expression, parse, accepts⟩
    obtain rfl := Except.ok.inj (run.parse.symm.trans parse)
    obtain ⟨_, _, rfl, ⟨pieces, rfl, each, enough, _⟩, rfl⟩ := accepts
    rw [List.append_nil]
    refine ⟨?_, fun u member => ?_⟩
    · obtain ⟨piece, member⟩ := List.exists_mem_of_length_pos enough
      obtain ⟨u, _, rfl⟩ := each piece member
      exact List.ne_nil_of_mem (List.mem_flatten.mpr ⟨[u], member, List.mem_cons_self⟩)
    · obtain ⟨piece, among, inside⟩ := List.mem_flatten.mp member
      obtain ⟨v, contained, rfl⟩ := each piece among
      rwa [List.mem_singleton.mp inside]
  · rintro ⟨occupied, inside⟩
    refine ⟨_, run.parse, t, [], (List.append_nil _).symm, ⟨t.map ([·]), ?_, ?_, ?_, fun _ none => nomatch none⟩, rfl⟩
    · exact (List.flatMap_singleton' t).symm
    · intro piece member
      obtain ⟨u, among, rfl⟩ := List.mem_map.mp member
      exact ⟨u, inside u among, rfl⟩
    · rw [List.length_map]
      exact List.length_pos_iff.mpr occupied

end Run

theorem contains_word (u : UInt16) : UnitSet.word.contains u = isWord u := by
  rw [Bool.eq_iff_iff]
  simp only [UnitSet.word, UnitSet.ofList, UnitSet.single, List.foldr, UnitSet.contains, isWord, isLetter, isLower,
    isUpper, isDigit, underscore,
    Bool.or_eq_true, Bool.and_eq_true, decide_eq_true_eq, beq_iff_eq, Bool.false_eq_true,
    or_false, UInt16.le_iff_toNat_le, ← UInt16.toNat_inj, UInt16.reduceToNat]
  constructor <;> intro inside <;> omega

theorem run_word : Run (units "\\w+") .word where
  reads groups := by
    have letter : LexemeReads groups backslash [0x77, plus] (.atom (.unit .word)) 1 := .escape rfl
    have back : LexemeReads groups plus [] (.quantifier 1 none true) 0 := .repetition [] rfl
    exact lexemes_eq_ok_iff.mpr (.next letter.result (.next back.result (.done [])))

theorem run_unquoted : Run (units "[^\"]+") (.complement (.single quote)) where
  reads groups := by
    have member : classMember groups quote [closeBracket, plus] = .ok (.unit quote, 0) := rfl
    have set : ClassReads groups [quote, closeBracket, plus] (UnitSet.merge (.single quote) .empty) 2 :=
      .single (by decide) member (by decide) (.closed [plus])
    have other : LexemeReads groups openBracket [caret, quote, closeBracket, plus]
        (.atom (.unit (.complement (.single quote)))) 3 := .otherClass set
    have back : LexemeReads groups plus [] (.quantifier 1 none true) 0 := .repetition [] rfl
    exact lexemes_eq_ok_iff.mpr (.next other.result (.next back.result (.done [])))

end Emend.Pattern
