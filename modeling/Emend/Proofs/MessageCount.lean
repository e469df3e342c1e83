import Emend.Proofs.MessageSettled

/-! Counting what the message rules use up. A message begins with its word, blanks and a brace. Every exchange takes
at least one such beginning away and adds none, neither in what is written nor where it meets the text around it. It
adds no units outside of ASCII either. -/

namespace Emend

open Text Template Pattern

/-- A unit outside of ASCII. -/
def Text.isForeign (u : UInt16) : Bool := 0x80 ≤ u

def Text.foreign (t : Text) : Nat := t.countP isForeign

theorem Text.foreign_append (a b : Text) : foreign (a ++ b) = foreign a + foreign b := List.countP_append

theorem Text.not_isForeign_of_isWord {u : UInt16} (word : isWord u = true) : isForeign u = false := by
  rw [← Bool.not_eq_true]
  simp only [isForeign, isWord, isLetter, isLower, isUpper, isDigit, underscore, Bool.or_eq_true, Bool.and_eq_true,
    decide_eq_true_eq, beq_iff_eq, UInt16.le_iff_toNat_le, ← UInt16.toNat_inj, UInt16.reduceToNat] at word ⊢
  omega

namespace Message

/-- A text begins as a message does: with the word, perhaps blanks, and a brace. -/
def isBeginning (t : Text) : Bool :=
  messageWord.isPrefixOf t && ((t.drop messageWord.length).dropWhile isBlank).head? == some openBrace

def beginnings : Text → Nat
  | [] => 0
  | u :: t => (if isBeginning (u :: t) then 1 else 0) + beginnings t

theorem isBeginning_iff {t : Text} : isBeginning t = true ↔
    ∃ blanks rest, t = (messageWord ++ (blanks ++ [openBrace])) ++ rest ∧ ∀ u ∈ blanks, isBlank u = true := by
  rw [isBeginning, Bool.and_eq_true, beq_iff_eq, List.isPrefixOf_iff_prefix]
  constructor
  · rintro ⟨⟨after, rfl⟩, brace⟩
    rw [List.drop_left] at brace
    obtain ⟨rest, follows⟩ := List.head?_eq_some_iff.mp brace
    refine ⟨after.takeWhile isBlank, rest, ?_, fun u member => List.all_eq_true.mp List.all_takeWhile u member⟩
    conv => lhs; rw [← @List.takeWhile_append_dropWhile _ isBlank after, follows]
    simp
  · rintro ⟨blanks, rest, rfl, blank⟩
    have last : isBlank openBrace = false := by decide
    refine ⟨⟨blanks ++ [openBrace] ++ rest, by simp⟩, ?_⟩
    rw [List.append_assoc, List.drop_left, List.append_assoc, List.dropWhile_append_of_pos blank, List.singleton_append,
      List.dropWhile_cons_of_neg (by simp [last])]
    rfl

theorem isBeginning_append {t : Text} (begins : isBeginning t = true) (after : Text) : isBeginning (t ++ after) = true := by
  obtain ⟨blanks, rest, rfl, blank⟩ := isBeginning_iff.mp begins
  exact isBeginning_iff.mpr ⟨blanks, rest ++ after, List.append_assoc .., blank⟩

theorem beginnings_add_le (a b : Text) : beginnings a + beginnings b ≤ beginnings (a ++ b) := by
  induction a with
  | nil => exact Nat.le_of_eq (Nat.zero_add _)
  | cons u a ih =>
    have more : (if isBeginning (u :: a) then 1 else 0) ≤ if isBeginning (u :: (a ++ b)) then 1 else 0 := by
      split
      next begins =>
        have still : isBeginning (u :: (a ++ b)) = true := isBeginning_append begins b
        rw [if_pos still]
      next => exact Nat.zero_le _
    rw [beginnings, List.cons_append, beginnings]
    omega

/-- A unit that cannot stand in a beginning, so that none runs across it. -/
def Parts (u : UInt16) : Prop := u ∉ messageWord ∧ isBlank u = false ∧ u ≠ openBrace

instance (u : UInt16) : Decidable (Parts u) := inferInstanceAs (Decidable (_ ∧ _ ∧ _))

theorem isBeginning_across {u : UInt16} (parts : Parts u) (a b : Text) :
    isBeginning (a ++ u :: b) = isBeginning a := by
  apply Bool.eq_iff_iff.mpr
  constructor
  · intro begins
    obtain ⟨blanks, rest, same, blank⟩ := isBeginning_iff.mp begins
    have absent : u ∉ messageWord ++ (blanks ++ [openBrace]) := by
      simp only [List.mem_append, List.mem_singleton, not_or]
      refine ⟨parts.1, ?_, parts.2.2⟩
      intro member
      exact Bool.false_ne_true (parts.2.1.symm.trans (blank u member))
    obtain ⟨middle, rfl, _⟩ := append_eq_of_not_mem absent same.symm
    exact isBeginning_iff.mpr ⟨blanks, middle, rfl, blank⟩
  · intro begins
    exact isBeginning_append begins _

theorem beginnings_across {u : UInt16} (parts : Parts u) (a b : Text) :
    beginnings (a ++ u :: b) = beginnings a + beginnings b := by
  induction a with
  | nil =>
    have none : isBeginning (u :: b) = false := isBeginning_across parts [] b
    rw [List.nil_append, beginnings, beginnings, none]
    rfl
  | cons v a ih =>
    have same : isBeginning (v :: (a ++ u :: b)) = isBeginning (v :: a) := isBeginning_across parts (v :: a) b
    rw [List.cons_append, beginnings, beginnings, same, ih, Nat.add_assoc]

theorem beginnings_eq_zero {t : Text} (absent : openBrace ∉ t) : beginnings t = 0 := by
  induction t with
  | nil => rfl
  | cons u t ih =>
    have none : isBeginning (u :: t) = false := by
      rw [← Bool.not_eq_true, isBeginning_iff]
      rintro ⟨blanks, rest, same, _⟩
      exact absent (by rw [same]; simp)
    rw [beginnings, none, ih fun member => absent (List.mem_cons_of_mem _ member)]
    rfl

theorem Opening.isBeginning {role opening : Text} (opens : Opening role opening) : isBeginning opening = true := by
  obtain ⟨head, field, rfl, begins, _, _⟩ := opens
  rw [show openingText = messageWord ++ space :: openBrace :: units " role: Role::" by decide] at begins
  obtain ⟨head, rfl, follows⟩ := begins.solid_append (List.all_iff_forall_prop.mp (by decide))
  obtain ⟨blanks, rest, rfl, blank, _⟩ := @LiteralFits.blank_run _ _ [space] openBrace (List.cons_ne_nil _ _)
    (List.all_iff_forall_prop.mp (by decide)) (by decide) follows
  exact isBeginning_iff.mpr ⟨blanks, rest ++ (role ++ field), by simp, blank⟩

theorem Opening.one_le_beginnings {role opening : Text} (opens : Opening role opening) : 1 ≤ beginnings opening := by
  have begins := opens.isBeginning
  cases opening with
  | nil => cases begins
  | cons u opening =>
    rw [beginnings, if_pos begins]
    exact Nat.le_add_right _ _

/-- A beginning is copied as a whole, since nothing that is written starts inside of it. -/
theorem never_mark_beginning {blanks : Text} (blank : ∀ u ∈ blanks, isBlank u = true) :
    Never (mark <+: ·) (messageWord ++ (blanks ++ [openBrace])) := by
  have plain : Never (mark <+: ·) [openBrace] := never_mark_of_not_mem (by decide)
  cases blanks with
  | nil => exact never_mark_word messageWord_word (by decide) (by decide)
  | cons u blanks =>
    have own := blank u List.mem_cons_self
    have other : u ≠ colon := by
      rintro rfl
      cases own
    have later : Never (mark <+: ·) blanks := by
      apply never_mark_of_not_mem
      intro member
      cases blank _ (List.mem_cons_of_mem _ member)
    have whole := (never_mark_word messageWord_word (isWord_of_isBlank own) other).append (later.append plain)
    simpa using whole

section

variable {manner : Manner} {ending : Ending} {sort : Text → Prop} {found written old new : Text}

theorem Step.beginnings_lt (step : Step manner ending sort found written) :
    beginnings (written ++ new) + beginnings old < beginnings (found ++ old) + beginnings new := by
  obtain ⟨role, content, ⟨opening, rest, rfl, opens, inside, _⟩, _, rfl⟩ := step
  have word := opens.word
  have call : openBrace ∉ capital :: (units "essage::text(Role::" ++ role) := by
    simp only [List.mem_cons, List.mem_append, not_or]
    exact ⟨by decide, by decide, not_mem_of_isWord word (by decide)⟩
  have argument : beginnings (space :: (manner.wrap ++ (content ++ manner.wrap))) ≤ beginnings content := by
    cases manner with
    | quoted =>
      have first := beginnings_across (u := quote) (by decide) [space] (content ++ [quote])
      have last := beginnings_across (u := quote) (by decide) content []
      have blank : beginnings [space] = 0 := beginnings_eq_zero (by decide)
      have empty : beginnings [] = 0 := rfl
      simp only [Manner.wrap, List.cons_append, List.nil_append] at first ⊢
      omega
    | named =>
      have plain : openBrace ∉ space :: content := by
        rw [List.mem_cons, not_or]
        exact ⟨by decide, not_mem_of_isWord inside (by decide)⟩
      simp only [Manner.wrap, List.nil_append, List.append_nil]
      rw [beginnings_eq_zero plain]
      exact Nat.zero_le _
  have whole : shortText role (manner.wrap ++ (content ++ manner.wrap)) ++ new =
      (capital :: (units "essage::text(Role::" ++ role)) ++
        comma :: (space :: (manner.wrap ++ (content ++ manner.wrap)) ++ closeParen :: new) := by
    rw [shortText_eq]
    simp
  have after : beginnings (shortText role (manner.wrap ++ (content ++ manner.wrap)) ++ new) ≤
      beginnings content + beginnings new := by
    rw [whole, beginnings_across (by decide), beginnings_across (by decide), beginnings_eq_zero call]
    omega
  have before : 1 + beginnings content + beginnings old ≤
      beginnings (opening ++ (manner.wrap ++ (content ++ (manner.wrap ++ rest))) ++ old) := by
    have own := opens.one_le_beginnings
    have first := beginnings_add_le opening (manner.wrap ++ (content ++ (manner.wrap ++ rest)))
    have second := beginnings_add_le manner.wrap (content ++ (manner.wrap ++ rest))
    have third := beginnings_add_le content (manner.wrap ++ rest)
    have last := beginnings_add_le (opening ++ (manner.wrap ++ (content ++ (manner.wrap ++ rest)))) old
    omega
  omega

theorem Step.foreign_le (step : Step manner ending sort found written) : foreign written ≤ foreign found := by
  obtain ⟨role, content, ⟨opening, rest, rfl, opens, _, _⟩, _, rfl⟩ := step
  have plain : foreign role = 0 := by
    apply List.countP_eq_zero.mpr
    intro u member
    simp [not_isForeign_of_isWord (opens.word.2 u member)]
  have wrap : foreign manner.wrap = 0 := by cases manner <;> decide
  have first : foreign (units "Message::text(Role::") = 0 := by decide
  have between : foreign (units ", ") = 0 := by decide
  have last : foreign (units ")") = 0 := by decide
  simp only [shortText, foreign_append, plain, wrap, first, between, last]
  omega

theorem foreign_le_of_rewrites {free : Text → Prop} (rewrites : Rewrites free (Step manner ending sort) old new) :
    foreign new ≤ foreign old := by
  induction rewrites with
  | nil => exact Nat.le_refl _
  | @copy u old new here rest ih =>
    rw [foreign, foreign, List.countP_cons, List.countP_cons]
    exact Nat.add_le_add_right ih _
  | exchange here rest ih =>
    rw [foreign_append, foreign_append]
    exact Nat.add_le_add here.foreign_le ih

theorem isBeginning_lifts {free : Text → Prop} (rewrites : Rewrites free (Step manner ending sort) old new)
    (begins : isBeginning new = true) : isBeginning old = true := by
  obtain ⟨blanks, rest, rfl, blank⟩ := isBeginning_iff.mp begins
  obtain ⟨others, rfl, _⟩ := rewrites.peel (fun _ _ => Step.marks) (never_mark_beginning blank)
  exact isBeginning_iff.mpr ⟨blanks, others, rfl, blank⟩

theorem beginnings_copy_le {free : Text → Prop} {u : UInt16}
    (rewrites : Rewrites free (Step manner ending sort) (u :: old) (u :: new)) :
    (if isBeginning (u :: new) then 1 else 0) ≤ if isBeginning (u :: old) then 1 else 0 := by
  split
  next begins => rw [if_pos (isBeginning_lifts rewrites begins)]
  next => exact Nat.zero_le _

theorem beginnings_le_of_rewrites {free : Text → Prop} (rewrites : Rewrites free (Step manner ending sort) old new) :
    beginnings new ≤ beginnings old := by
  induction rewrites with
  | nil => exact Nat.le_refl _
  | @copy u old new here rest ih =>
    have first := beginnings_copy_le (.copy here rest)
    rw [beginnings, beginnings]
    omega
  | @exchange found written old new here rest ih =>
    have less := @Step.beginnings_lt _ _ _ _ _ old new here
    omega

theorem beginnings_lt_of_rewrites
    (rewrites : Rewrites (fun t => ¬ Starts (IsConstruct manner ending) t) (Step manner ending sort) old new)
    (occurs : Occurs (IsConstruct manner ending) old) : beginnings new < beginnings old := by
  induction rewrites with
  | nil =>
    obtain ⟨before, after, place, starts⟩ := occurs
    obtain ⟨_, rfl⟩ := List.append_eq_nil_iff.mp place.symm
    exact absurd rfl (headed_of_starts starts).unmarked.1
  | @copy u old new here rest ih =>
    obtain ⟨before, after, place, starts⟩ := occurs
    cases before with
    | nil =>
      obtain rfl : u :: old = after := place
      exact absurd starts here
    | cons v before =>
      obtain ⟨rfl, later⟩ := List.cons.inj place
      have less := ih ⟨before, after, later, starts⟩
      have first := beginnings_copy_le (.copy here rest)
      rw [beginnings, beginnings]
      omega
  | @exchange found written old new here rest =>
    have less := @Step.beginnings_lt _ _ _ _ _ old new here
    have others := beginnings_le_of_rewrites rest
    omega

end

/-- What a run of rules uses up: beginnings, if it finds anything, and it adds nothing outside of ASCII. -/
structure Uses (t : Text) (result : Count) : Prop where
  foreign : result.text.foreign ≤ t.foreign
  same : result.count = 0 → result.text = t
  fewer : result.count ≠ 0 → beginnings result.text < beginnings t

section

variable {manner : Manner} {ending : Ending} {rule : Rule}

theorem Shortens.uses (shortens : Shortens manner ending rule) (t : Text) : Uses t (rule.apply t) := by
  have steps : ∀ found ∈ rule.pattern.matchesIn t,
      Step manner ending (fun _ => True) found.text (rule.replacement.fill found.captures) := by
    intro found member
    exact shortens.step member fun _ _ _ _ => trivial
  have rewrites := Rule.rewrites_apply shortens.finds t (fun _ _ _ none => none) steps
  refine ⟨foreign_le_of_rewrites rewrites, ?_, ?_⟩
  · intro none
    have empty : rule.pattern.matchesIn t = [] := List.eq_nil_of_length_eq_zero none
    rw [Rule.apply, empty]
    rfl
  · intro some
    apply beginnings_lt_of_rewrites rewrites
    obtain ⟨found, member⟩ := List.exists_mem_of_ne_nil _ fun empty => some (congrArg List.length empty)
    obtain ⟨before, after, place, kind⟩ := shortens.finds.occurs member
    exact ⟨before, _, place, found.text, after, rfl, kind⟩

theorem Uses.next {t : Text} {first second : Count} (uses : Uses t first) (later : Uses first.text second) :
    Uses t ⟨second.text, first.count + second.count⟩ := by
  refine ⟨Nat.le_trans later.foreign uses.foreign, ?_, ?_⟩
  · intro none
    obtain ⟨before, after⟩ := Nat.add_eq_zero_iff.mp none
    exact (later.same after).trans (uses.same before)
  · intro some
    show beginnings second.text < beginnings t
    by_cases after : second.count = 0
    · rw [later.same after]
      apply uses.fewer
      intro before
      exact some (Nat.add_eq_zero_iff.mpr ⟨before, after⟩)
    · have less := later.fewer after
      by_cases before : first.count = 0
      · rwa [uses.same before] at less
      · exact Nat.lt_trans less (uses.fewer before)

theorem uses_applyAll {rules : List Rule} (shorten : ∀ rule ∈ rules, ∃ manner ending, Shortens manner ending rule)
    (t : Text) : Uses t (Rule.applyAll rules t) := by
  suffices run : ∀ current : Count, Uses t current → Uses t (rules.foldl (fun current rule =>
      ⟨(rule.apply current.text).text, current.count + (rule.apply current.text).count⟩) current) from
    run ⟨t, 0⟩ ⟨Nat.le_refl _, fun _ => rfl, fun some => absurd rfl some⟩
  induction rules with
  | nil => exact fun _ uses => uses
  | cons rule rules ih =>
    intro current uses
    obtain ⟨manner, ending, shortens⟩ := shorten rule List.mem_cons_self
    exact ih (fun rule member => shorten rule (List.mem_cons_of_mem _ member)) _ (uses.next (shortens.uses current.text))

end

end Message

end Emend
