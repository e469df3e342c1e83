import Emend.Proofs.MessageRewrite
import Emend.Proofs.PatternParse
import Emend.Proofs.RuleFilling

/-! The message rules compile, and each finds one kind of construct and writes one kind of call. On a text with
a single construct a rule for quotes is worked out, whatever stands around the construct. -/

namespace Emend

open Text Template Pattern Expression

theorem mapM_cons_eq_ok {ε α β : Type} {f : α → Except ε β} {item : α} {items : List α} {first : β} {rest : List β}
    (own : f item = .ok first) (later : items.mapM f = .ok rest) : (item :: items).mapM f = .ok (first :: rest) := by
  rw [List.mapM_cons, own, later]
  rfl

namespace Pattern

theorem Run.quotable {constraint : Text} {set : UnitSet} (run : Run constraint set)
    (quiet : ∀ u ∈ escapes constraint, NoReference u) : Quotable constraint where
  unnamed expression parse := by
    obtain rfl := Except.ok.inj (run.parse.symm.trans parse)
    rfl
  quiet := quiet

end Pattern

namespace Message

/-- What a rule writes: a call with the content, in the manner of the construct. -/
def callText (manner : Manner) : Text :=
  units "Message::text(Role::" ++
    freeText roleName (units ", " ++ manner.wrap ++ freeText contentName (manner.wrap ++ units ")"))

def callTokens (manner : Manner) : List Token :=
  [.literal (units "Message::text(Role::"), .hole ⟨roleName, none⟩, .literal (units ", " ++ manner.wrap),
    .hole ⟨contentName, none⟩, .literal (manner.wrap ++ units ")")]

/-- A rule that finds the constructs of one manner and ending, and writes calls for them. -/
structure Shortens (manner : Manner) (ending : Ending) (rule : Rule) : Prop where
  compile : Pattern.compile (patternSource manner ending) = .ok rule.pattern
  read : rule.replacement.tokens = callTokens manner

section

variable (manner : Manner) (ending : Ending)

theorem tokens_callText : Template.tokens (callText manner) = .ok (callTokens manner) := by
  have between : isVerbatim (some colon) (units ", " ++ manner.wrap) = true := by cases manner <;> decide
  have last : isVerbatim none (manner.wrap ++ units ")") = true := by cases manner <;> decide
  refine tokensFrom_literal (by decide) (show isVerbatim (some colon) _ = true by decide) rfl
    (tokensFrom_freeText roleName_word (by decide) (fun offset => ?_) _)
  refine tokensFrom_literal (List.append_ne_nil_of_left_ne_nil (by decide) _) between rfl
    (tokensFrom_freeText contentName_word (by decide) (fun offset => ?_) _)
  exact tokensFrom_last (List.append_ne_nil_of_right_ne_nil _ (by decide)) last offset

theorem exists_pattern : ∃ pattern, Pattern.compile (patternSource manner ending) = .ok pattern ∧
    pattern.holes = [roleName, contentName] := by
  obtain ⟨pattern, compile, holes⟩ := exists_compile (tokens_patternSource manner ending)
    (by rw [trimOuter_pattern]; rfl) fun hole constraint member given => by
      obtain ⟨other, rfl⟩ := manner_of_constraint member given
      exact other.run.quotable (List.all_iff_forall_prop.mp (by cases other <;> decide))
  rw [trimOuter_pattern] at holes
  exact ⟨pattern, compile, holes⟩

theorem exists_shortens (name : Text) : ∃ rule,
    Rule.compile ⟨name, patternSource manner ending, callText manner⟩ = .ok rule ∧ Shortens manner ending rule := by
  obtain ⟨pattern, compile, holes⟩ := exists_pattern manner ending
  have drawn : Replacement.holes ⟨callText manner, callTokens manner⟩ = [roleName, contentName] := rfl
  have fits : Rule.unknownHoles pattern ⟨callText manner, callTokens manner⟩ = [] := by
    rw [Rule.unknownHoles, drawn, holes]
    decide
  obtain ⟨rule, made, rfl, read⟩ := @Rule.exists_compile ⟨name, patternSource manner ending, callText manner⟩ _ _
    compile (tokens_callText manner) fits
  exact ⟨rule, made, compile, read⟩

end

theorem quotedCall_source : units "Message::text(Role:::[role], \":[content]\")" = callText .quoted := by decide

theorem namedCall_source : units "Message::text(Role:::[role], :[content])" = callText .named := by decide

theorem exists_messageRules : ∃ first second third, Preset.messageText.compileRules = .ok [first, second, third] ∧
    Shortens .quoted explicitNone first ∧ Shortens .quoted defaulted second ∧ Shortens .named defaulted third := by
  obtain ⟨first, own, isFirst⟩ :=
    exists_shortens .quoted explicitNone (units "message-text" ++ units "/" ++ units "explicit-none-fields")
  obtain ⟨second, next, isSecond⟩ :=
    exists_shortens .quoted defaulted (units "message-text" ++ units "/" ++ units "default-fields-string")
  obtain ⟨third, last, isThird⟩ :=
    exists_shortens .named defaulted (units "message-text" ++ units "/" ++ units "default-fields-variable")
  refine ⟨first, second, third, ?_, isFirst, isSecond, isThird⟩
  rw [Document.compileRules, Preset.messageText, explicitNone_source, defaulted_source, variable_source,
    quotedCall_source, namedCall_source]
  exact mapM_cons_eq_ok own (mapM_cons_eq_ok next (mapM_cons_eq_ok last rfl))

theorem solid_of_trimEnd {t : Text} (closed : trimEnd t = t) (u : UInt16) (final : t.getLast? = some u) :
    isBlank u = false := by
  have outside := List.head?_dropWhile_not isBlank t.reverse
  rw [List.reverse_eq_iff.mp closed, List.head?_reverse, final] at outside
  simpa using outside

theorem Opening.role_unique {role other opening : Text} (opens : Opening role opening)
    (reopens : Opening other opening) : role = other := by
  obtain ⟨head, field, rfl, begins, word, between⟩ := opens
  obtain ⟨otherHead, otherField, same, otherBegins, otherWord, otherBetween⟩ := reopens
  rw [show fieldText = comma :: units " content: " by decide] at between otherBetween
  obtain ⟨field, rfl, _⟩ := between.solid_cons (by decide)
  obtain ⟨otherField, rfl, _⟩ := otherBetween.solid_cons (by decide)
  obtain ⟨rfl, later⟩ := begins.prefix_unique (solid_of_trimEnd (by decide)) otherBegins same
  exact (first_outside isWord word.2 otherWord.2 (by decide) (by decide) later).1

/-- Two constructs in quotes that begin at one place are the same. -/
theorem Construct.unique {ending : Ending} {role content other inner t again rest others : Text}
    (shape : Construct .quoted ending role content t) (reshape : Construct .quoted ending other inner again)
    (same : t ++ rest = again ++ others) : t = again ∧ rest = others ∧ role = other ∧ content = inner := by
  obtain ⟨opening, tail, rfl, opens, unquoted, ends⟩ := shape
  obtain ⟨otherOpening, otherTail, rfl, reopens, otherUnquoted, reends⟩ := reshape
  simp only [Manner.wrap, List.append_assoc, List.cons_append] at same
  obtain ⟨rfl, later⟩ := first_of opens.quote_not_mem reopens.quote_not_mem same
  obtain ⟨rfl, last⟩ := first_of unquoted.2 otherUnquoted.2 later
  obtain ⟨rfl, rfl⟩ := ends.prefix_unique (solid_of_trimEnd ending.closed) reends last
  exact ⟨rfl, rfl, opens.role_unique reopens, rfl⟩

def quotedCall (role content : Text) : Text := shortText role (quote :: (content ++ [quote]))

namespace Shortens

section

variable {manner : Manner} {ending : Ending} {rule : Rule} (shortens : Shortens manner ending rule)
include shortens

theorem finds : rule.pattern.Finds (IsConstruct manner ending) := Message.finds shortens.compile

theorem fill (role content : Text) : rule.replacement.fill (bindings role content) =
    shortText role (manner.wrap ++ (content ++ manner.wrap)) := by
  have roleNamed : Hole.anonymous ⟨roleName, none⟩ = false := by decide
  have contentNamed : Hole.anonymous ⟨contentName, none⟩ = false := by decide
  have apart : (contentName == roleName) = false := by decide
  rw [Replacement.fill, shortens.read, callTokens, shortText]
  simp [Replacement.fillToken, roleNamed, contentNamed, bindings, List.lookup_cons, apart]

theorem step {t : Text} {found : Match} {sort : Text → Prop} (member : found ∈ rule.pattern.matchesIn t)
    (sorted : ∀ role content, found.captures = bindings role content →
      Construct manner ending role content found.text → sort content) :
    Step manner ending sort found.text (rule.replacement.fill found.captures) := by
  obtain ⟨role, content, captured, shape⟩ := captures shortens.compile member
  refine ⟨role, content, shape, sorted role content captured shape, ?_⟩
  rw [captured, shortens.fill]

end

section

variable {ending : Ending} {rule : Rule} (shortens : Shortens .quoted ending rule) {role content t : Text}
  (shape : Construct .quoted ending role content t)
include shortens shape

/-- A rule for quotes on a text with one construct exchanges it, and keeps the rest. -/
theorem apply_text {before after : Text} (never : Never (Starts (IsConstruct .quoted ending)) before)
    (none : ¬ Occurs (IsConstruct .quoted ending) after) :
    (rule.apply (before ++ (t ++ after))).text = before ++ (quotedCall role content ++ after) := by
  have kinds : ∀ found written, Step .quoted ending (fun _ => True) found written → IsConstruct .quoted ending found :=
    fun found written ⟨role, content, shape, _⟩ => ⟨role, content, shape⟩
  have steps : ∀ found ∈ rule.pattern.matchesIn (before ++ (t ++ after)),
      Step .quoted ending (fun _ => True) found.text (rule.replacement.fill found.captures) :=
    fun found member => shortens.step member fun _ _ _ _ => trivial
  obtain ⟨rest, whole, rewrites⟩ :=
    (Rule.rewrites_apply shortens.finds _ (fun _ _ _ none => none) steps).skip kinds never
  obtain ⟨written, last, ⟨other, inner, reshape, _, rfl⟩, rfl, later⟩ := rewrites.front ⟨role, content, shape⟩
    (by obtain ⟨_, _, rfl, _⟩ := shape; simp [Manner.wrap]) fun found written rest ⟨other, inner, reshape, _⟩ same =>
      ⟨(shape.unique reshape same).1, (shape.unique reshape same).2.1⟩
  obtain ⟨_, _, rfl, rfl⟩ := shape.unique reshape (show t ++ after = t ++ after from rfl)
  rw [whole, later.eq_of_not_occurs kinds none]
  rfl

/-- In a construct that no other can start in, a rule for quotes captures its role and its content. -/
theorem captures_alone (alone : capital ∉ t.tail) {found : Match} (member : found ∈ rule.pattern.matchesIn t) :
    found.captures = bindings role content := by
  obtain ⟨other, inner, captured, reshape⟩ := captures shortens.compile member
  obtain ⟨before, after, place, own⟩ := shortens.finds.occurs member
  cases before with
  | nil =>
    obtain ⟨_, _, rfl, rfl⟩ := shape.unique reshape ((List.append_nil t).trans place)
    exact captured
  | cons u before =>
    have headed := head_of_headed (headed_of_starts ⟨found.text, after, rfl, own⟩)
    rw [place] at alone
    exact absurd (List.mem_append_right _ (List.mem_of_mem_head? headed)) alone

end

end Shortens

section

variable {manner : Manner} {ending : Ending} {t : Text}

theorem mem_of_isConstruct {u : UInt16} (member : u ∈ ending.text) (solid : isBlank u = false) (t : Text)
    (kind : IsConstruct manner ending t) : u ∈ t := by
  obtain ⟨_, _, opening, rest, rfl, _, _, ends⟩ := kind
  simp [ends.mem solid member]

theorem brace_of_isConstruct (t : Text) (kind : IsConstruct manner ending t) : openBrace ∈ t := by
  obtain ⟨_, _, _, rest, rfl, ⟨head, field, rfl, begins, _⟩, _⟩ := kind
  exact List.mem_append_left _ (List.mem_append_left _ (begins.mem (by decide) (by decide)))

theorem not_occurs_explicit (absent : (0x4E : UInt16) ∉ t) : ¬ Occurs (IsConstruct manner explicitNone) t :=
  not_occurs_of_not_mem (mem_of_isConstruct (by decide) (by decide)) absent

theorem not_occurs_of_brace (absent : openBrace ∉ t) : ¬ Occurs (IsConstruct manner ending) t :=
  not_occurs_of_not_mem brace_of_isConstruct absent

def plainOpening (role : Text) : Text := openingText ++ (role ++ fieldText)

def plainText (ending : Ending) (role content : Text) : Text :=
  plainOpening role ++ quote :: (content ++ quote :: ending.text)

theorem construct_plainText {role content : Text} (word : IsWord role) (unquoted : IsUnquoted content) :
    Construct .quoted ending role content (plainText ending role content) :=
  ⟨plainOpening role, ending.text, rfl, ⟨openingText, fieldText, rfl, .refl _, word, .refl _⟩, unquoted, .refl _⟩

end

end Message

end Emend
