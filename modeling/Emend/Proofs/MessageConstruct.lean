import Mathlib.Data.Bool.AllAny
import Emend.Preset.MessageText
import Emend.Proofs.PatternPieces
import Emend.Proofs.TemplateReading

/-! The constructs that the message rules look for, said as texts. A construct opens with a message and its
role; its content is text in quotes or a variable; and each rule asks for one ending after the content. The
patterns of the rules have exactly these constructs for instances. -/

namespace Emend.Message

open Text Template Pattern Expression

def openingText : Text := units "Message \x7b role: Role::"

def fieldText : Text := units ", content: "

/-- The first unit of a message, which nothing in an ending is. -/
abbrev capital : UInt16 := 0x4D

/-- What a rule asks for after the content: literal text without a quote and without the start of a message. -/
structure Ending where
  text : Text
  verbatim : isVerbatim none text = true
  dotted : text.head? = some dot
  closed : trimEnd text = text
  unquoted : quote ∉ text
  unmarked : capital ∉ text

theorem Ending.occupied (ending : Ending) : ending.text ≠ [] := by
  intro empty
  have dotted := ending.dotted
  rw [empty] at dotted
  cases dotted

def absentField (name : String) : Text := units name ++ units ": None, "

/-- The ending with every other field spelled out. -/
def explicitNone : Ending where
  text := units ".to_string(), " ++ (absentField "name" ++ (absentField "tool_calls" ++ (absentField "tool_call_id" ++
    (absentField "reasoning_content" ++ (absentField "reasoning" ++ (absentField "thought" ++
      (absentField "thinking" ++ [closeBrace])))))))
  verbatim := by decide
  dotted := by decide
  closed := by decide
  unquoted := by decide
  unmarked := by decide

/-- The ending with defaults for every other field. -/
def defaulted : Ending where
  text := units ".to_string(), " ++ units "..Default::default() \x7d"
  verbatim := by decide
  dotted := by decide
  closed := by decide
  unquoted := by decide
  unmarked := by decide

def roleName : Text := units "role"

def contentName : Text := units "content"

theorem roleName_word : ∀ u ∈ roleName, isWord u = true := List.all_iff_forall_prop.mp (by decide)

theorem contentName_word : ∀ u ∈ contentName, isWord u = true := List.all_iff_forall_prop.mp (by decide)

def wordConstraint : Text := units "\\w+"

def unquotedConstraint : Text := units "[^\"]+"

def IsWord (t : Text) : Prop := t ≠ [] ∧ ∀ u ∈ t, isWord u = true

def IsUnquoted (t : Text) : Prop := t ≠ [] ∧ quote ∉ t

/-- How a construct has its content: as text in quotes, or as a variable. -/
inductive Manner where
  | quoted
  | named

namespace Manner

def wrap : Manner → Text
  | quoted => [quote]
  | named => []

def constraint : Manner → Text
  | quoted => unquotedConstraint
  | named => wordConstraint

def unitSet : Manner → UnitSet
  | quoted => .complement (.single quote)
  | named => .word

def IsContent : Manner → Text → Prop
  | quoted => IsUnquoted
  | named => IsWord

theorem run (manner : Manner) : Run manner.constraint manner.unitSet := by
  cases manner with
  | quoted => exact run_unquoted
  | named => exact run_word

theorem language (manner : Manner) (t : Text) : Language manner.constraint t ↔ manner.IsContent t := by
  rw [manner.run.language]
  cases manner with
  | quoted =>
    have other (u : UInt16) : (UnitSet.complement (.single quote)).contains u = true ↔ u ≠ quote := by
      rw [UnitSet.contains, Bool.not_eq_true', ← Bool.not_eq_true, contains_single]
    simp only [unitSet, other, IsContent, IsUnquoted]
    exact and_congr_right fun _ =>
      ⟨fun all member => all quote member rfl, fun none u member same => none (same ▸ member)⟩
  | named => simp only [unitSet, contains_word, IsContent, IsWord]

theorem constraintLength? (manner : Manner) (rest : Text) :
    Template.constraintLength? (manner.constraint ++ closeBracket :: rest) = some manner.constraint.length := by
  have closed : Template.constraintLength? (closeBracket :: rest) = some 0 := by
    rw [constraintLength?.eq_def]
    rfl
  cases manner with
  | quoted =>
    rw [constraint, show unquotedConstraint = [openBracket, caret, quote, closeBracket, plus] by decide]
    simp [Template.constraintLength?, classLength?, backslash, openBracket, closeBracket, plus, caret, quote] at closed ⊢
    exact closed
  | named =>
    rw [constraint, show wordConstraint = [backslash, 0x77, plus] by decide]
    simp [Template.constraintLength?, backslash, openBracket, closeBracket, plus] at closed ⊢
    exact closed

theorem check (manner : Manner) (name : Text) : Hole.check ⟨name, some manner.constraint⟩ = .ok () := by
  have short : ¬ constraintLimit < manner.constraint.length := by cases manner <;> decide
  simp only [Hole.check, if_neg short, manner.run.parse]

theorem tokensFrom_holeText (manner : Manner) {name rest : Text} {tokens : List Token}
    (word : ∀ u ∈ name, isWord u = true) (starts : name.head?.any startsName = true) (read : ∀ offset, Template.tokensFrom offset rest = .ok tokens)
    (offset : Nat) : Template.tokensFrom offset (holeText name manner.constraint rest) =
      .ok (.hole ⟨name, some manner.constraint⟩ :: tokens) :=
  Template.tokensFrom_holeText word starts read (by cases manner <;> decide) (manner.constraintLength? rest)
    (manner.check name) offset

section

variable (manner : Manner) {value segment : Text}

theorem fits_concat : LiteralFits (value ++ manner.wrap) segment ↔
    ∃ front, segment = front ++ manner.wrap ∧ LiteralFits value front := by
  cases manner with
  | quoted => exact literalFits_concat_iff (by decide)
  | named => simp [wrap]

theorem fits_append : LiteralFits (manner.wrap ++ value) segment ↔
    ∃ rest, segment = manner.wrap ++ rest ∧ LiteralFits value rest := by
  cases manner with
  | quoted =>
    refine ⟨fun fits => fits.solid_cons (by decide), ?_⟩
    rintro ⟨rest, rfl, fits⟩
    exact .unit (by decide) fits
  | named => simp [wrap]

end

end Manner

def patternTokens (manner : Manner) (ending : Ending) : List Token :=
  [.literal openingText, .hole ⟨roleName, some wordConstraint⟩, .literal (fieldText ++ manner.wrap),
    .hole ⟨contentName, some manner.constraint⟩, .literal (manner.wrap ++ ending.text)]

def patternSource (manner : Manner) (ending : Ending) : Text :=
  openingText ++ holeText roleName wordConstraint
    (fieldText ++ manner.wrap ++ holeText contentName manner.constraint (manner.wrap ++ ending.text))

theorem units_append (first second : String) : units (first ++ second) = units first ++ units second := by
  rw [units, String.toList_append, List.flatMap_append]
  rfl

theorem role_text : units ":[role~\\w+]" = holeText roleName wordConstraint [] := by decide

theorem name_text : units ":[content~\\w+]" = holeText contentName wordConstraint [] := by decide

theorem quoted_text : units "\":[content~[^\"]+]\"" = quote :: holeText contentName unquotedConstraint [quote] := by
  decide

section

-- The wording of each rule is cut into short strings, since a long one takes the kernel long to read.
set_option maxRecDepth 2000

theorem explicitNone_source : units "Message \x7b role: Role:::[role~\\w+], content: \":[content~[^\"]+]\".to_string(), name: None, tool_calls: None, tool_call_id: None, reasoning_content: None, reasoning: None, thought: None, thinking: None, \x7d" =
    patternSource .quoted explicitNone := by
  rw [show "Message \x7b role: Role:::[role~\\w+], content: \":[content~[^\"]+]\".to_string(), name: None, tool_calls: None, tool_call_id: None, reasoning_content: None, reasoning: None, thought: None, thinking: None, \x7d" =
      "Message \x7b role: Role::" ++ ":[role~\\w+]" ++ ", content: " ++ "\":[content~[^\"]+]\"" ++ ".to_string(), " ++
        "name" ++ ": None, " ++ "tool_calls" ++ ": None, " ++ "tool_call_id" ++ ": None, " ++
        "reasoning_content" ++ ": None, " ++ "reasoning" ++ ": None, " ++ "thought" ++ ": None, " ++
        "thinking" ++ ": None, " ++ "\x7d" by rfl]
  simp only [units_append, List.append_assoc, role_text, quoted_text]
  rw [show units "\x7d" = [closeBrace] by decide]
  simp only [patternSource, Manner.wrap, Manner.constraint, explicitNone, absentField, openingText, fieldText,
    List.append_assoc, holeText_append, List.cons_append, List.nil_append]

theorem defaulted_source : units "Message \x7b role: Role:::[role~\\w+], content: \":[content~[^\"]+]\".to_string(), ..Default::default() \x7d" =
    patternSource .quoted defaulted := by
  rw [show "Message \x7b role: Role:::[role~\\w+], content: \":[content~[^\"]+]\".to_string(), ..Default::default() \x7d" =
      "Message \x7b role: Role::" ++ ":[role~\\w+]" ++ ", content: " ++ "\":[content~[^\"]+]\"" ++ ".to_string(), " ++
        "..Default::default() \x7d" by rfl]
  simp only [units_append, List.append_assoc, role_text, quoted_text]
  simp only [patternSource, Manner.wrap, Manner.constraint, defaulted, openingText, fieldText, List.append_assoc,
    holeText_append, List.cons_append, List.nil_append]

theorem variable_source : units "Message \x7b role: Role:::[role~\\w+], content: :[content~\\w+].to_string(), ..Default::default() \x7d" =
    patternSource .named defaulted := by
  rw [show "Message \x7b role: Role:::[role~\\w+], content: :[content~\\w+].to_string(), ..Default::default() \x7d" =
      "Message \x7b role: Role::" ++ ":[role~\\w+]" ++ ", content: " ++ ":[content~\\w+]" ++ ".to_string(), " ++
        "..Default::default() \x7d" by rfl]
  simp only [units_append, List.append_assoc, role_text, name_text]
  simp only [patternSource, Manner.wrap, Manner.constraint, defaulted, openingText, fieldText, holeText_append,
    List.nil_append, List.append_nil]

end

theorem tokensFrom_last {t : Text} (occupied : t ≠ []) (verbatim : isVerbatim none t = true) (offset : Nat) :
    tokensFrom offset t = .ok [.literal t] := by
  have nothing : tokensFrom (offset + t.length) [] = .ok [] := by rw [tokensFrom]
  have read := @tokensFrom_literal t [] [] offset occupied verbatim rfl nothing
  rwa [List.append_nil] at read

section

variable (manner : Manner) (ending : Ending)

theorem tokens_patternSource : Template.tokens (patternSource manner ending) = .ok (patternTokens manner ending) := by
  have between : isVerbatim (some colon) (fieldText ++ manner.wrap) = true := by cases manner <;> decide
  have last : isVerbatim none (manner.wrap ++ ending.text) = true := by
    cases manner with
    | quoted => simpa [Manner.wrap, isVerbatim, quote, backslash, colon] using ending.verbatim
    | named => exact ending.verbatim
  refine tokensFrom_literal (by decide) (show isVerbatim (some colon) _ = true by decide) rfl
    (Manner.named.tokensFrom_holeText roleName_word (by decide) (fun offset => ?_) _)
  refine tokensFrom_literal (List.append_ne_nil_of_left_ne_nil (by decide) _) between rfl
    (manner.tokensFrom_holeText contentName_word (by decide) (fun offset => ?_) _)
  exact tokensFrom_last (List.append_ne_nil_of_right_ne_nil _ ending.occupied) last offset

theorem trimOuter_pattern : trimOuter (patternTokens manner ending) = patternTokens manner ending := by
  have front : trimStart openingText = openingText := by decide
  have opens : openingText ≠ [] := by decide
  have own := List.reverse_eq_iff.mp ending.closed
  have back : trimEnd (manner.wrap ++ ending.text) = manner.wrap ++ ending.text := by
    rw [trimEnd, List.reverse_append, List.dropWhile_append, own, if_neg (by simpa using ending.occupied)]
    simp
  have ends : manner.wrap ++ ending.text ≠ [] := List.append_ne_nil_of_right_ne_nil _ ending.occupied
  have middle : fieldText ++ manner.wrap ≠ [] := List.append_ne_nil_of_left_ne_nil (by decide) _
  simp [patternTokens, trimOuter, trimFirst, front, back, opens, middle, ends]

end

/-- What a construct begins with, up to its content. -/
def Opening (role t : Text) : Prop :=
  ∃ head field, t = head ++ (role ++ field) ∧ LiteralFits openingText head ∧ IsWord role ∧ LiteralFits fieldText field

/-- A construct of one manner and ending. -/
def Construct (manner : Manner) (ending : Ending) (role content t : Text) : Prop :=
  ∃ opening rest, t = opening ++ (manner.wrap ++ (content ++ (manner.wrap ++ rest))) ∧ Opening role opening ∧
    manner.IsContent content ∧ LiteralFits ending.text rest

def IsConstruct (manner : Manner) (ending : Ending) (t : Text) : Prop :=
  ∃ role content, Construct manner ending role content t

def bindings (role content : Text) : List (Text × Text) := [(roleName, role), (contentName, content)]

section

variable {manner : Manner} {ending : Ending}

/-- The instances of a pattern are its constructs. -/
theorem segments_pattern_iff {t : Text} {final : List (Text × Text)} :
    (∃ segments, Segments InLanguage [] (patternTokens manner ending) segments final ∧ t = segments.flatten) ↔
      ∃ role content, final = bindings role content ∧ Construct manner ending role content t := by
  have fresh (role : Text) : ([] ++ [(roleName, role)]).lookup contentName = none := by
    have apart : (contentName == roleName) = false := by decide
    simp [List.lookup_cons, apart]
  have unnamed : Hole.anonymous ⟨contentName, some manner.constraint⟩ = false :=
    show (contentName == [underscore]) = false by decide
  constructor
  · rintro ⟨segments, fits, rfl⟩
    obtain ⟨head, _, rfl, opens, fits⟩ := segments_literal_iff.mp fits
    obtain ⟨role, _, rfl, own, fits⟩ := (segments_first_iff rfl rfl).mp fits
    obtain ⟨_, _, rfl, middle, fits⟩ := segments_literal_iff.mp fits
    obtain ⟨content, _, rfl, inside, fits⟩ := (segments_first_iff unnamed (fresh role)).mp fits
    obtain ⟨_, _, rfl, ends, fits⟩ := segments_literal_iff.mp fits
    obtain ⟨rfl, rfl⟩ := segments_nil_iff.mp fits
    obtain ⟨field, rfl, between⟩ := manner.fits_concat.mp middle
    obtain ⟨rest, rfl, after⟩ := manner.fits_append.mp ends
    exact ⟨role, content, rfl, head ++ (role ++ field), rest, by simp,
      ⟨head, field, rfl, opens, (Manner.named.language role).mp own, between⟩, (manner.language content).mp inside, after⟩
  · rintro ⟨role, content, rfl, _, rest, rfl, ⟨head, field, rfl, opens, own, between⟩, inside, after⟩
    have middle := manner.fits_concat.mpr ⟨field, rfl, between⟩
    have ends := manner.fits_append.mpr ⟨rest, rfl, after⟩
    exact ⟨[head, role, field ++ manner.wrap, content, manner.wrap ++ rest],
      .literal opens (.first rfl rfl ((Manner.named.language role).mpr own) (.literal middle
        (.first unnamed (fresh role) ((manner.language content).mpr inside) (.literal ends (.nil _))))), by simp⟩

theorem isInstance_pattern (manner : Manner) (ending : Ending) :
    IsInstance (patternTokens manner ending) = IsConstruct manner ending := by
  funext t
  refine propext ⟨?_, ?_⟩
  · rintro ⟨segments, final, fits, units⟩
    rw [trimOuter_pattern] at fits
    obtain ⟨role, content, _, shape⟩ := segments_pattern_iff.mp ⟨segments, fits, units⟩
    exact ⟨role, content, shape⟩
  · rintro ⟨role, content, shape⟩
    obtain ⟨segments, fits, units⟩ := segments_pattern_iff.mpr ⟨role, content, rfl, shape⟩
    exact ⟨segments, _, (trimOuter_pattern manner ending).symm ▸ fits, units⟩

theorem manner_of_constraint {hole : Hole} {constraint : Text} (member : .hole hole ∈ patternTokens manner ending)
    (given : hole.constraint = some constraint) : ∃ other : Manner, other.constraint = constraint := by
  simp only [patternTokens, List.mem_cons, reduceCtorEq, Token.hole.injEq, List.not_mem_nil, or_false, false_or] at member
  rcases member with rfl | rfl
  · exact ⟨.named, Option.some.inj given⟩
  · exact ⟨manner, Option.some.inj given⟩

variable {pattern : Pattern} (compile : Pattern.compile (patternSource manner ending) = .ok pattern)
include compile

theorem searchable : Searchable (patternSource manner ending) pattern (patternTokens manner ending) where
  compile := compile
  read := tokens_patternSource manner ending
  solid := ⟨capital, openingText, List.mem_cons_self, by decide, by decide⟩
  regular hole constraint member given := by
    obtain ⟨other, rfl⟩ := manner_of_constraint member given
    exact other.run.regular pattern

theorem finds : pattern.Finds (IsConstruct manner ending) :=
  isInstance_pattern manner ending ▸ (searchable compile).finds

theorem captures {text : Text} {found : Match} (member : found ∈ pattern.matchesIn text) :
    ∃ role content, found.captures = bindings role content ∧ Construct manner ending role content found.text := by
  obtain ⟨segments, final, fits, units, captured⟩ := (searchable compile).captures member
  rw [trimOuter_pattern] at fits
  obtain ⟨role, content, rfl, shape⟩ := segments_pattern_iff.mp ⟨segments, fits, units⟩
  have first : (roleName != reservedName) = true := by decide
  have second : (contentName != reservedName) = true := by decide
  exact ⟨role, content, captured.trans (by simp [bindings, first, second]), shape⟩

end

end Emend.Message
