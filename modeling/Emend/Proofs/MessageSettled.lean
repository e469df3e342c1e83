import Emend.Proofs.MessageRules

/-! A run of the message rules leaves nothing for another one, as long as no content that it copies ends with
the opening of a construct. Each rule clears its own constructs, and none brings back any that were missing; the
runs of rules follow by induction, whatever rules of this form there are and in whatever order. -/

namespace Emend

open Text Template Pattern

namespace Rule

theorem foldl_text (rules : List Rule) (t : Text) (count : Nat) :
    (rules.foldl (fun current rule => ⟨(rule.apply current.text).text, current.count + (rule.apply current.text).count⟩)
      (⟨t, count⟩ : Count)).text = (applyAll rules t).text := by
  induction rules generalizing t count with
  | nil => rfl
  | cons rule rules ih =>
    rw [applyAll, List.foldl_cons, List.foldl_cons]
    exact (ih _ _).trans (ih _ _).symm

theorem applyAll_cons_text (rule : Rule) (rules : List Rule) (t : Text) :
    (applyAll (rule :: rules) t).text = (applyAll rules (rule.apply t).text).text :=
  foldl_text rules _ _

theorem applyAll_cons_of_eq_self {rule : Rule} {rules : List Rule} {t : Text} (same : rule.apply t = ⟨t, 0⟩) :
    applyAll (rule :: rules) t = applyAll rules t := by
  rw [applyAll, List.foldl_cons, same]
  rfl

end Rule

namespace Message

/-- A run of rules copies no content that ends with the opening of a construct. -/
def Sealed : List Rule → Text → Prop
  | [], _ => True
  | rule :: rules, t =>
    (∀ found ∈ rule.pattern.matchesIn t, ∀ pair ∈ found.captures, ¬ Opens pair.2) ∧ Sealed rules (rule.apply t).text

section

variable {manner kind : Manner} {own other : Ending} {rule : Rule} {t : Text}

/-- What a rule copies into quotes lets no construct start that was not in the text. -/
theorem Shortens.barred (shortens : Shortens .quoted own rule) {found : Match} {role content : Text}
    (member : found ∈ rule.pattern.matchesIn t) (shape : Construct .quoted own role content found.text)
    (closed : ¬ Opens content) (absent : kind = .named → ¬ Occurs (IsConstruct kind other) t) :
    Barred kind other content := by
  obtain ⟨opening, rest, whole, _, inside, _⟩ := shape
  cases kind with
  | quoted => exact barred_quoted inside.2 closed
  | named =>
    obtain ⟨before, after, place, _⟩ := shortens.finds.occurs member
    refine barred_named ?_
    rintro ⟨front, _, cut, inner, more, rfl, own⟩
    have around : t = before ++ (opening ++ quote :: front) ++ (inner ++ (more ++ quote :: rest ++ after)) := by
      rw [place, whole, cut]
      simp [Manner.wrap]
    exact absent rfl ⟨_, _, around, inner, _, rfl, own⟩

/-- A rule whose contents are closed brings back no construct, and clears what it finds. -/
theorem Shortens.clears (shortens : Shortens manner own rule)
    (closed : ∀ found ∈ rule.pattern.matchesIn t, ∀ pair ∈ found.captures, ¬ Opens pair.2)
    (clear : manner = kind ∧ own = other ∨ ¬ Occurs (IsConstruct kind other) t) :
    ¬ Occurs (IsConstruct kind other) (rule.apply t).text := by
  have frees : ∀ before after, t = before ++ after → ¬ Starts (IsConstruct manner own) after →
      ¬ Starts (IsConstruct kind other) after := by
    intro before after place none
    rcases clear with ⟨rfl, rfl⟩ | absent
    · exact none
    · exact not_starts_of_not_occurs absent place
  have steps : ∀ found ∈ rule.pattern.matchesIn t,
      Step manner own (fun content => manner = .quoted → Barred kind other content) found.text
        (rule.replacement.fill found.captures) := by
    intro found member
    refine shortens.step member ?_
    rintro role content captured shape rfl
    have final := closed found member (contentName, content) (by simp [captured, bindings])
    -- What this rule finds is in quotes, so a kind with a variable is one that the text has none of.
    refine shortens.barred member shape final ?_
    rintro rfl
    rcases clear with ⟨same, _⟩ | absent
    · cases same
    · exact absent
  exact (Rule.rewrites_apply shortens.finds t frees steps).not_occurs (fun _ _ => Step.marks)
    (fun _ starts => (headed_of_starts starts).unmarked) (fun _ _ => starts_lifts) (fun _ _ _ => Step.never_starts)

theorem not_occurs_applyAll {rules : List Rule} (shorten : ∀ rule ∈ rules, ∃ manner ending, Shortens manner ending rule)
    (closed : Sealed rules t)
    (clear : (∃ rule ∈ rules, Shortens kind other rule) ∨ ¬ Occurs (IsConstruct kind other) t) :
    ¬ Occurs (IsConstruct kind other) (Rule.applyAll rules t).text := by
  induction rules generalizing t with
  | nil =>
    rcases clear with ⟨_, none, _⟩ | absent
    · cases none
    · exact absent
  | cons rule rules ih =>
    obtain ⟨own, later⟩ := closed
    obtain ⟨manner, ending, shortens⟩ := shorten rule List.mem_cons_self
    rw [Rule.applyAll_cons_text]
    refine ih (fun rule member => shorten rule (List.mem_cons_of_mem _ member)) later ?_
    rcases clear with ⟨cleared, member, same⟩ | absent
    · rcases List.mem_cons.mp member with rfl | among
      · exact .inr (same.clears own (.inl ⟨rfl, rfl⟩))
      · exact .inl ⟨cleared, among, same⟩
    · exact .inr (shortens.clears own (.inr absent))

end

theorem applyAll_eq_self {rules : List Rule} {t : Text}
    (none : ∀ rule ∈ rules, ∃ manner ending, Shortens manner ending rule ∧ ¬ Occurs (IsConstruct manner ending) t) :
    Rule.applyAll rules t = ⟨t, 0⟩ := by
  induction rules with
  | nil => rfl
  | cons rule rules ih =>
    obtain ⟨manner, ending, shortens, absent⟩ := none rule List.mem_cons_self
    rw [Rule.applyAll_cons_of_eq_self (Rule.apply_eq_self shortens.finds absent)]
    exact ih fun rule member => none rule (List.mem_cons_of_mem _ member)

/-- After a sealed run of any such rules, another one finds nothing. -/
theorem settled_of_sealed {rules : List Rule} {t : Text}
    (shorten : ∀ rule ∈ rules, ∃ manner ending, Shortens manner ending rule) (closed : Sealed rules t) :
    Rule.applyAll rules (Rule.applyAll rules t).text = ⟨(Rule.applyAll rules t).text, 0⟩ := by
  refine applyAll_eq_self fun rule member => ?_
  obtain ⟨manner, ending, shortens⟩ := shorten rule member
  exact ⟨manner, ending, shortens, not_occurs_applyAll shorten closed (.inl ⟨rule, member, shortens⟩)⟩

theorem not_opens_of_not_mem {content : Text} (absent : capital ∉ content) : ¬ Opens content := by
  rintro ⟨before, role, opening, rfl, opens⟩
  have headed := head_of_headed (opens.headed [])
  rw [List.append_nil] at headed
  exact absent (List.mem_append_right _ (List.mem_of_mem_head? headed))

section

variable {first second third : Rule} (isFirst : Shortens .quoted explicitNone first)
  (isSecond : Shortens .quoted defaulted second) (isThird : Shortens .named defaulted third)
include isFirst isSecond isThird

theorem applyAll_single {before t after role content : Text}
    (explicit : ¬ Occurs (IsConstruct .quoted explicitNone) (before ++ (t ++ after)))
    (shape : Construct .quoted defaulted role content t) (never : Never (Starts (IsConstruct .quoted defaulted)) before)
    (none : ¬ Occurs (IsConstruct .quoted defaulted) after)
    (named : ¬ Occurs (IsConstruct .named defaulted) (before ++ (quotedCall role content ++ after))) :
    (Rule.applyAll [first, second, third] (before ++ (t ++ after))).text =
      before ++ (quotedCall role content ++ after) := by
  have text := isSecond.apply_text shape never none
  rw [Rule.applyAll_cons_of_eq_self (Rule.apply_eq_self isFirst.finds explicit)]
  show (third.apply (second.apply (before ++ (t ++ after))).text).text = _
  rw [text]
  exact congrArg Count.text (Rule.apply_eq_self isThird.finds named)

end

/-- The message rules compile, and after a run that copies no content ending with the opening of a construct,
another run finds nothing. -/
theorem messageText_settled (t : Text) : ∃ rules, Preset.messageText.compileRules = .ok rules ∧
    (Sealed rules t → Rule.applyAll rules (Rule.applyAll rules t).text = ⟨(Rule.applyAll rules t).text, 0⟩) := by
  obtain ⟨first, second, third, compile, isFirst, isSecond, isThird⟩ := exists_messageRules
  refine ⟨_, compile, settled_of_sealed fun rule member => ?_⟩
  simp only [List.mem_cons, List.not_mem_nil, or_false] at member
  rcases member with rfl | rfl | rfl
  · exact ⟨_, _, isFirst⟩
  · exact ⟨_, _, isSecond⟩
  · exact ⟨_, _, isThird⟩

def single : Text := plainText defaulted (units "A") (units "b")

theorem isWord_A : IsWord (units "A") := ⟨by decide, List.all_iff_forall_prop.mp (by decide)⟩

theorem isWord_B : IsWord (units "B") := ⟨by decide, List.all_iff_forall_prop.mp (by decide)⟩

theorem quoted_single : Construct .quoted defaulted (units "A") (units "b") single :=
  construct_plainText isWord_A ⟨by decide, by decide⟩

theorem messageText_settled_single : ∃ rules, Preset.messageText.compileRules = .ok rules ∧ Sealed rules single ∧
    (Rule.applyAll rules single).text = quotedCall (units "A") (units "b") ∧
    Rule.applyAll rules (Rule.applyAll rules single).text = ⟨(Rule.applyAll rules single).text, 0⟩ := by
  obtain ⟨first, second, third, compile, isFirst, isSecond, isThird⟩ := exists_messageRules
  obtain ⟨_, again, settled⟩ := messageText_settled single
  obtain rfl := Except.ok.inj (compile.symm.trans again)
  have explicit : ¬ Occurs (IsConstruct .quoted explicitNone) single := not_occurs_explicit (by decide)
  have named : ¬ Occurs (IsConstruct .named defaulted) (quotedCall (units "A") (units "b")) :=
    not_occurs_of_brace (by decide)
  have written := isSecond.apply_text quoted_single .nil (not_occurs_of_brace List.not_mem_nil)
  rw [List.append_nil, List.append_nil, List.nil_append, List.nil_append] at written
  have closed : Sealed [first, second, third] single := by
    refine ⟨?_, ?_, ?_, trivial⟩
    · rw [isFirst.finds.matchesIn_eq_nil explicit]
      exact fun _ member => nomatch member
    · rw [Rule.apply_eq_self isFirst.finds explicit]
      intro found member pair among
      rw [isSecond.captures_alone quoted_single (by decide) member, bindings, List.mem_cons, List.mem_singleton] at among
      rcases among with rfl | rfl <;> exact not_opens_of_not_mem (by decide)
    · rw [Rule.apply_eq_self isFirst.finds explicit, written, isThird.finds.matchesIn_eq_nil named]
      exact fun _ member => nomatch member
  have text := @applyAll_single _ _ _ isFirst isSecond isThird [] single [] (units "A") (units "b")
  simp only [List.append_nil, List.nil_append] at text
  exact ⟨_, compile, closed,
    text explicit quoted_single .nil (not_occurs_of_brace List.not_mem_nil) named, settled closed⟩

/-- A construct whose content ends with the opening of another one, whose own ending follows. -/
def nested : Text := plainText defaulted (units "A") (plainOpening (units "B")) ++ quote :: defaulted.text

def unfinished : Text := units "Message::text(Role::A, \""

/-- What a run leaves of it: the opening in the content, the end of the call, and the ending that followed. -/
def nestedOnce : Text := unfinished ++ plainText defaulted (units "B") (units ")")

theorem never_starts_unfinished {ending : Ending} : Never (Starts (IsConstruct .quoted ending)) unfinished := by
  have whole : unfinished = messageWord ++ [colon] ++ units ":text(Role::A, \"" := by decide
  rw [whole]
  exact ((never_headed_word messageWord_word (by decide) (by decide)).append (never_headed_of_not_mem (by decide))).mono
    fun _ => headed_of_starts

theorem call_nested : quotedCall (units "A") (plainOpening (units "B")) ++ quote :: defaulted.text = nestedOnce := by
  rw [nestedOnce, quotedCall, shortText, plainText, show unfinished =
    units "Message::text(Role::" ++ (units "A" ++ (units ", " ++ [quote])) by decide]
  simp

/-- Between two quotes of what is left, no construct with a variable is complete. -/
theorem not_occurs_nestedOnce : ¬ Occurs (IsConstruct .named defaulted) nestedOnce := by
  have across {left right : Text} : ¬ Occurs (IsConstruct .named defaulted) left →
      ¬ Occurs (IsConstruct .named defaulted) right → ¬ Occurs (IsConstruct .named defaulted) (left ++ quote :: right) :=
    not_occurs_across fun _ ⟨_, _, named⟩ => named.quote_not_mem
  have opened : ¬ Occurs (IsConstruct .named defaulted) (plainOpening (units "B")) :=
    not_occurs_of_not_mem (u := 0x66) (mem_of_isConstruct (by decide) (by decide)) (by decide)
  have whole : nestedOnce = units "Message::text(Role::A, " ++
      quote :: (plainOpening (units "B") ++ quote :: (units ")" ++ quote :: defaulted.text)) := by
    rw [nestedOnce, plainText, show unfinished = units "Message::text(Role::A, " ++ [quote] by decide, List.append_assoc]
    rfl
  rw [whole]
  exact across (not_occurs_of_brace (by decide))
    (across opened (across (not_occurs_of_brace (by decide)) (not_occurs_of_brace (by decide))))

/-- Without that condition another run may find more: the content that the first one copies opens a construct, and
the quote after it begins the content. -/
theorem messageText_not_settled : ∃ rules, Preset.messageText.compileRules = .ok rules ∧
    (Rule.applyAll rules nested).text = nestedOnce ∧
    (Rule.applyAll rules nestedOnce).text = unfinished ++ quotedCall (units "B") (units ")") ∧
    Rule.applyAll rules (Rule.applyAll rules nested).text ≠ ⟨(Rule.applyAll rules nested).text, 0⟩ := by
  obtain ⟨first, second, third, compile, isFirst, isSecond, isThird⟩ := exists_messageRules
  have once : (Rule.applyAll [first, second, third] nested).text = nestedOnce := by
    have text := @applyAll_single _ _ _ isFirst isSecond isThird []
      (plainText defaulted (units "A") (plainOpening (units "B"))) (quote :: defaulted.text) (units "A") (plainOpening (units "B"))
    rw [List.nil_append, List.nil_append, call_nested] at text
    exact text (not_occurs_explicit (by decide)) (construct_plainText isWord_A ⟨by decide, by decide⟩) .nil
      (not_occurs_of_brace (by decide)) not_occurs_nestedOnce
  have twice : (Rule.applyAll [first, second, third] nestedOnce).text =
      unfinished ++ quotedCall (units "B") (units ")") := by
    have text := @applyAll_single _ _ _ isFirst isSecond isThird unfinished
      (plainText defaulted (units "B") (units ")")) [] (units "B") (units ")")
    rw [List.append_nil, List.append_nil] at text
    exact text (not_occurs_explicit (by decide)) (construct_plainText isWord_B ⟨by decide, by decide⟩)
      never_starts_unfinished (not_occurs_of_brace List.not_mem_nil) (not_occurs_of_brace (by decide))
  refine ⟨_, compile, once, twice, fun same => ?_⟩
  have texts := congrArg Count.text same
  rw [once, twice] at texts
  exact absurd texts (by decide)

end Message

end Emend
