import Emend.Proofs.MessageConstruct

/-! What the message rules leave behind. Everything they write begins with a mark that no construct begins with
or runs over, so a construct of the new text that starts at a copied unit has started there before. One that
starts inside of what is written can only start in content that was copied, and then only where this content
ends with the opening of a construct. -/

namespace Emend.Message

open Text Template Pattern Expression

def messageWord : Text := units "Message"

def mark : Text := messageWord ++ [colon]

/-- A text that begins as a construct does: the unit after the word is neither part of a word nor anything that
stands after a word in what is written. -/
def Headed (t : Text) : Prop :=
  ∃ u rest, t = messageWord ++ u :: rest ∧ isWord u = false ∧ u ∉ [colon, comma, closeParen]

theorem messageWord_word : ∀ u ∈ messageWord, isWord u = true := List.all_iff_forall_prop.mp (by decide)

theorem isWord_of_isBlank {u : UInt16} (blank : isBlank u = true) : isWord u = false := by
  rw [← Bool.not_eq_true]
  simp only [isBlank, isWord, isLetter, isLower, isUpper, isDigit, underscore, Bool.or_eq_true, Bool.and_eq_true,
    decide_eq_true_eq, beq_iff_eq, UInt16.le_iff_toNat_le, ← UInt16.toNat_inj, UInt16.reduceToNat] at blank ⊢
  omega

theorem head_of_headed {t : Text} (headed : Headed t) : t.head? = some capital := by
  obtain ⟨u, rest, rfl, _⟩ := headed
  rw [List.head?_append, show messageWord.head? = some capital by decide]
  rfl

theorem head_of_mark {t : Text} (marked : mark <+: t) : t.head? = some capital := by
  obtain ⟨rest, rfl⟩ := marked
  rw [List.head?_append, show mark.head? = some capital by decide]
  rfl

theorem Headed.unmarked {t : Text} (headed : Headed t) : t ≠ [] ∧ ¬ mark <+: t := by
  constructor
  · rintro rfl
    cases head_of_headed headed
  · rintro ⟨rest, same⟩
    obtain ⟨u, others, rfl, outside, apart⟩ := headed
    rw [mark, List.append_assoc] at same
    obtain ⟨_, rfl, _⟩ := first_outside isWord messageWord_word messageWord_word (by decide) outside same
    exact apart List.mem_cons_self

section

variable {t : Text} {u : UInt16}

theorem never_mark_of_not_mem (absent : capital ∉ t) : Never (mark <+: ·) t :=
  .of_not_mem (fun _ => head_of_mark) absent

theorem never_mark_word (word : ∀ a ∈ t, isWord a = true) (outside : isWord u = false) (other : u ≠ colon) :
    Never (mark <+: ·) (t ++ [u]) := by
  refine .of_word word outside (fun s marked => ?_) messageWord_word
  obtain ⟨rest, rfl⟩ := marked
  exact ⟨colon, rest, by rw [mark, List.append_assoc]; rfl, by decide, other.symm⟩

theorem never_headed_of_not_mem (absent : capital ∉ t) : Never Headed t :=
  .of_not_mem (fun _ => head_of_headed) absent

theorem never_headed_word (word : ∀ a ∈ t, isWord a = true) (outside : isWord u = false)
    (other : u ∈ [colon, comma, closeParen]) : Never Headed (t ++ [u]) := by
  refine .of_word word outside (fun s headed => ?_) messageWord_word
  obtain ⟨v, rest, rfl, after, apart⟩ := headed
  exact ⟨v, rest, rfl, after, fun same => apart (same ▸ other)⟩

end

theorem not_mem_of_isWord {t : Text} (word : IsWord t) {u : UInt16} (outside : isWord u = false) : u ∉ t := by
  intro member
  rw [word.2 u member] at outside
  cases outside

section

variable {role opening : Text}

theorem Opening.word (opens : Opening role opening) : IsWord role := by
  obtain ⟨_, _, _, _, word, _⟩ := opens
  exact word

theorem Opening.parts (opens : Opening role opening) : ∃ u before after,
    opening = messageWord ++ u :: (before ++ (role ++ comma :: after)) ∧ isWord u = false ∧
      u ∉ [quote, colon, comma, closeParen] ∧ (capital ∉ before ∧ quote ∉ before) ∧
      (capital ∉ after ∧ quote ∉ after) := by
  obtain ⟨head, field, rfl, begins, _, between⟩ := opens
  rw [show openingText = messageWord ++ space :: openBrace :: units " role: Role::" by decide] at begins
  rw [show fieldText = comma :: units " content: " by decide] at between
  obtain ⟨head, rfl, follows⟩ := begins.solid_append (List.all_iff_forall_prop.mp (by decide))
  obtain ⟨field, rfl, later⟩ := between.solid_cons (by decide)
  have capitals : capital ∉ head := follows.not_mem (by decide) (by decide)
  have quotes : quote ∉ head := follows.not_mem (by decide) (by decide)
  have last := And.intro (later.not_mem (u := capital) (by decide) (by decide))
    (later.not_mem (u := quote) (by decide) (by decide))
  obtain ⟨blanks, rest, rfl, blank, _⟩ := @LiteralFits.blank_run _ _ [space] openBrace (List.cons_ne_nil _ _)
    (List.all_iff_forall_prop.mp (by decide)) (by decide) follows
  cases blanks with
  | nil =>
    refine ⟨openBrace, rest, field, by simp, by decide, by decide, ?_, last⟩
    exact ⟨fun member => capitals (List.mem_cons_of_mem _ member), fun member => quotes (List.mem_cons_of_mem _ member)⟩
  | cons u blanks =>
    have own := blank u List.mem_cons_self
    refine ⟨u, blanks ++ openBrace :: rest, field, by simp, isWord_of_isBlank own, ?_, ?_, last⟩
    · intro member
      have solid : ∀ v ∈ [quote, colon, comma, closeParen], isBlank v = false := List.all_iff_forall_prop.mp (by decide)
      rw [solid u member] at own
      cases own
    · exact ⟨fun member => capitals (List.mem_cons_of_mem _ member), fun member => quotes (List.mem_cons_of_mem _ member)⟩

theorem Opening.never_mark (opens : Opening role opening) : Never (mark <+: ·) opening := by
  have word := opens.word
  obtain ⟨u, before, after, rfl, outside, apart, plain, last⟩ := opens.parts
  have first := never_mark_word messageWord_word outside fun same => apart (by simp [same])
  have own := never_mark_word word.2 (show isWord comma = false by decide) (by decide)
  have whole := first.append ((never_mark_of_not_mem plain.1).append (own.append (never_mark_of_not_mem last.1)))
  simpa using whole

theorem Opening.quote_not_mem (opens : Opening role opening) : quote ∉ opening := by
  have word := opens.word
  obtain ⟨u, before, after, rfl, outside, apart, plain, last⟩ := opens.parts
  have first : quote ∉ messageWord := by decide
  have own := not_mem_of_isWord word (show isWord quote = false by decide)
  simp only [List.mem_append, List.mem_cons, not_or]
  exact ⟨first, fun same => apart (by simp [same]), plain.2, own, by decide, last.2⟩

theorem Opening.headed (opens : Opening role opening) (after : Text) : Headed (opening ++ after) := by
  obtain ⟨u, before, more, rfl, outside, apart, _⟩ := opens.parts
  exact ⟨u, before ++ (role ++ comma :: more) ++ after, by simp, outside,
    fun member => apart (List.mem_cons_of_mem _ member)⟩

end

section

variable {manner : Manner} {ending : Ending} {role content t : Text}

theorem headed_of_starts (starts : Starts (IsConstruct manner ending) t) : Headed t := by
  obtain ⟨_, after, rfl, role, content, opening, rest, rfl, opens, _⟩ := starts
  rw [List.append_assoc]
  exact opens.headed _

theorem Construct.quote_not_mem (named : Construct .named ending role content t) : quote ∉ t := by
  obtain ⟨opening, rest, rfl, opens, word, ends⟩ := named
  simp only [Manner.wrap, List.nil_append, List.mem_append, not_or]
  exact ⟨opens.quote_not_mem, not_mem_of_isWord word (by decide), ends.not_mem ending.unquoted (by decide)⟩

theorem Construct.never_mark (named : Construct .named ending role content t) : Never (mark <+: ·) t := by
  obtain ⟨opening, rest, rfl, opens, word, ends⟩ := named
  obtain ⟨after, dotted⟩ := List.head?_eq_some_iff.mp ending.dotted
  have absent := ending.unmarked
  rw [dotted] at ends absent
  obtain ⟨rest, rfl, later⟩ := ends.solid_cons (show isBlank dot = false by decide)
  have content := never_mark_word word.2 (show isWord dot = false by decide) (by decide)
  have plain : capital ∉ rest := later.not_mem (fun member => absent (List.mem_cons_of_mem _ member)) (by decide)
  simpa [Manner.wrap] using opens.never_mark.append (content.append (never_mark_of_not_mem plain))

end

def shortText (role argument : Text) : Text :=
  units "Message::text(Role::" ++ (role ++ (units ", " ++ (argument ++ units ")")))

/-- Content that ends with the opening of a construct, so that the quote after it begins the content of another. -/
def Opens (content : Text) : Prop := ∃ before role opening, content = before ++ opening ∧ Opening role opening

/-- What is written for a construct of one manner and ending, with content of some sort. -/
def Step (manner : Manner) (ending : Ending) (sort : Text → Prop) (found written : Text) : Prop :=
  ∃ role content, Construct manner ending role content found ∧ sort content ∧
    written = shortText role (manner.wrap ++ (content ++ manner.wrap))

theorem shortText_eq (role argument : Text) : shortText role argument =
    capital :: (units "essage::text(Role::" ++ (role ++ comma :: space :: (argument ++ [closeParen]))) := by
  rw [shortText, show units "Message::text(Role::" = capital :: units "essage::text(Role::" by decide,
    show units ", " = [comma, space] by decide, show units ")" = [closeParen] by decide]
  rfl

theorem mark_prefix_shortText (role argument : Text) : mark <+: shortText role argument := by
  refine ⟨units ":text(Role::" ++ (role ++ (units ", " ++ (argument ++ units ")"))), ?_⟩
  rw [shortText, ← List.append_assoc,
    show mark ++ units ":text(Role::" = units "Message::text(Role::" by decide]

section

variable {manner : Manner} {ending : Ending} {sort : Text → Prop} {found written : Text}

theorem Step.marks (step : Step manner ending sort found written) : mark <+: written := by
  obtain ⟨role, content, _, _, rfl⟩ := step
  exact mark_prefix_shortText role _

/-- No construct starts between the first unit of what is written and its argument. -/
theorem never_headed_call {role : Text} (word : IsWord role) :
    Never Headed (units "essage::text(Role::" ++ (role ++ [comma])) :=
  (never_headed_of_not_mem (by decide)).append (never_headed_word word.2 (by decide) (by decide))

theorem Step.never_headed {u : UInt16} {more : Text} (step : Step .named ending sort found (u :: more)) :
    Never Headed more := by
  obtain ⟨role, content, ⟨_, _, _, opens, name, _⟩, _, written⟩ := step
  rw [shortText_eq, Manner.wrap, List.append_nil, List.nil_append] at written
  obtain ⟨_, rfl⟩ := List.cons.inj written
  have argument : Never Headed (content ++ [closeParen]) := never_headed_word name.2 (by decide) (by decide)
  have between : Never Headed [space] := never_headed_of_not_mem (by decide)
  simpa using (never_headed_call opens.word).append (between.append argument)

/-- In quotes, content lets no construct of a kind start. -/
def Barred (kind : Manner) (ending : Ending) (content : Text) : Prop :=
  Never (Starts (IsConstruct kind ending)) (content ++ [quote])

/-- A construct in quotes that starts in copied content opens at the end of it. -/
theorem barred_quoted {content : Text} (unquoted : quote ∉ content) (closed : ¬ Opens content) :
    Barred .quoted ending content := by
  rintro front back after cut occupied ⟨_, more, same, role, inner, opening, rest, rfl, opens, _⟩
  obtain ⟨middle, rfl, rfl⟩ := end_of_concat cut occupied
  rw [List.append_assoc, List.append_assoc] at same
  obtain ⟨rfl, _⟩ := first_of (fun member => unquoted (List.mem_append_right _ member)) opens.quote_not_mem same
  exact closed ⟨front, role, middle, rfl, opens⟩

theorem barred_named {content : Text} (none : ¬ Occurs (IsConstruct .named ending) content) :
    Barred .named ending content := by
  rintro front back after cut occupied ⟨inside, more, same, role, inner, named⟩
  obtain ⟨middle, rfl, rfl⟩ := end_of_concat cut occupied
  rw [List.append_assoc] at same
  obtain ⟨rest, rfl, _⟩ := append_eq_of_not_mem named.quote_not_mem same.symm
  exact none ⟨front, inside ++ rest, rfl, inside, rest, rfl, role, inner, named⟩

/-- No construct of a kind starts inside of what is written, if content in quotes lets none start. -/
theorem Step.never_starts {kind : Manner} {other : Ending} {u : UInt16} {more : Text}
    (step : Step manner ending (fun content => manner = .quoted → Barred kind other content) found (u :: more)) :
    Never (Starts (IsConstruct kind other)) more := by
  have headless {t : Text} (never : Never Headed t) : Never (Starts (IsConstruct kind other)) t :=
    never.mono fun _ => headed_of_starts
  cases manner with
  | quoted =>
    obtain ⟨role, content, ⟨_, _, _, opens, _⟩, barred, written⟩ := step
    rw [shortText_eq] at written
    obtain ⟨_, rfl⟩ := List.cons.inj written
    have call := headless (never_headed_call opens.word)
    have between : Never (Starts (IsConstruct kind other)) [space, quote] :=
      headless (never_headed_of_not_mem (by decide))
    have last : Never (Starts (IsConstruct kind other)) [closeParen] := headless (never_headed_of_not_mem (by decide))
    simpa [Manner.wrap] using call.append (between.append ((barred rfl).append last))
  | named => exact headless step.never_headed

/-- As far as quotes go, a step keeps the content in quotes, and has no quotes where there is none. -/
theorem Step.quotes (step : Step manner ending sort found written) :
    (found ≠ [] ∧ quote ∉ found ∧ quote ∉ written) ∨
      ∃ before content after front back, found = before ++ quote :: (content ++ quote :: after) ∧
        written = front ++ quote :: (content ++ quote :: back) ∧ before ≠ [] ∧ quote ∉ before ∧ quote ∉ content ∧
        quote ∉ front := by
  have plain {role : Text} (word : IsWord role) :
      quote ∉ capital :: (units "essage::text(Role::" ++ (role ++ [comma, space])) := by
    simp only [List.mem_cons, List.mem_append, not_or]
    exact ⟨by decide, by decide, not_mem_of_isWord word (by decide), by decide⟩
  obtain ⟨role, content, shape, _, rfl⟩ := step
  cases manner with
  | quoted =>
    obtain ⟨opening, rest, rfl, opens, unquoted, ends⟩ := shape
    have headed := (opens.headed []).unmarked.1
    rw [List.append_nil] at headed
    refine .inr ⟨opening, content, rest, _, [closeParen], rfl, ?_, headed, opens.quote_not_mem, unquoted.2,
      plain opens.word⟩
    rw [shortText_eq, Manner.wrap]
    simp
  | named =>
    have start : Starts (IsConstruct .named ending) found := ⟨found, [], (List.append_nil _).symm, role, content, shape⟩
    refine .inl ⟨(headed_of_starts start).unmarked.1, shape.quote_not_mem, ?_⟩
    obtain ⟨_, _, _, opens, name, _⟩ := shape
    have whole : shortText role content =
        capital :: (units "essage::text(Role::" ++ (role ++ [comma, space])) ++ (content ++ [closeParen]) := by
      rw [shortText_eq]
      simp
    rw [Manner.wrap, List.append_nil, List.nil_append, whole, List.mem_append, List.mem_append, not_or, not_or]
    exact ⟨plain opens.word, not_mem_of_isWord name (by decide), by decide⟩

end

section

variable {manner : Manner} {own : Ending} {free sort : Text → Prop} {ending : Ending} {old new : Text}

/-- Content up to a quote, and an ending after it, was there before the rewriting, perhaps with other content. -/
theorem content_lifts {content rest whole : Text} (rewrites : Rewrites free (Step manner own sort) old whole)
    (place : whole = content ++ quote :: (rest ++ new)) (unquoted : quote ∉ content) (plain : quote ∉ rest)
    (unmarked : capital ∉ rest) :
    ∃ inside after, old = inside ++ quote :: (rest ++ after) ∧ quote ∉ inside ∧ (content ≠ [] → inside ≠ []) := by
  -- The content is walked along the rewriting. What is written without quotes lies inside of it; what is written
  -- with quotes has the quote that ends it, and the old text has one in the same place.
  induction rewrites generalizing content with
  | nil => simp at place
  | @copy u old new' here later ih =>
    cases content with
    | nil =>
      obtain ⟨rfl, rfl⟩ := List.cons.inj place
      obtain ⟨after, rfl, _⟩ := later.peel (fun _ _ => Step.marks) (never_mark_of_not_mem unmarked)
      exact ⟨[], after, rfl, List.not_mem_nil, fun occupied => absurd rfl occupied⟩
    | cons v content =>
      obtain ⟨rfl, same⟩ := List.cons.inj place
      obtain ⟨inside, after, rfl, absent, _⟩ := ih same fun member => unquoted (List.mem_cons_of_mem _ member)
      refine ⟨u :: inside, after, rfl, ?_, fun _ => List.cons_ne_nil _ _⟩
      rw [List.mem_cons, not_or]
      exact ⟨fun same => unquoted (same ▸ List.mem_cons_self), absent⟩
  | @exchange found written old new' here later ih =>
    rcases here.quotes with ⟨occupied, foundPlain, writtenPlain⟩ |
      ⟨before, inner, tail, front, back, rfl, rfl, occupied, beforePlain, innerPlain, frontPlain⟩
    · obtain ⟨content, rfl, same⟩ := append_eq_of_not_mem writtenPlain place
      obtain ⟨inside, after, rfl, absent, _⟩ := ih same fun member => unquoted (List.mem_append_right _ member)
      refine ⟨found ++ inside, after, (List.append_assoc ..).symm, ?_, fun _ empty => ?_⟩
      · rw [List.mem_append, not_or]
        exact ⟨foundPlain, absent⟩
      · exact occupied (List.append_eq_nil_iff.mp empty).1
    · rw [List.append_assoc, List.cons_append, List.append_assoc] at place
      obtain ⟨rfl, same⟩ := first_of frontPlain unquoted place
      obtain ⟨others, rfl, _⟩ := append_eq_of_not_mem plain same.symm
      exact ⟨before, others ++ quote :: tail ++ old, by simp, beforePlain, fun _ => occupied⟩

theorem starts_quoted_lifts (rewrites : Rewrites free (Step manner own sort) old new)
    (starts : Starts (IsConstruct .quoted ending) new) : Starts (IsConstruct .quoted ending) old := by
  obtain ⟨_, more, rfl, role, content, opening, rest, rfl, opens, ⟨occupied, unquoted⟩, ends⟩ := starts
  have quoted : Never (mark <+: ·) [quote] := never_mark_of_not_mem (by decide)
  have place : opening ++ (Manner.quoted.wrap ++ (content ++ (Manner.quoted.wrap ++ rest))) ++ more =
      (opening ++ [quote]) ++ (content ++ quote :: (rest ++ more)) := by simp [Manner.wrap]
  rw [place] at rewrites
  obtain ⟨old, rfl, later⟩ := rewrites.peel (fun _ _ => Step.marks) (opens.never_mark.append quoted)
  obtain ⟨inside, after, rfl, absent, some_⟩ := content_lifts later rfl unquoted
    (ends.not_mem ending.unquoted (by decide)) (ends.not_mem ending.unmarked (by decide))
  exact ⟨opening ++ quote :: (inside ++ quote :: rest), after, by simp, role, inside, opening, rest, rfl, opens,
    ⟨some_ occupied, absent⟩, ends⟩

theorem starts_named_lifts (rewrites : Rewrites free (Step manner own sort) old new)
    (starts : Starts (IsConstruct .named ending) new) : Starts (IsConstruct .named ending) old := by
  obtain ⟨inside, more, rfl, role, content, named⟩ := starts
  obtain ⟨rest, rfl, _⟩ := rewrites.peel (fun _ _ => Step.marks) named.never_mark
  exact ⟨inside, rest, rfl, role, content, named⟩

/-- A construct that starts at a copied unit has started there before. -/
theorem starts_lifts {kind : Manner} (rewrites : Rewrites free (Step manner own sort) old new)
    (starts : Starts (IsConstruct kind ending) new) : Starts (IsConstruct kind ending) old := by
  cases kind with
  | quoted => exact starts_quoted_lifts rewrites starts
  | named => exact starts_named_lifts rewrites starts

end

end Emend.Message
