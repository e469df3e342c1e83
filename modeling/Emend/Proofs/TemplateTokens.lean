import Mathlib.Data.List.TakeWhile
import Emend.Template.Pattern
import Emend.Proofs.LexemeReading

/-! What the tokens of a template carry. A hole has a word for a name, and its constraint is a regular
expression on its own; neither is lost when the blanks around a pattern are trimmed. -/

namespace Emend.Template

open Text Expression

/-- A hole as it is read: a word that starts with no digit, and a constraint that has been checked. -/
structure Hole.Sound (hole : Hole) : Prop where
  starts : hole.name.head?.any startsName = true
  word : ∀ u ∈ hole.name, isWord u = true
  checked : ∀ constraint, hole.constraint = some constraint →
    ∃ expression, Expression.parse constraint = .ok expression

def HolesSound (tokens : List Token) : Prop := ∀ hole, .hole hole ∈ tokens → hole.Sound

theorem holesSound_prepend {tokens : List Token} (sound : HolesSound tokens) (u : UInt16) :
    HolesSound (prepend u tokens) := by
  intro hole member
  unfold prepend at member
  split at member
  · rcases List.mem_cons.mp member with same | inside
    · cases same
    · exact sound hole (List.mem_cons_of_mem _ inside)
  · rcases List.mem_cons.mp member with same | inside
    · cases same
    · exact sound hole inside

theorem hole?_name {t : Text} {hole : Hole} {count : Nat} (read : hole? t = some (hole, count)) :
    hole.name = t.takeWhile isWord ∧ hole.name.head?.any startsName = true := by
  simp only [hole?] at read
  split at read
  next starts =>
    split at read
    next => cases read
    next =>
      split at read
      next =>
        obtain ⟨rfl, _⟩ := Prod.mk.inj (Option.some.inj read)
        exact ⟨rfl, starts⟩
      next =>
        split at read
        next =>
          split at read
          next => cases read
          next => cases read
          next =>
            obtain ⟨rfl, _⟩ := Prod.mk.inj (Option.some.inj read)
            exact ⟨rfl, starts⟩
        next => cases read
  next => cases read

theorem Hole.check_ok {hole : Hole} (checked : hole.check = .ok ()) {constraint : Text}
    (constrained : hole.constraint = some constraint) :
    ∃ expression, Expression.parse constraint = .ok expression := by
  unfold Hole.check at checked
  rw [constrained] at checked
  simp only at checked
  split at checked
  next => cases checked
  next =>
    split at checked
    next expression parsed => exact ⟨expression, parsed⟩
    next => cases checked

/-- A template is read from its start on: a unit, an escaped one or a hole, and the tokens of what comes after it. -/
theorem tokens_read_induction {motive : Text → List Token → Prop} (nil : motive [] [])
    (unit : ∀ u t tokens, motive t tokens → motive (u :: t) (prepend u tokens))
    (escaped : ∀ u t tokens, motive t tokens → motive (backslash :: u :: t) (prepend u tokens))
    (hole : ∀ t hole count tokens, hole? t = some (hole, count) → hole.check = .ok () → motive (t.drop count) tokens →
      motive (colon :: openBracket :: t) (.hole hole :: tokens)) {source : Text} {tokens : List Token}
    (read : Template.tokens source = .ok tokens) : motive source tokens := by
  suffices each : ∀ size (t : Text), t.length ≤ size → ∀ offset tokens, tokensFrom offset t = .ok tokens →
      motive t tokens from
    each source.length source (Nat.le_refl _) 0 tokens read
  clear read
  intro size
  induction size with
  | zero =>
    intro t short offset tokens read
    obtain rfl := List.length_eq_zero_iff.mp (Nat.le_zero.mp short)
    rw [tokensFrom] at read
    exact Except.ok.inj read ▸ nil
  | succ size ih =>
    intro t short offset tokens read
    cases t with
    | nil =>
      rw [tokensFrom] at read
      exact Except.ok.inj read ▸ nil
    | cons u rest =>
      rw [List.length_cons] at short
      rw [tokensFrom.eq_def] at read
      simp only at read
      split at read
      next same =>
        split at read
        next => exact Except.ok.inj read ▸ unit u [] [] nil
        next v more =>
          obtain ⟨others, back, read⟩ := bind_eq_ok.mp read
          rw [List.length_cons] at short
          exact Except.ok.inj read ▸ same ▸ escaped v more others (ih more (by omega) _ others back)
      next =>
        split at read
        next opens =>
          split at read
          next => cases read
          next other count found =>
            simp only [Bool.and_eq_true, decide_eq_true_eq, List.head?_eq_some_iff] at opens
            obtain ⟨rfl, more, rfl⟩ := opens
            obtain ⟨_, checked, read⟩ := bind_eq_ok.mp read
            obtain ⟨others, back, read⟩ := bind_eq_ok.mp read
            rw [List.length_cons] at short
            rw [Nat.add_comm 1 count, List.drop_succ_cons] at back
            exact Except.ok.inj read ▸ hole more other count others found checked
              (ih _ (by rw [List.length_drop]; omega) _ others back)
        next =>
          obtain ⟨others, back, read⟩ := bind_eq_ok.mp read
          exact Except.ok.inj read ▸ unit u rest others (ih rest (by omega) _ others back)

/-- The tokens of a template are put together from its end on: a unit comes in front of them, or a hole does. -/
theorem tokens_induction {motive : List Token → Prop} (nil : motive [])
    (unit : ∀ u tokens, motive tokens → motive (prepend u tokens))
    (hole : ∀ t hole count tokens, hole? t = some (hole, count) → hole.check = .ok () → motive tokens →
      motive (.hole hole :: tokens)) {source : Text} {tokens : List Token}
    (read : Template.tokens source = .ok tokens) : motive tokens :=
  tokens_read_induction (motive := fun _ => motive) nil (fun u _ => unit u) (fun u _ => unit u) hole read

theorem tokens_sound {source : Text} {tokens : List Token} (read : Template.tokens source = .ok tokens) :
    HolesSound tokens := by
  refine tokens_induction (motive := HolesSound) ?nil ?unit ?hole read
  case nil =>
    intro hole member
    cases member
  case unit => exact fun u tokens sound => holesSound_prepend sound u
  case hole =>
    intro t hole count tokens found checked sound
    obtain ⟨name, starts⟩ := hole?_name found
    intro other member
    rcases List.mem_cons.mp member with same | later
    · obtain rfl := Token.hole.inj same
      refine ⟨starts, fun u inside => ?_, fun _ => Hole.check_ok checked⟩
      rw [name] at inside
      exact List.all_eq_true.mp List.all_takeWhile u inside
    · exact sound other later

theorem tokens_occupied {source : Text} {tokens : List Token} (read : Template.tokens source = .ok tokens) :
    .literal [] ∉ tokens := by
  refine tokens_induction (motive := (.literal [] ∉ ·)) List.not_mem_nil ?unit ?hole read
  case unit =>
    intro u tokens occupied
    unfold prepend
    split <;> simp_all
  case hole =>
    intro t hole count tokens found checked occupied
    simpa using occupied

theorem tokensFrom_blank {t : Text} (blank : ∀ u ∈ t, isBlank u = true) (offset : Nat) :
    tokensFrom offset t = .ok (if t.isEmpty then [] else [.literal t]) := by
  induction t generalizing offset with
  | nil => rw [tokensFrom]; rfl
  | cons u rest ih =>
    have solid {v : UInt16} (other : isBlank v = false) : u ≠ v := by
      rintro rfl
      rw [blank u List.mem_cons_self] at other
      cases other
    rw [tokensFrom.eq_def]
    simp only [if_neg (solid (show isBlank backslash = false by decide)),
      decide_eq_false (solid (show isBlank colon = false by decide)), Bool.false_and, Bool.false_eq_true,
      if_false, ih fun v member => blank v (List.mem_cons_of_mem _ member)]
    cases rest <;> rfl

end Emend.Template

namespace Emend.Pattern

open Template

theorem mem_trimFirst {trim : Text → Text} {tokens : List Token} {hole : Hole} :
    .hole hole ∈ trimFirst trim tokens ↔ .hole hole ∈ tokens := by
  unfold trimFirst
  split
  next => simp
  next => rfl

theorem mem_trimOuter {tokens : List Token} {hole : Hole} :
    .hole hole ∈ trimOuter tokens ↔ .hole hole ∈ tokens := by
  have kept : (Token.hole hole != .literal []) = true := rfl
  simp only [trimOuter, List.mem_filter, kept, and_true, List.mem_reverse, mem_trimFirst]

theorem trimStart_solid {value : Text} (solid : ∀ u ∈ value, Text.isBlank u = false) :
    Text.trimStart value = value := by
  cases value with
  | nil => rfl
  | cons u value => exact List.dropWhile_cons_of_neg (Bool.eq_false_iff.mp (solid u List.mem_cons_self))

theorem trimEnd_solid {value : Text} (solid : ∀ u ∈ value, Text.isBlank u = false) : Text.trimEnd value = value := by
  have turned := trimStart_solid fun u member => solid u (List.mem_reverse.mp member)
  rw [Text.trimEnd, ← Text.trimStart, turned, List.reverse_reverse]

theorem trimFirst_eq_self {trim : Text → Text} {tokens : List Token}
    (kept : ∀ value, .literal value ∈ tokens → trim value = value) : trimFirst trim tokens = tokens := by
  unfold trimFirst
  split
  · next value rest => rw [kept value List.mem_cons_self]
  · rfl

theorem trimOuter_eq_self {tokens : List Token} (occupied : .literal [] ∉ tokens)
    (solid : ∀ value, .literal value ∈ tokens → ∀ u ∈ value, Text.isBlank u = false) : trimOuter tokens = tokens := by
  have front : trimFirst Text.trimStart tokens = tokens :=
    trimFirst_eq_self fun value member => trimStart_solid (solid value member)
  have back : trimFirst Text.trimEnd tokens.reverse = tokens.reverse :=
    trimFirst_eq_self fun value member => trimEnd_solid (solid value (List.mem_reverse.mp member))
  rw [trimOuter, front, back, List.reverse_reverse, List.filter_eq_self]
  exact fun token member => bne_iff_ne.mpr fun same => occupied (same ▸ member)

theorem blank_of_trim {t : Text} (empty : Text.trim t = []) : ∀ u ∈ t, Text.isBlank u = true := by
  have front : Text.trimStart t = [] := by
    have all : ∀ u ∈ Text.trimStart t, Text.isBlank u = true := by
      have back : (Text.trimStart t).reverse.dropWhile Text.isBlank = [] := List.reverse_eq_nil_iff.mp empty
      intro u member
      exact List.dropWhile_eq_nil_iff.mp back u (List.mem_reverse.mpr member)
    cases shape : Text.trimStart t with
    | nil => rfl
    | cons u rest =>
      have first := List.head?_dropWhile_not Text.isBlank t
      rw [show t.dropWhile Text.isBlank = u :: rest from shape] at first
      have blank := all u (shape ▸ List.mem_cons_self)
      simp [blank] at first
  exact List.dropWhile_eq_nil_iff.mp front

theorem trim_ne_nil_of_literal {source : Text} {tokens : List Token}
    (read : Template.tokens source = .ok tokens)
    (anchored : (trimOuter tokens).any Token.isLiteral = true) : Text.trim source ≠ [] := by
  intro empty
  have blank := blank_of_trim empty
  rw [Template.tokens, tokensFrom_blank blank] at read
  obtain rfl := Except.ok.inj read
  split at anchored
  next => cases anchored
  next =>
    have trimmed : Text.trimStart source = [] := List.dropWhile_eq_nil_iff.mpr blank
    simp [trimOuter, trimFirst, trimmed, Text.trimEnd] at anchored

end Emend.Pattern
