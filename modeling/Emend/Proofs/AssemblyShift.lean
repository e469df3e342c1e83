import Emend.Proofs.LexemeSurvey
import Emend.Expression.Assembly

/-! An expression put inside a group of another one. Its lexemes run on the frames of the outer
expression as they run alone, since they close nothing that they have not opened; the node is the
same but for the numbers of its groups, which go on from those met before. -/

namespace Emend.Expression

/-- The same node with its groups numbered from further on. References keep their numbers. -/
def Node.shift (met : Nat) : Node → Node
  | sequence first second => sequence (first.shift met) (second.shift met)
  | choice first second => choice (first.shift met) (second.shift met)
  | group index body => group (met + index) (body.shift met)
  | loop body least most greedy => loop (body.shift met) least most greedy
  | look behind negated body => look behind negated (body.shift met)
  | empty => empty
  | unit set => unit set
  | reference index => reference index
  | start => start
  | stop => stop
  | wordBoundary negated => wordBoundary negated

section

variable (met : Nat)

theorem Node.shift_sequenceOf (nodes : List Node) :
    (sequenceOf nodes).shift met = sequenceOf (nodes.map (Node.shift met)) := by
  induction nodes with
  | nil => rfl
  | cons node nodes ih => exact congrArg (sequence (node.shift met)) ih

theorem Node.shift_choiceOf (nodes : List Node) :
    (choiceOf nodes).shift met = choiceOf (nodes.map (Node.shift met)) := by
  induction nodes with
  | nil => rfl
  | cons node nodes ih =>
    cases nodes with
    | nil => rfl
    | cons next others => exact congrArg (choice (node.shift met)) ih

theorem Node.consumesNothing_shift (node : Node) :
    (node.shift met).consumesNothing = node.consumesNothing := by
  induction node with
  | sequence first second firstIh secondIh | choice first second firstIh secondIh =>
    simp only [shift, consumesNothing, firstIh, secondIh]
  | group index body ih => exact ih
  | loop body least most greedy ih => simp only [shift, consumesNothing, ih]
  | empty | unit | reference | look | start | stop | wordBoundary => rfl

theorem Node.shift_repeated (body : Node) (least : Nat) (most : Option Nat) (greedy : Bool) :
    (body.repeated least most greedy).shift met = (body.shift met).repeated least most greedy := by
  simp only [repeated, consumesNothing_shift]
  split
  · split <;> rfl
  · rfl

theorem Node.groups_shift (node : Node) : (node.shift met).groups = node.groups.map (met + ·) := by
  induction node with
  | sequence first second firstIh secondIh | choice first second firstIh secondIh =>
    simp only [shift, groups, firstIh, secondIh, List.map_append]
  | group index body ih => simp only [shift, groups, ih, List.map_cons]
  | loop body least most greedy ih => exact ih
  | look behind negated body ih => exact ih
  | empty | unit | reference | start | stop | wordBoundary => rfl

end

/-- How deep the parentheses nest after some lexemes, unless one of them closes what none of them
has opened. -/
def nesting (depth : Nat) : List Lexeme → Option Nat
  | [] => some depth
  | .opening _ :: rest => nesting (depth + 1) rest
  | .closing :: rest =>
    match depth with
    | 0 => none
    | depth + 1 => nesting depth rest
  | _ :: rest => nesting depth rest

theorem nesting_parens (depth : Nat) (pieces : List Lexeme) :
    nesting depth (parens pieces) = nesting depth pieces := by
  induction pieces generalizing depth with
  | nil => rfl
  | cons piece pieces ih =>
    cases piece with
    | opening kind => exact ih (depth + 1)
    | closing =>
      cases depth with
      | zero => rfl
      | succ depth => exact ih depth
    | bar | atom | assertion | quantifier => exact ih depth

inductive Agree {α β : Type} (related : α → β → Prop) : Except Defect α → Except Defect β → Prop where
  | ok {one : α} {two : β} (same : related one two) : Agree related (.ok one) (.ok two)
  | error (reason : Defect) : Agree related (.error reason) (.error reason)

structure Frame.Same (met : Nat) (alone placed : Frame) : Prop where
  branches : placed.branches = alone.branches.map (Node.shift met)
  terms : placed.terms = alone.terms.map (Node.shift met)
  lastRepeatable : placed.lastRepeatable = alone.lastRepeatable

namespace Frame.Same

variable {met : Nat} {alone placed : Frame}

theorem alternative (same : Same met alone placed) :
    placed.alternative = alone.alternative.shift met := by
  rw [Frame.alternative, Frame.alternative, same.terms, Node.shift_sequenceOf, List.map_reverse]

theorem body (same : Same met alone placed) : placed.body = alone.body.shift met := by
  rw [Frame.body, Frame.body, Node.shift_choiceOf, same.alternative, same.branches, List.map_reverse,
    List.map_cons]

theorem add (same : Same met alone placed) (node : Node) (repeatable : Bool) :
    Same met (alone.add node repeatable) (placed.add (node.shift met) repeatable) :=
  ⟨same.branches, by simp only [Frame.add, same.terms, List.map_cons], rfl⟩

theorem branch (same : Same met alone placed) : Same met alone.branch placed.branch :=
  ⟨by simp only [Frame.branch, same.alternative, same.branches, List.map_cons], rfl, rfl⟩

theorem close (same : Same met alone placed) {frame inner : Frame} (inside : Same met frame inner)
    (wrap : ∀ node, inner.wrap (node.shift met) = (frame.wrap node).shift met)
    (repeatable : inner.repeatable = frame.repeatable) :
    Same met (alone.add (frame.wrap frame.body) frame.repeatable)
      (placed.add (inner.wrap inner.body) inner.repeatable) := by
  rw [inside.body, wrap, repeatable]
  exact same.add _ _

end Frame.Same

/-- The frames of an expression alone and put inside a group: what is opened inside closes to the
same node, and the outermost frame alone is the group. -/
inductive Stacked (met : Nat) (group : Frame) (outer : List Frame) : List Frame → List Frame → Prop where
  | bottom {alone placed : Frame} (same : alone.Same met placed) (wrap : placed.wrap = group.wrap)
      (repeatable : placed.repeatable = group.repeatable) :
      Stacked met group outer [alone] (placed :: outer)
  | above {alone placed : Frame} {below under : List Frame} (same : alone.Same met placed)
      (wrap : ∀ node, placed.wrap (node.shift met) = (alone.wrap node).shift met)
      (repeatable : placed.repeatable = alone.repeatable) (stacked : Stacked met group outer below under) :
      Stacked met group outer (alone :: below) (placed :: under)

section

variable {met : Nat} {group : Frame} {outer : List Frame} {alone placed : Frame}
  {below under : List Frame}

theorem Stacked.same (stacked : Stacked met group outer (alone :: below) (placed :: under)) :
    alone.Same met placed := by
  cases stacked with
  | bottom same => exact same
  | above same => exact same

theorem Stacked.grow (stacked : Stacked met group outer (alone :: below) (placed :: under))
    {further more : Frame} (same : further.Same met more)
    (kept : further.wrap = alone.wrap ∧ further.repeatable = alone.repeatable)
    (keptToo : more.wrap = placed.wrap ∧ more.repeatable = placed.repeatable) :
    Stacked met group outer (further :: below) (more :: under) := by
  cases stacked with
  | bottom _ wrap repeatable =>
    exact .bottom same (keptToo.1.trans wrap) (keptToo.2.trans repeatable)
  | above _ wrap repeatable stacked =>
    refine .above same ?_ ?_ stacked
    · rw [kept.1, keptToo.1]
      exact wrap
    · rw [kept.2, keptToo.2]
      exact repeatable

/-- An assembly alone and the one that goes on inside a group. -/
structure Placed (met : Nat) (group : Frame) (outer : List Frame) (alone placed : Assembly) : Prop where
  count : placed.met = met + alone.met
  stacked : Stacked met group outer (alone.frame :: alone.outer) (placed.frame :: placed.outer)

theorem Placed.enter {alone placed : Assembly} (stays : Placed met group outer alone placed)
    (kind : Opening) : Placed met group outer (alone.enter kind) (placed.enter kind) := by
  have fresh {wrap around : Node → Node} {repeatable : Bool} :
      (Frame.fresh wrap repeatable).Same met (Frame.fresh around repeatable) := ⟨rfl, rfl, rfl⟩
  cases kind with
  | capture name =>
    have count : placed.met + 1 = met + (alone.met + 1) := by rw [stays.count, Nat.add_assoc]
    refine ⟨count, .above fresh (fun node => ?_) rfl stays.stacked⟩
    show Node.group (placed.met + 1) (node.shift met) = .group (met + (alone.met + 1)) (node.shift met)
    rw [count]
  | plain => exact ⟨stays.count, .above fresh (fun _ => rfl) rfl stays.stacked⟩
  | look behind negated => exact ⟨stays.count, .above fresh (fun _ => rfl) rfl stays.stacked⟩

theorem Frame.Same.repeatLast (same : alone.Same met placed) (least : Nat) (most : Option Nat)
    (greedy : Bool) :
    Agree (fun further more => further.Same met more ∧
        (further.wrap = alone.wrap ∧ further.repeatable = alone.repeatable) ∧
        more.wrap = placed.wrap ∧ more.repeatable = placed.repeatable)
      (alone.repeatLast least most greedy) (placed.repeatLast least most greedy) := by
  obtain ⟨branches, terms, lastRepeatable⟩ := same
  unfold Frame.repeatLast
  rw [terms, lastRepeatable]
  cases alone.lastRepeatable with
  | false => exact .error _
  | true =>
    cases alone.terms with
    | nil => exact .error _
    | cons last others =>
      refine .ok ⟨⟨branches, ?_, rfl⟩, ⟨rfl, rfl⟩, rfl, rfl⟩
      simp only [List.map_cons, Node.shift_repeated]

/-- One lexeme does to an assembly inside a group what it does to the one alone, unless it closes
the group itself. -/
theorem Placed.step {alone placed : Assembly} (stays : Placed met group outer alone placed)
    {piece : Lexeme} (lexed : piece.isLexed = true) (fits : piece = .closing → alone.outer ≠ []) :
    Agree (Placed met group outer) (alone.step piece) (placed.step piece) := by
  have same := stays.stacked.same
  cases piece with
  | opening kind => exact .ok (stays.enter kind)
  | closing =>
    obtain ⟨count, stacked⟩ := stays
    obtain ⟨met, frame, frames⟩ := alone
    obtain ⟨metToo, frameToo, framesToo⟩ := placed
    cases stacked with
    | bottom => exact absurd rfl (fits rfl)
    | above same wrap repeatable below =>
      cases below with
      | bottom around wrapped repeated =>
        exact .ok ⟨count, .bottom (around.close same wrap repeatable) wrapped repeated⟩
      | above around wrapped repeated further =>
        exact .ok ⟨count, .above (around.close same wrap repeatable) wrapped repeated further⟩
  | bar =>
    exact .ok ⟨stays.count, stays.stacked.grow same.branch ⟨rfl, rfl⟩ ⟨rfl, rfl⟩⟩
  | atom node =>
    have fixed : node.shift met = node := by
      cases node <;> first | rfl | cases lexed
    have added := same.add node true
    rw [fixed] at added
    exact .ok ⟨stays.count, stays.stacked.grow added ⟨rfl, rfl⟩ ⟨rfl, rfl⟩⟩
  | assertion node =>
    have fixed : node.shift met = node := by
      cases node <;> first | rfl | cases lexed
    have added := same.add node false
    rw [fixed] at added
    exact .ok ⟨stays.count, stays.stacked.grow added ⟨rfl, rfl⟩ ⟨rfl, rfl⟩⟩
  | quantifier least most greedy =>
    have agree := same.repeatLast least most greedy
    simp only [Assembly.step]
    generalize alone.frame.repeatLast least most greedy = one at agree
    generalize placed.frame.repeatLast least most greedy = two at agree
    cases agree with
    | error reason => exact .error reason
    | ok grown =>
      obtain ⟨grown, kept, keptToo⟩ := grown
      exact .ok ⟨stays.count, stays.stacked.grow grown kept keptToo⟩

end

/-- Assembling opens and closes as the parentheses nest. -/
theorem Assembly.step_nesting {assembly next : Assembly} {piece : Lexeme}
    (step : assembly.step piece = .ok next) (rest : List Lexeme) :
    nesting assembly.outer.length (piece :: rest) = nesting next.outer.length rest := by
  cases piece with
  | opening kind =>
    obtain rfl := Except.ok.inj step
    cases kind <;> rfl
  | closing =>
    obtain ⟨met, frame, outer⟩ := assembly
    cases outer with
    | nil => cases step
    | cons around outer =>
      obtain rfl := Except.ok.inj step
      rfl
  | bar | atom | assertion =>
    obtain rfl := Except.ok.inj step
    rfl
  | quantifier least most greedy =>
    obtain ⟨frame, _, step⟩ := bind_eq_ok.mp step
    obtain rfl := Except.ok.inj step
    rfl

theorem Assembly.run_nesting {assembly next : Assembly} {pieces : List Lexeme}
    (run : pieces.foldlM Assembly.step assembly = .ok next) :
    nesting assembly.outer.length pieces = some next.outer.length := by
  induction pieces generalizing assembly with
  | nil =>
    obtain rfl := Except.ok.inj run
    rfl
  | cons piece pieces ih =>
    rw [List.foldlM_cons] at run
    obtain ⟨middle, step, run⟩ := bind_eq_ok.mp run
    rw [Assembly.step_nesting step, ih run]

theorem Assembly.step_met {assembly next : Assembly} {piece : Lexeme}
    (step : assembly.step piece = .ok next) :
    next.met = assembly.met + if piece.captures then 1 else 0 := by
  cases piece with
  | opening kind =>
    obtain rfl := Except.ok.inj step
    cases kind <;> rfl
  | closing =>
    obtain ⟨met, frame, outer⟩ := assembly
    cases outer with
    | nil => cases step
    | cons around outer =>
      obtain rfl := Except.ok.inj step
      rfl
  | bar | atom | assertion =>
    obtain rfl := Except.ok.inj step
    rfl
  | quantifier least most greedy =>
    obtain ⟨frame, _, step⟩ := bind_eq_ok.mp step
    obtain rfl := Except.ok.inj step
    rfl

theorem Assembly.run_met {assembly next : Assembly} {pieces : List Lexeme}
    (run : pieces.foldlM Assembly.step assembly = .ok next) :
    next.met = assembly.met + captures pieces := by
  induction pieces generalizing assembly with
  | nil =>
    obtain rfl := Except.ok.inj run
    rfl
  | cons piece pieces ih =>
    rw [List.foldlM_cons] at run
    obtain ⟨middle, step, run⟩ := bind_eq_ok.mp run
    rw [ih run, Assembly.step_met step, captures, captures, List.countP_cons]
    omega

theorem nesting_of_assemble {pieces : List Lexeme} {node : Node} (made : assemble pieces = .ok node) :
    nesting 0 pieces = some 0 := by
  obtain ⟨last, run, finish⟩ := bind_eq_ok.mp made
  have depth := Assembly.run_nesting run
  cases outer : last.outer with
  | nil =>
    rw [outer] at depth
    exact depth
  | cons around outer' =>
    rw [Assembly.finish, outer] at finish
    cases finish

theorem Placed.run {met : Nat} {group : Frame} {outer : List Frame} {alone placed : Assembly}
    (stays : Placed met group outer alone placed) {pieces : List Lexeme}
    (lexed : ∀ piece ∈ pieces, piece.isLexed = true) {depth : Nat}
    (nest : nesting alone.outer.length pieces = some depth) :
    Agree (Placed met group outer) (pieces.foldlM Assembly.step alone)
      (pieces.foldlM Assembly.step placed) := by
  induction pieces generalizing alone placed with
  | nil => exact .ok stays
  | cons piece pieces ih =>
    have fits : piece = .closing → alone.outer ≠ [] := by
      rintro rfl empty
      rw [empty] at nest
      cases nest
    have agree := stays.step (lexed piece List.mem_cons_self) fits
    have depthOf {next : Assembly} (step : alone.step piece = .ok next) :=
      Assembly.step_nesting step pieces
    rw [List.foldlM_cons, List.foldlM_cons]
    generalize alone.step piece = one at agree depthOf
    generalize placed.step piece = two at agree
    cases agree with
    | error reason => exact .error reason
    | ok next =>
      exact ih next (fun later member => lexed later (List.mem_cons_of_mem _ member))
        (depthOf rfl ▸ nest)

/-- A group with an expression inside becomes one term, made of the node of the expression alone. -/
theorem run_group {pieces : List Lexeme} (balanced : nesting 0 pieces = some 0)
    (lexed : ∀ piece ∈ pieces, piece.isLexed = true) (met : Nat) (wrap : Node → Node)
    (repeatable : Bool) (frame : Frame) (outer : List Frame) :
    (pieces ++ [Lexeme.closing]).foldlM Assembly.step ⟨met, .fresh wrap repeatable, frame :: outer⟩ =
      (assemble pieces).map fun node =>
        ⟨met + captures pieces, frame.add (wrap (node.shift met)) repeatable, outer⟩ := by
  have start : Placed met (.fresh wrap repeatable) (frame :: outer) .start
      ⟨met, .fresh wrap repeatable, frame :: outer⟩ :=
    ⟨rfl, .bottom ⟨rfl, rfl, rfl⟩ rfl rfl⟩
  have agree := start.run lexed balanced
  rw [List.foldlM_append, assemble]
  have depthOf {next : Assembly} (run : pieces.foldlM Assembly.step .start = .ok next) :
      next.outer = [] := by
    have depth := (Assembly.run_nesting run).symm.trans balanced
    exact List.length_eq_zero_iff.mp (Option.some.inj depth)
  have metOf {next : Assembly} (run : pieces.foldlM Assembly.step .start = .ok next) :=
    Assembly.run_met run
  generalize pieces.foldlM Assembly.step .start = one at agree depthOf metOf ⊢
  generalize pieces.foldlM Assembly.step ⟨met, .fresh wrap repeatable, frame :: outer⟩ = two at agree ⊢
  cases agree with
  | error reason => rfl
  | @ok alone placed same =>
    have count := metOf rfl
    have closed := depthOf rfl
    obtain ⟨groups, last, others⟩ := alone
    obtain ⟨groupsToo, lastToo, othersToo⟩ := placed
    obtain ⟨metToo, stacked⟩ := same
    obtain rfl : others = [] := closed
    cases stacked with
    | bottom same wrapped repeated =>
      have total : groupsToo = met + captures pieces := by
        rw [show groupsToo = met + groups from metToo, show groups = 0 + captures pieces from count,
          Nat.zero_add]
      show Except.ok (Assembly.mk groupsToo (frame.add (lastToo.wrap lastToo.body) lastToo.repeatable) outer) =
        .ok ⟨met + captures pieces, frame.add (wrap (last.body.shift met)) repeatable, outer⟩
      rw [same.body, total, show lastToo.wrap = wrap from wrapped,
        show lastToo.repeatable = repeatable from repeated]
    | above _ _ _ below => cases below

end Emend.Expression
