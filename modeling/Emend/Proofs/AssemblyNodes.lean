import Emend.Proofs.AssemblyShift
import Emend.Proofs.NodeLanguage

/-! What holds of every node that is put together from lexemes: the bounds of its loops are in order,
and its groups have the numbers of the groups that were met. -/

namespace Emend.Expression

/-- The bounds of all loops are in order, and all groups are numbered from one up to some number. -/
structure Node.Numbered (met : Nat) (node : Node) : Prop where
  ordered : node.isOrdered = true
  groups : ∀ index ∈ node.groups, 0 < index ∧ index ≤ met

namespace Node.Numbered

variable {met : Nat} {node : Node}

theorem mono {more : Nat} (numbered : node.Numbered met) (le : met ≤ more) : node.Numbered more :=
  ⟨numbered.ordered, fun index member =>
    ⟨(numbered.groups index member).1, Nat.le_trans (numbered.groups index member).2 le⟩⟩

theorem empty : Node.empty.Numbered met := ⟨rfl, fun _ member => nomatch member⟩

theorem sequence {first second : Node} (left : first.Numbered met) (right : second.Numbered met) :
    (Node.sequence first second).Numbered met := by
  refine ⟨?_, fun index member => ?_⟩
  · rw [isOrdered, left.ordered, right.ordered, Bool.and_self]
  · exact (List.mem_append.mp member).elim (left.groups index) (right.groups index)

theorem choice {first second : Node} (left : first.Numbered met) (right : second.Numbered met) :
    (Node.choice first second).Numbered met := by
  refine ⟨?_, fun index member => ?_⟩
  · rw [isOrdered, left.ordered, right.ordered, Bool.and_self]
  · exact (List.mem_append.mp member).elim (left.groups index) (right.groups index)

theorem sequenceOf {nodes : List Node} (each : ∀ node ∈ nodes, node.Numbered met) :
    (Node.sequenceOf nodes).Numbered met := by
  induction nodes with
  | nil => exact empty
  | cons node nodes ih =>
    exact sequence (each node List.mem_cons_self) (ih fun other member =>
      each other (List.mem_cons_of_mem _ member))

theorem choiceOf {nodes : List Node} (each : ∀ node ∈ nodes, node.Numbered met) :
    (Node.choiceOf nodes).Numbered met := by
  induction nodes with
  | nil => exact empty
  | cons node nodes ih =>
    have first := each node List.mem_cons_self
    cases nodes with
    | nil => exact first
    | cons next others =>
      exact choice first (ih fun other member => each other (List.mem_cons_of_mem _ member))

theorem group {index : Nat} (numbered : node.Numbered met) (positive : 0 < index) (le : index ≤ met) :
    (Node.group index node).Numbered met := by
  refine ⟨numbered.ordered, fun other member => ?_⟩
  rcases List.mem_cons.mp member with rfl | inside
  · exact ⟨positive, le⟩
  · exact numbered.groups other inside

theorem repeated (numbered : node.Numbered met) {least : Nat} {most : Option Nat}
    (bounds : most.all (least ≤ ·) = true) (greedy : Bool) :
    (node.repeated least most greedy).Numbered met := by
  unfold Node.repeated
  split
  next =>
    split
    next => exact empty
    next => exact numbered
  next =>
    refine ⟨?_, numbered.groups⟩
    rw [isOrdered, bounds, numbered.ordered, Bool.and_self]

theorem of_atom (lexed : (Lexeme.atom node).isLexed = true) : node.Numbered met := by
  cases node <;> first | exact ⟨rfl, fun _ member => nomatch member⟩ | cases lexed

theorem of_assertion (lexed : (Lexeme.assertion node).isLexed = true) : node.Numbered met := by
  cases node <;> first | exact ⟨rfl, fun _ member => nomatch member⟩ | cases lexed

end Node.Numbered

structure Frame.Numbered (met : Nat) (frame : Frame) : Prop where
  branches : ∀ node ∈ frame.branches, node.Numbered met
  terms : ∀ node ∈ frame.terms, node.Numbered met
  wrap : ∀ {more : Nat} {node : Node}, met ≤ more → node.Numbered more → (frame.wrap node).Numbered more

namespace Frame.Numbered

variable {met : Nat} {frame : Frame}

theorem mono {more : Nat} (numbered : frame.Numbered met) (le : met ≤ more) : frame.Numbered more :=
  ⟨fun node member => (numbered.branches node member).mono le,
    fun node member => (numbered.terms node member).mono le,
    fun further => numbered.wrap (Nat.le_trans le further)⟩

theorem fresh {wrap : Node → Node} (repeatable : Bool)
    (wraps : ∀ {more : Nat} {node : Node}, met ≤ more → node.Numbered more → (wrap node).Numbered more) :
    (Frame.fresh wrap repeatable).Numbered met :=
  ⟨fun _ member => (nomatch member), fun _ member => (nomatch member), wraps⟩

theorem add (numbered : frame.Numbered met) {node : Node} (term : node.Numbered met) (repeatable : Bool) :
    (frame.add node repeatable).Numbered met := by
  refine ⟨numbered.branches, fun other member => ?_, numbered.wrap⟩
  rcases List.mem_cons.mp member with rfl | inside
  · exact term
  · exact numbered.terms other inside

theorem alternative (numbered : frame.Numbered met) : frame.alternative.Numbered met :=
  .sequenceOf fun node member => numbered.terms node (List.mem_reverse.mp member)

theorem branch (numbered : frame.Numbered met) : frame.branch.Numbered met := by
  refine ⟨fun node member => ?_, fun _ member => (nomatch member), numbered.wrap⟩
  rcases List.mem_cons.mp member with rfl | inside
  · exact numbered.alternative
  · exact numbered.branches node inside

theorem body (numbered : frame.Numbered met) : frame.body.Numbered met := by
  apply Node.Numbered.choiceOf
  intro node member
  rcases List.mem_cons.mp (List.mem_reverse.mp member) with rfl | inside
  · exact numbered.alternative
  · exact numbered.branches node inside

theorem repeatLast (numbered : frame.Numbered met) {least : Nat} {most : Option Nat}
    (bounds : most.all (least ≤ ·) = true) {greedy : Bool} {next : Frame}
    (done : frame.repeatLast least most greedy = .ok next) : next.Numbered met := by
  unfold Frame.repeatLast at done
  split at done
  next last terms _ shape =>
    obtain rfl := Except.ok.inj done
    refine ⟨numbered.branches, fun node member => ?_, numbered.wrap⟩
    rcases List.mem_cons.mp member with rfl | inside
    · exact (numbered.terms last (shape ▸ List.mem_cons_self)).repeated bounds greedy
    · exact numbered.terms node (shape ▸ List.mem_cons_of_mem _ inside)
  next => cases done

end Frame.Numbered

structure Assembly.Numbered (assembly : Assembly) : Prop where
  frame : assembly.frame.Numbered assembly.met
  outer : ∀ frame ∈ assembly.outer, frame.Numbered assembly.met

theorem Assembly.Numbered.step {assembly next : Assembly} (numbered : assembly.Numbered)
    {piece : Lexeme} (lexed : piece.isLexed = true) (step : assembly.step piece = .ok next) :
    next.Numbered := by
  cases piece with
  | opening kind =>
    obtain rfl := Except.ok.inj step
    cases kind with
    | capture name =>
      refine ⟨.fresh true fun le node => node.group (Nat.succ_pos _) le, fun frame member => ?_⟩
      rcases List.mem_cons.mp member with rfl | inside
      · exact numbered.frame.mono (Nat.le_succ _)
      · exact (numbered.outer frame inside).mono (Nat.le_succ _)
    | plain =>
      refine ⟨.fresh true fun _ node => node, fun frame member => ?_⟩
      rcases List.mem_cons.mp member with rfl | inside
      · exact numbered.frame
      · exact numbered.outer frame inside
    | look behind negated =>
      refine ⟨.fresh (!behind) fun _ node => ⟨node.ordered, node.groups⟩, fun frame member => ?_⟩
      rcases List.mem_cons.mp member with rfl | inside
      · exact numbered.frame
      · exact numbered.outer frame inside
  | closing =>
    obtain ⟨met, frame, outer⟩ := assembly
    cases outer with
    | nil => cases step
    | cons around outer =>
      obtain rfl := Except.ok.inj step
      have closed := numbered.frame.wrap (Nat.le_refl _) numbered.frame.body
      exact ⟨(numbered.outer around List.mem_cons_self).add closed _, fun other member =>
        numbered.outer other (List.mem_cons_of_mem _ member)⟩
  | bar =>
    obtain rfl := Except.ok.inj step
    exact ⟨numbered.frame.branch, numbered.outer⟩
  | atom node =>
    obtain rfl := Except.ok.inj step
    exact ⟨numbered.frame.add (.of_atom lexed) true, numbered.outer⟩
  | assertion node =>
    obtain rfl := Except.ok.inj step
    exact ⟨numbered.frame.add (.of_assertion lexed) false, numbered.outer⟩
  | quantifier least most greedy =>
    obtain ⟨frame, done, step⟩ := bind_eq_ok.mp step
    obtain rfl := Except.ok.inj step
    exact ⟨numbered.frame.repeatLast lexed done, numbered.outer⟩

theorem Assembly.Numbered.run {assembly next : Assembly} (numbered : assembly.Numbered)
    {pieces : List Lexeme} (lexed : ∀ piece ∈ pieces, piece.isLexed = true)
    (run : pieces.foldlM Assembly.step assembly = .ok next) : next.Numbered := by
  induction pieces generalizing assembly with
  | nil =>
    obtain rfl := Except.ok.inj run
    exact numbered
  | cons piece pieces ih =>
    rw [List.foldlM_cons] at run
    obtain ⟨middle, step, run⟩ := bind_eq_ok.mp run
    exact ih (numbered.step (lexed piece List.mem_cons_self) step)
      (fun other member => lexed other (List.mem_cons_of_mem _ member)) run

theorem numbered_of_assemble {pieces : List Lexeme} (lexed : ∀ piece ∈ pieces, piece.isLexed = true)
    {node : Node} (made : assemble pieces = .ok node) : node.Numbered (captures pieces) := by
  obtain ⟨last, run, finish⟩ := bind_eq_ok.mp made
  have start : Assembly.start.Numbered :=
    ⟨.fresh false fun _ node => node, fun _ member => nomatch member⟩
  have count := Assembly.run_met run
  have numbered := (start.run lexed run).frame.body
  rw [count, show Assembly.start.met = 0 from rfl, Nat.zero_add] at numbered
  unfold Assembly.finish at finish
  split at finish
  next =>
    obtain rfl := Except.ok.inj finish
    exact numbered
  next => cases finish

end Emend.Expression
