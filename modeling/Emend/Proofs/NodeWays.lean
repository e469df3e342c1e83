import Emend.Expression.Match

/-! Every way in which a node can match, best first. Running a node hands these ways to the rest one
after the other, so a proof about matching may look at the list and forget the rest. -/

namespace Emend.Expression

def requiredWays (body : Point → List Point) (indices : List Nat) : Nat → Point → List Point
  | 0, point => [point]
  | count + 1, point =>
    (body { point with groups := point.groups.forget indices }).flatMap
      (requiredWays body indices count)

/-- The points where up to a number of runs of a body may end. A run that consumes nothing ends
nowhere. -/
def optionalWays (body : Point → List Point) (indices : List Nat) (greedy : Bool) :
    Nat → Point → List Point
  | 0, point => [point]
  | count + 1, point =>
    let further := (body { point with groups := point.groups.forget indices }).flatMap fun next =>
      if next.position = point.position then []
      else optionalWays body indices greedy count next
    if greedy then further ++ [point] else point :: further

/-- The points where a node may end when it starts at a point. -/
def Node.ways (text : Array UInt16) : Node → Direction → Point → List Point
  | empty, _, point => [point]
  | unit set, direction, point =>
    match direction.read? text point.position with
    | some (u, next) => if set.contains u then [{ point with position := next }] else []
    | none => []
  | sequence first second, .forward, point =>
    (first.ways text .forward point).flatMap (second.ways text .forward)
  | sequence first second, .backward, point =>
    (second.ways text .backward point).flatMap (first.ways text .backward)
  | choice first second, direction, point =>
    first.ways text direction point ++ second.ways text direction point
  | group index body, direction, point =>
    (body.ways text direction point).map fun next =>
      { next with groups := next.groups.record index (.between point.position next.position) }
  | reference index, direction, point =>
    match point.groups index with
    | none => [point]
    | some span =>
      match direction.again? text span point.position with
      | some next => [{ point with position := next }]
      | none => []
  | loop body least most greedy, direction, point =>
    (requiredWays (body.ways text direction) body.groups
      (requiredRuns least (direction.room text point.position)) point).flatMap fun next =>
        optionalWays (body.ways text direction) body.groups greedy
          (optionalRuns least most (direction.room text next.position)) next
  | look behind negated body, _, point =>
    match (body.ways text (if behind then .backward else .forward) point).head? with
    | some found => if negated then [] else [{ point with groups := found.groups }]
    | none => if negated then [point] else []
  | start, _, point => if point.position = 0 then [point] else []
  | stop, _, point => if point.position = text.size then [point] else []
  | wordBoundary negated, _, point =>
    if atWordBoundary text point.position != negated then [point] else []

private theorem findSome?_flatMap {α β γ : Type} (items : List α) (next : α → List β)
    (rest : β → Option γ) :
    (items.flatMap next).findSome? rest = items.findSome? fun item => (next item).findSome? rest := by
  induction items with
  | nil => rfl
  | cons item items ih =>
    rw [List.flatMap_cons, List.findSome?_append, ih, List.findSome?_cons]
    cases (next item).findSome? rest <;> rfl

/-- A body behaves as its ways say, whatever follows it. -/
def Follows (body : Rest → Rest) (ways : Point → List Point) : Prop :=
  ∀ rest point, body rest point = (ways point).findSome? rest

theorem required_eq {body : Rest → Rest} {ways : Point → List Point} (follows : Follows body ways)
    (indices : List Nat) (count : Nat) :
    Follows (required body indices count) (requiredWays ways indices count) := by
  induction count with
  | zero =>
    intro rest point
    simp only [required, requiredWays, List.findSome?_singleton]
  | succ count ih =>
    intro rest point
    simp only [required, requiredWays, findSome?_flatMap]
    rw [follows]
    congr 1
    funext next
    exact ih rest next

theorem optional_eq {body : Rest → Rest} {ways : Point → List Point} (follows : Follows body ways)
    (indices : List Nat) (greedy : Bool) (count : Nat) :
    Follows (optional body indices greedy count) (optionalWays ways indices greedy count) := by
  induction count with
  | zero =>
    intro rest point
    simp only [optional, optionalWays, List.findSome?_singleton]
  | succ count ih =>
    intro rest point
    have onward : (fun next : Point =>
          if next.position = point.position then none else optional body indices greedy count rest next) =
        fun next : Point =>
          (if next.position = point.position then []
            else optionalWays ways indices greedy count next).findSome? rest := by
      funext next
      split
      · rfl
      · exact ih rest next
    simp only [optional, optionalWays, onward, follows _ _]
    cases greedy
    · simp only [Bool.false_eq_true, if_false, List.findSome?_cons, findSome?_flatMap]
      cases rest point <;> rfl
    · simp only [if_true, List.findSome?_append, findSome?_flatMap, List.findSome?_singleton]
      cases (ways _).findSome? _ <;> rfl

/-- The rest goes on from the best way that lets it succeed. -/
theorem Node.run_eq_findSome? (text : Array UInt16) (node : Node) (direction : Direction) :
    Follows (node.run text direction) (node.ways text direction) := by
  induction node generalizing direction with
  | empty =>
    intro rest point
    simp only [run, ways, List.findSome?_singleton]
  | unit set =>
    intro rest point
    simp only [run, ways]
    cases direction.read? text point.position with
    | none => rfl
    | some pair =>
      by_cases member : set.contains pair.1 = true <;> simp [member]
  | sequence first second firstIh secondIh =>
    intro rest point
    cases direction
    · simp only [run, ways, findSome?_flatMap, firstIh .forward _ _]
      congr 1
      funext next
      exact secondIh .forward rest next
    · simp only [run, ways, findSome?_flatMap, secondIh .backward _ _]
      congr 1
      funext next
      exact firstIh .backward rest next
  | choice first second firstIh secondIh =>
    intro rest point
    simp only [run, ways, List.findSome?_append, firstIh direction _ _, secondIh direction _ _]
    cases (first.ways text direction point).findSome? rest <;> rfl
  | group index body ih =>
    intro rest point
    simp only [run, ways, List.findSome?_map, ih direction _ _]
    rfl
  | reference index =>
    intro rest point
    simp only [run, ways]
    cases point.groups index with
    | none => simp
    | some span =>
      simp only
      cases direction.again? text span point.position <;> simp
  | loop body least most greedy ih =>
    intro rest point
    rw [run_loop, required_eq (ih direction)]
    simp only [ways, findSome?_flatMap]
    congr 1
    funext next
    exact optional_eq (ih direction) _ _ _ _ _
  | look behind negated body ih =>
    intro rest point
    simp only [run, ways, ih _ _ _]
    cases (body.ways text (if behind then .backward else .forward) point) with
    | nil => cases negated <;> simp
    | cons found others => cases negated <;> simp
  | start =>
    intro rest point
    simp only [run, ways]
    split <;> simp
  | stop =>
    intro rest point
    simp only [run, ways]
    split <;> simp
  | wordBoundary negated =>
    intro rest point
    simp only [run, ways]
    split <;> simp

theorem Node.matchAt_eq (text : Array UInt16) (node : Node) (position : Nat) :
    node.matchAt text position = (node.ways text .forward ⟨position, fun _ => none⟩).head? := by
  rw [matchAt, run_eq_findSome?]
  cases node.ways text .forward ⟨position, fun _ => none⟩ <;> rfl

theorem mem_optionalWays_succ {body : Point → List Point} {indices : List Nat} {greedy : Bool}
    {count : Nat} {point next : Point} :
    next ∈ optionalWays body indices greedy (count + 1) point ↔
      next = point ∨ ∃ middle ∈ body { point with groups := point.groups.forget indices },
        middle.position ≠ point.position ∧ next ∈ optionalWays body indices greedy count middle := by
  have further : (next ∈ (body { point with groups := point.groups.forget indices }).flatMap
        fun middle => if middle.position = point.position then []
          else optionalWays body indices greedy count middle) ↔
      ∃ middle ∈ body { point with groups := point.groups.forget indices },
        middle.position ≠ point.position ∧ next ∈ optionalWays body indices greedy count middle := by
    rw [List.mem_flatMap]
    apply exists_congr
    intro middle
    apply and_congr_right
    intro _
    split <;> simp_all
  cases greedy
  · simp only [optionalWays, Bool.false_eq_true, if_false, List.mem_cons, further]
  · simp only [optionalWays, if_true, List.mem_append, List.mem_singleton, further]
    exact or_comm

section

variable {body : Point → List Point} {indices : List Nat}

/-- What holds between the ends of every run, and may be chained, holds between the ends of any
number of runs. -/
theorem related_of_mem_requiredWays (related : Point → Point → Prop) (refl : ∀ point, related point point)
    (trans : ∀ {a b c}, related a b → related b c → related a c)
    (step : ∀ point, ∀ next ∈ body { point with groups := point.groups.forget indices },
      related point next) :
    ∀ (count : Nat) (point next : Point), next ∈ requiredWays body indices count point →
      related point next := by
  intro count
  induction count with
  | zero =>
    intro point next member
    obtain rfl := List.mem_singleton.mp member
    exact refl next
  | succ count ih =>
    intro point next member
    obtain ⟨middle, first, later⟩ := List.mem_flatMap.mp member
    exact trans (step point middle first) (ih middle next later)

theorem related_of_mem_optionalWays (related : Point → Point → Prop) (greedy : Bool) (refl : ∀ point, related point point)
    (trans : ∀ {a b c}, related a b → related b c → related a c)
    (step : ∀ point, ∀ next ∈ body { point with groups := point.groups.forget indices },
      related point next) :
    ∀ (count : Nat) (point next : Point), next ∈ optionalWays body indices greedy count point →
      related point next := by
  intro count
  induction count with
  | zero =>
    intro point next member
    obtain rfl := List.mem_singleton.mp member
    exact refl next
  | succ count ih =>
    intro point next member
    rcases mem_optionalWays_succ.mp member with rfl | ⟨middle, first, moved, later⟩
    · exact refl next
    · exact trans (step point middle first) (ih middle next later)

end

theorem Groups.forget_of_not_mem (groups : Groups) {indices : List Nat} {index : Nat}
    (outside : index ∉ indices) : groups.forget indices index = groups index := by
  unfold Groups.forget
  split
  · rfl
  · simp [outside]

theorem Groups.record_of_ne (groups : Groups) {index other : Nat} (span : Span)
    (different : other ≠ index) : groups.record index span other = groups other := by
  simp [Groups.record, different]

theorem Groups.record_self (groups : Groups) (index : Nat) (span : Span) :
    groups.record index span index = some span := by
  simp [Groups.record]

/-- A match never touches a group outside the node. -/
theorem Node.ways_groups {text : Array UInt16} {node : Node} {direction : Direction}
    {point next : Point} {index : Nat} (member : next ∈ node.ways text direction point)
    (outside : index ∉ node.groups) : next.groups index = point.groups index := by
  induction node generalizing direction point next with
  | empty =>
    obtain rfl := List.mem_singleton.mp member
    rfl
  | unit set =>
    simp only [ways] at member
    split at member
    · split at member
      · obtain rfl := List.mem_singleton.mp member
        rfl
      · cases member
    · cases member
  | sequence first second firstIh secondIh =>
    simp only [groups, List.mem_append, not_or] at outside
    cases direction <;> obtain ⟨middle, before, after⟩ := List.mem_flatMap.mp member
    · exact (secondIh after outside.2).trans (firstIh before outside.1)
    · exact (firstIh after outside.1).trans (secondIh before outside.2)
  | choice first second firstIh secondIh =>
    simp only [groups, List.mem_append, not_or] at outside
    rcases List.mem_append.mp member with left | right
    · exact firstIh left outside.1
    · exact secondIh right outside.2
  | group own body ih =>
    simp only [groups, List.mem_cons, not_or] at outside
    obtain ⟨middle, inside, rfl⟩ := List.mem_map.mp member
    exact (Groups.record_of_ne _ _ outside.1).trans (ih inside outside.2)
  | reference own =>
    simp only [ways] at member
    split at member
    · obtain rfl := List.mem_singleton.mp member
      rfl
    · split at member
      · obtain rfl := List.mem_singleton.mp member
        rfl
      · cases member
  | loop body least most greedy ih =>
    simp only [groups] at outside
    have step : ∀ point : Point, ∀ next ∈ body.ways text direction
        { point with groups := point.groups.forget body.groups },
        next.groups index = point.groups index := by
      intro point next member
      exact (ih member outside).trans (Groups.forget_of_not_mem _ outside)
    obtain ⟨middle, before, after⟩ := List.mem_flatMap.mp member
    have early := related_of_mem_requiredWays
      (fun point next => next.groups index = point.groups index)
      (fun _ => rfl) (fun first second => second.trans first) step _ _ _ before
    have late := related_of_mem_optionalWays
      (fun point next => next.groups index = point.groups index) greedy
      (fun _ => rfl) (fun first second => second.trans first) step _ _ _ after
    exact late.trans early
  | look behind negated body ih =>
    simp only [groups] at outside
    simp only [ways] at member
    split at member
    next found best =>
      split at member
      · cases member
      · obtain rfl := List.mem_singleton.mp member
        have kept := ih (List.mem_of_mem_head? best) outside
        exact kept
    next =>
      split at member
      · obtain rfl := List.mem_singleton.mp member
        rfl
      · cases member
  | start | stop | wordBoundary negated =>
    simp only [ways] at member
    split at member
    · obtain rfl := List.mem_singleton.mp member
      rfl
    · cases member

theorem Direction.read?_forward {text : Array UInt16} {position next : Nat} {u : UInt16}
    (read : Direction.forward.read? text position = some (u, next)) :
    position < text.size ∧ next = position + 1 := by
  simp only [Direction.read?, Option.map_eq_some_iff, Prod.mk.injEq] at read
  obtain ⟨_, at_position, rfl, rfl⟩ := read
  exact ⟨(Array.getElem?_eq_some_iff.mp at_position).1, rfl⟩

theorem Direction.again?_forward {text : Array UInt16} {span : Span} {position next : Nat}
    (again : Direction.forward.again? text span position = some next) :
    (position ≤ text.size → next ≤ text.size) ∧ next = position + (span.stop - span.start) ∧
      sameUnits text span.start position (span.stop - span.start) = true := by
  have room_eq : Direction.forward.room text position = text.size - position := rfl
  simp only [Direction.again?] at again
  by_cases room : Direction.forward.room text position < span.stop - span.start
  · rw [if_pos room] at again
    cases again
  · rw [if_neg room] at again
    by_cases same : sameUnits text span.start position (span.stop - span.start) = true
    · rw [if_pos same] at again
      cases again
      exact ⟨fun inside => by omega, rfl, same⟩
    · rw [if_neg same] at again
      cases again

/-- A match to the right ends no further left, and inside the text if it starts there. -/
structure Onward (text : Array UInt16) (point next : Point) : Prop where
  le : point.position ≤ next.position
  inside : point.position ≤ text.size → next.position ≤ text.size

theorem Onward.refl (text : Array UInt16) (point : Point) : Onward text point point :=
  ⟨Nat.le_refl _, id⟩

theorem Onward.trans {text : Array UInt16} {a b c : Point} (first : Onward text a b)
    (second : Onward text b c) : Onward text a c :=
  ⟨Nat.le_trans first.le second.le, second.inside ∘ first.inside⟩

theorem Node.ways_onward {text : Array UInt16} {node : Node} {point next : Point}
    (member : next ∈ node.ways text .forward point) : Onward text point next := by
  induction node generalizing point next with
  | empty =>
    obtain rfl := List.mem_singleton.mp member
    exact .refl text next
  | unit set =>
    simp only [ways] at member
    split at member
    next u after read =>
      split at member
      · obtain rfl := List.mem_singleton.mp member
        obtain ⟨inside, rfl⟩ := Direction.read?_forward read
        exact ⟨Nat.le_succ _, fun _ => inside⟩
      · cases member
    next => cases member
  | sequence first second firstIh secondIh =>
    obtain ⟨middle, before, after⟩ := List.mem_flatMap.mp member
    exact (firstIh before).trans (secondIh after)
  | choice first second firstIh secondIh =>
    rcases List.mem_append.mp member with left | right
    · exact firstIh left
    · exact secondIh right
  | group own body ih =>
    obtain ⟨middle, inside, rfl⟩ := List.mem_map.mp member
    exact ⟨(ih inside).le, (ih inside).inside⟩
  | reference own =>
    simp only [ways] at member
    split at member
    · obtain rfl := List.mem_singleton.mp member
      exact .refl text next
    next span recorded =>
      split at member
      next after again =>
        obtain rfl := List.mem_singleton.mp member
        obtain ⟨inside, rfl, _⟩ := Direction.again?_forward again
        exact ⟨Nat.le_add_right _ _, inside⟩
      next => cases member
  | loop body least most greedy ih =>
    obtain ⟨middle, before, after⟩ := List.mem_flatMap.mp member
    have step : ∀ point : Point, ∀ next ∈ body.ways text .forward
        { point with groups := point.groups.forget body.groups }, Onward text point next := by
      intro point next member
      exact ⟨(ih member).le, (ih member).inside⟩
    exact (related_of_mem_requiredWays (Onward text) (Onward.refl text) Onward.trans step _ _ _ before).trans
      (related_of_mem_optionalWays (Onward text) greedy (Onward.refl text) Onward.trans step _ _ _ after)
  | look behind negated body ih =>
    simp only [ways] at member
    split at member <;> split at member
    · cases member
    · obtain rfl := List.mem_singleton.mp member
      exact ⟨Nat.le_refl _, id⟩
    · obtain rfl := List.mem_singleton.mp member
      exact .refl text next
    · cases member
  | start | stop | wordBoundary negated =>
    simp only [ways] at member
    split at member
    · obtain rfl := List.mem_singleton.mp member
      exact .refl text next
    · cases member

end Emend.Expression
