import Emend.Proofs.PhrasePass

/-! What phrases do to a line, one after the other. A key that a run has gone by and that is still there in the end has
been joined: some later phrase has written its value where it makes the key up, together with what stands beside it. -/

namespace Emend

open Text

namespace Phrase

def rewrite (phrase : Phrase) (line : Text) : Text := (phrase.apply ⟨line, 0⟩).text

def replaced (phrase : Phrase) (line : Text) : Nat := (phrase.apply ⟨line, 0⟩).count

def run : List Phrase → Text → Text
  | [], line => line
  | phrase :: phrases, line => run phrases (phrase.rewrite line)

/-- How often some phrases are replaced, each in what the ones before it have left. -/
def total : List Phrase → Text → Nat
  | [], _ => 0
  | phrase :: phrases, line => phrase.replaced line + total phrases (phrase.rewrite line)

theorem apply_eq (phrase : Phrase) (line : Text) (count : Nat) :
    phrase.apply ⟨line, count⟩ = ⟨phrase.rewrite line, count + phrase.replaced line⟩ := by
  unfold rewrite replaced apply
  split <;> simp

theorem foldl_apply (phrases : List Phrase) (line : Text) (count : Nat) :
    phrases.foldl (fun current phrase => phrase.apply current) ⟨line, count⟩ =
      ⟨run phrases line, count + total phrases line⟩ := by
  induction phrases generalizing line count with
  | nil => rfl
  | cons phrase phrases ih => rw [List.foldl_cons, apply_eq, ih, run, total, Nat.add_assoc]

theorem run_append (first second : List Phrase) (line : Text) :
    run (first ++ second) line = run second (run first line) := by
  induction first generalizing line with
  | nil => rfl
  | cons phrase first ih => exact ih (phrase.rewrite line)

theorem total_append (first second : List Phrase) (line : Text) :
    total (first ++ second) line = total first line + total second (run first line) := by
  induction first generalizing line with
  | nil => exact (Nat.zero_add _).symm
  | cons phrase first ih => rw [List.cons_append, total, total, ih, run, Nat.add_assoc]

section

variable {phrase : Phrase} (active : phrase.active = true) (line : Text)
include active

theorem rewrite_of_active : phrase.rewrite line = replaceKey phrase.key phrase.value 0 line := by
  rw [rewrite, apply, if_pos active]

theorem replaced_of_active : phrase.replaced line = countKey phrase.key 0 line := by
  rw [replaced, apply, if_pos active]
  exact Nat.zero_add _

end

theorem rewrite_of_not_active {phrase : Phrase} (idle : ¬ phrase.active = true) (line : Text) :
    phrase.rewrite line = line := by
  rw [rewrite, apply, if_neg idle]

theorem replaced_of_not_active {phrase : Phrase} (idle : ¬ phrase.active = true) (line : Text) :
    phrase.replaced line = 0 := by
  rw [replaced, apply, if_neg idle]

section

variable {phrase : Phrase} (filled : phrase.key ≠ []) {line : Text}
include filled

theorem mem_rewrite {u : UInt16} (member : u ∈ phrase.rewrite line) : u ∈ line ∨ u ∈ phrase.value := by
  by_cases active : phrase.active = true
  · rw [rewrite_of_active active, replaceKey_eq_join filled] at member
    rcases mem_join member with written | ⟨gap, among, inside⟩
    · exact .inr written
    · exact .inl ((infix_of_mem_gaps filled among).subset inside)
  · rw [rewrite_of_not_active active] at member
    exact .inl member

theorem replaced_eq_zero_iff : phrase.replaced line = 0 ↔ (phrase.active = true → ¬ phrase.key <:+: line) := by
  by_cases active : phrase.active = true
  · rw [replaced_of_active active]
    constructor
    · intro none _ occurs
      exact absurd none (Nat.pos_iff_ne_zero.mp (countKey_pos filled occurs))
    · intro absent
      exact (@replaceKey_of_absent _ phrase.value filled _ (absent active)).2
  · exact iff_of_true (replaced_of_not_active active line) fun held => absurd held active

theorem rewrite_of_replaced_eq_zero (none : phrase.replaced line = 0) : phrase.rewrite line = line := by
  by_cases active : phrase.active = true
  · rw [rewrite_of_active active]
    exact (replaceKey_of_absent filled ((replaced_eq_zero_iff filled).mp none active)).1
  · exact rewrite_of_not_active active line

end

section

variable {phrases : List Phrase} (filled : ∀ phrase ∈ phrases, phrase.key ≠ [])
include filled

theorem not_mem_run {u : UInt16} (absent : ∀ phrase ∈ phrases, u ∉ phrase.value) {line : Text} (clean : u ∉ line) :
    u ∉ run phrases line := by
  induction phrases generalizing line with
  | nil => exact clean
  | cons phrase phrases ih =>
    rw [List.forall_mem_cons] at filled absent
    apply ih filled.2 absent.2
    intro member
    rcases mem_rewrite filled.1 member with old | written
    · exact clean old
    · exact absent.1 written

theorem run_of_total_eq_zero {line : Text} (none : total phrases line = 0) : run phrases line = line := by
  induction phrases generalizing line with
  | nil => rfl
  | cons phrase phrases ih =>
    rw [List.forall_mem_cons] at filled
    obtain ⟨first, others⟩ := Nat.add_eq_zero_iff.mp none
    have same := rewrite_of_replaced_eq_zero filled.1 first
    rw [same] at others
    rw [run, same, ih filled.2 others]

/-- Nothing is replaced in a line where the key of no active phrase occurs, and only there. -/
theorem total_eq_zero_iff {line : Text} :
    total phrases line = 0 ↔ ∀ phrase ∈ phrases, phrase.active = true → ¬ phrase.key <:+: line := by
  induction phrases generalizing line with
  | nil => exact iff_of_true rfl (List.forall_mem_nil _)
  | cons phrase phrases ih =>
    rw [List.forall_mem_cons] at filled
    rw [List.forall_mem_cons, total, Nat.add_eq_zero_iff, replaced_eq_zero_iff filled.1]
    apply and_congr_right
    intro first
    rw [rewrite_of_replaced_eq_zero filled.1 ((replaced_eq_zero_iff filled.1).mpr first), ih filled.2]

/-- A phrase with a unit in its key that a line cannot have is idle. What a line can have is kept by the others. -/
theorem run_filter {may : UInt16 → Bool}
    (values : ∀ phrase ∈ phrases, phrase.key.all may = true → phrase.value.all may = true) {line : Text}
    (own : line.all may = true) :
    run phrases line = run (phrases.filter fun phrase => phrase.key.all may) line ∧
      total phrases line = total (phrases.filter fun phrase => phrase.key.all may) line := by
  induction phrases generalizing line with
  | nil => exact ⟨rfl, rfl⟩
  | cons phrase phrases ih =>
    rw [List.forall_mem_cons] at filled values
    by_cases within : phrase.key.all may = true
    · have kept : (phrase.rewrite line).all may = true := by
        rw [List.all_eq_true] at own ⊢
        intro u member
        rcases mem_rewrite filled.1 member with old | written
        · exact own u old
        · exact List.all_eq_true.mp (values.1 within) u written
      obtain ⟨text, count⟩ := ih filled.2 values.2 kept
      rw [List.filter_cons, if_pos within, run, total, run, total, text, count]
      exact ⟨rfl, rfl⟩
    · have idle : phrase.replaced line = 0 := by
        apply (replaced_eq_zero_iff filled.1).mpr
        intro _ occurs
        apply within
        rw [List.all_eq_true] at own ⊢
        exact fun u member => own u (occurs.subset member)
      rw [List.filter_cons, if_neg within, run, total, idle, rewrite_of_replaced_eq_zero filled.1 idle, Nat.zero_add]
      exact ih filled.2 values.2 own

/-- What is added up over a text falls at every replacement, if each value is less than its key. -/
theorem weight_run {weight : Text → Int} (additive : ∀ a b, weight (a ++ b) = weight a + weight b)
    (lighter : ∀ phrase ∈ phrases, phrase.active = true → weight phrase.value < weight phrase.key) (line : Text) :
    weight (run phrases line) + total phrases line ≤ weight line := by
  induction phrases generalizing line with
  | nil => exact Int.le_of_eq (Int.add_zero _)
  | cons phrase phrases ih =>
    rw [List.forall_mem_cons] at filled lighter
    have first : weight (phrase.rewrite line) + phrase.replaced line ≤ weight line := by
      by_cases active : phrase.active = true
      · have less := lighter.1 active
        have whole := @weight_replaceKey _ phrase.value filled.1 _ additive line
        rw [rewrite_of_active active, replaced_of_active active]
        nlinarith
      · rw [rewrite_of_not_active active, replaced_of_not_active active]
        exact Int.le_of_eq (Int.add_zero _)
    have later := ih filled.2 lighter.2 (phrase.rewrite line)
    rw [run, total]
    push_cast
    linarith

end

/-- A phrase joins a key: the line has the key after it, though nothing that the phrase copies has it, and its value
does not have it either. -/
structure Joins (phrase : Phrase) (key line : Text) : Prop where
  active : phrase.active = true
  copied : ∀ gap ∈ gaps phrase.key 0 line, ¬ key <:+: gap
  written : ¬ key <:+: phrase.value
  joined : key <:+: phrase.rewrite line

/-- A run leaves a key that it has gone by: some phrase joins it, and it is there in the end. -/
structure LeavesJoined (phrases : List Phrase) (key line : Text) : Prop where
  joins : ∃ front phrase back, phrases = front ++ phrase :: back ∧
    (∃ entry ∈ front ++ [phrase], entry.active = true ∧ entry.key = key) ∧ phrase.Joins key (run front line)
  left : key <:+: run phrases line

theorem LeavesJoined.gone {phrases : List Phrase} {key line : Text} (leaves : LeavesJoined phrases key line) :
    ∃ entry ∈ phrases, entry.active = true ∧ entry.key = key := by
  obtain ⟨front, phrase, back, rfl, ⟨entry, member, own⟩, _⟩ := leaves.joins
  refine ⟨entry, ?_, own⟩
  rw [← List.singleton_append, ← List.append_assoc]
  exact List.mem_append_left _ member

/-- Every key that is there after a run has been joined, since a phrase leaves its own key in no gap. -/
theorem leavesJoined_of_left {phrases : List Phrase} (filled : ∀ phrase ∈ phrases, phrase.key ≠ [])
    (plain : ∀ entry ∈ phrases, entry.active = true → ∀ phrase ∈ phrases, phrase.active = true →
      ¬ entry.key <:+: phrase.value)
    {entry : Phrase} (member : entry ∈ phrases) (active : entry.active = true) {line : Text}
    (left : entry.key <:+: run phrases line) : LeavesJoined phrases entry.key line := by
  refine ⟨?_, left⟩
  induction phrases using List.reverseRecOn with
  | nil => cases member
  | append_singleton front last ih =>
    -- Where the key was there before the last phrase, an earlier one has joined it.
    have earlier (inside : entry ∈ front) (before : entry.key <:+: run front line) :
        ∃ first phrase back, front ++ [last] = first ++ phrase :: back ∧
          (∃ other ∈ first ++ [phrase], other.active = true ∧ other.key = entry.key) ∧
          phrase.Joins entry.key (run first line) := by
      obtain ⟨first, phrase, back, rfl, gone, joins⟩ := ih
        (fun phrase member => filled phrase (List.mem_append_left _ member))
        (fun other member active phrase among =>
          plain other (List.mem_append_left _ member) active phrase (List.mem_append_left _ among)) inside before
      exact ⟨first, phrase, back ++ [last], by simp, gone, joins⟩
    rw [run_append] at left
    have last_mem : last ∈ front ++ [last] := List.mem_append_right _ List.mem_cons_self
    by_cases works : last.active = true
    · by_cases copied : ∃ gap ∈ gaps last.key 0 (run front line), entry.key <:+: gap
      · obtain ⟨gap, among, occurs⟩ := copied
        rcases List.mem_append.mp member with inside | own
        · exact earlier inside (occurs.trans (infix_of_mem_gaps (filled last last_mem) among))
        · obtain rfl := List.mem_singleton.mp own
          exact absurd occurs (not_infix_of_mem_gaps (filled entry last_mem) among)
      · refine ⟨front, last, [], rfl, ⟨entry, member, active, rfl⟩, works, ?_, ?_, left⟩
        · intro gap among occurs
          exact copied ⟨gap, among, occurs⟩
        · exact plain entry member active last last_mem works
    · rcases List.mem_append.mp member with inside | own
      · apply earlier inside
        rwa [run, run, rewrite_of_not_active works] at left
      · obtain rfl := List.mem_singleton.mp own
        exact absurd active works

end Phrase

end Emend
