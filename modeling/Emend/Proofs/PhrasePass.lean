import Emend.Phrase
import Mathlib.Data.List.Infix
import Mathlib.Tactic.Linarith

/-! What one phrase does to one line. Reading from left to right, the line is the gaps that the phrase leaves as they
are, with the key between them, and the new line is the same gaps with the value between them. No gap holds the key. -/

namespace Emend

open Text

theorem Text.occursIn_iff {key t : Text} : occursIn key t = true ↔ key <:+: t := by
  induction t with
  | nil => rw [occursIn, List.isEmpty_iff, List.infix_nil]
  | cons u t ih => rw [occursIn, Bool.or_eq_true, ih, List.isPrefixOf_iff_prefix, List.infix_cons_iff]

def copyInto (u : UInt16) : List Text → List Text
  | [] => [[u]]
  | gap :: others => (u :: gap) :: others

/-- The parts of a line between the occurrences of a key that a pass from left to right meets. As there, the first
argument counts the units of an occurrence that are still to be passed over. -/
def gaps (key : Text) : Nat → Text → List Text
  | _, [] => [[]]
  | skip + 1, _ :: rest => gaps key skip rest
  | 0, u :: rest =>
    if key.isPrefixOf (u :: rest) then [] :: gaps key (key.length - 1) rest
    else copyInto u (gaps key 0 rest)

section

variable {key value : Text}

theorem replaceKey_skip (t rest : Text) : replaceKey key value t.length (t ++ rest) = replaceKey key value 0 rest := by
  induction t with
  | nil => rfl
  | cons u t ih => rwa [List.length_cons, List.cons_append, replaceKey]

theorem countKey_skip (t rest : Text) : countKey key t.length (t ++ rest) = countKey key 0 rest := by
  induction t with
  | nil => rfl
  | cons u t ih => rwa [List.length_cons, List.cons_append, countKey]

theorem gaps_skip (t rest : Text) : gaps key t.length (t ++ rest) = gaps key 0 rest := by
  induction t with
  | nil => rfl
  | cons u t ih => rwa [List.length_cons, List.cons_append, gaps]

variable (occupied : key ≠ [])
include occupied

/-- A pass over a line meets its end, an occurrence of the key, or a unit where no occurrence starts. -/
theorem scan_induction {motive : Text → Prop} (nil : motive []) (met : ∀ rest, motive rest → motive (key ++ rest))
    (copied : ∀ u rest, ¬ key <+: u :: rest → motive rest → motive (u :: rest)) (t : Text) : motive t := by
  induction measure : t.length using Nat.strongRecOn generalizing t with
  | ind size ih =>
    cases t with
    | nil => exact nil
    | cons u rest =>
      by_cases starts : key <+: u :: rest
      · obtain ⟨after, same⟩ := starts
        rw [← same] at measure ⊢
        have shorter : after.length < size := by
          have some := List.length_pos_iff.mpr occupied
          rw [List.length_append] at measure
          omega
        exact met after (ih _ shorter after rfl)
      · rw [List.length_cons] at measure
        exact copied u rest starts (ih rest.length (by omega) rest rfl)

omit occupied in
theorem isPrefixOf_append (key rest : Text) : key.isPrefixOf (key ++ rest) = true :=
  List.isPrefixOf_iff_prefix.mpr (List.prefix_append key rest)

theorem replaceKey_met (rest : Text) : replaceKey key value 0 (key ++ rest) = value ++ replaceKey key value 0 rest := by
  obtain ⟨u, others, rfl⟩ := List.exists_cons_of_ne_nil occupied
  have starts := isPrefixOf_append (u :: others) rest
  rw [List.cons_append] at starts ⊢
  rw [replaceKey, if_pos starts, List.length_cons, Nat.add_sub_cancel, replaceKey_skip]

theorem countKey_met (rest : Text) : countKey key 0 (key ++ rest) = countKey key 0 rest + 1 := by
  obtain ⟨u, others, rfl⟩ := List.exists_cons_of_ne_nil occupied
  have starts := isPrefixOf_append (u :: others) rest
  rw [List.cons_append] at starts ⊢
  rw [countKey, if_pos starts, List.length_cons, Nat.add_sub_cancel, countKey_skip]

theorem gaps_met (rest : Text) : gaps key 0 (key ++ rest) = [] :: gaps key 0 rest := by
  obtain ⟨u, others, rfl⟩ := List.exists_cons_of_ne_nil occupied
  have starts := isPrefixOf_append (u :: others) rest
  rw [List.cons_append] at starts ⊢
  rw [gaps, if_pos starts, List.length_cons, Nat.add_sub_cancel, gaps_skip]

omit occupied

variable {u : UInt16} {rest : Text} (none : ¬ key <+: u :: rest)
include none

theorem replaceKey_copied : replaceKey key value 0 (u :: rest) = u :: replaceKey key value 0 rest := by
  rw [replaceKey, if_neg (mt List.isPrefixOf_iff_prefix.mp none)]

theorem countKey_copied : countKey key 0 (u :: rest) = countKey key 0 rest := by
  rw [countKey, if_neg (mt List.isPrefixOf_iff_prefix.mp none)]

theorem gaps_copied : gaps key 0 (u :: rest) = copyInto u (gaps key 0 rest) := by
  rw [gaps, if_neg (mt List.isPrefixOf_iff_prefix.mp none)]

end

section

variable {key value : Text} (occupied : key ≠ [])
include occupied

theorem replaceKey_of_absent {t : Text} (none : ¬ key <:+: t) :
    replaceKey key value 0 t = t ∧ countKey key 0 t = 0 := by
  induction t using scan_induction occupied with
  | nil => exact ⟨rfl, rfl⟩
  | met rest => exact absurd (List.prefix_append _ _).isInfix none
  | copied u rest here ih =>
    obtain ⟨text, count⟩ := ih fun later => none (later.trans (List.suffix_cons u rest).isInfix)
    rw [replaceKey_copied here, countKey_copied here, text, count]
    exact ⟨rfl, rfl⟩

theorem countKey_pos {t : Text} (occurs : key <:+: t) : 0 < countKey key 0 t := by
  induction t using scan_induction occupied with
  | nil => exact absurd (List.infix_nil.mp occurs) occupied
  | met rest =>
    rw [countKey_met occupied]
    exact Nat.succ_pos _
  | copied u rest here ih =>
    rw [countKey_copied here]
    exact ih ((List.infix_cons_iff.mp occurs).resolve_left here)

/-- What is added up over the units of a text changes by the same amount at each occurrence. -/
theorem weight_replaceKey {weight : Text → Int} (additive : ∀ a b, weight (a ++ b) = weight a + weight b) (t : Text) :
    weight (replaceKey key value 0 t) + countKey key 0 t * weight key = weight t + countKey key 0 t * weight value := by
  induction t using scan_induction occupied with
  | nil => simp [replaceKey, countKey]
  | met rest ih =>
    rw [replaceKey_met occupied, countKey_met occupied, additive, additive]
    push_cast
    linarith
  | copied u rest here ih =>
    have split (t : Text) : weight (u :: t) = weight [u] + weight t := additive [u] t
    rw [replaceKey_copied here, countKey_copied here, split, split rest]
    linarith

end

section

variable {key : Text}

theorem gaps_ne_nil (skip : Nat) (t : Text) : gaps key skip t ≠ [] := by
  fun_induction gaps key skip t with
  | case1 => exact List.cons_ne_nil _ _
  | case2 _ _ _ ih => exact ih
  | case3 => exact List.cons_ne_nil _ _
  | case4 u rest _ ih =>
    cases gaps key 0 rest <;> exact List.cons_ne_nil _ _

theorem join_cons {separator : Text} (piece : Text) {pieces : List Text} (some : pieces ≠ []) :
    join separator (piece :: pieces) = piece ++ (separator ++ join separator pieces) := by
  obtain ⟨next, others, rfl⟩ := List.exists_cons_of_ne_nil some
  simp [join, List.intercalate, List.intersperse]

theorem join_append {separator : Text} {first second : List Text} (someFirst : first ≠ []) (someSecond : second ≠ []) :
    join separator (first ++ second) = join separator first ++ (separator ++ join separator second) := by
  induction first with
  | nil => exact absurd rfl someFirst
  | cons piece others ih =>
    cases others with
    | nil =>
      rw [List.singleton_append, join_cons piece someSecond]
      simp [join]
    | cons next others =>
      have some := List.cons_ne_nil next others
      rw [List.cons_append, join_cons piece (List.append_ne_nil_of_left_ne_nil some second), ih some,
        join_cons piece some, List.append_assoc, List.append_assoc]

theorem join_copyInto {separator : Text} {u : UInt16} {pieces : List Text} (some : pieces ≠ []) :
    join separator (copyInto u pieces) = u :: join separator pieces := by
  obtain ⟨piece, others, rfl⟩ := List.exists_cons_of_ne_nil some
  rw [copyInto]
  cases others with
  | nil => simp [join]
  | cons next others =>
    rw [join_cons _ (List.cons_ne_nil _ _), join_cons _ (List.cons_ne_nil _ _)]
    rfl

theorem mem_join {separator : Text} {pieces : List Text} {u : UInt16} (member : u ∈ join separator pieces) :
    u ∈ separator ∨ ∃ piece ∈ pieces, u ∈ piece := by
  induction pieces with
  | nil => cases member
  | cons first rest ih =>
    cases rest with
    | nil => exact .inr ⟨first, List.mem_cons_self, by simpa [join] using member⟩
    | cons next others =>
      rw [join_cons _ (List.cons_ne_nil _ _), List.mem_append, List.mem_append] at member
      rcases member with own | between | later
      · exact .inr ⟨first, List.mem_cons_self, own⟩
      · exact .inl between
      · rcases ih later with between | ⟨piece, among, inside⟩
        · exact .inl between
        · exact .inr ⟨piece, List.mem_cons_of_mem _ among, inside⟩

theorem infix_join_of_mem {separator piece : Text} {pieces : List Text} (member : piece ∈ pieces) :
    piece <:+: join separator pieces := by
  induction pieces with
  | nil => cases member
  | cons first rest ih =>
    cases rest with
    | nil =>
      obtain rfl := List.mem_singleton.mp member
      simp [join]
    | cons next others =>
      rw [join_cons _ (List.cons_ne_nil _ _)]
      rcases List.mem_cons.mp member with rfl | later
      · exact (List.prefix_append _ _).isInfix
      · exact (ih later).trans ((List.suffix_append _ _).trans (List.suffix_append _ _)).isInfix

variable (occupied : key ≠ [])
include occupied

theorem replaceKey_eq_join (value t : Text) : replaceKey key value 0 t = join value (gaps key 0 t) := by
  induction t using scan_induction occupied with
  | nil => simp [replaceKey, gaps, join]
  | met rest ih => rw [replaceKey_met occupied, gaps_met occupied, join_cons _ (gaps_ne_nil _ _), ih, List.nil_append]
  | copied u rest here ih => rw [replaceKey_copied here, gaps_copied here, join_copyInto (gaps_ne_nil _ _), ih]

theorem join_gaps (t : Text) : join key (gaps key 0 t) = t := by
  induction t using scan_induction occupied with
  | nil => simp [gaps, join]
  | met rest ih => rw [gaps_met occupied, join_cons _ (gaps_ne_nil _ _), ih, List.nil_append]
  | copied u rest here ih => rw [gaps_copied here, join_copyInto (gaps_ne_nil _ _), ih]

/-- No gap holds the key, since an occurrence in it would have been met. -/
theorem not_infix_of_mem_gaps {t gap : Text} (member : gap ∈ gaps key 0 t) : ¬ key <:+: gap := by
  suffices all : (∀ gap ∈ gaps key 0 t, ¬ key <:+: gap) ∧
      ∃ first others, gaps key 0 t = first :: others ∧ first <+: t from
    all.1 gap member
  clear member gap
  induction t using scan_induction occupied with
  | nil =>
    refine ⟨?_, [], [], rfl, List.prefix_refl _⟩
    intro gap member inside
    rw [gaps, List.mem_singleton] at member
    exact occupied (List.infix_nil.mp (member ▸ inside))
  | met rest ih =>
    rw [gaps_met occupied]
    refine ⟨?_, [], _, rfl, List.nil_prefix⟩
    intro gap member inside
    rcases List.mem_cons.mp member with rfl | later
    · exact occupied (List.infix_nil.mp inside)
    · exact ih.1 gap later inside
  | copied u rest here ih =>
    obtain ⟨clear, first, others, same, start⟩ := ih
    rw [gaps_copied here, same]
    refine ⟨?_, u :: first, others, rfl, List.cons_prefix_cons.mpr ⟨rfl, start⟩⟩
    intro gap member inside
    rcases List.mem_cons.mp member with rfl | later
    · rcases List.infix_cons_iff.mp inside with starts | within
      · exact here (starts.trans (List.cons_prefix_cons.mpr ⟨rfl, start⟩))
      · exact clear first (same ▸ List.mem_cons_self) within
    · exact clear gap (same ▸ List.mem_cons_of_mem _ later) inside

theorem infix_of_mem_gaps {t gap : Text} (member : gap ∈ gaps key 0 t) : gap <:+: t := by
  rw [← join_gaps occupied t]
  exact infix_join_of_mem member

end

end Emend
