import Emend.Proofs.PhraseSeparators

/-! What a table would replace in what it has written. The report of reentrances is about values alone: it has a phrase
exactly if a run over the value of this phrase replaces something. In a whole text a key can also be made up where a
value meets what stands beside it, and these are the only keys that a second run finds where the report is empty. -/

namespace Emend

namespace Text

/-- A key can reach over an edge of a piece: in two parts, its second one starts as the piece does, or its first one
ends as the piece does, as far as both go. -/
def ReachesOver (key piece : Text) : Prop :=
  ∃ cut < key.length, 0 < cut ∧
    ((key.drop cut <+: piece ∨ piece <+: key.drop cut) ∨ key.take cut <:+ piece ∨ piece <:+ key.take cut)

instance (key piece : Text) : Decidable (ReachesOver key piece) :=
  inferInstanceAs (Decidable (∃ cut < key.length, 0 < cut ∧
    ((key.drop cut <+: piece ∨ piece <+: key.drop cut) ∨ key.take cut <:+ piece ∨ piece <:+ key.take cut)))

section

variable {key separator : Text}

theorem reachesOver_append {front back : Text} (first : front ≠ []) (second : back ≠ [])
    (meets : (back <+: separator ∨ separator <+: back) ∨ front <:+ separator ∨ separator <:+ front) :
    ReachesOver (front ++ back) separator := by
  have long := List.length_pos_iff.mpr first
  have more := List.length_pos_iff.mpr second
  refine ⟨front.length, by rw [List.length_append]; omega, long, ?_⟩
  rwa [List.drop_left, List.take_left]

/-- What reaches over an edge of a piece has a unit of the piece, unless the piece is empty. -/
theorem exists_mem_of_reachesOver (reaches : ReachesOver key separator) (written : separator ≠ []) :
    ∃ u ∈ separator, u ∈ key := by
  obtain ⟨cut, short, long, meets⟩ := reaches
  have shared {part : Text} (size : 0 < part.length) (within : part ⊆ key)
      (inside : part ⊆ separator ∨ separator ⊆ part) : ∃ u ∈ separator, u ∈ key := by
    rcases inside with inside | inside
    · obtain ⟨u, member⟩ := List.exists_mem_of_length_pos size
      exact ⟨u, inside member, within member⟩
    · obtain ⟨u, member⟩ := List.exists_mem_of_ne_nil separator written
      exact ⟨u, member, within (inside member)⟩
  rcases meets with starts | ends
  · have size : 0 < (key.drop cut).length := by rw [List.length_drop]; omega
    exact shared size (List.drop_subset cut key) (starts.imp List.IsPrefix.subset List.IsPrefix.subset)
  · have size : 0 < (key.take cut).length := by rw [List.length_take]; omega
    exact shared size (List.take_subset cut key) (ends.imp List.IsSuffix.subset List.IsSuffix.subset)

/-- What occurs in two texts together occurs in one of them, or something of it in each. -/
theorem infix_append_cases {left right : Text} (occurs : key <:+: left ++ right) :
    key <:+: left ∨ key <:+: right ∨
      ∃ front back, key = front ++ back ∧ front ≠ [] ∧ back ≠ [] ∧ front <:+ left ∧ back <+: right := by
  rcases List.infix_append_iff.mp occurs with before | after | ⟨front, back, rfl, ends, starts⟩
  · exact .inl before
  · exact .inr (.inl after)
  by_cases none : front = []
  · rw [none, List.nil_append]
    exact .inr (.inl starts.isInfix)
  by_cases nothing : back = []
  · rw [nothing, List.append_nil]
    exact .inl ends.isInfix
  exact .inr (.inr ⟨front, back, rfl, none, nothing, ends, starts⟩)

/-- A key in joined pieces is in a piece or in the separator, or it reaches over an edge of the separator. -/
theorem infix_join_cases {pieces : List Text} (some : pieces ≠ []) (occurs : key <:+: join separator pieces) :
    (∃ piece ∈ pieces, key <:+: piece) ∨ key <:+: separator ∨ ReachesOver key separator := by
  induction pieces with
  | nil => exact absurd rfl some
  | cons first others ih =>
    by_cases single : others = []
    · subst single
      exact .inl ⟨first, List.mem_cons_self, by simpa [join] using occurs⟩
    have later (inside : key <:+: join separator others) :
        (∃ piece ∈ first :: others, key <:+: piece) ∨ key <:+: separator ∨ ReachesOver key separator := by
      refine (ih single inside).imp_left ?_
      rintro ⟨piece, among, within⟩
      exact ⟨piece, List.mem_cons_of_mem first among, within⟩
    -- The key is within one part, or it is cut where the separator ends or where it begins.
    rw [join_cons first single] at occurs
    rcases infix_append_cases occurs with own | after | ⟨front, back, rfl, someFront, someBack, _, starts⟩
    · exact .inl ⟨first, List.mem_cons_self, own⟩
    · rcases infix_append_cases after with between | inside | ⟨front, back, rfl, someFront, someBack, ends, _⟩
      · exact .inr (.inl between)
      · exact later inside
      · exact .inr (.inr (reachesOver_append someFront someBack (.inr (.inl ends))))
    · have alike := List.prefix_or_prefix_of_prefix starts (List.prefix_append separator (join separator others))
      exact .inr (.inr (reachesOver_append someFront someBack (.inl alike)))

theorem infix_join_of_disjoint (occupied : key ≠ []) (written : separator ≠ []) (disjoint : ∀ u ∈ separator, u ∉ key)
    {pieces : List Text} (some : pieces ≠ []) (occurs : key <:+: join separator pieces) :
    ∃ piece ∈ pieces, key <:+: piece := by
  rcases infix_join_cases some occurs with found | inside | reaches
  · exact found
  · obtain ⟨u, member⟩ := List.exists_mem_of_ne_nil key occupied
    exact absurd member (disjoint u (inside.subset member))
  · obtain ⟨u, outside, member⟩ := exists_mem_of_reachesOver reaches written
    exact absurd member (disjoint u outside)

variable (occupied : key ≠ []) (single : lineFeed ∉ key)
include occupied single

theorem infix_lines_iff {lines : List Text} (some : lines ≠ []) :
    key <:+: join [lineFeed] lines ↔ ∃ line ∈ lines, key <:+: line := by
  constructor
  · exact infix_join_of_disjoint occupied (List.cons_ne_nil _ _) (by simpa using single) some
  · rintro ⟨line, among, inside⟩
    exact inside.trans (infix_join_of_mem among)

theorem infix_split_iff {t : Text} : key <:+: t ↔ ∃ line ∈ split lineFeed t, key <:+: line := by
  rw [← infix_lines_iff occupied single (split_ne_nil t), join_split]

end

end Text

open Text

namespace Phrase

theorem Joins.reachesOver {phrase : Phrase} {key line : Text} (joins : phrase.Joins key line)
    (filled : phrase.key ≠ []) : ReachesOver key phrase.value := by
  have joined := joins.joined
  rw [rewrite_of_active joins.active, replaceKey_eq_join filled] at joined
  rcases infix_join_cases (gaps_ne_nil 0 line) joined with ⟨gap, among, inside⟩ | inside | reaches
  · exact absurd inside (joins.copied gap among)
  · exact absurd inside joins.written
  · exact reaches

/-- No run leaves a joined key, if no key reaches over an edge of a value that is written when the key has had its
turn. -/
theorem not_leavesJoined {phrases : List Phrase} (filled : ∀ phrase ∈ phrases, phrase.key ≠ [])
    (own : ∀ phrase ∈ phrases, phrase.active = true → ¬ ReachesOver phrase.key phrase.value)
    (later : phrases.Pairwise fun entry phrase => entry.active = true → phrase.active = true →
      ¬ ReachesOver entry.key phrase.value)
    (key line : Text) : ¬ LeavesJoined phrases key line := by
  rintro ⟨⟨front, phrase, back, rfl, ⟨entry, gone, active, rfl⟩, joins⟩, _⟩
  have member : phrase ∈ front ++ phrase :: back := List.mem_append_right _ List.mem_cons_self
  have reaches := joins.reachesOver (filled phrase member)
  rcases List.mem_append.mp gone with before | same
  · have apart := (List.pairwise_append.mp later).2.2 entry before phrase List.mem_cons_self
    exact apart active joins.active reaches
  · obtain rfl := List.mem_singleton.mp same
    exact own entry member active reaches

end Phrase

namespace PhraseTable

open Phrase

section

variable (table : PhraseTable)

theorem count_apply_eq_zero_iff (t : Text) : (table.apply t).count = 0 ↔
    ∀ phrase ∈ table.entries, phrase.active = true → lineFeed ∉ phrase.key → ¬ phrase.key <:+: t := by
  rw [Plan.count_apply_table_eq_zero_iff]
  constructor
  · intro none phrase member active single occurs
    obtain ⟨line, among, inside⟩ := (infix_split_iff (table.keys_ne_nil phrase member) single).mp occurs
    exact none line among phrase member active inside
  · intro none line among phrase member active inside
    have single : lineFeed ∉ phrase.key := fun feed => not_mem_of_mem_split among (inside.subset feed)
    apply none phrase member active single
    exact (infix_split_iff (table.keys_ne_nil phrase member) single).mpr ⟨line, among, inside⟩

theorem infix_apply_iff {key : Text} (occupied : key ≠ []) (single : lineFeed ∉ key) (t : Text) :
    key <:+: (table.apply t).text ↔ ∃ line ∈ split lineFeed t, key <:+: run table.entries line := by
  have some : (split lineFeed t).map (run table.entries) ≠ [] := mt List.map_eq_nil_iff.mp (split_ne_nil t)
  rw [Plan.apply_table, infix_lines_iff occupied single some]
  simp only [List.mem_map, exists_exists_and_eq_and]

variable {table}

/-- Where no value has an active key, a second run replaces the joined keys that the first one leaves, and only them. -/
theorem count_apply_again_eq_zero_iff
    (plain : ∀ entry ∈ table.entries, entry.active = true → ∀ phrase ∈ table.entries, phrase.active = true →
      ¬ entry.key <:+: phrase.value) (t : Text) :
    (table.apply (table.apply t).text).count = 0 ↔
      ¬ ∃ line ∈ split lineFeed t, ∃ key, lineFeed ∉ key ∧ LeavesJoined table.entries key line := by
  rw [count_apply_eq_zero_iff]
  constructor
  · rintro none ⟨line, among, key, single, leaves⟩
    obtain ⟨entry, member, active, rfl⟩ := leaves.gone
    apply none entry member active single
    exact (infix_apply_iff table (table.keys_ne_nil entry member) single t).mpr ⟨line, among, leaves.left⟩
  · intro none entry member active single occurs
    obtain ⟨line, among, left⟩ := (infix_apply_iff table (table.keys_ne_nil entry member) single t).mp occurs
    apply none
    exact ⟨line, among, entry.key, single, leavesJoined_of_left table.keys_ne_nil plain member active left⟩

theorem mem_reentrances_iff {found : Reentrance} : found ∈ table.reentrances ↔
    found.phrase ∈ table.entries ∧ ∃ entry ∈ table.entries,
      entry.active = true ∧ entry.key = found.contains ∧ entry.key <:+: found.phrase.value := by
  obtain ⟨phrase, contains⟩ := found
  simp only [reentrances, List.mem_flatMap, List.mem_map, List.mem_filter, Reentrance.mk.injEq, occursIn_iff]
  constructor
  · rintro ⟨_, member, key, ⟨⟨entry, ⟨among, active⟩, rfl⟩, inside⟩, rfl, rfl⟩
    exact ⟨member, entry, among, active, rfl, inside⟩
  · rintro ⟨member, entry, among, active, rfl, inside⟩
    exact ⟨phrase, member, entry.key, ⟨⟨entry, ⟨among, active⟩, rfl⟩, inside⟩, rfl, rfl⟩

theorem reentrances_eq_nil_iff : table.reentrances = [] ↔
    ∀ entry ∈ table.entries, entry.active = true → ∀ phrase ∈ table.entries, ¬ entry.key <:+: phrase.value := by
  rw [List.eq_nil_iff_forall_not_mem]
  constructor
  · intro none entry member active phrase other inside
    exact none ⟨phrase, entry.key⟩ (mem_reentrances_iff.mpr ⟨other, entry, member, active, rfl, inside⟩)
  · intro plain found reported
    obtain ⟨other, entry, member, active, _, inside⟩ := mem_reentrances_iff.mp reported
    exact plain entry member active found.phrase other inside

end

/-- A phrase is reported if and only if a run over its value replaces something, where keys lie within one line. A
value may have several lines, and an early entry may take away the key that was reported or make up another one. -/
theorem mem_reentrances_iff_count_apply (table : PhraseTable) (single : ∀ phrase ∈ table.entries, lineFeed ∉ phrase.key)
    (phrase : Phrase) (member : phrase ∈ table.entries) :
    (∃ found ∈ table.reentrances, found.phrase.key = phrase.key) ↔ 0 < (table.apply phrase.value).count := by
  rw [Nat.pos_iff_ne_zero, Ne, count_apply_eq_zero_iff]
  constructor
  · rintro ⟨found, reported, same⟩ none
    -- Keys stand once in a table, so the report is about this value and not only about this key.
    obtain ⟨other, entry, among, active, _, inside⟩ := mem_reentrances_iff.mp reported
    have own : found.phrase = phrase := List.inj_on_of_nodup_map table.keys_nodup other member same
    exact none entry among active (single entry among) (own ▸ inside)
  · intro some
    push Not at some
    obtain ⟨entry, among, active, _, inside⟩ := some
    exact ⟨⟨phrase, entry.key⟩, mem_reentrances_iff.mpr ⟨member, entry, among, active, rfl, inside⟩, rfl⟩

/-- A value of two lines: its key `ab` is reported, but the entry before takes it away in a run. The value of an entry
that is never applied is reported too. -/
theorem mem_reentrances_iff_count_apply_lines :
    ∃ table : PhraseTable,
      table.entries = [⟨units "a", units "x"⟩, ⟨units "ab", units "y"⟩, ⟨units "c", units "z\nab"⟩,
        ⟨units "da", units "da"⟩] ∧
      (∀ phrase ∈ table.entries, lineFeed ∉ phrase.key) ∧
      table.reentrances.map Reentrance.contains = [units "a", units "ab", units "a"] ∧
      0 < (table.apply (units "z\nab")).count ∧ 0 < (table.apply (units "da")).count ∧
      ¬ 0 < (table.apply (units "y")).count := by
  refine ⟨⟨[⟨units "a", units "x"⟩, ⟨units "ab", units "y"⟩, ⟨units "c", units "z\nab"⟩, ⟨units "da", units "da"⟩],
    by decide, by decide⟩, rfl, by decide, by decide, ?_, ?_, ?_⟩
  · apply (mem_reentrances_iff_count_apply _ (by decide) ⟨units "c", units "z\nab"⟩ (by decide)).mp
    decide
  · apply (mem_reentrances_iff_count_apply _ (by decide) ⟨units "da", units "da"⟩ (by decide)).mp
    decide
  · apply (mem_reentrances_iff_count_apply _ (by decide) ⟨units "ab", units "y"⟩ (by decide)).not.mp
    decide

/-- A table with an empty report is settled by one run, except where that run leaves a key that it has joined. No run
does, if no active key reaches over an edge of its own value or of one that is written after its turn. -/
theorem count_apply_again_of_reentrances (table : PhraseTable) (none : table.reentrances = []) :
    (∀ t, (table.apply (table.apply t).text).count = 0 ↔
      ¬ ∃ line ∈ split lineFeed t, ∃ key, lineFeed ∉ key ∧ LeavesJoined table.entries key line) ∧
    ((∀ phrase ∈ table.entries, phrase.active = true → ¬ ReachesOver phrase.key phrase.value) →
      (table.entries.Pairwise fun entry phrase => entry.active = true → phrase.active = true →
        ¬ ReachesOver entry.key phrase.value) →
      ∀ t, (table.apply (table.apply t).text).count = 0) := by
  have plain := reentrances_eq_nil_iff.mp none
  have settled := @count_apply_again_eq_zero_iff table fun entry member active phrase other _ =>
    plain entry member active phrase other
  refine ⟨settled, fun own later t => (settled t).mpr ?_⟩
  rintro ⟨line, _, key, _, leaves⟩
  exact not_leavesJoined table.keys_ne_nil own later key line leaves

/-- In the first table a value makes up its key with what stands before it. In the second one the keys overlap
themselves and each other, but no value lets them meet again. -/
theorem count_apply_again_of_reentrances_overlapping :
    (∃ table : PhraseTable,
      table.entries = [⟨units "ab", units "b"⟩, ⟨units "c", units "c"⟩] ∧ table.reentrances = [] ∧
      ∃ line ∈ split lineFeed (units "ab\naab"), ∃ key, lineFeed ∉ key ∧ LeavesJoined table.entries key line) ∧
    ∃ table : PhraseTable,
      table.entries = [⟨units "aba", units "cdc"⟩, ⟨units "bab", units "d\n"⟩, ⟨units "b", units "b"⟩] ∧
      table.reentrances = [] ∧
      table.apply (units "abab\nbab") = ⟨units "cdcb\nd\n", 2⟩ ∧
      ∀ t, (table.apply (table.apply t).text).count = 0 := by
  constructor
  · refine ⟨⟨[⟨units "ab", units "b"⟩, ⟨units "c", units "c"⟩], by decide, by decide⟩, rfl, by decide, ?_⟩
    by_contra none
    exact absurd (((count_apply_again_of_reentrances _ (by decide)).1 (units "ab\naab")).mpr none) (by decide)
  · refine ⟨⟨[⟨units "aba", units "cdc"⟩, ⟨units "bab", units "d\n"⟩, ⟨units "b", units "b"⟩], by decide, by decide⟩,
      rfl, by decide, by decide, ?_⟩
    exact (count_apply_again_of_reentrances _ (by decide)).2 (by decide) (by decide)

/-- An empty report does not make a table settle in one run. -/
theorem count_apply_again_joined :
    ∃ table : PhraseTable, ofEntries [⟨units "ab", units "b"⟩] = .ok table ∧ table.reentrances = [] ∧
      table.apply (units "aab") = ⟨units "ab", 1⟩ ∧ table.apply (units "ab") = ⟨units "b", 1⟩ :=
  ⟨⟨[⟨units "ab", units "b"⟩], by decide, by decide⟩, rfl, by decide, by decide, by decide⟩

/-- A table whose values share no unit with its keys and are not empty takes its keys out of every line, whatever the
order of the entries and however the keys overlap, and one run settles it. -/
theorem apply_disjoint (table : PhraseTable)
    (disjoint : ∀ phrase ∈ table.entries, phrase.active = true →
      phrase.value ≠ [] ∧ ∀ entry ∈ table.entries, entry.active = true → ∀ u ∈ phrase.value, u ∉ entry.key) (t : Text) :
    (∀ line ∈ split lineFeed (table.apply t).text, ∀ phrase ∈ table.entries, phrase.active = true →
      lineFeed ∉ phrase.key → ¬ phrase.key <:+: line) ∧
    (table.apply (table.apply t).text).count = 0 := by
  have plain : ∀ entry ∈ table.entries, entry.active = true → ∀ phrase ∈ table.entries, phrase.active = true →
      ¬ entry.key <:+: phrase.value := by
    intro entry member active phrase other writes inside
    obtain ⟨u, within⟩ := List.exists_mem_of_ne_nil entry.key (table.keys_ne_nil entry member)
    exact (disjoint phrase other writes).2 entry member active u (inside.subset within) within
  have apart : ∀ entry ∈ table.entries, ∀ phrase ∈ table.entries, entry.active = true → phrase.active = true →
      ¬ ReachesOver entry.key phrase.value := by
    intro entry member phrase other active writes reaches
    obtain ⟨u, outside, within⟩ := exists_mem_of_reachesOver reaches (disjoint phrase other writes).1
    exact (disjoint phrase other writes).2 entry member active u outside within
  have settled : (table.apply (table.apply t).text).count = 0 := by
    rw [count_apply_again_eq_zero_iff plain]
    rintro ⟨line, _, key, _, leaves⟩
    refine not_leavesJoined table.keys_ne_nil ?_ (List.pairwise_of_forall_mem_list apart) key line leaves
    exact fun phrase member active => apart phrase member phrase member active active
  have absent := (Plan.count_apply_table_eq_zero_iff table _).mp settled
  exact ⟨fun line among phrase member active _ => absent line among phrase member active, settled⟩

/-- Keys that overlap and are nested, a value with the end of a line in it, and an entry that is never applied. -/
theorem apply_disjoint_nested :
    ∃ table : PhraseTable,
      table.entries = [⟨units "aa", units "x\ny"⟩, ⟨units "aab", units "z"⟩, ⟨units "ba", units "zz"⟩,
        ⟨units "xa", units "xa"⟩] ∧
      (∀ phrase ∈ table.entries, phrase.active = true →
        phrase.value ≠ [] ∧ ∀ entry ∈ table.entries, entry.active = true → ∀ u ∈ phrase.value, u ∉ entry.key) ∧
      (table.apply (units "aaabaxa")).text = units "x\nyazzxa" ∧
      (∀ line ∈ [units "x", units "yazzxa"], ∀ phrase ∈ table.entries, phrase.active = true →
        lineFeed ∉ phrase.key → ¬ phrase.key <:+: line) ∧
      (table.apply (units "x\nyazzxa")).count = 0 := by
  let table : PhraseTable := ⟨[⟨units "aa", units "x\ny"⟩, ⟨units "aab", units "z"⟩, ⟨units "ba", units "zz"⟩,
    ⟨units "xa", units "xa"⟩], by decide, by decide⟩
  have disjoint : ∀ phrase ∈ table.entries, phrase.active = true →
      phrase.value ≠ [] ∧ ∀ entry ∈ table.entries, entry.active = true → ∀ u ∈ phrase.value, u ∉ entry.key := by
    have checked : (table.entries.all fun phrase => !phrase.active || (!phrase.value.isEmpty &&
        table.entries.all fun entry => !entry.active || phrase.value.all fun u => !entry.key.contains u)) = true := by
      decide
    simpa [or_iff_not_imp_left, -List.all_cons] using checked
  have written : (table.apply (units "aaabaxa")).text = units "x\nyazzxa" := by decide
  have lines : split lineFeed (units "x\nyazzxa") = [units "x", units "yazzxa"] := by decide
  have clear := apply_disjoint table disjoint (units "aaabaxa")
  rw [written, lines] at clear
  exact ⟨table, rfl, disjoint, written, clear⟩

end PhraseTable

end Emend
