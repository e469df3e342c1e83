import Emend.Proofs.TablePasses
import Mathlib.Data.List.Nodup

/-! What the entries of a table have from the phrases that it is made of. A key stands where it comes first and has the
value that it is given last, so place and value of an entry may be those of two phrases. Every phrase that is put in
keeps this, and no other list of entries has it, so a table made of its own entries is the same table. -/

namespace Emend.PhraseTable

def IsLatest (phrases : List Phrase) (phrase : Phrase) : Prop :=
  ∃ front back, phrases = front ++ phrase :: back ∧ phrase.key ∉ back.map Phrase.key

def place (phrases : List Phrase) (key : Text) : Nat := (phrases.map Phrase.key).idxOf key

/-- Entries have the keys of some phrases and no others. Of two entries, the one whose key comes first in the phrases
stands first, so that no key stands twice. Each entry is the latest phrase with its key. -/
structure Gathers (phrases entries : List Phrase) : Prop where
  keys : ∀ key, key ∈ entries.map Phrase.key ↔ key ∈ phrases.map Phrase.key
  ordered : (entries.map Phrase.key).Pairwise fun first second => place phrases first < place phrases second
  latest : ∀ entry ∈ entries, IsLatest phrases entry

section Place

variable {phrases : List Phrase} {key : Text}

theorem place_append (member : key ∈ phrases.map Phrase.key) (more : List Phrase) :
    place (phrases ++ more) key = place phrases key := by
  rw [place, List.map_append, List.idxOf_append_of_mem member, place]

theorem place_fresh {phrase : Phrase} (fresh : phrase.key ∉ phrases.map Phrase.key) :
    place (phrases ++ [phrase]) phrase.key = phrases.length := by
  rw [place, List.map_append, List.idxOf_append_of_notMem fresh, List.length_map, List.map_singleton,
    List.idxOf_cons_self, Nat.add_zero]

theorem place_lt_length (member : key ∈ phrases.map Phrase.key) : place phrases key < phrases.length := by
  rw [← List.length_map Phrase.key]
  exact List.idxOf_lt_length_of_mem member

end Place

namespace IsLatest

variable {phrases : List Phrase} {phrase other : Phrase}

theorem mem (latest : IsLatest phrases phrase) : phrase ∈ phrases := by
  obtain ⟨front, back, rfl, _⟩ := latest
  exact List.mem_append_right _ List.mem_cons_self

theorem last (phrases : List Phrase) (phrase : Phrase) : IsLatest (phrases ++ [phrase]) phrase :=
  ⟨phrases, [], rfl, List.not_mem_nil⟩

theorem append_singleton (latest : IsLatest phrases phrase) (apart : phrase.key ≠ other.key) :
    IsLatest (phrases ++ [other]) phrase := by
  obtain ⟨front, back, rfl, absent⟩ := latest
  refine ⟨front, back ++ [other], by simp, ?_⟩
  rw [List.map_append, List.mem_append, not_or]
  exact ⟨absent, by simpa using apart⟩

theorem eq_of_split {back between after : List Phrase} (absent : phrase.key ∉ back.map Phrase.key)
    (split : phrase :: back = between ++ other :: after) (same : phrase.key = other.key) : phrase = other := by
  cases between with
  | nil => exact (List.cons.inj split).1
  | cons head between =>
    obtain ⟨_, rfl⟩ := List.cons.inj split
    exact absurd (List.mem_map.mpr ⟨other, List.mem_append_right _ List.mem_cons_self, same.symm⟩) absent

theorem unique (latest : IsLatest phrases phrase) (also : IsLatest phrases other) (same : phrase.key = other.key) :
    phrase = other := by
  obtain ⟨front, back, rfl, absent⟩ := latest
  obtain ⟨before, after, split, none⟩ := also
  rcases List.append_eq_append_iff.mp split with ⟨between, _, rest⟩ | ⟨between, _, rest⟩
  · exact eq_of_split absent rest same
  · exact (eq_of_split none rest same.symm).symm

end IsLatest

section Put

variable {phrase : Phrase} {entries : List Phrase}

theorem mem_putEntry_self (phrase : Phrase) (entries : List Phrase) : phrase ∈ putEntry phrase entries := by
  induction entries with
  | nil => exact List.mem_cons_self
  | cons first rest ih =>
    rw [putEntry]
    split
    · exact List.mem_cons_self
    · exact List.mem_cons_of_mem first ih

theorem map_key_putEntry (member : phrase.key ∈ entries.map Phrase.key) :
    (putEntry phrase entries).map Phrase.key = entries.map Phrase.key := by
  induction entries with
  | nil => cases member
  | cons first rest ih =>
    rw [putEntry]
    split
    next same => rw [List.map_cons, List.map_cons, same]
    next other =>
      have later := (List.mem_cons.mp member).resolve_left (Ne.symm other)
      rw [List.map_cons, List.map_cons, ih later]

theorem putEntry_fresh (fresh : phrase.key ∉ entries.map Phrase.key) :
    putEntry phrase entries = entries ++ [phrase] := by
  induction entries with
  | nil => rfl
  | cons first rest ih =>
    rw [List.map_cons, List.mem_cons, not_or] at fresh
    rw [putEntry, if_neg (Ne.symm fresh.1), ih fresh.2, List.cons_append]

theorem mem_keys_putEntry {key : Text} : key ∈ (putEntry phrase entries).map Phrase.key ↔
    key ∈ entries.map Phrase.key ∨ key = phrase.key := by
  by_cases known : phrase.key ∈ entries.map Phrase.key
  · rw [map_key_putEntry known]
    exact ⟨.inl, fun either => either.elim id fun own => own ▸ known⟩
  · rw [putEntry_fresh known, List.map_append, List.mem_append, List.map_singleton, List.mem_singleton]

end Put

namespace Gathers

variable {phrases entries : List Phrase}

theorem nodup_keys (gathers : Gathers phrases entries) : (entries.map Phrase.key).Nodup := by
  apply gathers.ordered.imp
  intro first second before same
  rw [same] at before
  exact Nat.lt_irrefl _ before

theorem entries_ordered (gathers : Gathers phrases entries) :
    entries.Pairwise fun first second => place phrases first.key < place phrases second.key := by
  have ordered := gathers.ordered
  rwa [List.pairwise_map] at ordered

/-- The entries are exactly the phrases that have no later one of the same key. -/
theorem mem_iff (gathers : Gathers phrases entries) {entry : Phrase} : entry ∈ entries ↔ IsLatest phrases entry := by
  refine ⟨gathers.latest entry, fun latest => ?_⟩
  have known : entry.key ∈ phrases.map Phrase.key := List.mem_map_of_mem latest.mem
  obtain ⟨own, member, same⟩ := List.mem_map.mp ((gathers.keys entry.key).mpr known)
  exact (gathers.latest own member).unique latest same ▸ member

theorem unique (gathers : Gathers phrases entries) {others : List Phrase} (also : Gathers phrases others) :
    entries = others := by
  have members : entries.Perm others := by
    apply (List.perm_ext_iff_of_nodup (gathers.nodup_keys.of_map Phrase.key) (also.nodup_keys.of_map Phrase.key)).mpr
    intro entry
    exact gathers.mem_iff.trans also.mem_iff.symm
  apply members.eq_of_pairwise _ gathers.entries_ordered also.entries_ordered
  intro first second _ _ before after
  exact absurd (before.trans after) (Nat.lt_irrefl _)

theorem empty : Gathers [] [] := ⟨fun _ => Iff.rfl, .nil, by simp⟩

theorem ordered_append (gathers : Gathers phrases entries) (more : List Phrase) :
    (entries.map Phrase.key).Pairwise fun first second =>
      place (phrases ++ more) first < place (phrases ++ more) second := by
  apply gathers.ordered.imp_of_mem
  intro first second inside within before
  rwa [place_append ((gathers.keys first).mp inside), place_append ((gathers.keys second).mp within)]

theorem latest_putEntry (gathers : Gathers phrases entries) {phrase entry : Phrase}
    (member : entry ∈ putEntry phrase entries) : IsLatest (phrases ++ [phrase]) entry := by
  by_cases same : entry.key = phrase.key
  · have nodup : ((putEntry phrase entries).map Phrase.key).Nodup := nodup_putEntry gathers.nodup_keys
    obtain rfl := List.inj_on_of_nodup_map nodup member (mem_putEntry_self phrase entries) same
    exact .last phrases entry
  · have earlier : entry ∈ entries := (mem_putEntry member).resolve_left fun own => same (congrArg Phrase.key own)
    exact (gathers.latest entry earlier).append_singleton same

/-- A phrase that is put in changes the value of its key, or it is the first with its key and comes to the end. -/
theorem put (gathers : Gathers phrases entries) (phrase : Phrase) :
    Gathers (phrases ++ [phrase]) (putEntry phrase entries) := by
  have kept := gathers.ordered_append [phrase]
  refine ⟨fun key => ?_, ?_, fun entry => gathers.latest_putEntry⟩
  · rw [mem_keys_putEntry, gathers.keys, List.map_append, List.mem_append, List.map_singleton, List.mem_singleton]
  · by_cases known : phrase.key ∈ entries.map Phrase.key
    · rw [map_key_putEntry known]
      exact kept
    · -- Every key that is there comes first in the phrases read before, and the fresh one comes first after them.
      have fresh : phrase.key ∉ phrases.map Phrase.key := fun seen => known ((gathers.keys phrase.key).mpr seen)
      rw [putEntry_fresh known, List.map_append, List.map_singleton]
      refine List.pairwise_append.mpr ⟨kept, List.pairwise_singleton _ _, ?_⟩
      intro key inside own only
      obtain rfl := List.mem_singleton.mp only
      have before : key ∈ phrases.map Phrase.key := (gathers.keys key).mp inside
      rw [place_append before, place_fresh fresh]
      exact place_lt_length before

theorem gather (phrases : List Phrase) : Gathers phrases (gather phrases) := by
  induction phrases using List.reverseRecOn with
  | nil => exact empty
  | append_singleton front last ih =>
    rw [PhraseTable.gather, List.foldl_append]
    exact ih.put last

theorem refl (nodup : (entries.map Phrase.key).Nodup) : Gathers entries entries := by
  refine ⟨fun _ => Iff.rfl, ?_, fun entry member => ?_⟩
  · apply List.pairwise_iff_getElem.mpr
    intro first second inside within before
    rwa [place, place, nodup.idxOf_getElem, nodup.idxOf_getElem]
  · obtain ⟨front, back, rfl⟩ := List.append_of_mem member
    rw [List.map_append, List.map_cons] at nodup
    exact ⟨front, back, rfl, (List.nodup_cons.mp (List.Nodup.of_append_right nodup)).1⟩

end Gathers

theorem ofEntries_of_empty {phrases : List Phrase} (blank : ∃ phrase ∈ phrases, phrase.key = []) :
    ofEntries phrases = .error .emptyKey := by
  have stops : ∀ table : PhraseTable, phrases.foldlM (fun table phrase =>
      if empty : phrase.key = [] then Except.error Defect.emptyKey else .ok (table.put phrase empty)) table =
        .error .emptyKey := by
    induction phrases with
    | nil => simp at blank
    | cons phrase phrases ih =>
      intro table
      rw [List.foldlM_cons]
      by_cases empty : phrase.key = []
      · rw [dif_pos empty]
        rfl
      · rw [dif_neg empty]
        exact ih (((List.exists_mem_cons_iff ..).mp blank).resolve_left empty) _
  exact stops _

theorem eq_of_entries {table other : PhraseTable} (same : table.entries = other.entries) : table = other := by
  cases table
  cases other
  congr

theorem ofEntries_entries (table : PhraseTable) : ofEntries table.entries = .ok table := by
  obtain ⟨again, made, entries⟩ := exists_ofEntries table.keys_ne_nil
  have same : again.entries = table.entries := entries.trans ((Gathers.gather _).unique (.refl table.keys_nodup))
  rw [made, eq_of_entries same]

/-- No table is made if and only if some phrase has an empty key. Where none has one, the table has each key once, in
the place where it comes first and with the value that it is given last, and its entries make the same table again. -/
theorem ofEntries_gathers (phrases : List Phrase) :
    (ofEntries phrases = .error .emptyKey ↔ ∃ phrase ∈ phrases, phrase.key = []) ∧
      ((∃ phrase ∈ phrases, phrase.key = []) ∨ ∃ table, ofEntries phrases = .ok table ∧
        Gathers phrases table.entries ∧ ofEntries table.entries = .ok table) := by
  by_cases blank : ∃ phrase ∈ phrases, phrase.key = []
  · exact ⟨iff_of_true (ofEntries_of_empty blank) blank, .inl blank⟩
  · have filled : ∀ phrase ∈ phrases, phrase.key ≠ [] := fun phrase member empty => blank ⟨phrase, member, empty⟩
    obtain ⟨table, made, entries⟩ := exists_ofEntries filled
    refine ⟨iff_of_false (by simp [made]) blank, .inr ⟨table, made, ?_, ofEntries_entries table⟩⟩
    exact entries ▸ .gather phrases

/-- The key that comes first has the value of the last phrase. -/
example : (ofEntries [⟨units "x", units "1"⟩, ⟨units "y", units "2"⟩, ⟨units "x", units "3"⟩]).map entries =
    .ok [⟨units "x", units "3"⟩, ⟨units "y", units "2"⟩] := rfl

end Emend.PhraseTable
