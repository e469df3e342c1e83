import Emend.Rule

/-! Phrase tables replace plain substrings, line by line and entry by entry. An entry sees what the
entries before it have written, so the order of a table is part of its meaning. -/

namespace Emend

open Text

structure Phrase where
  key : Text
  value : Text
  deriving DecidableEq, Repr

/-- An entry that would replace its key by itself is never applied. -/
def Phrase.active (phrase : Phrase) : Bool := phrase.key != phrase.value

/-- Replace each occurrence of a key from left to right. Occurrences do not overlap and what has
been written is not read again. The first argument counts the units of an occurrence that are
still to be passed over. -/
def replaceKey (key value : Text) : Nat → Text → Text
  | _, [] => []
  | skip + 1, _ :: rest => replaceKey key value skip rest
  | 0, u :: rest =>
    if key.isPrefixOf (u :: rest) then value ++ replaceKey key value (key.length - 1) rest
    else u :: replaceKey key value 0 rest

def countKey (key : Text) : Nat → Text → Nat
  | _, [] => 0
  | skip + 1, _ :: rest => countKey key skip rest
  | 0, u :: rest =>
    if key.isPrefixOf (u :: rest) then countKey key (key.length - 1) rest + 1
    else countKey key 0 rest

def Phrase.apply (phrase : Phrase) (line : Count) : Count :=
  if phrase.active then
    ⟨replaceKey phrase.key phrase.value 0 line.text, line.count + countKey phrase.key 0 line.text⟩
  else line

/-- Phrases in order. No key is empty and none stands twice. -/
structure PhraseTable where
  entries : List Phrase
  keys_nodup : (entries.map Phrase.key).Nodup
  keys_ne_nil : ∀ entry ∈ entries, entry.key ≠ []

inductive PhraseTable.Defect where
  | emptyKey
  deriving DecidableEq, Repr

def PhraseTable.Defect.message : Defect → Text
  | emptyKey => units "Phrase table keys cannot be empty."

/-- A phrase whose value holds a key, so that a second run replaces it again. -/
structure Reentrance where
  phrase : Phrase
  contains : Text
  deriving DecidableEq, Repr

namespace PhraseTable

def empty : PhraseTable := ⟨[], by simp, by simp⟩

/-- Give a key a value: in its place if the key is there, at the end if not. -/
def putEntry (phrase : Phrase) : List Phrase → List Phrase
  | [] => [phrase]
  | entry :: rest => if entry.key = phrase.key then phrase :: rest else entry :: putEntry phrase rest

theorem mem_putEntry {phrase entry : Phrase} {entries : List Phrase}
    (member : entry ∈ putEntry phrase entries) : entry = phrase ∨ entry ∈ entries := by
  induction entries with
  | nil => simp_all [putEntry]
  | cons first rest ih =>
    simp only [putEntry] at member
    split at member
    · exact (List.mem_cons.1 member).imp_right (List.mem_cons_of_mem first)
    · rcases List.mem_cons.1 member with same | inside
      · exact Or.inr (same ▸ List.mem_cons_self)
      · exact (ih inside).imp_right (List.mem_cons_of_mem first)

theorem nodup_putEntry {phrase : Phrase} {entries : List Phrase}
    (distinct : (entries.map Phrase.key).Nodup) :
    ((putEntry phrase entries).map Phrase.key).Nodup := by
  induction entries with
  | nil => simp [putEntry]
  | cons first rest ih =>
    simp only [putEntry]
    split
    · simp_all
    · next other =>
      simp only [List.map_cons, List.nodup_cons] at distinct ⊢
      refine ⟨fun member => ?_, ih distinct.2⟩
      obtain ⟨entry, inside, same⟩ := List.mem_map.1 member
      rcases mem_putEntry inside with rfl | inside
      · exact other same.symm
      · exact distinct.1 (List.mem_map.2 ⟨entry, inside, same⟩)

def put (table : PhraseTable) (phrase : Phrase) (filled : phrase.key ≠ []) : PhraseTable where
  entries := putEntry phrase table.entries
  keys_nodup := nodup_putEntry table.keys_nodup
  keys_ne_nil entry member := by
    rcases mem_putEntry member with rfl | inside
    · exact filled
    · exact table.keys_ne_nil entry inside

/-- The table of some entries. A repeated key keeps its first place and takes its last value. -/
def ofEntries (entries : List Phrase) : Except Defect PhraseTable :=
  entries.foldlM (fun table phrase =>
    if empty : phrase.key = [] then .error .emptyKey else .ok (table.put phrase empty)) .empty

def applyToLine (table : PhraseTable) (line : Text) : Count :=
  table.entries.foldl (fun current phrase => phrase.apply current) ⟨line, 0⟩

def apply (table : PhraseTable) (text : Text) : Count :=
  let lines := (split lineFeed text).map table.applyToLine
  ⟨join [lineFeed] (lines.map Count.text), (lines.map Count.count).foldr (· + ·) 0⟩

/-- Every pair of a phrase and an active key inside its value, in the order of the table. -/
def reentrances (table : PhraseTable) : List Reentrance :=
  let keys := (table.entries.filter Phrase.active).map Phrase.key
  table.entries.flatMap fun phrase =>
    (keys.filter fun key => occursIn key phrase.value).map fun key => ⟨phrase, key⟩

end PhraseTable

end Emend
