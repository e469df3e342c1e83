import Emend.Proofs.PresetPhrases

/-! Runs of the built-in phrases over what they have written themselves. Another run changes nothing, except where the
run before it has joined a key that it had gone by. -/

namespace Emend.Preset

open Text Phrase

section

variable {documents : List PhraseDocument} (known : documents ⊆ chain) {tables : List PhraseTable}
  (same : Plan.phrases tables = documents.flatMap fun document => PhraseTable.gather document.items)
include known same

theorem mem_chain_of_mem_phrases {phrase : Phrase} (member : phrase ∈ Plan.phrases tables) :
    phrase ∈ chain.flatMap Document.items := by
  rw [same] at member
  obtain ⟨document, among, inside⟩ := List.mem_flatMap.mp member
  exact List.mem_flatMap.mpr ⟨document, known among, PhraseTable.mem_of_mem_gather inside⟩

theorem flat_of_mem_phrases : ∀ phrase ∈ Plan.phrases tables, lineFeed ∉ phrase.value := by
  intro phrase member
  exact lineFeed_not_mem_of_isTranslation (chain_translates.1 phrase (mem_chain_of_mem_phrases known same member))

end

/-- Another run of the tables of some documents over a text changes nothing, except where the run before it leaves a key
that it has joined. -/
def SettledUnlessJoined (documents : List PhraseDocument) (t : Text) : Prop :=
  ∃ tables, documents.mapM Document.table = .ok tables ∧
    ((Plan.revise ⟨[], tables⟩ (Plan.revise ⟨[], tables⟩ t).text).changed = false ↔
      ¬ ∃ line ∈ split lineFeed t, ∃ key, LeavesJoined (Plan.phrases tables) key line)

theorem settledUnlessJoined_of_subset {documents : List PhraseDocument} (known : documents ⊆ chain) (t : Text) :
    SettledUnlessJoined documents t := by
  obtain ⟨tables, compiles, same⟩ := exists_tables known
  have inside {phrase : Phrase} (member : phrase ∈ Plan.phrases tables) : phrase ∈ chain.flatMap Document.items :=
    mem_chain_of_mem_phrases known same member
  have lighter : ∀ phrase ∈ Plan.phrases tables, phrase.active = true → burden phrase.value < burden phrase.key := by
    intro phrase member
    exact burden_lt_of_isTranslation (chain_translates.1 phrase (inside member))
  refine ⟨tables, compiles, ?_⟩
  rw [← Plan.applyTables_again_iff (flat_of_mem_phrases known same) burden_append lighter]
  · exact bne_eq_false_iff_eq
  · intro entry member active phrase other
    exact not_infix_of_mem_chain (inside member) active (inside other)

theorem comments_subset : [zhEnComments] ⊆ chain := List.cons_subset.mpr ⟨List.mem_cons_self, List.nil_subset _⟩

/-- Another run of the phrases of comments, or of all built-in phrases, changes nothing, except where the run before it
leaves a key that it has joined. -/
theorem settledUnlessJoined_comments_and_chain (t : Text) :
    SettledUnlessJoined [zhEnComments] t ∧ SettledUnlessJoined chain t := by
  constructor
  · exact settledUnlessJoined_of_subset comments_subset t
  · exact settledUnlessJoined_of_subset (List.Subset.refl _) t

section Stream

def streamLetters : Text := units "聊天的流Chat stream"

def streamPhrases : List Phrase :=
  [⟨units "聊天流", units "Chat stream"⟩, ⟨units "的", []⟩, ⟨units "as", units "as"⟩]

set_option maxRecDepth 100000

theorem filter_comments : zhEnComments.items.filter (fun phrase => phrase.key.all streamLetters.contains) =
    streamPhrases := by
  apply Spelled.holds fun phrases => phrases.filter (fun phrase => phrase.key.all streamLetters.contains) = streamPhrases
  · dsimp only [zhEnComments]
    repeat (first | exact .nil | apply Spelled.cons)
  · decide +kernel

theorem filter_followups : (chain.tail.flatMap Document.items).filter
    (fun phrase => phrase.key.all streamLetters.contains) = [] := by
  apply Spelled.holds fun phrases => phrases.filter (fun phrase => phrase.key.all streamLetters.contains) = []
  · dsimp only [chain, List.tail_cons, List.flatMap_cons, List.flatMap_nil, zhEnFollowup1, zhEnFollowup2, zhEnFollowup3,
      zhEnFollowup4]
    repeat (first | exact .nil | apply Spelled.cons)
  · decide +kernel

theorem filter_gathers {documents : List PhraseDocument} (either : documents = [zhEnComments] ∨ documents = chain) :
    (documents.flatMap fun document => PhraseTable.gather document.items).filter
      (fun phrase => phrase.key.all streamLetters.contains) = streamPhrases := by
  have comments : (PhraseTable.gather zhEnComments.items).filter
      (fun phrase => phrase.key.all streamLetters.contains) = streamPhrases := by
    rw [PhraseTable.filter_gather (List.all · streamLetters.contains), filter_comments]
    decide
  have followups : (chain.tail.flatMap fun document => PhraseTable.gather document.items).filter
      (fun phrase => phrase.key.all streamLetters.contains) = [] := by
    have absent := List.filter_eq_nil_iff.mp filter_followups
    apply List.filter_eq_nil_iff.mpr
    intro phrase member
    obtain ⟨document, among, inside⟩ := List.mem_flatMap.mp member
    exact absent phrase (List.mem_flatMap.mpr ⟨document, among, PhraseTable.mem_of_mem_gather inside⟩)
  rcases either with rfl | rfl
  · rw [List.flatMap_singleton]
    exact comments
  · rw [chain, List.flatMap_cons, List.filter_append, comments]
    exact (congrArg (streamPhrases ++ ·) followups).trans (List.append_nil _)

section

variable {documents : List PhraseDocument} (either : documents = [zhEnComments] ∨ documents = chain)
include either

theorem subset_chain : documents ⊆ chain := by
  rcases either with rfl | rfl
  · exact comments_subset
  · exact List.Subset.refl _

theorem applyTables_stream {tables : List PhraseTable}
    (same : Plan.phrases tables = documents.flatMap fun document => PhraseTable.gather document.items)
    {line : Text} (own : line.all streamLetters.contains = true) :
    Plan.applyTables tables line = ⟨run streamPhrases line, total streamPhrases line⟩ := by
  have relevant : (Plan.phrases tables).filter (fun phrase => phrase.key.all streamLetters.contains) = streamPhrases := by
    rw [same, filter_gathers either]
  have plain : ∀ phrase ∈ streamPhrases, phrase.value.all streamLetters.contains = true := by decide
  have values : ∀ phrase ∈ Plan.phrases tables, phrase.key.all streamLetters.contains = true →
      phrase.value.all streamLetters.contains = true := by
    intro phrase member within
    exact plain phrase (relevant ▸ List.mem_filter.mpr ⟨member, within⟩)
  have clean : lineFeed ∉ line := by
    intro member
    exact absurd (List.all_eq_true.mp own lineFeed member) (by decide)
  obtain ⟨text, count⟩ := run_filter (fun _ => Plan.filled_of_mem_phrases) values own
  rw [Plan.applyTables_line (flat_of_mem_phrases (subset_chain either) same) clean, text, count, relevant]

/-- Two runs over a text in which one phrase joins the key of another that has gone by. -/
theorem revisions_stream : ∃ tables, documents.mapM Document.table = .ok tables ∧
    Plan.revisions ⟨[], tables⟩ (units "聊天的流") 2 =
      [⟨units "聊天流", true, 0, 1⟩, ⟨units "Chat stream", true, 0, 1⟩] := by
  obtain ⟨tables, compiles, same⟩ := exists_tables (subset_chain either)
  refine ⟨tables, compiles, ?_⟩
  have first : Plan.applyTables tables (units "聊天的流") = ⟨units "聊天流", 1⟩ := by
    rw [applyTables_stream either same (by decide)]
    decide
  have second : Plan.applyTables tables (units "聊天流") = ⟨units "Chat stream", 1⟩ := by
    rw [applyTables_stream either same (by decide)]
    decide
  have start (t : Text) : Rule.applyAll [] t = ⟨t, 0⟩ := rfl
  rw [Plan.revisions, Plan.revisions, Plan.revisions, Plan.revise, start, first, Plan.revise, start, second]
  decide

end

/-- The second run changes what the first has written. -/
theorem comments_and_chain_not_settled :
    (∃ tables, [zhEnComments].mapM Document.table = .ok tables ∧
      Plan.revisions ⟨[], tables⟩ (units "聊天的流") 2 =
        [⟨units "聊天流", true, 0, 1⟩, ⟨units "Chat stream", true, 0, 1⟩]) ∧
    ∃ tables, chain.mapM Document.table = .ok tables ∧
      Plan.revisions ⟨[], tables⟩ (units "聊天的流") 2 =
        [⟨units "聊天流", true, 0, 1⟩, ⟨units "Chat stream", true, 0, 1⟩] :=
  ⟨revisions_stream (.inl rfl), revisions_stream (.inr rfl)⟩

end Stream

end Emend.Preset
