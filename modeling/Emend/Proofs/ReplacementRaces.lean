import Emend.Proofs.FreePlaces
import Emend.Proofs.ReplacementReplies

/-! The replacement of a file while others are at work on it. The file is moved over if it had its old bytes when it
was read again. What it has had since then is not looked at: only if nobody has written it in the meantime are
its old bytes the ones that are replaced. -/

namespace Emend

open Text FileError

namespace Workspace

/-- What is found at a path stays there when nothing is changed but what stands at a free path. -/
theorem Spared.lookup {space now : Workspace} {free path : Text} (spared : space.Spared free now) {follow : Bool}
    {place : Path} {node : Node} (looked : space.tree.lookup space.directory follow path = .ok (place, node))
    (apart : node ≠ .directory) : now.tree.lookup now.directory follow path = .ok (place, node) := by
  have reach := Corpus.find_of_lookup looked
  have other : ∀ elsewhere, Tree.Found.node place node ≠ .node elsewhere .directory := fun _ same =>
    apart (Tree.Found.node.inj same).2
  obtain ⟨here, plain⟩ := Tree.find_found reach other
  have there : space.tree.get? place = some node := Tree.get?_of_endAt_node _ here.symm
  have standing := spared.standing there
  have unlinked : follow = true → ∀ target, now.tree.get? place ≠ some (.link target) := by
    intro follow target link
    exact plain follow target (there.trans (standing.symm.trans link))
  have again := Tree.find_endAt spared.keeps reach other unlinked
  have still : now.tree.endAt place = .node place node := by rw [Tree.endAt, standing]
  rw [Tree.lookup, spared.directory, again]
  exact congrArg Tree.Found.standing still

theorem Spared.readFile {space now : Workspace} {free path : Text} (spared : space.Spared free now) {bytes : Bytes}
    (read : space.readFile path = .ok bytes) : now.readFile path = .ok bytes := by
  obtain ⟨_, place, node, looked, apart⟩ := readFile_found read
  rw [Workspace.readFile, spared.lookup looked apart, ← looked]
  exact read

/-- Somebody else may replace the bytes of the file to which a path leads. -/
inductive Edited (path : Text) (space : Workspace) : Workspace → Prop where
  | untouched : Edited path space space
  | edited {place : Path} {old : Bytes} {mode : Nat}
      (reach : space.tree.find space.directory true path = .ok (.node place (.file old mode))) (bytes : Bytes) :
      Edited path space { space with tree := space.tree.put place (.file bytes mode) }

end Workspace

/-- Between one call and the next one nobody has changed what a path reads as. -/
def Exchange.Unedited (path : Text) (one next : Exchange) : Prop :=
  next.before.readFile path = one.after.readFile path

namespace Corpus

section

variable {passes : Workspace → Workspace → Prop} {space middle after : Workspace} {token path text encoding : Text}
  {file : File} {first history : List Exchange} {result : Except Failure Unit} {moved : Exchange} {source target : Text}

/-- Whoever else is at work on the files, a file is moved over only after it was found to have the bytes with which it
was read. What is replaced then are these bytes unless somebody has written the file between that check and the
move, or has put something where the sibling goes. -/
theorem replace_moved (reads : (read path encoding).Runs passes space first middle (.ok file))
    (replaces : (replace token file text encoding).Runs passes middle history after result)
    (among : moved ∈ history) (renamed : moved.reply = .rename source target (.ok ())) :
    (∃ start, first = [start] ∧ start.reply = .read path (.ok file.bytes) ∧
      start.before.readFile path = .ok file.bytes) ∧
    target = path ∧ ∃ check look written, history = [check, look, written, moved] ∧
      check.reply = .read path (.ok file.bytes) ∧ check.before.readFile path = .ok file.bytes ∧
      (written.before.Free source → [check, look, written, moved].IsChain (Exchange.Unedited path) →
        moved.before.readFile path = .ok file.bytes) := by
  obtain ⟨rfl, once⟩ := replies_of_read reads.comes
  obtain ⟨start, rfl, started⟩ := List.map_eq_singleton_iff.mp once
  have begun := (started ▸ reads.proceeds.answered (.head _)).of_read.1
  have member : .rename source target (.ok ()) ∈ history.map Exchange.reply := renamed ▸ List.mem_map_of_mem among
  obtain rfl := ok_of_moved replaces.comes member
  obtain ⟨check, look, written, last, bytes, mode, rfl, checked, looked, wrote, ended⟩ := history_of_ok replaces
  have same : moved = last := by
    simp only [List.mem_cons, List.not_mem_nil, or_false] at among
    rcases among with rfl | rfl | rfl | rfl
    · cases checked.symm.trans renamed
    · cases looked.symm.trans renamed
    · cases wrote.symm.trans renamed
    · rfl
  subst same
  obtain ⟨rfl, rfl, _⟩ := Reply.rename.inj (ended.symm.trans renamed)
  obtain ⟨rechecked, checkOver⟩ := (checked ▸ replaces.proceeds.answered (.head _)).of_read
  refine ⟨⟨start, rfl, started, begun⟩, rfl, check, look, written, rfl, checked, rechecked, fun free chain => ?_⟩
  obtain ⟨toLook, toWrite, toMove⟩ : look.before.readFile file.path = check.after.readFile file.path ∧
      written.before.readFile file.path = look.after.readFile file.path ∧
      moved.before.readFile file.path = written.after.readFile file.path := by
    simpa [Exchange.Unedited] using chain
  obtain ⟨_, lookOver⟩ := (looked ▸ replaces.proceeds.answered (.tail _ (.head _))).of_stat
  have put := (wrote ▸ replaces.proceeds.answered (.tail _ (.tail _ (.head _)))).of_write
  have before : written.before.readFile file.path = .ok file.bytes := by
    rw [toWrite, lookOver, toLook, checkOver, rechecked]
  rw [toMove]
  exact (Workspace.Spared.same.writeFile free put).readFile before

end

private def ownSpace : Workspace :=
  ⟨⟨[(.ofText (units "/d"), .directory), (.ofText (units "/d/a.ts"), .file [0x78] 0o644)]⟩, .root⟩

private def editedSpace : Workspace :=
  { ownSpace with tree := ownSpace.tree.put (.ofText (units "/d/a.ts")) (.file [0x65] 0o644) }

private def ownFile : File := ⟨units "/d/a.ts", [0x78], units "x"⟩

private def ownSibling : Text := temporaryPath (units "12-0a1f") ownFile.path

private theorem ownFile_read {passes : Workspace → Workspace → Prop} (still : ∀ space, passes space space) :
    (read ownFile.path (units "utf8")).Runs passes ownSpace [⟨ownSpace, .read ownFile.path (.ok [0x78]), ownSpace⟩]
      ownSpace (.ok ownFile) := by
  have decoded : decodeLosslessly [0x78] (units "utf8") ownFile.path = .ok (units "x") := by decide +kernel
  refine ⟨.read ?_, .call (still _) (.read (by decide +kernel)) (.done (still _))⟩
  simp only [decodeFile, decoded]
  exact .done _

private theorem ownFile_replaced {passes : Workspace → Workspace → Prop} (still : ∀ space, passes space space)
    {meanwhile : Workspace} (pass : passes ownSpace meanwhile)
    (possible : ((meanwhile.writeFile ownSibling [0x79] 0o100644).bind
      fun written => written.rename ownSibling ownFile.path).isOk = true) :
    ∃ written after, meanwhile.writeFile ownSibling [0x79] 0o100644 = .ok written ∧
      (replace (units "12-0a1f") ownFile (units "y") (units "utf8")).Runs passes ownSpace
        [⟨ownSpace, .read ownFile.path (.ok [0x78]), ownSpace⟩, ⟨ownSpace, .stat ownFile.path (.ok 0o100644), ownSpace⟩,
          ⟨meanwhile, .write ownSibling [0x79] 0o100644 (.ok ()), written⟩,
          ⟨written, .rename ownSibling ownFile.path (.ok ()), after⟩] after (.ok ()) := by
  have encoded : encodeLosslessly (units "y") (units "utf8") ownFile.path = .ok [0x79] := by decide +kernel
  cases put : meanwhile.writeFile ownSibling [0x79] 0o100644 with
  | error error =>
    rw [put] at possible
    cases possible
  | ok written =>
    rw [put] at possible
    change (written.rename ownSibling ownFile.path).isOk = true at possible
    cases moved : written.rename ownSibling ownFile.path with
    | error error =>
      rw [moved] at possible
      cases possible
    | ok after =>
      exact ⟨written, after, rfl, comes_of_replacing (.moved encoded 0o100644),
        .call (still _) (.read (by decide +kernel)) (.call (still _) (.stat (by decide +kernel))
          (.call pass (.write put) (.call (still _) (.rename moved) (.done (still _)))))⟩

/-- Nobody else is at work. -/
theorem replace_moved_alone : ∃ first history after moved,
    (read ownFile.path (units "utf8")).Runs Eq ownSpace first ownSpace (.ok ownFile) ∧
      (replace (units "12-0a1f") ownFile (units "y") (units "utf8")).Runs Eq ownSpace history after (.ok ()) ∧
      moved ∈ history ∧ moved.reply = .rename ownSibling ownFile.path (.ok ()) ∧
      moved.before.readFile ownFile.path = .ok [0x78] := by
  have reads : (read ownFile.path (units "utf8")).Runs Eq ownSpace _ ownSpace (.ok ownFile) := ownFile_read fun _ => rfl
  obtain ⟨written, after, _, replaces⟩ : ∃ written after, _ ∧
      (replace (units "12-0a1f") ownFile (units "y") (units "utf8")).Runs Eq ownSpace _ after (.ok ()) :=
    ownFile_replaced (fun _ => rfl) rfl (by decide +kernel)
  obtain ⟨_, _, check, look, wrote, whole, _, _, kept⟩ :=
    replace_moved reads replaces (.tail _ (.tail _ (.tail _ (.head _)))) rfl
  simp only [List.cons.injEq] at whole
  obtain ⟨rfl, rfl, rfl, _⟩ := whole
  have free : ownSpace.Free ownSibling := Workspace.free_of_lookup .noEntry (by decide +kernel)
  exact ⟨_, _, after, _, reads, replaces, .tail _ (.tail _ (.tail _ (.head _))), rfl,
    kept free (.cons_cons rfl (.cons_cons rfl (.cons_cons rfl (.singleton _))))⟩

/-- Somebody writes the file after it was found unchanged and before its sibling is moved over it. -/
theorem replace_overwrites : ¬ ∀ (token path text encoding : Text) (file : File) (space middle after : Workspace)
    (first history : List Exchange) (result : Except Failure Unit) (moved : Exchange) (source : Text),
    (read path encoding).Runs (Workspace.Edited path) space first middle (.ok file) →
      (replace token file text encoding).Runs (Workspace.Edited path) middle history after result →
      moved ∈ history → moved.reply = .rename source path (.ok ()) → moved.before.readFile path = .ok file.bytes := by
  intro every
  have looked : ownSpace.tree.lookup ownSpace.directory true ownFile.path =
      .ok (.ofText (units "/d/a.ts"), .file [0x78] 0o644) := by decide +kernel
  have edit : ownSpace.Edited ownFile.path editedSpace := .edited (find_of_lookup looked) [0x65]
  obtain ⟨written, after, put, replaces⟩ := ownFile_replaced (fun _ => .untouched) edit (by decide +kernel)
  have kept : written.readFile ownFile.path = .ok [0x78] :=
    every _ _ _ _ _ _ _ _ _ _ _ _ _ (ownFile_read fun _ => .untouched) replaces
      (.tail _ (.tail _ (.tail _ (.head _)))) rfl
  have free : editedSpace.Free ownSibling := Workspace.free_of_lookup .noEntry (by decide +kernel)
  have other : editedSpace.readFile ownFile.path = .ok [0x65] := by decide +kernel
  have lost := (Workspace.Spared.same.writeFile free put).readFile other
  cases kept.symm.trans lost

end Corpus

end Emend
