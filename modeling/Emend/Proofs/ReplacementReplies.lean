import Emend.Proofs.ScriptOrder
import Emend.Proofs.ScriptReplies

/-! The calls by which a file is replaced. There are seven ways to go, told apart by which call fails, or by
the check of the bytes. -/

namespace Emend.Corpus

open Text

theorem replies_of_read {path encoding : Text} {replies : List Reply} {file : File}
    (comes : (read path encoding).Comes replies (.ok file)) :
    path = file.path ∧ replies = [.read file.path (.ok file.bytes)] := by
  rw [read] at comes
  cases comes with
  | @read _ _ answer _ _ rest =>
    obtain ⟨rfl, returned⟩ := rest.of_done
    cases answer with
    | error fault => cases returned
    | ok bytes =>
      obtain ⟨rfl, rfl, _⟩ := decodeFile_ok returned.symm
      exact ⟨rfl, rfl⟩

/-- The replies with which the replacement of a file can come to an end, and what it returns then. -/
inductive Replacing (token : Text) (file : File) (text encoding : Text) : List Reply → Except Failure Unit → Prop where
  | unencodable {error : CodingError} (refused : encodeLosslessly text encoding file.path = .error error) :
      Replacing token file text encoding [] (.error (.coding error))
  | unread {bytes : Bytes} (encoded : encodeLosslessly text encoding file.path = .ok bytes) (fault : Fault) :
      Replacing token file text encoding [.read file.path (.error fault)] (.error (.stale file.path))
  | unknown {bytes : Bytes} (encoded : encodeLosslessly text encoding file.path = .ok bytes) (current : Bytes)
      (fault : Fault) :
      Replacing token file text encoding [.read file.path (.ok current), .stat file.path (.error fault)]
        (.error (.stale file.path))
  | stale {bytes current : Bytes} (encoded : encodeLosslessly text encoding file.path = .ok bytes)
      (other : current ≠ file.bytes) (mode : Nat) :
      Replacing token file text encoding [.read file.path (.ok current), .stat file.path (.ok mode)]
        (.error (.stale file.path))
  | unwritten {bytes : Bytes} (encoded : encodeLosslessly text encoding file.path = .ok bytes) (mode : Nat)
      (fault : Fault) :
      Replacing token file text encoding
        [.read file.path (.ok file.bytes), .stat file.path (.ok mode),
          .write (temporaryPath token file.path) bytes mode (.error fault)]
        (.error fault.toFailure)
  | moved {bytes : Bytes} (encoded : encodeLosslessly text encoding file.path = .ok bytes) (mode : Nat) :
      Replacing token file text encoding
        [.read file.path (.ok file.bytes), .stat file.path (.ok mode),
          .write (temporaryPath token file.path) bytes mode (.ok ()),
          .rename (temporaryPath token file.path) file.path (.ok ())]
        (.ok ())
  | unmoved {bytes : Bytes} (encoded : encodeLosslessly text encoding file.path = .ok bytes) (mode : Nat)
      (fault : Fault) (removed : Except Fault Unit) :
      Replacing token file text encoding
        [.read file.path (.ok file.bytes), .stat file.path (.ok mode),
          .write (temporaryPath token file.path) bytes mode (.ok ()),
          .rename (temporaryPath token file.path) file.path (.error fault),
          .remove (temporaryPath token file.path) removed]
        (.error fault.toFailure)

section

variable {token text encoding : Text} {file : File} {replies : List Reply} {result : Except Failure Unit}

theorem replacing_of_comes (comes : (replace token file text encoding).Comes replies result) :
    Replacing token file text encoding replies result := by
  rw [replace] at comes
  cases encoded : encodeLosslessly text encoding file.path with
  | error error =>
    rw [encoded] at comes
    obtain ⟨rfl, rfl⟩ := comes.of_done
    exact .unencodable encoded
  | ok bytes =>
    rw [encoded] at comes
    cases comes with
    | @read _ _ current _ _ rest =>
      cases current with
      | error fault =>
        obtain ⟨rfl, rfl⟩ := rest.of_done
        exact .unread encoded fault
      | ok current =>
        cases rest with
        | @stat _ _ mode _ _ rest =>
          cases mode with
          | error fault =>
            obtain ⟨rfl, rfl⟩ := rest.of_done
            exact .unknown encoded current fault
          | ok mode =>
            simp only at rest
            split at rest
            next same =>
              subst same
              cases rest with
              | @write _ _ _ _ written _ _ rest =>
                cases written with
                | error fault =>
                  obtain ⟨rfl, rfl⟩ := rest.of_done
                  exact .unwritten encoded mode fault
                | ok =>
                  cases rest with
                  | @rename _ _ _ moved _ _ rest =>
                    cases moved with
                    | ok =>
                      obtain ⟨rfl, rfl⟩ := rest.of_done
                      exact .moved encoded mode
                    | error fault =>
                      cases rest with
                      | @remove _ _ removed _ _ rest =>
                        obtain ⟨rfl, rfl⟩ := rest.of_done
                        exact .unmoved encoded mode fault removed
            next other =>
              obtain ⟨rfl, rfl⟩ := rest.of_done
              exact .stale encoded other mode

/-- Each of these ways can be gone. -/
theorem comes_of_replacing (replacing : Replacing token file text encoding replies result) :
    (replace token file text encoding).Comes replies result := by
  rw [replace]
  cases replacing with
  | unencodable refused =>
    rw [refused]
    exact .done _
  | unread encoded fault =>
    rw [encoded]
    exact .read (.done _)
  | unknown encoded current fault =>
    rw [encoded]
    exact .read (.stat (.done _))
  | stale encoded other mode =>
    rw [encoded]
    refine .read (.stat ?_)
    simp only [if_neg other]
    exact .done _
  | unwritten encoded mode fault =>
    rw [encoded]
    refine .read (.stat ?_)
    simp only [if_true]
    exact .write (.done _)
  | moved encoded mode =>
    rw [encoded]
    refine .read (.stat ?_)
    simp only [if_true]
    exact .write (.rename (.done _))
  | unmoved encoded mode fault removed =>
    rw [encoded]
    refine .read (.stat ?_)
    simp only [if_true]
    exact .write (.rename (.remove (.done _)))

/-- A replacement in which a move succeeds does so as a whole. -/
theorem ok_of_moved (comes : (replace token file text encoding).Comes replies result) {source target : Text}
    (moved : .rename source target (.ok ()) ∈ replies) : result = .ok () := by
  cases replacing_of_comes comes with
  | unencodable | unread | unknown | stale | unwritten | unmoved => simp at moved
  | moved => rfl

theorem history_of_ok {passes : Workspace → Workspace → Prop} {space after : Workspace} {history : List Exchange}
    (runs : (replace token file text encoding).Runs passes space history after (.ok ())) :
    ∃ check look written moved bytes mode, history = [check, look, written, moved] ∧
      check.reply = .read file.path (.ok file.bytes) ∧ look.reply = .stat file.path (.ok mode) ∧
      written.reply = .write (temporaryPath token file.path) bytes mode (.ok ()) ∧
      moved.reply = .rename (temporaryPath token file.path) file.path (.ok ()) := by
  have replacing := replacing_of_comes runs.comes
  generalize replies : history.map Exchange.reply = calls at replacing
  cases replacing with
  | @moved bytes encoded mode =>
    obtain ⟨check, _, rfl, checked, replies⟩ := List.map_eq_cons_iff.mp replies
    obtain ⟨look, _, rfl, looked, replies⟩ := List.map_eq_cons_iff.mp replies
    obtain ⟨written, _, rfl, wrote, replies⟩ := List.map_eq_cons_iff.mp replies
    obtain ⟨moved, rfl, ended⟩ := List.map_eq_singleton_iff.mp replies
    exact ⟨check, look, written, moved, bytes, mode, rfl, checked, looked, wrote, ended⟩

end

end Emend.Corpus
