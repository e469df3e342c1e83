import Emend.Proofs.ReplacementReplies
import Emend.Proofs.RunPreview

/-! The calls by which a file is revised, and what comes of it for every way in which they may be answered. Whatever
goes wrong, in reading or in writing, ends in one failure of this file, with the phase and the cause. -/

namespace Emend

/-- A script that goes on from the value of another one makes the calls of both. -/
theorem Script.Comes.bind {α β : Type} {script : Script α} {next : α → Script β} {first rest : List Reply} {middle : α}
    {value : β} (early : script.Comes first middle) (late : (next middle).Comes rest value) :
    (script.bind next).Comes (first ++ rest) value := by
  induction early with
  | done middle => exact late
  | read _ ih => exact .read (ih late)
  | stat _ ih => exact .stat (ih late)
  | write _ ih => exact .write (ih late)
  | rename _ ih => exact .rename (ih late)
  | remove _ ih => exact .remove (ih late)
  | announce _ ih => exact .announce (ih late)

namespace Corpus

open Text

/-- The replies with which the revision of a file can come to an end, and its outcome then. -/
inductive Revising (options : FileOptions) (token path : Text) : List Reply → FileOutcome → Prop where
  | unread (fault : Fault) :
      Revising options token path [.read path (.error fault)] (options.failed path .read fault.toFailure)
  | undecoded {bytes : Bytes} {error : CodingError}
      (refused : decodeLosslessly bytes options.encoding path = .error error) :
      Revising options token path [.read path (.ok bytes)] (options.failed path .read (.coding error))
  | unmatched {bytes : Bytes} {text : Text} (decoded : decodeLosslessly bytes options.encoding path = .ok text)
      (untouched : (options.plan.revise text).untouched = true) :
      Revising options token path [.read path (.ok bytes)] .unmatched
  /-- Nothing is to be written. -/
  | kept {bytes : Bytes} {text : Text} (decoded : decodeLosslessly bytes options.encoding path = .ok text)
      (touched : (options.plan.revise text).untouched = false)
      (still : ((options.plan.revise text).changed && !options.preview) = false) :
      Revising options token path [.read path (.ok bytes)]
        (options.matched ⟨path, bytes, text⟩ (options.plan.revise text))
  | refused {bytes : Bytes} {text : Text} (decoded : decodeLosslessly bytes options.encoding path = .ok text)
      (touched : (options.plan.revise text).untouched = false)
      (writes : ((options.plan.revise text).changed && !options.preview) = true) (fault : Fault) :
      Revising options token path
        [.read path (.ok bytes), .announce path text (options.plan.revise text).text (.error fault)]
        (options.failed path .write fault.toFailure)
  | unreplaced {bytes : Bytes} {text : Text} (decoded : decodeLosslessly bytes options.encoding path = .ok text)
      (touched : (options.plan.revise text).untouched = false)
      (writes : ((options.plan.revise text).changed && !options.preview) = true) {replies : List Reply}
      {failure : Failure}
      (replacing : Replacing token ⟨path, bytes, text⟩ (options.plan.revise text).text options.encoding replies
        (.error failure)) :
      Revising options token path
        (.read path (.ok bytes) :: .announce path text (options.plan.revise text).text (.ok ()) :: replies)
        (options.failed path .write failure)
  | replaced {bytes : Bytes} {text : Text} (decoded : decodeLosslessly bytes options.encoding path = .ok text)
      (touched : (options.plan.revise text).untouched = false)
      (writes : ((options.plan.revise text).changed && !options.preview) = true) {replies : List Reply}
      (replacing : Replacing token ⟨path, bytes, text⟩ (options.plan.revise text).text options.encoding replies
        (.ok ())) :
      Revising options token path
        (.read path (.ok bytes) :: .announce path text (options.plan.revise text).text (.ok ()) :: replies)
        (options.matched ⟨path, bytes, text⟩ (options.plan.revise text))

/-- Something has gone wrong with a file: a call has failed, its bytes or its new text are not of the encoding, or it
has been edited in the meantime. -/
inductive Troubled (options : FileOptions) (path : Text) (replies : List Reply) : Prop where
  | fault {reply : Reply} {fault : Fault} (among : reply ∈ replies) (failed : reply.fault? = some fault)
  | undecodable {bytes : Bytes} {error : CodingError} (among : .read path (.ok bytes) ∈ replies)
      (refused : decodeLosslessly bytes options.encoding path = .error error)
  | unencodable {text revised : Text} {error : CodingError} (among : .announce path text revised (.ok ()) ∈ replies)
      (refused : encodeLosslessly revised options.encoding path = .error error)
  | edited {bytes other : Bytes} (among : .read path (.ok bytes) ∈ replies) (later : .read path (.ok other) ∈ replies)
      (apart : bytes ≠ other)

section

variable {options : FileOptions} {token path : Text} {replies : List Reply} {outcome : FileOutcome}

theorem decodeFile_error {encoding : Text} {bytes : Bytes} {failure : Failure}
    (refused : decodeFile path encoding bytes = .error failure) :
    ∃ error, decodeLosslessly bytes encoding path = .error error ∧ failure = .coding error := by
  rw [decodeFile] at refused
  cases read : decodeLosslessly bytes encoding path with
  | error error =>
    rw [read] at refused
    exact ⟨error, rfl, (Except.error.inj refused).symm⟩
  | ok text =>
    rw [read] at refused
    cases refused

/-- There is no other way for the revision of a file to end, whatever its calls are answered. -/
theorem revising_of_comes (comes : (revise options token path).Comes replies outcome) :
    Revising options token path replies outcome := by
  rw [revise_eq] at comes
  cases comes with
  | @read _ _ answer _ _ rest =>
    cases answer with
    | error fault =>
      obtain ⟨rfl, rfl⟩ := rest.of_done
      exact .unread fault
    | ok bytes =>
      cases decoded : decodeFile path options.encoding bytes with
      | error failure =>
        simp only [decoded] at rest
        obtain ⟨rfl, rfl⟩ := rest.of_done
        obtain ⟨error, refused, rfl⟩ := decodeFile_error decoded
        exact .undecoded refused
      | ok file =>
        simp only [decoded] at rest
        obtain ⟨shown, own, text⟩ := file
        obtain ⟨rfl, rfl, reads⟩ := decodeFile_ok decoded
        split at rest
        next untouched =>
          obtain ⟨rfl, rfl⟩ := rest.of_done
          exact .unmatched reads untouched
        next touched =>
          have touched := Bool.eq_false_iff.mpr touched
          split at rest
          next writes =>
            cases rest with
            | @announce _ _ _ _ answer _ _ rest =>
              cases answer with
              | error fault =>
                obtain ⟨rfl, rfl⟩ := rest.of_done
                exact .refused reads touched writes fault
              | ok =>
                change ((replace token ⟨_, _, text⟩ (options.plan.revise text).text options.encoding).bind _).Comes _ _
                  at rest
                obtain ⟨first, last, result, rfl, replaced, ended⟩ := rest.split
                have replacing := replacing_of_comes replaced
                cases result with
                | error failure =>
                  obtain ⟨rfl, rfl⟩ := ended.of_done
                  rw [List.append_nil]
                  exact .unreplaced reads touched writes replacing
                | ok =>
                  obtain ⟨rfl, rfl⟩ := ended.of_done
                  rw [List.append_nil]
                  exact .replaced reads touched writes replacing
          next still =>
            obtain ⟨rfl, rfl⟩ := rest.of_done
            exact .kept reads touched (Bool.eq_false_iff.mpr still)

theorem comes_writeRevision {file : File} {revision : Revision} {result : Except Failure Unit}
    (replaced : (replace token file revision.text options.encoding).Comes replies result)
    (fails : ∀ failure, result = .error failure → outcome = options.failed file.path .write failure)
    (succeeds : result = .ok () → outcome = options.matched file revision) :
    (writeRevision options token file revision).Comes
      (.announce file.path file.text revision.text (.ok ()) :: replies) outcome := by
  apply Script.Comes.announce
  change ((replace token file revision.text options.encoding).bind _).Comes replies outcome
  rw [← List.append_nil replies]
  apply replaced.bind
  cases result with
  | error failure => exact fails failure rfl ▸ .done _
  | ok => exact succeeds rfl ▸ .done _

theorem comes_of_revising (revising : Revising options token path replies outcome) :
    (revise options token path).Comes replies outcome := by
  have opened {bytes : Bytes} {text : Text} (decoded : decodeLosslessly bytes options.encoding path = .ok text) :
      decodeFile path options.encoding bytes = .ok ⟨path, bytes, text⟩ := by
    rw [decodeFile, decoded]
    rfl
  rw [revise_eq]
  cases revising with
  | unread fault => exact .read (.done _)
  | undecoded refused =>
    apply Script.Comes.read
    simp only [decodeFile, refused, Except.mapError, Bind.bind, Except.bind]
    exact .done _
  | unmatched decoded untouched =>
    apply Script.Comes.read
    simp only [opened decoded, untouched, if_true]
    exact .done _
  | kept decoded touched still =>
    apply Script.Comes.read
    simp only [opened decoded, touched, still, Bool.false_eq_true, if_false]
    exact .done _
  | refused decoded touched writes fault =>
    apply Script.Comes.read
    simp only [opened decoded, touched, writes, Bool.false_eq_true, if_false, if_true]
    exact .announce (.done _)
  | unreplaced decoded touched writes replacing =>
    apply Script.Comes.read
    simp only [opened decoded, touched, writes, Bool.false_eq_true, if_false, if_true]
    exact comes_writeRevision (comes_of_replacing replacing) (fun _ same => by cases same; rfl) fun same => by cases same
  | replaced decoded touched writes replacing =>
    apply Script.Comes.read
    simp only [opened decoded, touched, writes, Bool.false_eq_true, if_false, if_true]
    exact comes_writeRevision (comes_of_replacing replacing) (fun _ same => by cases same) (fun _ => rfl)

/-- What stops the replacement of a file: the encoding does not hold its text, a call has failed, or the file has other
bytes by now. -/
theorem Replacing.cause {file : File} {text encoding : Text} {failure : Failure}
    (replacing : Replacing token file text encoding replies (.error failure)) :
    (∃ error, encodeLosslessly text encoding file.path = .error error) ∨
      (∃ reply ∈ replies, ∃ fault, reply.fault? = some fault) ∨
      ∃ other, other ≠ file.bytes ∧ .read file.path (.ok other) ∈ replies := by
  cases replacing with
  | unencodable refused => exact .inl ⟨_, refused⟩
  | unread encoded fault => exact .inr (.inl ⟨.read file.path (.error fault), by simp, fault, rfl⟩)
  | unknown encoded current fault => exact .inr (.inl ⟨.stat file.path (.error fault), by simp, fault, rfl⟩)
  | stale encoded other mode => exact .inr (.inr ⟨_, other, by simp⟩)
  | @unwritten bytes encoded mode fault =>
    exact .inr (.inl ⟨.write (temporaryPath token file.path) bytes mode (.error fault), by simp, fault, rfl⟩)
  | unmoved encoded mode fault removed =>
    exact .inr (.inl ⟨.rename (temporaryPath token file.path) file.path (.error fault), by simp, fault, rfl⟩)

/-- A file is reported as a failure exactly when something has gone wrong with it. -/
theorem Revising.failure_iff (revising : Revising options token path replies outcome) :
    outcome.failure?.isSome = true ↔ Troubled options path replies := by
  cases revising with
  | unread fault => exact iff_of_true rfl (.fault List.mem_cons_self rfl)
  | undecoded refused => exact iff_of_true rfl (.undecodable List.mem_cons_self refused)
  | unmatched decoded | kept decoded =>
    refine iff_of_false Bool.false_ne_true ?_
    rintro (⟨among, failed⟩ | ⟨among, refused⟩ | ⟨among, refused⟩ | ⟨among, later, apart⟩)
    · cases List.mem_singleton.mp among
      cases failed
    · cases List.mem_singleton.mp among
      cases refused.symm.trans decoded
    · cases List.mem_singleton.mp among
    · cases List.mem_singleton.mp among
      cases List.mem_singleton.mp later
      exact apart rfl
  | refused decoded touched writes fault => exact iff_of_true rfl (.fault (.tail _ List.mem_cons_self) rfl)
  | unreplaced decoded touched writes replacing =>
    refine iff_of_true rfl ?_
    rcases replacing.cause with ⟨error, refused⟩ | ⟨reply, among, fault, failed⟩ | ⟨other, apart, later⟩
    · exact .unencodable (.tail _ List.mem_cons_self) refused
    · exact .fault (.tail _ (.tail _ among)) failed
    · exact .edited (.tail _ (.tail _ later)) List.mem_cons_self apart
  | replaced decoded touched writes replacing =>
    refine iff_of_false Bool.false_ne_true ?_
    cases replacing with
    | moved encoded mode =>
      rintro (⟨among, failed⟩ | ⟨among, refused⟩ | ⟨among, refused⟩ | ⟨among, later, apart⟩)
      · simp only [List.mem_cons, List.not_mem_nil, or_false] at among
        rcases among with rfl | rfl | rfl | rfl | rfl | rfl <;> cases failed
      · simp only [List.mem_cons, List.not_mem_nil, or_false, false_or, or_self, Reply.read.injEq, true_and,
          Except.ok.injEq, reduceCtorEq] at among
        cases refused.symm.trans (among ▸ decoded)
      · simp only [List.mem_cons, List.not_mem_nil, or_false, false_or, Reply.announce.injEq, reduceCtorEq] at among
        obtain ⟨_, _, rfl, _⟩ := among
        cases refused.symm.trans encoded
      · simp only [List.mem_cons, List.not_mem_nil, or_false, false_or, or_self, Reply.read.injEq, true_and,
          Except.ok.injEq, reduceCtorEq] at among later
        exact apart (among.trans later.symm)

end

end Corpus

end Emend
