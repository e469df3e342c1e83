import Emend.Proofs.LosslessCoding
import Emend.Proofs.RefusedCalls
import Emend.Proofs.ScriptEnds

/-! What revising one file comes to. Either the file and its sibling are as they were, and no change is
reported, or the file has the encoded revision of its text, the sibling is gone, and the change is
reported. A sibling stays behind only where calls are refused: when a write breaks off, or when the sibling
can neither be moved nor removed. -/

namespace Emend

open Corpus FileError

/-! The calls of a revision, in their order. -/

namespace Refusals

variable (refusals : Refusals)

def reading : Option Refusal := refusals 0

def rereading : Option Refusal := refusals 1

def looking : Option Refusal := refusals 2

def writing : Option Refusal := refusals 3

def moving : Option Refusal := refusals 4

def clearing : Option Refusal := refusals 5

/-- What stays of a sibling that was to hold some bytes, and why its file is not replaced. -/
inductive Strands (encoded : Bytes) : Bytes → FileError → Prop where
  | broken {error : FileError} {begun : Nat} (broke : refusals.writing = some ⟨error, some begun⟩) :
      Strands encoded (encoded.take begun) error
  | unmoved {move clear : Refusal} (written : refusals.writing = .none) (moves : refusals.moving = some move)
      (clears : refusals.clearing = some clear) : Strands encoded encoded move.error

/-- Nothing that is refused leaves a sibling behind. -/
structure Tidy : Prop where
  whole : ∀ refusal, refusals.writing = some refusal → refusal.begun = .none
  cleared : refusals.moving = .none ∨ refusals.clearing = .none

variable {refusals}

theorem Tidy.not_strands (tidy : refusals.Tidy) {encoded left : Bytes} {error : FileError} :
    ¬ refusals.Strands encoded left error := by
  rintro (broke | ⟨-, moves, clears⟩)
  · cases tidy.whole _ broke
  · rcases tidy.cleared with unmoved | uncleared
    · cases unmoved.symm.trans moves
    · cases uncleared.symm.trans clears

theorem tidy_none : none.Tidy := ⟨fun _ refused => (nomatch refused), .inl rfl⟩

end Refusals

namespace Territory

variable {α β : Type} {before : Tree} {territory : Territory before}
  {replies : Announcement → Except Fault Unit → Prop} {contents after : Contents}

theorem Confined.of_orderly {stage : Stage} {calls : Nat} {script : Script α}
    (orderly : script.Orderly territory.path.toText territory.temporary.toText stage calls) :
    territory.Confined calls script := by
  induction orderly with
  | done stage calls value => exact .done calls value
  | read _ ih => exact .read ih
  | stat _ ih => exact .stat ih
  | announce shown text revised _ ih => exact .announce shown text revised ih
  | write bytes mode _ _ refused written =>
    apply Confined.write
    intro answer
    cases answer with
    | error fault => exact refused fault
    | ok => exact written
  | rename _ _ refused moved =>
    apply Confined.rename
    intro answer
    cases answer with
    | error fault => exact refused fault
    | ok => exact moved
  | remove _ ih => exact .remove ih

/-- A script that goes on from the value of another has ended that other one first. -/
theorem Ends.split {script : Script α} {next : α → Script β} {value : β}
    (ends : territory.Ends replies contents (script.bind next) after value) :
    ∃ middle first, territory.Ends replies contents script middle first ∧
      territory.Ends replies middle (next first) after value := by
  induction script generalizing contents with
  | done first => exact ⟨contents, first, .done contents first, ends⟩
  | read path answer ih =>
    cases ends with
    | read rest =>
      obtain ⟨middle, first, reach, onward⟩ := ih _ rest
      exact ⟨middle, first, .read reach, onward⟩
  | stat path answer ih =>
    cases ends with
    | stat rest =>
      obtain ⟨middle, first, reach, onward⟩ := ih _ rest
      exact ⟨middle, first, .stat reach, onward⟩
  | write path bytes mode answer ih =>
    cases ends with
    | write rest =>
      obtain ⟨middle, first, reach, onward⟩ := ih _ rest
      exact ⟨middle, first, .write reach, onward⟩
  | rename source target answer ih =>
    cases ends with
    | rename rest =>
      obtain ⟨middle, first, reach, onward⟩ := ih _ rest
      exact ⟨middle, first, .rename reach, onward⟩
  | remove path answer ih =>
    cases ends with
    | remove rest =>
      obtain ⟨middle, first, reach, onward⟩ := ih _ rest
      exact ⟨middle, first, .remove reach, onward⟩
  | announce path text revised answer ih =>
    cases ends with
    | announce given rest =>
      obtain ⟨middle, first, reach, onward⟩ := ih _ rest
      exact ⟨middle, first, .announce given reach, onward⟩

theorem Ends.of_done {value result : α} (ends : territory.Ends replies contents (.done value) after result) :
    after = contents ∧ result = value := by
  cases ends
  exact ⟨rfl, rfl⟩

section Calls

variable {path source target : Text} {value : α}

theorem Ends.of_read {next : Except Fault Bytes → Script α}
    (ends : territory.Ends replies contents (.read path next) after value) :
    territory.Ends replies contents (next ((territory.read contents).mapError .call)) after value := by
  cases ends with
  | read rest => exact rest

theorem Ends.of_stat {next : Except Fault Nat → Script α}
    (ends : territory.Ends replies contents (.stat path next) after value) :
    territory.Ends replies contents (next ((territory.stat contents).mapError .call)) after value := by
  cases ends with
  | stat rest => exact rest

theorem Ends.of_write {bytes : Bytes} {mode : Nat} {next : Except Fault Unit → Script α}
    (ends : territory.Ends replies contents (.write path bytes mode next) after value) :
    territory.Ends replies (changing contents (territory.write contents bytes mode)).1
      (next (changing contents (territory.write contents bytes mode)).2) after value := by
  cases ends with
  | write rest => exact rest

theorem Ends.of_rename {next : Except Fault Unit → Script α}
    (ends : territory.Ends replies contents (.rename source target next) after value) :
    territory.Ends replies (changing contents (territory.rename contents)).1
      (next (changing contents (territory.rename contents)).2) after value := by
  cases ends with
  | rename rest => exact rest

theorem Ends.of_remove {next : Except Fault Unit → Script α}
    (ends : territory.Ends replies contents (.remove path next) after value) :
    territory.Ends replies (changing contents (territory.remove contents)).1
      (next (changing contents (territory.remove contents)).2) after value := by
  cases ends with
  | remove rest => exact rest

theorem Ends.of_announce {text revised : Text} {next : Except Fault Unit → Script α}
    (ends : territory.Ends replies contents (.announce path text revised next) after value) :
    ∃ reply, territory.Ends replies contents (next reply) after value := by
  cases ends with
  | announce given rest => exact ⟨_, rest⟩

theorem read_ok {bytes : Bytes} (read : territory.read contents = .ok bytes) :
    bytes = contents.file.1 ∧ territory.path.isLong = false := by
  have answer := naming_eq_ok read
  cases long : territory.path.isLong with
  | true =>
    rw [long] at answer
    cases answer
  | false =>
    rw [long] at answer
    exact ⟨(Except.ok.inj answer).symm, rfl⟩

/-- A file that has been read once can be read, whatever it holds. -/
theorem read_again {bytes : Bytes} (read : territory.read contents = .ok bytes) (other : Contents) :
    territory.read other = .ok other.file.1 := by
  have short := (read_ok read).2
  rw [Territory.read, Workspace.naming] at read ⊢
  split at read
  · cases read
  next named => rw [if_neg named, short, if_neg Bool.false_ne_true, Except.mapError]

theorem stat_ok {mode : Nat} (stat : territory.stat contents = .ok mode) : mode = 0o100000 + contents.file.2 := by
  rw [Territory.stat] at stat
  cases named : Workspace.naming "stat" territory.path.toText (if territory.path.isLong then .error .nameTooLong
      else .ok (Node.file contents.file.1 contents.file.2)) with
  | error error =>
    rw [named] at stat
    cases stat
  | ok node =>
    rw [named] at stat
    have answer := naming_eq_ok named
    split at answer
    · cases answer
    · obtain rfl := Except.ok.inj answer
      exact (Except.ok.inj stat).symm

theorem write_ok {bytes : Bytes} {mode : Nat} {changed : Contents} (clean : contents.sibling = none)
    (write : territory.write contents bytes mode = .ok changed) :
    changed = ⟨contents.file, some (bytes, Workspace.maskedMode mode)⟩ ∧ territory.temporary.isLong = false := by
  have answer := naming_eq_ok write
  rw [clean] at answer
  cases long : territory.temporary.isLong with
  | true =>
    rw [long] at answer
    cases answer
  | false =>
    rw [long] at answer
    exact ⟨(Except.ok.inj answer).symm, rfl⟩

theorem remove_eq {bytes : Bytes} {mode : Nat} {changed : Contents}
    (write : territory.write contents bytes mode = .ok changed) (other : Contents) :
    territory.remove other = .ok { other with sibling := none } := by
  rw [Territory.write, Workspace.naming] at write
  rw [Territory.remove, Workspace.naming]
  split at write
  · cases write
  next named =>
    rw [if_neg named]
    cases long : territory.temporary.isLong with
    | true =>
      rw [long] at write
      cases write
    | false => rfl

theorem rename_eq {kept : Bytes × Nat} (given : contents.sibling = some kept)
    (short : territory.temporary.isLong = false) (shortToo : territory.path.isLong = false) :
    territory.rename contents = .ok ⟨kept, none⟩ := by
  simp [Territory.rename, given, short, shortToo]

end Calls

section Files

variable {token encoding text : Text} {options : FileOptions} {refusals : Refusals}

/-- Revising a file takes seven calls at most, on the file and on its sibling. -/
theorem confined_revise (beside : temporaryPath token territory.path.toText = territory.temporary.toText)
    (refusals : Refusals) : territory.Confined 7 ((revise options token territory.path.toText).under refusals 0) :=
  .of_orderly (beside ▸ orderly_revise.under refusals 0)

/-- What the replacement of a file comes to: it has failed and all is as it was, or the file has the encoded text and its
old mode, less the mask, or it is as it was and a sibling is left. -/
inductive Replaced (territory : Territory before) (refusals : Refusals) (encoding text : Text) (contents : Contents) :
    Contents → Except Failure Unit → Prop where
  | failed (failure : Failure) : Replaced territory refusals encoding text contents contents (.error failure)
  | written {encoded : Bytes} (encodes : encodeNamed encoding text = .ok encoded) :
      Replaced territory refusals encoding text contents
        ⟨(encoded, Workspace.maskedMode (0o100000 + contents.file.2)), none⟩ (.ok ())
  | stranded {encoded left : Bytes} {error : FileError} (encodes : encodeNamed encoding text = .ok encoded)
      (short : territory.temporary.isLong = false) (strands : refusals.Strands encoded left error) :
      Replaced territory refusals encoding text contents
        ⟨contents.file, some (left, Workspace.maskedMode (0o100000 + contents.file.2))⟩ (.error (.file error))

/-- A sibling that has been written takes the place of its file. Where that is refused it is removed, if that is not
refused as well. -/
theorem Ends.of_moveOver {bytes encoded : Bytes} {middle : Contents} {result : Except Failure Unit}
    (clean : contents.sibling = none) (encodes : encodeNamed encoding text = .ok encoded)
    (read : territory.read contents = .ok bytes) (written : refusals.writing = none)
    (write : territory.write contents encoded (0o100000 + contents.file.2) = .ok middle)
    (ends : territory.Ends replies middle
      ((moveOver territory.temporary.toText territory.path.toText).under refusals 4) after result) :
    territory.Replaced refusals encoding text contents after result := by
  obtain ⟨rfl, short⟩ := write_ok clean write
  rw [moveOver, Script.under] at ends
  split at ends
  next move moves =>
    rw [Script.under] at ends
    split at ends
    next clear clears =>
      obtain ⟨rfl, rfl⟩ := Ends.of_done ends
      exact .stranded encodes short (.unmoved written moves clears)
    next uncleared =>
      have removed := Ends.of_remove ends
      rw [remove_eq write] at removed
      obtain ⟨rfl, rfl⟩ := Ends.of_done removed
      rw [← clean]
      exact .failed _
  next unmoved =>
    have moved := Ends.of_rename ends
    rw [rename_eq rfl short (read_ok read).2] at moved
    obtain ⟨rfl, rfl⟩ := Ends.of_done moved
    exact .written encodes

theorem Ends.of_replace {bytes : Bytes} {original : Text} {result : Except Failure Unit} (clean : contents.sibling = none)
    (beside : temporaryPath token territory.path.toText = territory.temporary.toText)
    (ends : territory.Ends replies contents
      ((replace token ⟨territory.path.toText, bytes, original⟩ text encoding).under refusals 1) after result) :
    territory.Replaced refusals encoding text contents after result := by
  rw [replace, beside] at ends
  split at ends
  next error _ =>
    obtain ⟨rfl, rfl⟩ := Ends.of_done ends
    exact .failed _
  next encoded encodes =>
    have encodes := (encodeLosslessly_eq_ok_iff.mp encodes).1
    rw [Script.under] at ends
    split at ends
    next =>
      obtain ⟨rfl, rfl⟩ := Ends.of_done ends
      exact .failed _
    next =>
      have onward := Ends.of_read ends
      cases read : territory.read contents with
      | error error =>
        rw [read] at onward
        obtain ⟨rfl, rfl⟩ := Ends.of_done onward
        exact .failed _
      | ok current =>
        rw [read] at onward
        simp only [Except.mapError, Script.under] at onward
        split at onward
        next =>
          obtain ⟨rfl, rfl⟩ := Ends.of_done onward
          exact .failed _
        next =>
          have checked := Ends.of_stat onward
          cases stat : territory.stat contents with
          | error error =>
            rw [stat] at checked
            obtain ⟨rfl, rfl⟩ := Ends.of_done checked
            exact .failed _
          | ok mode =>
            obtain rfl := stat_ok stat
            rw [stat] at checked
            simp only [Except.mapError] at checked
            split at checked
            next =>
              rw [Script.under] at checked
              split at checked
              next error begun broke =>
                have written := Ends.of_write checked
                cases write : territory.write contents (encoded.take begun) (0o100000 + contents.file.2) with
                | error error =>
                  rw [write] at written
                  obtain ⟨rfl, rfl⟩ := Ends.of_done written
                  exact .failed _
                | ok changed =>
                  obtain ⟨rfl, short⟩ := write_ok clean write
                  rw [write] at written
                  obtain ⟨rfl, rfl⟩ := Ends.of_done written
                  exact .stranded encodes short (.broken broke)
              next =>
                obtain ⟨rfl, rfl⟩ := Ends.of_done checked
                exact .failed _
              next unrefused =>
                have written := Ends.of_write checked
                cases write : territory.write contents encoded (0o100000 + contents.file.2) with
                | error error =>
                  rw [write] at written
                  obtain ⟨rfl, rfl⟩ := Ends.of_done written
                  exact .failed _
                | ok changed =>
                  rw [write] at written
                  exact Ends.of_moveOver clean encodes read unrefused write written
            next =>
              obtain ⟨rfl, rfl⟩ := Ends.of_done checked
              exact .failed _

/-- How the revision of a file can end, when no sibling is there before. -/
inductive Revised (territory : Territory before) (options : FileOptions) (contents : Contents) :
    Contents → FileOutcome → Prop where
  /-- No rule and no phrase applied. -/
  | unmatched : Revised territory options contents contents .unmatched
  | failed (phase : Phase) (failure : Failure) :
      Revised territory options contents contents (options.failed territory.path.toText phase failure)
  /-- The plan matched and left the text as it is, or nothing is to be written. -/
  | kept {text : Text} (read : territory.read contents = .ok contents.file.1)
      (decoded : decodeLosslessly contents.file.1 options.encoding territory.path.toText = .ok text)
      (same : ((options.plan.revise text).changed && !options.preview) = false) :
      Revised territory options contents contents
        (options.matched ⟨territory.path.toText, contents.file.1, text⟩ (options.plan.revise text))
  /-- The file has been replaced. -/
  | written {text : Text} {bytes : Bytes} (read : territory.read contents = .ok contents.file.1)
      (decoded : decodeLosslessly contents.file.1 options.encoding territory.path.toText = .ok text)
      (changed : (options.plan.revise text).changed = true) (real : options.preview = false)
      (encoded : encodeNamed options.encoding (options.plan.revise text).text = .ok bytes) :
      Revised territory options contents ⟨(bytes, Workspace.maskedMode (0o100000 + contents.file.2)), none⟩
        (options.matched ⟨territory.path.toText, contents.file.1, text⟩ (options.plan.revise text))

/-- How the revision of a file can end when some calls are refused. -/
inductive RevisedUnder (territory : Territory before) (refusals : Refusals) (options : FileOptions) (contents : Contents) :
    Contents → FileOutcome → Prop where
  | clean {after : Contents} {outcome : FileOutcome} (revised : Revised territory options contents after outcome) :
      RevisedUnder territory refusals options contents after outcome
  | stranded {text : Text} {encoded left : Bytes} {error : FileError}
      (read : territory.read contents = .ok contents.file.1)
      (decoded : decodeLosslessly contents.file.1 options.encoding territory.path.toText = .ok text)
      (encodes : encodeNamed options.encoding (options.plan.revise text).text = .ok encoded)
      (short : territory.temporary.isLong = false) (strands : refusals.Strands encoded left error) :
      RevisedUnder territory refusals options contents
        ⟨contents.file, some (left, Workspace.maskedMode (0o100000 + contents.file.2))⟩
        (options.failed territory.path.toText .write (.file error))

theorem Ends.of_writeRevision {bytes : Bytes} {revision : Revision} {outcome : FileOutcome}
    (clean : contents.sibling = none)
    (beside : temporaryPath token territory.path.toText = territory.temporary.toText)
    (ends : territory.Ends replies contents
      ((writeRevision options token ⟨territory.path.toText, bytes, text⟩ revision).under refusals 1) after outcome) :
    ∃ result, territory.Replaced refusals options.encoding revision.text contents after result ∧
      outcome = match result with
        | .error failure => options.failed territory.path.toText .write failure
        | .ok () => options.matched ⟨territory.path.toText, bytes, text⟩ revision := by
  obtain ⟨reply, onward⟩ := Ends.of_announce ends
  cases reply with
  | error fault =>
    obtain ⟨rfl, rfl⟩ := Ends.of_done onward
    exact ⟨.error fault.toFailure, .failed _, rfl⟩
  | ok =>
    change territory.Ends replies contents
      (((replace token ⟨territory.path.toText, bytes, text⟩ revision.text options.encoding).bind _).under refusals 1)
      after outcome at onward
    rw [Script.under_bind fun result => by cases result <;> exact ⟨_, rfl⟩] at onward
    obtain ⟨middle, result, replaced, rest⟩ := Ends.split onward
    have replaced := replaced.of_replace clean beside
    cases result <;> obtain ⟨rfl, rfl⟩ := Ends.of_done rest <;> exact ⟨_, replaced, rfl⟩

/-- Revising a file ends in one of these ways, whatever the caller replies and whatever is refused. -/
theorem Ends.of_revise {outcome : FileOutcome} (clean : contents.sibling = none)
    (beside : temporaryPath token territory.path.toText = territory.temporary.toText)
    (ends : territory.Ends replies contents ((revise options token territory.path.toText).under refusals 0) after
      outcome) :
    territory.RevisedUnder refusals options contents after outcome := by
  simp only [revise, Corpus.read, bind, Script.bind] at ends
  rw [Script.under] at ends
  split at ends
  next =>
    obtain ⟨rfl, rfl⟩ := Ends.of_done ends
    exact .clean (.failed .read _)
  next =>
    have onward := ends.of_read
    cases read : territory.read contents with
    | error error =>
      rw [read] at onward
      obtain ⟨rfl, rfl⟩ := Ends.of_done onward
      exact .clean (.failed .read _)
    | ok bytes =>
      rw [read] at onward
      obtain rfl := (read_ok read).1
      simp only [Except.mapError] at onward
      split at onward
      next failure _ =>
        obtain ⟨rfl, rfl⟩ := Ends.of_done onward
        exact .clean (.failed .read failure)
      next file decoded =>
        obtain ⟨path, bytes, _⟩ := file
        obtain ⟨rfl, rfl, text⟩ := decodeFile_ok decoded
        split at onward
        next =>
          obtain ⟨rfl, rfl⟩ := Ends.of_done onward
          exact .clean .unmatched
        next =>
          split at onward
          next real =>
            rw [Bool.and_eq_true, Bool.not_eq_true'] at real
            obtain ⟨result, replaced, rfl⟩ := onward.of_writeRevision clean beside
            cases replaced with
            | failed failure => exact .clean (.failed .write failure)
            | written encodes => exact .clean (.written read text real.1 real.2 encodes)
            | stranded encodes short strands => exact .stranded read text encodes short strands
          next kept =>
            obtain ⟨rfl, rfl⟩ := Ends.of_done onward
            exact .clean (.kept read text (Bool.eq_false_iff.mpr kept))

end Files

end Territory

end Emend
