import Emend.Proofs.FreePlaces
import Emend.Proofs.LosslessCoding
import Emend.Proofs.ReplacementReplies

/-! The replacement of a file when some of its calls fail. Whichever they are, the file is as it was or has all of its
new bytes, and the failure that is returned is the one that kept it as it was. What may stay behind is the sibling,
when not all of it could be written. -/

namespace Emend

open Text

namespace Reply

/-- The paths at which a call may have changed something. A write that has failed may have written a part. -/
def changes : Reply → List Text
  | read .. | stat .. | announce .. | rename _ _ (.error _) => []
  | write path .. | remove path _ => [path]
  | rename source target (.ok ()) => [source, target]

def isRename : Reply → Bool
  | rename .. => true
  | _ => false

/-- A call that changes nothing but what stands at one path, and moves nothing away from there. -/
def Beside (path : Text) : Reply → Prop
  | write other .. | remove other _ => other = path
  | rename _ _ (.ok ()) => False
  | _ => True

theorem Beside.changes {path other : Text} {reply : Reply} (beside : reply.Beside path)
    (member : other ∈ reply.changes) : other = path := by
  cases reply with
  | read | stat | announce => cases member
  | write path bytes mode answer => exact (List.mem_singleton.mp member).trans beside
  | remove path answer => exact (List.mem_singleton.mp member).trans beside
  | rename source target answer =>
    cases answer with
    | error fault => cases member
    | ok => exact beside.elim

end Reply

namespace Workspace

variable {space now after : Workspace} {path : Text}

theorem Spared.answers (free : space.Free path) (spared : space.Spared path now) {reply : Reply}
    (beside : reply.Beside path) (answers : now.MayAnswer reply after) : space.Spared path after := by
  cases answers with
  | read | stat | announce | failed => exact spared
  | write written =>
    obtain rfl : _ = path := beside
    exact spared.writeFile free written
  | inPart _ written =>
    obtain rfl : _ = path := beside
    exact spared.writeFile free written
  | remove removed =>
    obtain rfl : _ = path := beside
    exact spared.remove free removed
  | rename => exact beside.elim

/-- Calls that keep to a free path spare everything else. -/
theorem Spared.proceeds (free : space.Free path) (spared : space.Spared path now) {history : List Exchange}
    (beside : ∀ exchange ∈ history, exchange.reply.Beside path) (proceeds : Proceeds Eq now history after) :
    space.Spared path after := by
  induction proceeds with
  | done meanwhile => exact meanwhile ▸ spared
  | call meanwhile answers _ ih =>
    subst meanwhile
    exact ih (spared.answers free (beside _ List.mem_cons_self) answers) fun exchange among =>
      beside exchange (List.mem_cons_of_mem _ among)

end Workspace

namespace Corpus

/-- What the replacement of a file keeps to, whatever its calls are answered. -/
structure Guarded (token : Text) (file : File) (text encoding : Text) (replies : List Reply)
    (result : Except Failure Unit) : Prop where
  once : (replies.filter Reply.isRename).length ≤ 1
  /-- What is moved over the file is its sibling with the encoded text, after the file was found to have the bytes with
  which it was read. -/
  checked : ∀ {source target answer}, .rename source target answer ∈ replies →
    source = temporaryPath token file.path ∧ target = file.path ∧
      ∃ bytes mode later, encodeNamed encoding text = .ok bytes ∧ decodeNamed encoding bytes = .ok text ∧
        replies = .read file.path (.ok file.bytes) :: .stat file.path (.ok mode) :: .write source bytes mode (.ok ()) ::
          .rename source target answer :: later
  spared : ∀ {failure}, result = .error failure → ∀ reply ∈ replies, file.path ∉ reply.changes
  reported : ∀ {source target fault}, .rename source target (.error fault) ∈ replies → result = .error fault.toFailure
  /-- Where no call fails and the file has its bytes, a text that can be encoded is written. -/
  completed : ∀ {bytes}, encodeNamed encoding text = .ok bytes → decodeNamed encoding bytes = .ok text →
    (∀ reply ∈ replies, reply.fault? = none) →
    (∀ path current, .read path (.ok current) ∈ replies → current = file.bytes) →
    result = .ok () ∧ .rename (temporaryPath token file.path) file.path (.ok ()) ∈ replies

section

variable {token text encoding : Text} {file : File} {replies : List Reply} {result : Except Failure Unit}

theorem Replacing.once (replacing : Replacing token file text encoding replies result) :
    (replies.filter Reply.isRename).length ≤ 1 := by
  cases replacing with
  | unencodable | unread | unknown | stale | unwritten => exact Nat.zero_le 1
  | moved | unmoved => exact Nat.le_refl 1

theorem Replacing.checked (replacing : Replacing token file text encoding replies result) {source target : Text}
    {answer : Except Fault Unit} (member : .rename source target answer ∈ replies) :
    source = temporaryPath token file.path ∧ target = file.path ∧
      ∃ bytes mode later, encodeNamed encoding text = .ok bytes ∧ decodeNamed encoding bytes = .ok text ∧
        replies = .read file.path (.ok file.bytes) :: .stat file.path (.ok mode) :: .write source bytes mode (.ok ()) ::
          .rename source target answer :: later := by
  cases replacing with
  | unencodable | unread | unknown | stale | unwritten => simp at member
  | @moved bytes encoded mode =>
    obtain ⟨rfl, rfl, rfl⟩ : source = temporaryPath token file.path ∧ target = file.path ∧ answer = .ok () := by
      simpa using member
    obtain ⟨encodes, decodes⟩ := encodeLosslessly_eq_ok_iff.mp encoded
    exact ⟨rfl, rfl, bytes, mode, [], encodes, decodes, rfl⟩
  | @unmoved bytes encoded mode fault removed =>
    obtain ⟨rfl, rfl, rfl⟩ : source = temporaryPath token file.path ∧ target = file.path ∧ answer = .error fault := by
      simpa using member
    obtain ⟨encodes, decodes⟩ := encodeLosslessly_eq_ok_iff.mp encoded
    exact ⟨rfl, rfl, bytes, mode, [.remove (temporaryPath token file.path) removed], encodes, decodes, rfl⟩

theorem Replacing.beside {failure : Failure} (replacing : Replacing token file text encoding replies (.error failure)) :
    ∀ reply ∈ replies, reply.Beside (temporaryPath token file.path) := by
  cases replacing <;> simp [Reply.Beside]

theorem Replacing.reported (replacing : Replacing token file text encoding replies result) {source target : Text}
    {fault : Fault} (member : .rename source target (.error fault) ∈ replies) : result = .error fault.toFailure := by
  cases replacing with
  | unencodable | unread | unknown | stale | unwritten | moved => simp at member
  | unmoved encoded mode other removed =>
    obtain ⟨_, _, rfl⟩ : source = temporaryPath token file.path ∧ target = file.path ∧ fault = other := by
      simpa using member
    rfl

theorem Replacing.completed (replacing : Replacing token file text encoding replies result) {bytes : Bytes}
    (encoded : encodeNamed encoding text = .ok bytes) (decoded : decodeNamed encoding bytes = .ok text)
    (faultless : ∀ reply ∈ replies, reply.fault? = none)
    (same : ∀ path current, .read path (.ok current) ∈ replies → current = file.bytes) :
    result = .ok () ∧ .rename (temporaryPath token file.path) file.path (.ok ()) ∈ replies := by
  cases replacing with
  | unencodable refused => cases refused.symm.trans (encodeLosslessly_eq_ok_iff.mpr ⟨encoded, decoded⟩)
  | unread _ fault => cases faultless _ (.head _)
  | unknown _ current fault => cases faultless _ (.tail _ (.head _))
  | stale _ other mode => exact absurd (same _ _ (.head _)) other
  | unwritten _ mode fault => cases faultless _ (.tail _ (.tail _ (.head _)))
  | unmoved _ mode fault removed => cases faultless _ (.tail _ (.tail _ (.tail _ (.head _))))
  | moved _ mode => exact ⟨rfl, .tail _ (.tail _ (.tail _ (.head _)))⟩

theorem Replacing.guarded (plain : isToken token = true)
    (replacing : Replacing token file text encoding replies result) :
    Guarded token file text encoding replies result where
  once := replacing.once
  checked := replacing.checked
  spared failed reply among member := by
    subst failed
    exact temporaryPath_ne plain file.path ((replacing.beside reply among).changes member).symm
  reported := replacing.reported
  completed := replacing.completed

end

/-- Whatever fails, a file is replaced at most once, as a whole and only after it was found to have its old bytes; and
a replacement that fails changes nothing at its path, nor anything that stood anywhere, as long as nothing stood at
the path of the sibling. -/
theorem replace_guarded {token : Text} (plain : isToken token = true) (file : File) (text encoding : Text) :
    (∀ replies result, (replace token file text encoding).Comes replies result →
      Guarded token file text encoding replies result) ∧
    ∀ space history after failure, Workspace.Free space (temporaryPath token file.path) →
      (replace token file text encoding).Runs Eq space history after (.error failure) →
      ∀ place node, space.tree.get? place = some node → after.tree.get? place = some node := by
  refine ⟨fun replies result comes => (replacing_of_comes comes).guarded plain, ?_⟩
  intro space history after failure free runs place node there
  have beside : ∀ exchange ∈ history, exchange.reply.Beside (temporaryPath token file.path) := fun exchange among =>
    (replacing_of_comes runs.comes).beside exchange.reply (List.mem_map_of_mem among)
  exact (Workspace.Spared.same.proceeds free beside runs.proceeds).standing there

private def soleSpace : Workspace :=
  ⟨⟨[(.ofText (units "/d"), .directory), (.ofText (units "/d/a.ts"), .file [0x78] 0o644)]⟩, .root⟩

private def soleFile : File := ⟨units "/d/a.ts", [0x78], units "x"⟩

private def soleToken : Text := units "12-0a1f"

private def fullDisk : Fault := .raised (units "disk full")

private theorem soleSpace_free : soleSpace.Free (temporaryPath soleToken soleFile.path) := by
  have absent : soleSpace.tree.lookup soleSpace.directory false (temporaryPath soleToken soleFile.path) =
      .error .noEntry := by decide +kernel
  exact Workspace.free_of_lookup .noEntry absent

/-- Neither can the sibling be moved, nor can it be removed then. -/
theorem replace_guarded_unmoved : isToken soleToken = true ∧
    soleSpace.Free (temporaryPath soleToken soleFile.path) ∧
    ∃ history after, (replace soleToken soleFile (units "y") (units "utf8")).Runs Eq soleSpace history after
        (.error fullDisk.toFailure) ∧
      history.map Exchange.reply = [.read (units "/d/a.ts") (.ok [0x78]), .stat (units "/d/a.ts") (.ok 0o100644),
        .write (units "/d/.a.ts.rulecast-12-0a1f.tmp") [0x79] 0o100644 (.ok ()),
        .rename (units "/d/.a.ts.rulecast-12-0a1f.tmp") (units "/d/a.ts") (.error fullDisk),
        .remove (units "/d/.a.ts.rulecast-12-0a1f.tmp") (.error (.raised (units "busy")))] ∧
      Guarded soleToken soleFile (units "y") (units "utf8") (history.map Exchange.reply) (.error fullDisk.toFailure) ∧
      after.tree.get? (.ofText (units "/d/a.ts")) = some (.file [0x78] 0o644) := by
  have plain : isToken soleToken = true := by decide
  have sibling : temporaryPath soleToken soleFile.path = units "/d/.a.ts.rulecast-12-0a1f.tmp" := by decide +kernel
  have encoded : encodeLosslessly (units "y") (units "utf8") soleFile.path = .ok [0x79] := by decide +kernel
  cases written : soleSpace.writeFile (temporaryPath soleToken soleFile.path) [0x79] 0o100644 with
  | error error =>
    have possible : (soleSpace.writeFile (temporaryPath soleToken soleFile.path) [0x79] 0o100644).isOk = true := by
      decide +kernel
    rw [written] at possible
    cases possible
  | ok after =>
    have proceeds : Workspace.Proceeds Eq soleSpace
        [⟨soleSpace, .read soleFile.path (.ok [0x78]), soleSpace⟩,
          ⟨soleSpace, .stat soleFile.path (.ok 0o100644), soleSpace⟩,
          ⟨soleSpace, .write (temporaryPath soleToken soleFile.path) [0x79] 0o100644 (.ok ()), after⟩,
          ⟨after, .rename (temporaryPath soleToken soleFile.path) soleFile.path (.error fullDisk), after⟩,
          ⟨after, .remove (temporaryPath soleToken soleFile.path) (.error (.raised (units "busy"))), after⟩] after :=
      .call rfl (.read (by decide +kernel)) (.call rfl (.stat (by decide +kernel)) (.call rfl (.write written)
        (.call rfl (.failed rfl) (.call rfl (.failed rfl) (.done rfl)))))
    have runs := Script.Runs.mk (comes_of_replacing (.unmoved encoded 0o100644 fullDisk (.error (.raised (units "busy")))))
      proceeds
    obtain ⟨guarded, spared⟩ := replace_guarded plain soleFile (units "y") (units "utf8")
    refine ⟨plain, soleSpace_free, _, after, runs, ?_, guarded _ _ runs.comes, ?_⟩
    · rw [sibling]
      rfl
    · exact spared _ _ _ _ soleSpace_free runs _ _ (by decide +kernel)

/-- A replacement that comes to nothing after its sibling was to be written removes the sibling if and only if that
had been written: after a write that fails, what has been written of it stays. -/
theorem replace_leftover {token text encoding : Text} {file : File} {replies : List Reply} {failure : Failure}
    (comes : (replace token file text encoding).Comes replies (.error failure)) {path : Text} {bytes : Bytes} {mode : Nat}
    {answer : Except Fault Unit} (written : .write path bytes mode answer ∈ replies) :
    path = temporaryPath token file.path ∧ ((∃ removed, .remove path removed ∈ replies) ↔ answer = .ok ()) := by
  cases replacing_of_comes comes with
  | unencodable | unread | unknown | stale => simp at written
  | unwritten encoded own fault =>
    obtain ⟨rfl, rfl, rfl, rfl⟩ : path = temporaryPath token file.path ∧ bytes = _ ∧ mode = own ∧ answer = .error fault := by
      simpa using written
    simp
  | unmoved encoded own fault removed =>
    obtain ⟨rfl, rfl, rfl, rfl⟩ : path = temporaryPath token file.path ∧ bytes = _ ∧ mode = own ∧ answer = .ok () := by
      simpa using written
    simp

/-- The sibling cannot be moved, so it is removed. -/
theorem replace_leftover_removed : ∃ replies,
    (replace soleToken soleFile (units "y") (units "utf8")).Comes replies (.error fullDisk.toFailure) ∧
      .write (temporaryPath soleToken soleFile.path) [0x79] 0o100644 (.ok ()) ∈ replies ∧
      ∃ removed, .remove (temporaryPath soleToken soleFile.path) removed ∈ replies := by
  have encoded : encodeLosslessly (units "y") (units "utf8") soleFile.path = .ok [0x79] := by decide +kernel
  obtain ⟨replies, comes, written⟩ : ∃ replies,
      (replace soleToken soleFile (units "y") (units "utf8")).Comes replies (.error fullDisk.toFailure) ∧
        .write (temporaryPath soleToken soleFile.path) [0x79] 0o100644 (.ok ()) ∈ replies :=
    ⟨_, comes_of_replacing (.unmoved encoded 0o100644 fullDisk (.ok ())), by simp⟩
  exact ⟨replies, comes, written, (replace_leftover comes written).2.mpr rfl⟩

/-- With a full disk the sibling is written in part at most, and nobody removes it. -/
theorem replace_abandons : ¬ ∀ (token : Text) (file : File) (text encoding : Text) (answers : Answers)
    (failure : Failure) (path : Text) (bytes : Bytes) (mode : Nat),
    ((replace token file text encoding).events answers).2 = .error failure →
      .write path bytes mode ∈ ((replace token file text encoding).events answers).1 →
      .remove path ∈ ((replace token file text encoding).events answers).1 := by
  intro every
  let answers : Answers := ⟨[0x78], 0o100644, fun kind => if kind = .write then some fullDisk else none⟩
  have events : (replace soleToken soleFile (units "y") (units "utf8")).events answers =
      ([.read soleFile.path, .stat soleFile.path, .write (temporaryPath soleToken soleFile.path) [0x79] 0o100644],
        .error fullDisk.toFailure) := by decide +kernel
  have removed := every soleToken soleFile (units "y") (units "utf8") answers fullDisk.toFailure
    (temporaryPath soleToken soleFile.path) [0x79] 0o100644
  rw [events] at removed
  simp at removed

end Corpus

end Emend
