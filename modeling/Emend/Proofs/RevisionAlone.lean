import Emend.Proofs.FreePlaces
import Emend.Proofs.RunOrder
import Emend.Proofs.RunPreview

/-! One file that is revised while nothing else goes on. What becomes of it can be told beforehand: it is replaced as
its revision says, unless the caller refuses, or the encoding cannot hold the text, or the path of the sibling is too
long, or the system refuses one of the calls by which it is replaced. No other call fails once the file has been
read. -/

namespace Emend

open Text FileError

theorem Script.run_bind {α β : Type} (hook : Hook) (scene : Scene) (script : Script α) (next : α → Script β) :
    (script.bind next).run hook scene =
      (next (script.run hook scene).2).run hook (script.run hook scene).1 := by
  induction script generalizing scene with
  | done value => rfl
  | read path answer ih => exact ih _ scene
  | stat path answer ih => exact ih _ scene
  | write path bytes mode answer ih => exact ih _ _
  | rename source target answer ih => exact ih _ _
  | remove path answer ih => exact ih _ _
  | announce path text revised answer ih => exact ih _ _

/-- A file to which a path leads, the entry that the path names, which is that file or a link to it, and the free place
beside that entry through which it is replaced. -/
structure Seat (space : Workspace) (token : Text) (shown : Path) where
  entry : Path
  node : Node
  target : Path
  file : Bytes × Nat
  temporary : Path
  sibling : Path
  site : Site space.tree shown entry
  there : space.tree.get? entry = some node
  firm : node ≠ .directory
  leads : space.tree.find space.directory true shown.toText =
    if shown.isLong then .error .nameTooLong else .ok (.node target (.file file.1 file.2))
  beside : Site space.tree temporary sibling
  named : Corpus.temporaryPath token shown.toText = temporary.toText
  free : space.tree.get? sibling = none
  plain : shown.toText.contains 0 = false → temporary.toText.contains 0 = false

namespace Seat

variable {space : Workspace} {token : Text} {shown : Path} (seat : Seat space token shown)

theorem apart : seat.sibling ≠ seat.entry := by
  intro same
  have there := seat.there
  rw [← same, seat.free] at there
  cases there

def replaced (bytes : Bytes) (mode : Nat) : Workspace :=
  { space with tree :=
      ((space.tree.put seat.sibling (.file bytes mode)).erase seat.sibling).put seat.entry (.file bytes mode) }

theorem get?_replaced (bytes : Bytes) (mode : Nat) (path : Path) :
    (seat.replaced bytes mode).tree.get? path =
      if path = seat.entry then some (.file bytes mode) else space.tree.get? path := by
  rw [replaced, Tree.get?_put _ seat.site.place_ne_root, Tree.get?_erase _ seat.beside.place_ne_root]
  split
  · rfl
  · split
    next same => rw [same, seat.free]
    next other => rw [Tree.get?_put_of_ne _ other]

section Calls

variable {bytes : Bytes} (read : space.readFile shown.toText = .ok bytes)

include seat read

theorem of_read : shown.toText.contains 0 = false ∧ shown.isLong = false ∧ bytes = seat.file.1 ∧
    space.mode shown.toText = .ok (0o100000 + seat.file.2) := by
  obtain ⟨plain, place, node, looked, _⟩ := Workspace.readFile_found read
  have reach := Corpus.find_of_lookup looked
  rw [seat.leads] at reach
  split at reach
  · cases reach
  next short =>
    obtain ⟨rfl, rfl⟩ := Tree.Found.node.inj (Except.ok.inj reach)
    refine ⟨plain, Bool.eq_false_iff.mpr short, ?_, Workspace.mode_of_lookup plain looked⟩
    rw [Workspace.readFile, looked, Workspace.naming, if_neg (Bool.eq_false_iff.mp plain)] at read
    exact (Except.ok.inj read).symm

theorem writeFile_eq (written : Bytes) (mode : Nat) :
    space.writeFile seat.temporary.toText written mode =
      if seat.temporary.isLong then .error (.failed .nameTooLong "open" (some seat.temporary.toText))
      else .ok { space with tree := space.tree.put seat.sibling (.file written (Workspace.maskedMode mode)) } := by
  have plain := seat.plain (seat.of_read read).1
  have unlinked : true = true → ∀ target, space.tree.get? seat.sibling ≠ some (.link target) := by
    intro _ target link
    cases seat.free.symm.trans link
  rw [Workspace.writeFile, Workspace.naming, if_neg (Bool.eq_false_iff.mp plain),
    seat.beside.find (.refl space.tree) space.directory true unlinked, Tree.endAt, seat.free]
  cases seat.temporary.isLong <;> rfl

theorem rename_eq (short : seat.temporary.isLong = false) (written : Bytes) (mode : Nat) :
    Workspace.rename { space with tree := space.tree.put seat.sibling (.file written mode) } seat.temporary.toText
      shown.toText = .ok (seat.replaced written mode) := by
  have keeps := Tree.keeps_put seat.free (.file written mode)
  have put : (space.tree.put seat.sibling (.file written mode)).get? seat.sibling = some (.file written mode) := by
    rw [Tree.get?_put _ seat.beside.place_ne_root, if_pos rfl]
  have still : (space.tree.put seat.sibling (.file written mode)).get? seat.entry = some seat.node := by
    rw [Tree.get?_put_of_ne _ seat.apart.symm, seat.there]
  rw [Workspace.rename, Tree.lookup,
    seat.beside.find keeps _ false (fun follow => by cases follow), short,
    seat.site.find keeps _ false (fun follow => by cases follow), (seat.of_read read).2.1,
    Tree.endAt, Tree.endAt, put, still]
  have firm := seat.firm
  cases node : seat.node with
  | directory => exact absurd node firm
  | file | link | pipe => rfl

theorem remove_eq (short : seat.temporary.isLong = false) (written : Bytes) (mode : Nat) :
    Workspace.remove { space with tree := space.tree.put seat.sibling (.file written mode) } seat.temporary.toText =
      .ok { space with tree := (space.tree.put seat.sibling (.file written mode)).erase seat.sibling } := by
  have keeps := Tree.keeps_put seat.free (.file written mode)
  have put : (space.tree.put seat.sibling (.file written mode)).get? seat.sibling = some (.file written mode) := by
    rw [Tree.get?_put _ seat.beside.place_ne_root, if_pos rfl]
  have plain := seat.plain (seat.of_read read).1
  rw [Workspace.remove, seat.beside.find keeps _ false (fun follow => by cases follow), short, Tree.endAt, put,
    Workspace.naming, if_neg (Bool.eq_false_iff.mp plain)]
  rfl

end Calls

/-- What a revision has left in the entry and in the place beside it. All else is as it was. -/
structure Leaves (written left : Option Bytes) (after : Workspace) : Prop where
  directory : after.directory = space.directory
  entry : after.tree.get? seat.entry = written.elim (space.tree.get? seat.entry) fun encoded =>
    some (.file encoded (Workspace.maskedMode (0o100000 + seat.file.2)))
  sibling : after.tree.get? seat.sibling = left.map fun bytes =>
    .file bytes (Workspace.maskedMode (0o100000 + seat.file.2))
  elsewhere : ∀ path, path ≠ seat.entry → path ≠ seat.sibling → after.tree.get? path = space.tree.get? path

theorem leaves_none : seat.Leaves none none space := ⟨rfl, rfl, seat.free, fun _ _ _ => rfl⟩

theorem leaves_written (encoded : Bytes) :
    seat.Leaves (some encoded) none (seat.replaced encoded (Workspace.maskedMode (0o100000 + seat.file.2))) where
  directory := rfl
  entry := by rw [seat.get?_replaced, if_pos rfl]; rfl
  sibling := by rw [seat.get?_replaced, if_neg seat.apart, seat.free]; rfl
  elsewhere path apart _ := by rw [seat.get?_replaced, if_neg apart]

theorem leaves_stranded (bytes : Bytes) : seat.Leaves none (some bytes)
    { space with tree :=
        space.tree.put seat.sibling (.file bytes (Workspace.maskedMode (0o100000 + seat.file.2))) } where
  directory := rfl
  entry := Tree.get?_put_of_ne _ seat.apart.symm _
  sibling := by rw [Tree.get?_put _ seat.beside.place_ne_root, if_pos rfl]; rfl
  elsewhere path _ aside := Tree.get?_put_of_ne _ aside _

theorem leaves_cleared (bytes : Bytes) (mode : Nat) : seat.Leaves none none
    { space with tree := (space.tree.put seat.sibling (.file bytes mode)).erase seat.sibling } where
  directory := rfl
  entry := by
    rw [Tree.get?_erase _ seat.beside.place_ne_root, if_neg seat.apart.symm, Tree.get?_put_of_ne _ seat.apart.symm]
    rfl
  sibling := by rw [Tree.get?_erase _ seat.beside.place_ne_root, if_pos rfl]; rfl
  elsewhere path _ aside := by
    rw [Tree.get?_erase _ seat.beside.place_ne_root, if_neg aside, Tree.get?_put_of_ne _ aside]

end Seat

namespace Corpus

/-- What keeps a file from being replaced once its text has been encoded: a call that is refused, or the path of the
sibling. -/
def obstacle? (refusals : Refusals) (temporary path : Text) : Option Failure :=
  let beyond : Option Failure :=
    if (Path.ofText temporary).isLong then some (.file (.failed .nameTooLong "open" (some temporary))) else none
  if refusals.rereading.isSome || refusals.looking.isSome then some (.stale path)
  else match refusals.writing with
    | some ⟨error, none⟩ => some (.file error)
    | some ⟨error, some _⟩ => beyond.or (some (.file error))
    | none => beyond.or (refusals.moving.map fun refusal => .file refusal.error)

theorem obstacle?_eq (refusals : Refusals) (temporary path : Text) : obstacle? refusals temporary path =
    let beyond : Option Failure :=
      if (Path.ofText temporary).isLong then some (.file (.failed .nameTooLong "open" (some temporary))) else none
    if (refusals 1).isSome || (refusals 2).isSome then some (.stale path)
    else match refusals 3 with
      | some ⟨error, none⟩ => some (.file error)
      | some ⟨error, some _⟩ => beyond.or (some (.file error))
      | none => beyond.or ((refusals 4).map fun refusal => .file refusal.error) := rfl

/-- What keeps the revision of a file from being written: the caller, the encoding, the path of the sibling, or a call
that is refused. -/
def hindrance? (refusals : Refusals) (hook : Hook) (space : Workspace) (token encoding : Text) (file : File)
    (revised : Text) : Option Failure :=
  match (hook space ⟨file.path, file.text, revised⟩).2 with
  | .error fault => some fault.toFailure
  | .ok () =>
    match encodeLosslessly revised encoding file.path with
    | .error error => some (.coding error)
    | .ok _ => obstacle? refusals (temporaryPath token file.path) file.path

/-- What reading a file tells of it, what the entry of its path is replaced with, if it is, and what the run says of the
file in the end. -/
inductive Foretells (refusals : Refusals) (hook : Hook) (space : Workspace) (options : FileOptions)
    (token path : Text) : FileOutcome → Option Bytes → FileOutcome → Prop where
  /-- Nothing is to be written. -/
  | settled {outcome : FileOutcome} (unchanged : outcome.change? = none) :
      Foretells refusals hook space options token path outcome none outcome
  | hindered {bytes : Bytes} {text : Text} {failure : Failure} (read : space.readFile path = .ok bytes)
      (decoded : decodeLosslessly bytes options.encoding path = .ok text)
      (changed : (options.plan.revise text).changed = true)
      (stopped : hindrance? refusals hook space token options.encoding ⟨path, bytes, text⟩
        (options.plan.revise text).text = some failure) :
      Foretells refusals hook space options token path
        (options.matched ⟨path, bytes, text⟩ (options.plan.revise text)) none (options.failed path .write failure)
  | written {bytes encoded : Bytes} {text : Text} (read : space.readFile path = .ok bytes)
      (decoded : decodeLosslessly bytes options.encoding path = .ok text)
      (changed : (options.plan.revise text).changed = true)
      (clear : hindrance? refusals hook space token options.encoding ⟨path, bytes, text⟩
        (options.plan.revise text).text = none)
      (holds : encodeLosslessly (options.plan.revise text).text options.encoding path = .ok encoded) :
      Foretells refusals hook space options token path
        (options.matched ⟨path, bytes, text⟩ (options.plan.revise text)) (some encoded)
        (options.matched ⟨path, bytes, text⟩ (options.plan.revise text))

theorem Foretells.of_change {refusals : Refusals} {hook : Hook} {space : Workspace} {options : FileOptions}
    {token path : Text} {told outcome : FileOutcome} {written : Option Bytes}
    (foretells : Foretells refusals hook space options token path told written outcome) {report : FileReport}
    (changed : outcome.change? = some report) :
    report.file = displayPath options.directory path ∧ ∃ encoded, written = some encoded := by
  cases foretells with
  | settled unchanged =>
    rw [unchanged] at changed
    cases changed
  | hindered => cases changed
  | @written bytes encoded text => exact ⟨options.matched_shown ⟨path, bytes, text⟩ changed, encoded, rfl⟩

end Corpus

namespace Seat

variable {space : Workspace} {token : Text} {shown : Path} (seat : Seat space token shown) {refusals : Refusals}
  {hook : Hook} {options : Corpus.FileOptions}

inductive Replaces (refusals : Refusals) (encoded : Bytes) (after : Workspace) : Except Failure Unit → Prop where
  | hindered {failure : Failure} {left : Option Bytes}
      (stopped : Corpus.obstacle? refusals seat.temporary.toText shown.toText = some failure)
      (leaves : seat.Leaves none left after) (tidies : refusals.Tidy → left = none) :
      Replaces refusals encoded after (.error failure)
  | written (clear : Corpus.obstacle? refusals seat.temporary.toText shown.toText = none)
      (leaves : seat.Leaves (some encoded) none after) : Replaces refusals encoded after (.ok ())

section

variable {bytes : Bytes} (read : space.readFile shown.toText = .ok bytes)

include read

/-- Once the sibling has been written it takes the place of the entry, unless that is refused. -/
theorem run_moveOver (short : seat.temporary.isLong = false)
    (obstacle : Corpus.obstacle? refusals seat.temporary.toText shown.toText =
      refusals.moving.map fun refusal => .file refusal.error)
    {announced : List Announcement} {encoded : Bytes} {run : Scene × Except Failure Unit}
    (ran : ((Corpus.moveOver seat.temporary.toText shown.toText).under refusals 4).run hook
      ⟨{ space with tree :=
        space.tree.put seat.sibling (.file encoded (Workspace.maskedMode (0o100000 + seat.file.2))) },
        announced⟩ = run) :
    seat.Replaces refusals encoded run.1.space run.2 := by
  subst ran
  rw [Refusals.moving] at obstacle
  simp only [Corpus.moveOver, Script.under]
  cases moves : refusals 4 with
  | none =>
    simp only [Script.run, seat.rename_eq read short, Script.answering, Script.under]
    rw [moves] at obstacle
    exact .written obstacle (seat.leaves_written encoded)
  | some refusal =>
    rw [moves] at obstacle
    simp only
    cases clears : refusals 5 with
    | none =>
      simp only [Script.run, seat.remove_eq read short, Script.answering]
      exact .hindered obstacle (seat.leaves_cleared _ _) fun _ => rfl
    | some again =>
      refine .hindered obstacle (seat.leaves_stranded encoded) fun tidy => ?_
      rcases tidy.cleared with unmoved | uncleared
      · cases unmoved.symm.trans moves
      · cases uncleared.symm.trans clears

omit read in
theorem obstacle?_eq (rereads : refusals 1 = none) (looks : refusals 2 = none) (path : Text) :
    Corpus.obstacle? refusals seat.temporary.toText path =
      let beyond : Option Failure :=
        if seat.temporary.isLong then some (.file (.failed .nameTooLong "open" (some seat.temporary.toText))) else none
      match refusals 3 with
      | some ⟨error, none⟩ => some (.file error)
      | some ⟨error, some _⟩ => beyond.or (some (.file error))
      | none => beyond.or (refusals.moving.map fun refusal => .file refusal.error) := by
  rw [Corpus.obstacle?_eq, rereads, looks, Path.ofText, Path.resolve_toText]
  rfl

/-- A file with the bytes that were read is replaced unless something is in the way. -/
theorem run_replace {announced : List Announcement} {text revised encoding : Text} {encoded : Bytes}
    (encodes : encodeLosslessly revised encoding shown.toText = .ok encoded) {run : Scene × Except Failure Unit}
    (ran : ((Corpus.replace token ⟨shown.toText, bytes, text⟩ revised encoding).under refusals 1).run hook
      ⟨space, announced⟩ = run) :
    seat.Replaces refusals encoded run.1.space run.2 := by
  obtain ⟨_, _, _, stat⟩ := seat.of_read read
  simp only [Corpus.replace, encodes, seat.named, Script.under] at ran
  cases rereads : refusals 1 with
  | some refusal =>
    simp only [rereads] at ran
    subst ran
    exact .hindered (by rw [Corpus.obstacle?_eq, rereads]; rfl) seat.leaves_none fun _ => rfl
  | none =>
    cases looks : refusals 2 with
    | some refusal =>
      simp only [rereads, looks, read, Except.mapError, Script.under, Script.run] at ran
      subst ran
      exact .hindered (by rw [Corpus.obstacle?_eq, rereads, looks]; rfl) seat.leaves_none fun _ => rfl
    | none =>
      simp only [rereads, looks, read, stat, Except.mapError, Script.under, Script.run, if_true] at ran
      have obstacle := seat.obstacle?_eq rereads looks shown.toText
      cases writes : refusals 3 with
      | none =>
        simp only [writes] at obstacle
        simp only [writes, Script.run, seat.writeFile_eq read] at ran
        cases beyond : seat.temporary.isLong with
        | true =>
          simp only [beyond, if_true, Script.answering] at ran obstacle
          subst ran
          exact .hindered obstacle seat.leaves_none fun _ => rfl
        | false =>
          simp only [beyond, Bool.false_eq_true, if_false, Script.answering] at ran obstacle
          exact seat.run_moveOver read beyond obstacle ran
      | some refusal =>
        obtain ⟨error, begun⟩ := refusal
        simp only [writes] at obstacle
        cases begun with
        | none =>
          simp only [writes, Script.run] at ran
          subst ran
          exact .hindered obstacle seat.leaves_none fun _ => rfl
        | some begun =>
          simp only [writes, Script.run, seat.writeFile_eq read] at ran
          cases beyond : seat.temporary.isLong with
          | true =>
            simp only [beyond, if_true, Script.answering, Except.bind, Script.under, Script.run] at ran obstacle
            subst ran
            exact .hindered obstacle seat.leaves_none fun _ => rfl
          | false =>
            simp only [beyond, Bool.false_eq_true, if_false, Script.answering, Except.bind] at ran obstacle
            subst ran
            exact .hindered obstacle (seat.leaves_stranded _) fun tidy => by cases tidy.whole _ writes

end

def Comes (refusals : Refusals) (hook : Hook) (options : Corpus.FileOptions) (told outcome : FileOutcome)
    (after : Workspace) : Prop :=
  ∃ written left, Corpus.Foretells refusals hook space options token shown.toText told written outcome ∧
    seat.Leaves written left after ∧ (refusals.Tidy ∨ written ≠ none → left = none)

variable (quiet : hook.Quiet)

include quiet

/-- What is written for a file can be told from its entry and from what the caller replies. -/
theorem run_writeRevision {bytes : Bytes} {text : Text} (read : space.readFile shown.toText = .ok bytes)
    (decoded : decodeLosslessly bytes options.encoding shown.toText = .ok text)
    (changed : (options.plan.revise text).changed = true) {announced : List Announcement} {run : Scene × FileOutcome}
    (ran : ((Corpus.writeRevision options token ⟨shown.toText, bytes, text⟩ (options.plan.revise text)).under refusals
      1).run hook ⟨space, announced⟩ = run) :
    seat.Comes refusals hook options (options.matched ⟨shown.toText, bytes, text⟩ (options.plan.revise text)) run.2
      run.1.space := by
  have told : (hook space ⟨shown.toText, text, (options.plan.revise text).text⟩).1 = space := quiet _ _
  have hindered {failure : Failure} (stopped : Corpus.hindrance? refusals hook space token options.encoding
      ⟨shown.toText, bytes, text⟩ (options.plan.revise text).text = some failure) :=
    Corpus.Foretells.hindered read decoded changed stopped
  simp only [Corpus.hindrance?, seat.named] at hindered
  simp only [Corpus.writeRevision, Bind.bind, Script.bind, Script.under, Script.run, told] at ran
  cases reply : (hook space ⟨shown.toText, text, (options.plan.revise text).text⟩).2 with
  | error fault =>
    simp only [reply] at ran hindered
    subst ran
    exact ⟨none, none, hindered rfl, seat.leaves_none, fun _ => rfl⟩
  | ok =>
    cases encodes : encodeLosslessly (options.plan.revise text).text options.encoding shown.toText with
    | error error =>
      simp only [reply, Corpus.replace, encodes, Script.bind] at ran hindered
      subst ran
      exact ⟨none, none, hindered rfl, seat.leaves_none, fun _ => rfl⟩
    | ok encoded =>
      simp only [reply, encodes] at ran hindered
      rw [Script.under_bind fun result => by cases result <;> exact ⟨_, rfl⟩, Script.run_bind] at ran
      generalize ended : ((Corpus.replace token ⟨shown.toText, bytes, text⟩ (options.plan.revise text).text
        options.encoding).under refusals 1).run hook _ = replaced at ran
      have replaces := seat.run_replace read encodes ended
      obtain ⟨scene, result⟩ := replaced
      cases replaces with
      | hindered stopped leaves tidies =>
        subst ran
        exact ⟨none, _, hindered stopped, leaves, fun either => either.elim tidies fun wrote => absurd rfl wrote⟩
      | written clear leaves =>
        subst ran
        refine ⟨some encoded, none, .written read decoded changed ?_ encodes, leaves, fun _ => rfl⟩
        simp only [Corpus.hindrance?, reply, encodes, seat.named, clear]

/-- What becomes of a file can be told before it is revised, from what reading it tells. -/
theorem run_revise (real : options.preview = false) {announced : List Announcement} {run : Scene × FileOutcome}
    (ran : ((Corpus.revise options token shown.toText).under refusals 0).run hook ⟨space, announced⟩ = run) :
    seat.Comes refusals hook options (Corpus.outlookUnder refusals space options shown.toText) run.2 run.1.space := by
  by_cases settled : (Corpus.outlook space options shown.toText).change? = none
  · -- nothing is to be written, so reading the file is all that is done
    have unchanged : (Corpus.outlookUnder refusals space options shown.toText).change? = none := by
      rw [Corpus.outlookUnder]
      cases refusals.reading with
      | none => exact settled
      | some refusal => rfl
    rw [(Corpus.revise_glances refusals (.inr unchanged)).run] at ran
    subst ran
    exact ⟨none, none, .settled unchanged, seat.leaves_none, fun _ => rfl⟩
  · rw [Corpus.outlookUnder, Refusals.reading]
    rw [Corpus.revise_eq, Script.under] at ran
    cases reads : refusals 0 with
    | some refusal =>
      simp only [reads, Script.under, Script.run] at ran ⊢
      subst ran
      exact ⟨none, none, .settled rfl, seat.leaves_none, fun _ => rfl⟩
    | none =>
      rw [Corpus.outlook] at settled ⊢
      simp only [reads, Script.run] at ran ⊢
      cases read : space.readFile shown.toText with
      | error error => simp only [read] at settled; exact absurd rfl settled
      | ok bytes =>
        simp only [read, Except.mapError] at settled ran ⊢
        cases decoded : Corpus.decodeFile shown.toText options.encoding bytes with
        | error failure => simp only [decoded] at settled; exact absurd rfl settled
        | ok file =>
          simp only [decoded, real] at settled ran ⊢
          obtain ⟨path, own, text⟩ := file
          obtain ⟨rfl, rfl, holds⟩ := Corpus.decodeFile_ok decoded
          split
          next untouched => rw [if_pos untouched] at settled; exact absurd rfl settled
          next touched =>
            rw [if_neg touched] at settled ran
            cases changed : (options.plan.revise text).changed with
            | false => exact absurd (options.matched_unchanged _ changed) settled
            | true =>
              rw [changed, Bool.not_false, Bool.and_true, if_pos rfl] at ran
              exact seat.run_writeRevision quiet read holds changed ran

end Seat

end Emend
