import Emend.Proofs.ScriptEnds

/-! Scripts as they look to whatever answers their calls. What a script does depends on the answers alone, so
what is shown for all answers holds whichever calls fail and whoever else is at work on the files. -/

namespace Emend

inductive Reply where
  | read (path : Text) (answer : Except Fault Bytes)
  | stat (path : Text) (answer : Except Fault Nat)
  | write (path : Text) (bytes : Bytes) (mode : Nat) (answer : Except Fault Unit)
  | rename (source target : Text) (answer : Except Fault Unit)
  | remove (path : Text) (answer : Except Fault Unit)
  | announce (path text revised : Text) (answer : Except Fault Unit)

namespace Reply

private def faultOf {α : Type} : Except Fault α → Option Fault
  | .error fault => some fault
  | .ok _ => none

def fault? : Reply → Option Fault
  | read _ answer => faultOf answer
  | stat _ answer => faultOf answer
  | write _ _ _ answer | rename _ _ answer | remove _ answer | announce _ _ _ answer => faultOf answer

end Reply

namespace Script

/-- A script that gets these answers makes these calls and returns this value. -/
inductive Comes {α : Type} : Script α → List Reply → α → Prop where
  | done (value : α) : Comes (.done value) [] value
  | read {path : Text} {next : Except Fault Bytes → Script α} {answer : Except Fault Bytes} {replies : List Reply}
      {value : α} (rest : Comes (next answer) replies value) :
      Comes (.read path next) (.read path answer :: replies) value
  | stat {path : Text} {next : Except Fault Nat → Script α} {answer : Except Fault Nat} {replies : List Reply}
      {value : α} (rest : Comes (next answer) replies value) :
      Comes (.stat path next) (.stat path answer :: replies) value
  | write {path : Text} {bytes : Bytes} {mode : Nat} {next : Except Fault Unit → Script α} {answer : Except Fault Unit}
      {replies : List Reply} {value : α} (rest : Comes (next answer) replies value) :
      Comes (.write path bytes mode next) (.write path bytes mode answer :: replies) value
  | rename {source target : Text} {next : Except Fault Unit → Script α} {answer : Except Fault Unit}
      {replies : List Reply} {value : α} (rest : Comes (next answer) replies value) :
      Comes (.rename source target next) (.rename source target answer :: replies) value
  | remove {path : Text} {next : Except Fault Unit → Script α} {answer : Except Fault Unit} {replies : List Reply}
      {value : α} (rest : Comes (next answer) replies value) :
      Comes (.remove path next) (.remove path answer :: replies) value
  | announce {path text revised : Text} {next : Except Fault Unit → Script α} {answer : Except Fault Unit}
      {replies : List Reply} {value : α} (rest : Comes (next answer) replies value) :
      Comes (.announce path text revised next) (.announce path text revised answer :: replies) value

section

variable {α β : Type} {replies : List Reply}

theorem Comes.of_done {value result : α} (comes : (Script.done value).Comes replies result) :
    replies = [] ∧ result = value := by
  cases comes
  exact ⟨rfl, rfl⟩

/-- A script that goes on from the value of another has made the calls of that other one first. -/
theorem Comes.split {script : Script α} {next : α → Script β} {value : β}
    (comes : (script.bind next).Comes replies value) :
    ∃ first rest middle, replies = first ++ rest ∧ script.Comes first middle ∧ (next middle).Comes rest value := by
  induction script generalizing replies with
  | done middle => exact ⟨[], replies, middle, rfl, .done middle, comes⟩
  | read path answer ih =>
    cases comes with
    | read rest =>
      obtain ⟨first, last, middle, rfl, early, late⟩ := ih _ rest
      exact ⟨_, last, middle, rfl, .read early, late⟩
  | stat path answer ih =>
    cases comes with
    | stat rest =>
      obtain ⟨first, last, middle, rfl, early, late⟩ := ih _ rest
      exact ⟨_, last, middle, rfl, .stat early, late⟩
  | write path bytes mode answer ih =>
    cases comes with
    | write rest =>
      obtain ⟨first, last, middle, rfl, early, late⟩ := ih _ rest
      exact ⟨_, last, middle, rfl, .write early, late⟩
  | rename source target answer ih =>
    cases comes with
    | rename rest =>
      obtain ⟨first, last, middle, rfl, early, late⟩ := ih _ rest
      exact ⟨_, last, middle, rfl, .rename early, late⟩
  | remove path answer ih =>
    cases comes with
    | remove rest =>
      obtain ⟨first, last, middle, rfl, early, late⟩ := ih _ rest
      exact ⟨_, last, middle, rfl, .remove early, late⟩
  | announce path text revised answer ih =>
    cases comes with
    | announce rest =>
      obtain ⟨first, last, middle, rfl, early, late⟩ := ih _ rest
      exact ⟨_, last, middle, rfl, .announce early, late⟩

end

end Script

/-- What a workspace may answer to a call, and what it may be then. A call that fails changes nothing, but part
of a file may have been written. -/
inductive Workspace.MayAnswer (space : Workspace) : Reply → Workspace → Prop where
  | read {path : Text} {bytes : Bytes} (read : space.readFile path = .ok bytes) :
      MayAnswer space (.read path (.ok bytes)) space
  | stat {path : Text} {mode : Nat} (stat : space.mode path = .ok mode) : MayAnswer space (.stat path (.ok mode)) space
  | write {path : Text} {bytes : Bytes} {mode : Nat} {after : Workspace}
      (written : space.writeFile path bytes mode = .ok after) : MayAnswer space (.write path bytes mode (.ok ())) after
  | rename {source target : Text} {after : Workspace} (moved : space.rename source target = .ok after) :
      MayAnswer space (.rename source target (.ok ())) after
  | remove {path : Text} {after : Workspace} (removed : space.remove path = .ok after) :
      MayAnswer space (.remove path (.ok ())) after
  | announce (path text revised : Text) : MayAnswer space (.announce path text revised (.ok ())) space
  | failed {reply : Reply} {fault : Fault} (failed : reply.fault? = some fault) : MayAnswer space reply space
  | inPart {path : Text} {bytes part : Bytes} {mode : Nat} {fault : Fault} {after : Workspace} (start : part <+: bytes)
      (written : space.writeFile path part mode = .ok after) :
      MayAnswer space (.write path bytes mode (.error fault)) after

namespace Workspace.MayAnswer

variable {space after : Workspace}

theorem of_read {path : Text} {bytes : Bytes} (answers : space.MayAnswer (.read path (.ok bytes)) after) :
    space.readFile path = .ok bytes ∧ after = space := by
  cases answers with
  | read read => exact ⟨read, rfl⟩
  | failed failed => cases failed

theorem of_stat {path : Text} {mode : Nat} (answers : space.MayAnswer (.stat path (.ok mode)) after) :
    space.mode path = .ok mode ∧ after = space := by
  cases answers with
  | stat stat => exact ⟨stat, rfl⟩
  | failed failed => cases failed

theorem of_write {path : Text} {bytes : Bytes} {mode : Nat}
    (answers : space.MayAnswer (.write path bytes mode (.ok ())) after) :
    space.writeFile path bytes mode = .ok after := by
  cases answers with
  | write written => exact written
  | failed failed => cases failed

end Workspace.MayAnswer

/-- A call with the workspace in which it is made, its answer, and the workspace that it leaves. -/
structure Exchange where
  before : Workspace
  reply : Reply
  after : Workspace

/-- From one workspace to another these calls are answered. Before each of them, and after the last one, the
workspace may pass to another one in the meantime. -/
inductive Workspace.Proceeds (passes : Workspace → Workspace → Prop) :
    Workspace → List Exchange → Workspace → Prop where
  | done {space after : Workspace} (meanwhile : passes space after) : Proceeds passes space [] after
  | call {space last : Workspace} {exchange : Exchange} {history : List Exchange}
      (meanwhile : passes space exchange.before) (answers : exchange.before.MayAnswer exchange.reply exchange.after)
      (rest : Proceeds passes exchange.after history last) : Proceeds passes space (exchange :: history) last

namespace Workspace.Proceeds

variable {passes : Workspace → Workspace → Prop} {space after : Workspace} {exchange : Exchange}
  {history first rest : List Exchange}

theorem answered (proceeds : Proceeds passes space history after) (among : exchange ∈ history) :
    exchange.before.MayAnswer exchange.reply exchange.after := by
  induction proceeds with
  | done => cases among
  | call _ answers _ ih =>
    rcases List.mem_cons.mp among with rfl | later
    · exact answers
    · exact ih later

end Workspace.Proceeds

/-- A script returns a value after these calls on a workspace that is passed on in this way. -/
structure Script.Runs {α : Type} (passes : Workspace → Workspace → Prop) (space : Workspace) (script : Script α)
    (history : List Exchange) (after : Workspace) (value : α) : Prop where
  comes : script.Comes (history.map Exchange.reply) value
  proceeds : Workspace.Proceeds passes space history after

end Emend
