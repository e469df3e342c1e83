import Emend.Corpus.Script

/-! Running a script without files: every call is noted, and answered with what it would have given
or with the fault that is set for calls of its kind. -/

namespace Emend

inductive CallKind where
  | read
  | stat
  | write
  | rename
  | remove
  deriving DecidableEq, Repr

inductive Event where
  | read (path : Text)
  | stat (path : Text)
  | write (path : Text) (bytes : Bytes) (mode : Nat)
  | rename (source target : Text)
  | remove (path : Text)
  deriving DecidableEq, Repr

/-- How calls are answered: with these bytes and this mode, unless a fault is set. -/
structure Answers where
  bytes : Bytes
  mode : Nat
  fault : CallKind → Option Fault

namespace Answers

def give {α : Type} (answers : Answers) (kind : CallKind) (value : α) : Except Fault α :=
  match answers.fault kind with
  | some fault => .error fault
  | none => .ok value

end Answers

/-- The calls that a script makes when they are answered so, and its value. -/
def Script.events {α : Type} (answers : Answers) : Script α → List Event × α
  | .done value => ([], value)
  | .read path next =>
    let (later, value) := (next (answers.give .read answers.bytes)).events answers
    (.read path :: later, value)
  | .stat path next =>
    let (later, value) := (next (answers.give .stat answers.mode)).events answers
    (.stat path :: later, value)
  | .write path bytes mode next =>
    let (later, value) := (next (answers.give .write ())).events answers
    (.write path bytes mode :: later, value)
  | .rename source target next =>
    let (later, value) := (next (answers.give .rename ())).events answers
    (.rename source target :: later, value)
  | .remove path next =>
    let (later, value) := (next (answers.give .remove ())).events answers
    (.remove path :: later, value)
  | .announce _ _ _ next => (next (.ok ())).events answers

end Emend
