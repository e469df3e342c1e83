import Emend.Encoding.Utf8
import Emend.Failure

/-! What is done to one file, as a script of file system calls. A script says what to call next and
how to go on from the answer; it says nothing of when, so scripts of several files may be run in
turns. -/

namespace Emend

inductive Fault where
  | call (error : FileError)
  /-- What a caller's own code has raised. -/
  | raised (message : Text)
  deriving DecidableEq, Repr

def Fault.toFailure : Fault → Failure
  | call error => .file error
  | raised message => .raised message

/-- Calls one after the other, each chosen by the answers to those before it. -/
inductive Script (α : Type) where
  | done (value : α)
  | read (path : Text) (next : Except Fault Bytes → Script α)
  | stat (path : Text) (next : Except Fault Nat → Script α)
  | write (path : Text) (bytes : Bytes) (mode : Nat) (next : Except Fault Unit → Script α)
  | rename (source target : Text) (next : Except Fault Unit → Script α)
  | remove (path : Text) (next : Except Fault Unit → Script α)
  /-- Tell the caller that a file is about to be written; its answer may refuse that. -/
  | announce (path text revised : Text) (next : Except Fault Unit → Script α)

namespace Script

def bind {α β : Type} : Script α → (α → Script β) → Script β
  | done value, next => next value
  | read path answer, next => read path fun result => (answer result).bind next
  | stat path answer, next => stat path fun result => (answer result).bind next
  | write path bytes mode answer, next =>
    write path bytes mode fun result => (answer result).bind next
  | rename source target answer, next => rename source target fun result => (answer result).bind next
  | remove path answer, next => remove path fun result => (answer result).bind next
  | announce path text revised answer, next =>
    announce path text revised fun result => (answer result).bind next

instance : Monad Script where
  pure := done
  bind := bind

end Script

end Emend
