import Emend.Corpus.Script

/-! Calls that the system refuses, for want of a permission or of space or because a device fails. The tree of a workspace
says what comes of the calls that are carried out; which ones are not is no matter of the tree. A call that is refused
has no effect, unless it is a write that breaks off after it has begun. -/

namespace Emend

structure Refusal where
  error : FileError
  /-- How many bytes a write has left in its file before it broke off, if it has opened the file. -/
  begun : Option Nat
  deriving DecidableEq, Repr

/-- Which calls of a script are refused, by how many calls it has made before. -/
abbrev Refusals := Nat → Option Refusal

namespace Refusals

/-- Every call is carried out. -/
def none : Refusals := fun _ => .none

end Refusals

/-- A script where some calls are refused, after it has made so many. A call without effect takes no turn: the script
goes on from its error at once. -/
def Script.under {α : Type} (refusals : Refusals) : Nat → Script α → Script α
  | _, .done value => .done value
  | made, .read path next =>
    match refusals made with
    | some refusal => (next (.error (.call refusal.error))).under refusals (made + 1)
    | none => .read path fun answer => (next answer).under refusals (made + 1)
  | made, .stat path next =>
    match refusals made with
    | some refusal => (next (.error (.call refusal.error))).under refusals (made + 1)
    | none => .stat path fun answer => (next answer).under refusals (made + 1)
  | made, .write path bytes mode next =>
    match refusals made with
    | some ⟨error, some begun⟩ =>
      .write path (bytes.take begun) mode fun answer =>
        (next (answer.bind fun _ => .error (.call error))).under refusals (made + 1)
    | some ⟨error, none⟩ => (next (.error (.call error))).under refusals (made + 1)
    | none => .write path bytes mode fun answer => (next answer).under refusals (made + 1)
  | made, .rename source target next =>
    match refusals made with
    | some refusal => (next (.error (.call refusal.error))).under refusals (made + 1)
    | none => .rename source target fun answer => (next answer).under refusals (made + 1)
  | made, .remove path next =>
    match refusals made with
    | some refusal => (next (.error (.call refusal.error))).under refusals (made + 1)
    | none => .remove path fun answer => (next answer).under refusals (made + 1)
  | made, .announce path text revised next =>
    .announce path text revised fun answer => (next answer).under refusals made

/-- What the system refuses to a run: to open directories, by their paths, and to make calls for files, by the place of
the file in the corpus. -/
structure RunRefusals where
  opening : Text → Option FileError.Code
  calls : Nat → Refusals

def RunRefusals.none : RunRefusals := ⟨fun _ => .none, fun _ => .none⟩

end Emend
