import Emend.Text.Quotation

/-! Failures of file system calls, with the wording of their messages. -/

namespace Emend

namespace FileError

inductive Code where
  | noEntry
  | notDirectory
  | isDirectory
  | tooManyLinks
  | nameTooLong
  | exists
  | notEmpty
  | invalid
  | notPermitted
  | accessDenied
  deriving DecidableEq, Repr

namespace Code

def symbol : Code → Text
  | noEntry => units "ENOENT"
  | notDirectory => units "ENOTDIR"
  | isDirectory => units "EISDIR"
  | tooManyLinks => units "ELOOP"
  | nameTooLong => units "ENAMETOOLONG"
  | .exists => units "EEXIST"
  | notEmpty => units "ENOTEMPTY"
  | invalid => units "EINVAL"
  | notPermitted => units "EPERM"
  | accessDenied => units "EACCES"

def summary : Code → Text
  | noEntry => units "no such file or directory"
  | notDirectory => units "not a directory"
  | isDirectory => units "illegal operation on a directory"
  | tooManyLinks => units "too many symbolic links encountered"
  | nameTooLong => units "name too long"
  | .exists => units "file already exists"
  | notEmpty => units "directory not empty"
  | invalid => units "invalid argument"
  | notPermitted => units "operation not permitted"
  | accessDenied => units "permission denied"

end Code

end FileError

inductive FileError where
  /-- The call of this name failed; the path is the one it was given, if any. -/
  | failed (code : FileError.Code) (call : String) (path : Option Text)
  /-- There is a zero unit in the path, which would end it early, so no call is made with it. -/
  | zeroInPath (path : Text)
  deriving DecidableEq, Repr

namespace FileError

def isMissing : FileError → Bool
  | failed .noEntry _ _ => true
  | _ => false

def message : FileError → Text
  | failed code call path =>
    code.symbol ++ units ": " ++ code.summary ++ units ", " ++ units call ++
      match path with
      | none => []
      | some path => units " '" ++ path ++ units "'"
  | zeroInPath path =>
    units "The argument 'path' must be a string, Uint8Array, or URL without null bytes. Received " ++
      Text.quotation path

end FileError

end Emend
