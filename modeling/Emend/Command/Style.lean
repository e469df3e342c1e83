import Emend.Text.Basic

/-! Terminal styles: a code opens a style and a code closes it. A style is closed around each line
end, and is opened again wherever the text closes it. -/

namespace Emend

open Text

structure Style where
  opening : Text
  closing : Text
  deriving DecidableEq, Repr

namespace Style

def code (n : Nat) : Text := [escape, openBracket] ++ ofNat n ++ units "m"

def green : Style := ⟨code 32, code 39⟩

def bold : Style := ⟨code 1, code 22⟩

def gray : Style := ⟨code 90, code 39⟩

def red : Style := ⟨code 31, code 39⟩

/-- Open a style again after each place where the text closes it. The first argument counts the
units of a closing code that are still to be passed over. -/
def reopen (style : Style) : Nat → Text → Text
  | _, [] => []
  | skip + 1, u :: rest => u :: (if skip = 0 then style.opening else []) ++ style.reopen skip rest
  | 0, u :: rest =>
    if style.closing.isPrefixOf (u :: rest) then
      u :: (if style.closing.length = 1 then style.opening else []) ++
        style.reopen (style.closing.length - 1) rest
    else u :: style.reopen 0 rest

/-- Close a style before each line end and open it after. -/
def aroundLineEnds (style : Style) : Text → Text
  | [] => []
  | [u] => if u = lineFeed then style.closing ++ [u] ++ style.opening else [u]
  | u :: v :: rest =>
    if u = lineFeed then style.closing ++ [u] ++ style.opening ++ style.aroundLineEnds (v :: rest)
    else if u = carriageReturn && v = lineFeed then
      style.closing ++ [u, v] ++ style.opening ++ style.aroundLineEnds rest
    else u :: style.aroundLineEnds (v :: rest)

/-- A text in a style, or as it is when nothing is colored. The empty text stays empty. -/
def paint (style : Style) (colored : Bool) (t : Text) : Text :=
  if colored && !t.isEmpty then
    style.opening ++ style.aroundLineEnds (style.reopen 0 t) ++ style.closing
  else t

end Style

end Emend
