import Emend.Command.Interface
import Emend.Command.Suggestion
import Emend.Command.Value

/-! Reading the words of a command line. Words are taken one by one: a flag, the value that a flag
is waiting for, or an argument. Scanning stops at the first word that cannot be placed; the values
are then read, and all of their errors are kept. -/

namespace Emend.Command

open Text

inductive ArgumentError where
  | noFlag (name : Text) (meant : List Text)
  | noLetter (letter : Text)
  | missingValue (flag : Text) (next : Option Text)
  | tooManyArguments (expected : Nat) (input : Text)
  | repeated (flag first second : Text)
  | negatedValue (name value : Text)
  | badValue (input flag : Text) (reason : ValueError)
  deriving DecidableEq, Repr

def quotedPlain (t : Text) : Text := units "\"" ++ t ++ units "\""

def ArgumentError.message : ArgumentError → Text
  | noFlag name meant =>
    units "No flag registered for --" ++ name ++
      (if meant.isEmpty then []
      else units ", did you mean " ++ alternatives (meant.map (units "--" ++ ·)) ++ units "?")
  | noLetter letter => units "No alias registered for -" ++ letter
  | missingValue flag next =>
    units "Expected input for flag --" ++ flag ++
      (match next with
        | none => []
        | some other => units " but encountered --" ++ other ++ units " instead")
  | tooManyArguments expected input =>
    units "Too many arguments, expected " ++ ofNat expected ++ units " but encountered " ++
      quotedPlain input
  | repeated flag first second =>
    units "Too many arguments for --" ++ flag ++ units ", encountered " ++ quotedPlain second ++
      units " after " ++ quotedPlain first
  | negatedValue name value =>
    units "Cannot negate flag --" ++ name ++ units " and pass " ++ quotedPlain value ++
      units " as value"
  | badValue input flag reason =>
    units "Failed to parse " ++ quotedPlain input ++ units " for " ++ flag ++ units ": " ++
      reason.message

def isFlagUnit (u : UInt16) : Bool :=
  isLetter u || isDigit u || u == hyphen || u == dot || u == underscore

def isFlagName (t : Text) : Bool :=
  2 ≤ t.length && t.head?.any isLetter && t.all isFlagUnit

inductive Word where
  | flag (name : Text)
  | flagValue (name value : Text)
  | letters (letters : Text)
  | letterValue (letter : Text)
  | plain
  deriving DecidableEq, Repr

/-- A value after an equals sign: not empty and on one line. -/
def isInlineValue (t : Text) : Bool := !t.isEmpty && !t.any isLineTerminator

def inline? (t : Text) : Option (Text × Text) :=
  let name := t.takeWhile (· != equal)
  match t.drop name.length with
  | [] => none
  | _ :: value => if isInlineValue value then some (name, value) else none

/-- What a word looks like. Two hyphens begin a name, one begins letters. -/
def Word.ofText (t : Text) : Word :=
  if (units "--").isPrefixOf t then
    let rest := t.drop 2
    match inline? rest with
    | some (name, value) =>
      if isFlagName name then .flagValue name value else .plain
    | none => if isFlagName rest then .flag rest else .plain
  else if (units "-").isPrefixOf t then
    let rest := t.drop 1
    match inline? rest with
    | some ([letter], _) => if isLetter letter then .letterValue [letter] else .plain
    | some _ => .plain
    | none => if !rest.isEmpty && rest.all isLetter then .letters rest else .plain
  else .plain

/-- A name without the `no` before it, which stands before an upper case letter or before a hyphen
and one more unit, whatever that is. -/
def withoutNegation? (name : Text) : Option Text :=
  match name with
  | 0x6E :: 0x6F :: u :: rest =>
    if u = hyphen then some (rest.drop 1)
    else if isLower u then none
    else some (toLower [u] ++ rest)
  | _ => none

/-- Names that mean something in every table of flags without being declared there. -/
def builtinNames : List Text :=
  ["constructor", "hasOwnProperty", "isPrototypeOf", "propertyIsEnumerable", "toLocaleString",
    "toString", "valueOf", "__proto__", "__defineGetter__", "__defineSetter__", "__lookupGetter__",
    "__lookupSetter__"].map units

def upperUnit (u : UInt16) : UInt16 := if isLower u then u - 0x20 else u

def joinedCase : Text → Text
  | 0x2D :: u :: rest => upperUnit u :: joinedCase rest
  | u :: rest => u :: joinedCase rest
  | [] => []

def hyphenCase (name : Text) : Text :=
  name.take 1 ++ (name.drop 1).flatMap fun u => if isUpper u then hyphen :: toLower [u] else [u]

/-- The names that someone may have meant by a name that no flag has. -/
def meantFlags (names : List Text) (name : Text) : List Text :=
  if (names ++ builtinNames).contains (joinedCase name) then [joinedCase name]
  else if names.contains (hyphenCase name) then [hyphenCase name]
  else suggestions name names

def idleFlag (name : Text) : Flag := ⟨name, .value [] false, []⟩

structure Named where
  flag : Flag
  negated : Bool

/-- The flag of a name. The negation of a flag is no name, but that of a built-in one is. -/
def findFlag (flags : List Flag) (name : Text) : Except ArgumentError Named :=
  let names := flags.map Flag.name
  match flags.find? (·.name = name) with
  | some flag => .ok ⟨flag, false⟩
  | none =>
    if builtinNames.contains name then .ok ⟨idleFlag name, false⟩
    else match withoutNegation? name with
      | none => .error (.noFlag name (meantFlags names name))
      | some positive =>
        if names.contains positive then .error (.noFlag name [positive])
        else if builtinNames.contains positive then .ok ⟨idleFlag positive, true⟩
        else .error (.noFlag name (meantFlags names name))

/-- The flag of a name that a value follows at once, which a negation cannot have. -/
def findFlagFor (flags : List Flag) (name value : Text) : Except ArgumentError Flag := do
  let named ← findFlag flags name
  if named.negated then .error (.negatedValue name value) else .ok named.flag

structure Given where
  arguments : List Text
  /-- Each flag that was given, with its inputs in order. -/
  flags : List (Text × List Text)
  /-- The flag that waits for its value. -/
  pending : Option Flag

namespace Given

def nothing : Given := ⟨[], [], none⟩

def inputs (given : Given) (name : Text) : List Text := (given.flags.lookup name).getD []

def store (given : Given) (flag : Flag) (input : Text) : Except ArgumentError Given :=
  match given.inputs flag.name with
  | [] => .ok { given with flags := (flag.name, [input]) :: given.flags }
  | first :: rest =>
    if flag.repeatable then
      .ok { given with
        flags := (flag.name, first :: rest ++ [input]) :: given.flags.filter (·.1 != flag.name) }
    else .error (.repeated flag.name first input)

/-- No flag is waiting for a value, or the one that is gets another flag instead. -/
def settled (given : Given) (next : Flag) : Except ArgumentError Unit :=
  match given.pending with
  | none => .ok ()
  | some flag => .error (.missingValue flag.name (some next.name))

def takePlain (interface : Interface) (given : Given) (word : Text) : Except ArgumentError Given :=
  match given.pending with
  | some flag => { given with pending := none }.store flag word
  | none =>
    if given.arguments.length < interface.arguments.length then
      .ok { given with arguments := given.arguments ++ [word] }
    else .error (.tooManyArguments interface.arguments.length word)

def take (interface : Interface) (given : Given) (word : Text) : Except ArgumentError Given :=
  match Word.ofText word with
  | .flagValue name value => do
    let flag ← findFlagFor interface.flags name value
    given.settled flag
    given.store flag value
  | .letterValue letter => .error (.noLetter letter)
  | .letters letters => .error (.noLetter (letters.take 1))
  | .flag name => do
    let ⟨flag, _⟩ ← findFlag interface.flags name
    given.settled flag
    match flag.kind with
    | .switch => given.store flag (units "true")
    | .value _ _ => .ok { given with pending := some flag }
  | .plain => given.takePlain interface word

def ofWords (interface : Interface) (words : List Text) : Except ArgumentError Given :=
  words.foldlM (take interface) .nothing

/-- Read the inputs of a flag, the first bad one failing. A flag without its value fails. -/
def read {α : Type} (given : Given) (name : String) (value : Text → Except ValueError α) :
    Except (List ArgumentError) (List α) :=
  if given.pending.any (·.name = units name) then .error [.missingValue (units name) none]
  else (given.inputs (units name)).mapM fun input =>
    (value input).mapError fun reason => [.badValue input (units name) reason]

end Given

def alongside {α β : Type} :
    Except (List ArgumentError) α → Except (List ArgumentError) β → Except (List ArgumentError) (α × β)
  | .ok first, .ok second => .ok (first, second)
  | .error errors, .error more => .error (errors ++ more)
  | .error errors, .ok _ => .error errors
  | .ok _, .error errors => .error errors

end Emend.Command
