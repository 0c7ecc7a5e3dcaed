import ApexLayout.Format
import ApexLayout.Json.Write
import ApexLayout.Settings.Read
import ApexLayout.Tree.Dump

/-!
The command line.

A run is a function of its arguments and of what the files hold: it prints, fails with a reason, or
is a misuse. Arguments come first, then settings, then the input, then the tree or its text; the
first stage that fails decides.
-/

namespace ApexLayout

/-! ## Files -/

/-- Why a file has no text. -/
inductive ReadFailure
  | missing
  /-- The path goes on behind a file. -/
  | notDirectory
  | directory
  /-- The bytes of the file are not UTF-8. -/
  | notText
  /-- Any other reason, in the words of the system. -/
  | other (reason : Text)
deriving DecidableEq

/-- The reason as it is reported. -/
def ReadFailure.text : ReadFailure → Text
  | .missing => "No such file or directory (os error 2)"
  | .notDirectory => "Not a directory (os error 20)"
  | .directory => "Is a directory (os error 21)"
  | .notText => "stream did not contain valid UTF-8"
  | .other reason => reason

/-- What reading each path gives. -/
abbrev Disk := Text → Except ReadFailure Text

/-- Whether a path leads to a file, readable or not. All that is known of a path is what reading it
gives, so one that fails in the words of the system counts as a file, even if the system cannot look
behind it or has something there that is neither a file nor a directory. -/
def Disk.isFile (disk : Disk) (path : Text) : Bool :=
  match disk path with
  | .ok _ => true
  | .error .missing | .error .notDirectory | .error .directory => false
  | .error .notText | .error (.other _) => true

/-! ## Arguments -/

/-- What a run is asked to do. -/
structure Invocation where
  input : Text
  /-- The settings file to use instead of the user's. -/
  settingsPath : Option Text
  chainThreshold : Option Nat
  indentStyle : Option IndentStyle
  indentWidth : Option Nat
  /-- Whether to print the tree instead of the formatted source. -/
  dumpsTree : Bool

namespace Invocation

/-- The options that take a value. -/
inductive ValueOption
  | settingsPath
  | chainThreshold
  | indentStyle
  | indentWidth
deriving DecidableEq

/-- The option of that name. -/
def ValueOption.ofText? (name : Text) : Option ValueOption :=
  if name = "config".toList then some .settingsPath
  else if name = "chain-threshold".toList then some .chainThreshold
  else if name = "indent".toList then some .indentStyle
  else if name = "indent-width".toList then some .indentWidth
  else none

/-- An argument by its role. -/
inductive Argument
  /-- A file name. -/
  | file (path : Text)
  | value (option : ValueOption) (text : Text)
  | dumpTree
  | verbose
deriving DecidableEq

/-- A name and the value attached to it by an equals sign, if there is one. -/
def splitValue (text : Text) : Text × Option Text :=
  match text.dropWhile (· ≠ '=') with
  | [] => (text, none)
  | _ :: value => (text.takeWhile (· ≠ '='), some value)

/-- Whether an argument can be the value of the option before it. -/
def isDetachedValue (argument : Text) : Bool := argument.head? ≠ some '-' || argument = ['-']

/-- The roles of the arguments; none if one of them has no role. Two dashes make all further
arguments file names. -/
def roles? : List Text → Option (List Argument)
  | [] => some []
  | ['-', '-'] :: rest => some (rest.map .file)
  | ('-' :: '-' :: long) :: rest =>
    match splitValue long, rest with
    | (name, some value), rest => do
      let option ← ValueOption.ofText? name
      return .value option value :: (← roles? rest)
    | (name, none), rest =>
      if name = "tree".toList then return .dumpTree :: (← roles? rest)
      else if name = "verbose".toList then return .verbose :: (← roles? rest)
      else
        match rest with
        | [] => none
        | value :: rest => do
          let option ← ValueOption.ofText? name
          if isDetachedValue value then return .value option value :: (← roles? rest) else none
  | ('-' :: short :: more) :: rest =>
    if (short :: more).all (· == 'v') then return .verbose :: (← roles? rest) else none
  | path :: rest => return .file path :: (← roles? rest)

/-- The number that decimal digits write, perhaps with a plus sign in front. -/
def number? (text : Text) : Option Nat :=
  let digits :=
    match text with
    | '+' :: rest => rest
    | other => other
  if digits.isEmpty || !digits.all Char.isDigit then none
  else
    let value := Text.decimal digits
    if value < numberBound then some value else none

/-- A path; no path is empty. -/
def path? (text : Text) : Option Text := if text.isEmpty then none else some text

/-- The values given to an option. -/
def valuesOf (option : ValueOption) (arguments : List Argument) : List Text :=
  arguments.filterMap fun
    | .value given text => if given = option then some text else none
    | _ => none

/-- The value of an option that is given at most once: none if it is given more often or is not
of its form, and otherwise what it is, if it is given. -/
def optional? {α : Type} (read : Text → Option α) : List Text → Option (Option α)
  | [] => some none
  | [text] => (read text).map some
  | _ => none

/-- What the arguments ask for; none if they are misused. -/
def ofArguments? (arguments : List Text) : Option Invocation := do
  let roles ← roles? arguments
  let files := roles.filterMap fun
    | .file path => some path
    | _ => none
  let settingsPath ← optional? path? (valuesOf .settingsPath roles)
  let chainThreshold ← optional? number? (valuesOf .chainThreshold roles)
  let indentStyle ← optional? IndentStyle.ofText? (valuesOf .indentStyle roles)
  let indentWidth ← optional? number? (valuesOf .indentWidth roles)
  let dumps := roles.count .dumpTree
  match files with
  | [file] =>
    let input ← path? file
    if dumps ≤ 1 then
      return ⟨input, settingsPath, chainThreshold, indentStyle, indentWidth, dumps = 1⟩
    else none
  | _ => none

/-- The files that a run may read, given where the user's settings are. -/
def paths (invocation : Invocation) (userPath : Option Text) : List Text :=
  (invocation.settingsPath <|> userPath).toList ++ [invocation.input]

/-- The settings with the options of the command line over them. -/
def override (invocation : Invocation) (settings : Settings) : Settings where
  indentStyle := invocation.indentStyle.getD settings.indentStyle
  indentWidth := invocation.indentWidth.getD settings.indentWidth
  chainThreshold := invocation.chainThreshold.getD settings.chainThreshold

end Invocation

/-! ## Runs -/

/-- Why a run fails. -/
inductive Failure
  | settingsUnread (path : Text) (reason : ReadFailure)
  | settingsInvalid (path : Text)
  | inputUnread (path : Text) (reason : ReadFailure)
  | inputRefused (path : Text) (error : SyntaxError)
  | inputUnprintable (path : Text) (error : RenderError)
deriving DecidableEq

namespace Failure

/-- What failed. -/
def text : Failure → Text
  | .settingsUnread path _ => "failed to read config file " ++ path
  | .settingsInvalid path => "invalid config file " ++ path
  | .inputUnread path _ => "failed to read " ++ path
  | .inputRefused path _ => "failed to parse " ++ path
  | .inputUnprintable path _ => "failed to render " ++ path

/-- Why it failed; settings that are no settings have no further reason. -/
def reason : Failure → Option Text
  | .settingsUnread _ reason => some reason.text
  | .settingsInvalid _ => none
  | .inputUnread _ reason => some reason.text
  | .inputRefused _ error => some error.text
  | .inputUnprintable _ error => some error.text

end Failure

/-- How a run ends. -/
inductive Outcome
  | printed (text : Text)
  | failed (failure : Failure)
  /-- The arguments are misused. -/
  | misused
deriving DecidableEq

/-- The exit status of a run. -/
def Outcome.status : Outcome → Nat
  | .printed _ => 0
  | .failed _ => 1
  | .misused => 2

/-- The settings in a file. -/
def readSettings (disk : Disk) (path : Text) : Except Failure Settings :=
  match disk path with
  | .error reason => .error (.settingsUnread path reason)
  | .ok text =>
    match Settings.ofText? text with
    | none => .error (.settingsInvalid path)
    | some settings => .ok settings

/-- The settings of a run: of the file it names, else of the user's file if there is one, else the
defaults; options of the command line go over them. -/
def Invocation.settings (invocation : Invocation) (userPath : Option Text) (disk : Disk) :
    Except Failure Settings := do
  let path := invocation.settingsPath <|> userPath.filter disk.isFile
  let settings ←
    match path with
    | some path => readSettings disk path
    | none => .ok default
  return invocation.override settings

/-- The tree of a source, as it is printed. -/
def CompilationUnit.dump (unit : CompilationUnit) : Text := unit.toJson.pretty ++ ['\n']

/-- What a run prints. -/
def Invocation.output (invocation : Invocation) (userPath : Option Text) (disk : Disk) :
    Except Failure Text := do
  let settings ← invocation.settings userPath disk
  let source ← (disk invocation.input).mapError (.inputUnread invocation.input)
  let unit ← (parseUnit source).mapError (.inputRefused invocation.input)
  if invocation.dumpsTree then
    return unit.dump
  else
    (unit.print settings).mapError (.inputUnprintable invocation.input)

/-- A run with the given arguments; the user's settings are at a known path, if anywhere. -/
def run (arguments : List Text) (userPath : Option Text) (disk : Disk) : Outcome :=
  match Invocation.ofArguments? arguments with
  | none => .misused
  | some invocation =>
    match invocation.output userPath disk with
    | .ok text => .printed text
    | .error failure => .failed failure

end ApexLayout
