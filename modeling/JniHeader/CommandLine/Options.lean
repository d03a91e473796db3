import JniHeader.Text.DecimalDigit
import JniHeader.Text.Quoted

/-!
# Options

Reading of command-line arguments. Options have several names, of which the long
ones may be abbreviated as long as they stay unambiguous; a value follows as the
next argument, after `=`, or at once after a name of one letter. All operands
stand in one run. An argument that cannot be understood ends the reading, as do
the requests for help and for the version when they are reached.
-/
namespace JniHeader.CommandLine

inductive Action where
  | help
  | outputDir
  | classPath
  | modulePath
  | version
deriving DecidableEq, Repr

structure OptionSpec where
  names : List Text
  action : Action
  takesValue : Bool

def specs : List OptionSpec :=
  [⟨["-h", "--help"], .help, false⟩,
    ⟨["-d", "--output-dir"], .outputDir, true⟩,
    ⟨["-cp", "-classpath", "--class-path"], .classPath, true⟩,
    ⟨["-p", "--module-path"], .modulePath, true⟩,
    ⟨["--version"], .version, false⟩]

/-- All names, each with its option. -/
def namedSpecs : List (Text × OptionSpec) :=
  specs.flatMap fun s => s.names.map fun n => (n, s)

def specOf? (name : Text) : Option OptionSpec := namedSpecs.lookup name

/-- How messages call an option. -/
def OptionSpec.label (s : OptionSpec) : Text := Text.joinWith "/" s.names

/-- A value in the same argument as the option: after an equals sign, or at once. -/
inductive Attached where
  | afterEquals (value : Text)
  | atOnce (value : Text)

/-- An option as it was written. -/
structure OptionUse where
  spec : OptionSpec
  name : Text
  attached : Option Attached

inductive Token where
  | operand (t : Text)
  | option (use : OptionUse)
  | unknown (t : Text)

/-- Why reading ends. -/
inductive Stop where
  | help
  | version
  | usage (message : Text)
deriving DecidableEq, Repr

def dash : CodePoint := '-'

/-- A minus sign, and digits with at most one point, before the last of them. -/
def isNegativeNumber (t : Text) : Bool :=
  let isDigits (d : Text) : Bool := !d.isEmpty && d.all fun c => c.digitValue?.isSome
  match t with
  | c :: rest =>
    let body := if rest.getLast? = some (CodePoint.ofChar '\n') then rest.dropLast else rest
    c == dash &&
      match Text.cutFirst '.' body with
      | (whole, none) => isDigits whole
      | (whole, some fraction) => (whole.isEmpty || isDigits whole) && isDigits fraction
  | [] => false

/-- An option whose name or an abbreviation of it is cut from the value by an equals sign. -/
def splitEquals (t : Text) : Text × Option Attached :=
  match Text.cutFirst '=' t with
  | (name, some value) => (name, some (.afterEquals value))
  | (name, none) => (name, none)

/-- The options that an argument may abbreviate. One with two dashes is cut at the equals sign;
one with a single dash may also be a one-letter option with its value. -/
def abbreviated (t : Text) : List OptionUse :=
  if List.isPrefixOf [dash, dash] t then
    let (start, attached) := splitEquals t
    namedSpecs.filterMap fun (name, spec) =>
      if start.isPrefixOf name then some ⟨spec, name, attached⟩ else none
  else
    namedSpecs.filterMap fun (name, spec) =>
      if name = t.take 2 then some ⟨spec, name, some (.atOnce (t.drop 2))⟩
      else if t.isPrefixOf name then some ⟨spec, name, none⟩
      else none

/-- What an argument in front of a double dash is. -/
def classify (t : Text) : Except Stop Token :=
  if t.head? ≠ some dash ∨ t.length = 1 then .ok (.operand t)
  else
    match specOf? t with
    | some spec => .ok (.option ⟨spec, t, none⟩)
    | none =>
      let (name, attached) := splitEquals t
      match attached, specOf? name with
      | some value, some spec => .ok (.option ⟨spec, name, some value⟩)
      | _, _ =>
        match abbreviated t with
        | [] =>
          if isNegativeNumber t || t.contains (CodePoint.ofChar ' ') then .ok (.operand t)
          else .ok (.unknown t)
        | [use] => .ok (.option use)
        | uses =>
          .error (.usage ("ambiguous option: " ++ t ++ " could match "
            ++ Text.joinWith ", " (uses.map (·.name))))

/-- All arguments. The first double dash and everything after it are operands. -/
def classifyAll : List Text → Except Stop (List Token)
  | [] => .ok []
  | t :: rest =>
    if t = "--" then .ok ((t :: rest).map .operand)
    else do
      let token ← classify t
      let tokens ← classifyAll rest
      pure (token :: tokens)

/-- The values of the arguments, each option's last one. -/
structure Arguments where
  operands : List Text := []
  outputDir : Text := "."
  classPath : Option Text := none
  modulePath : Option Text := none
deriving DecidableEq, Repr

/-- Take an option with its value. -/
def Arguments.apply (a : Arguments) (action : Action) (value : Text) : Except Stop Arguments :=
  match action with
  | .help => .error .help
  | .version => .error .version
  | .outputDir => .ok { a with outputDir := value }
  | .classPath => .ok { a with classPath := some value }
  | .modulePath => .ok { a with modulePath := some value }

/-- The run of operands has not begun, goes on, or has ended. -/
inductive Phase where
  | before
  | within
  | ended
deriving DecidableEq

structure State where
  arguments : Arguments := {}
  phase : Phase := .before
  unrecognized : List Text := []

def State.addOperand (s : State) (t : Text) : State :=
  match s.phase with
  | .ended => { s with unrecognized := s.unrecognized ++ [t] }
  | _ =>
    { s with
      phase := .within
      arguments := { s.arguments with operands := s.arguments.operands ++ [t] } }

def State.endRun (s : State) : State :=
  if s.phase = .within then { s with phase := .ended } else s

def argumentError {α : Type} (spec : OptionSpec) (message : Text) : Except Stop α :=
  .error (.usage ("argument " ++ spec.label ++ ": " ++ message))

/-- What one argument with options in it asks for: actions with their values in order, and a part
that is not recognized. `needsValue` is the option whose value is the next argument. -/
structure Request where
  actions : List (Action × Text) := []
  unrecognized : Option Text := none
  needsValue : Option OptionSpec := none

/-- Read the options of one argument: letters of options without value may be followed by further
one-letter options. `fuel` bounds the letters. -/
def request : (fuel : Nat) → OptionUse → Except Stop Request
  | 0, _ => .ok {}
  | fuel + 1, use =>
    let ignored (value : Text) : Except Stop Request :=
      argumentError use.spec ("ignored explicit argument " ++ value.quoted)
    match use.attached with
    | none =>
      if use.spec.takesValue then .ok { needsValue := some use.spec }
      else .ok { actions := [(use.spec.action, [])] }
    | some (.afterEquals value) =>
      if use.spec.takesValue then .ok { actions := [(use.spec.action, value)] }
      else ignored value
    | some (.atOnce value) =>
      if use.spec.takesValue then .ok { actions := [(use.spec.action, value)] }
      else
        match value with
        | [] => ignored value
        | letter :: rest =>
          if letter = dash then ignored value
          else
            match specOf? [dash, letter] with
            | none =>
              .ok { actions := [(use.spec.action, [])], unrecognized := some (dash :: value) }
            | some spec => do
              let attached : Option Attached :=
                match rest with
                | [] => none
                | c :: rest' =>
                  if c = '=' then some (.afterEquals rest') else some (.atOnce (c :: rest'))
              let more ← request fuel ⟨spec, [dash, letter], attached⟩
              pure { more with actions := (use.spec.action, []) :: more.actions }

def applyAll (a : Arguments) : List (Action × Text) → Except Stop Arguments
  | [] => .ok a
  | (action, value) :: rest => do applyAll (← a.apply action value) rest

/-- Read tokens in order. -/
def readTokens (s : State) : List Token → Except Stop State
  | [] => .ok s
  | .operand t :: rest => readTokens (s.addOperand t) rest
  | .unknown t :: rest =>
    let s := s.endRun
    readTokens { s with unrecognized := s.unrecognized ++ [t] } rest
  | .option use :: rest =>
    let s := s.endRun
    let length := match use.attached with
      | some (.atOnce value) | some (.afterEquals value) => value.length
      | none => 0
    match request (length + 1) use with
    | .error stop => .error stop
    | .ok r =>
      let unrecognized := s.unrecognized ++ r.unrecognized.toList
      match r.needsValue, rest with
      | none, rest =>
        match applyAll s.arguments r.actions with
        | .error stop => .error stop
        | .ok a => readTokens { s with arguments := a, unrecognized := unrecognized } rest
      | some spec, .operand value :: rest =>
        if value = "--" then argumentError spec "expected one argument"
        else
          match applyAll s.arguments (r.actions ++ [(spec.action, value)]) with
          | .error stop => .error stop
          | .ok a => readTokens { s with arguments := a, unrecognized := unrecognized } rest
      | some spec, _ => argumentError spec "expected one argument"

/-- Read the arguments of the program. The double dash that ends the options is no operand. -/
def parse (argv : List Text) : Except Stop Arguments := do
  let tokens ← classifyAll argv
  let s ← readTokens {} tokens
  if s.unrecognized.isEmpty then
    pure { s.arguments with operands := s.arguments.operands.erase "--" }
  else .error (.usage ("unrecognized arguments: " ++ Text.joinWith " " s.unrecognized))

end JniHeader.CommandLine
