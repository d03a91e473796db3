import JniHeader.CommandLine.Config

/-!
# The program

A run of the program on a host: what it prints, how it changes the files, and
how it ends. A run ends with an exit code, or crashes when the system gives an
answer that the program has no way to deal with.
-/
namespace JniHeader.Program

def version : Text := "0.2.0"

def usageLines : List Text :=
  ["usage: javah [-h] [-d OUTPUT_DIR] [-cp CLASS_PATH] [-p MODULE_PATH]",
    "             [--version]",
    "             [CLASS ...]"]

def helpLines : List Text :=
  usageLines ++
    [[],
      "Generate JNI headers from compiled class files",
      [],
      "positional arguments:",
      "  CLASS",
      [],
      "options:",
      "  -h, --help            show this help message and exit",
      "  -d OUTPUT_DIR, --output-dir OUTPUT_DIR",
      "  -cp CLASS_PATH, -classpath CLASS_PATH, --class-path CLASS_PATH",
      "  -p MODULE_PATH, --module-path MODULE_PATH",
      "  --version             show program's version number and exit"]

def printed (lines : List Text) : Text := lines.flatMap line

/-- How a run ends: with all its work done, with an exit code, with a configuration that is not
valid, or with a failure that the program has no way to deal with. -/
inductive Ending where
  | done
  | exit (code : Nat)
  | invalid (e : ConfigError)
  | crash (f : Failure)

/-- A finished run. -/
structure Execution where
  files : FileSystem
  output : Text
  diagnostics : Text
  ending : Ending

/-- The end of a run whose arguments ask for no work. -/
def stopped (fs : FileSystem) : CommandLine.Stop → Execution
  | .help => ⟨fs, printed helpLines, [], .exit 0⟩
  | .version => ⟨fs, line ("javah " ++ version), [], .exit 0⟩
  | .usage message =>
    ⟨fs, [], printed (usageLines ++ ["javah: error: " ++ message]), .exit 2⟩

/-- The configuration that the arguments ask for, or the end of the run. -/
def configure (host : Host) (argv : List Text) : Except Execution Config :=
  match CommandLine.parse argv with
  | .error stop => .error (stopped host.files stop)
  | .ok a =>
    match Config.ofArguments host a with
    | .ok c => .ok c
    | .error (.invalid e) => .error ⟨host.files, [], [], .invalid e⟩
    | .error (.system e) => .error ⟨host.files, [], [], .crash (.file (.system e))⟩

/-- Failures that come from a text which cannot be used as it is, not from the system. They are
reported and end the run with code 1. -/
def isInternal : Failure → Bool
  | .descriptor _ | .file (.name _) | .output (.text _) => true
  | .archive (.undecodableName _) | .archive .wideOffset => true
  | .constant .integerTooLarge | .constant .infinite => false
  | .constant _ => true
  | _ => false

/-- Print last lines and exit with code 1. A line that the output refuses ends the run at once. -/
def Execution.exitWith (host : Host) (e : Execution) : List Text → Execution
  | [] => { e with ending := .exit 1 }
  | t :: rest =>
    match host.refusal? t with
    | some problem => { e with ending := .crash (.output problem) }
    | none => exitWith host { e with output := e.output ++ line t } rest

/-- Run a configuration. -/
def runConfig (host : Host) (c : Config) : Execution :=
  let run := c.run host
  let diagnostics := printed run.diagnostics
  match run.result with
  | .ok outcomes =>
    ⟨run.files, run.output, diagnostics,
      if outcomes.all fun o => o.status.isWritten then .done else .exit 1⟩
  | .error f =>
    let e : Execution := ⟨run.files, run.output, diagnostics, .crash f⟩
    if isInternal f then e.exitWith host ["Internal error: " ++ f.message] else e

/-- Run the program with its arguments. -/
def run (host : Host) (argv : List Text) : Execution :=
  match configure host argv with
  | .ok c => runConfig host c
  | .error e =>
    match e.ending with
    | .invalid problem =>
      e.exitWith host
        ["Config error [" ++ problem.code.text ++ "]: " ++ problem.message,
          "Hint: " ++ problem.suggestion]
    | _ => e

end JniHeader.Program
