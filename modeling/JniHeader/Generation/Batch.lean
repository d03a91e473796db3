import JniHeader.Generation.Summary
import JniHeader.Search.PathText

/-!
# Batches

Headers for all classes of a configuration, in order. Class-file errors and
unsupported descriptors fail only the class that has them; any other failure
ends the batch, and so does a line that the output refuses.
-/
namespace JniHeader

/-- What to generate, where to look and where to write. -/
structure Config where
  classNames : List QualifiedName
  outputDir : FilePath
  classPath : Text
  modulePath : Option Text
deriving DecidableEq

namespace Config

/-- Modules are searched before the class path, and the runtime last. -/
def searchPath (fs : FileSystem) (c : Config) : Except SystemError SearchPath := do
  let modules ← ModulePath.parse fs (c.modulePath.getD [])
  let classes ← ClassPath.parse fs c.classPath
  pure (modules ++ classes ++ [.runtime none])

end Config

/-- One class of a batch: its own failures become its outcome. -/
def generateOne (host : Host) (search : SearchPath) (directory : FilePath)
    (name : QualifiedName) : Worked Outcome :=
  let worked := generate host search directory name
  match worked.outcome.result with
  | .error (.classFile _) => ⟨worked.files, ⟨worked.outcome.lines, .ok ⟨name, .parseError⟩⟩⟩
  | .error (.descriptor e) =>
    ⟨worked.files,
      ⟨worked.outcome.lines ++
        ["error: unsupported descriptor in class " ++ name.text, e.detail],
        .ok ⟨name, .unsupportedDescriptor⟩⟩⟩
  | _ => worked

/-- The line that is printed for a written header. -/
def Outcome.line? (o : Outcome) : Option Text :=
  o.status.path?.map fun path => "  Written: " ++ path.text

/-- An outcome, once its line has been printed. -/
def Outcome.printed (host : Host) (o : Outcome) : Except Failure Outcome :=
  match o.line?.bind host.refusal? with
  | none => .ok o
  | some e => .error (.output e)

/-- The outcomes of several classes, and the failure that ended the batch if one did. -/
structure BatchProgress where
  files : FileSystem
  diagnostics : List Text
  outcomes : List Outcome
  failure : Option Failure

/-- Generate one class after the other. -/
def generateAll (host : Host) (search : SearchPath) (directory : FilePath) :
    List QualifiedName → BatchProgress
  | [] => ⟨host.files, [], [], none⟩
  | name :: names =>
    let worked := generateOne host search directory name
    match worked.outcome.result.bind (Outcome.printed host) with
    | .error f => ⟨worked.files, worked.outcome.lines, [], some f⟩
    | .ok outcome =>
      let rest := generateAll { host with files := worked.files } search directory names
      ⟨rest.files, worked.outcome.lines ++ rest.diagnostics, outcome :: rest.outcomes, rest.failure⟩

/-- A finished or failed batch: what it printed, what it reported, and its outcomes. -/
structure BatchRun where
  files : FileSystem
  output : Text
  diagnostics : List Text
  result : Except Failure (List Outcome)

/-- A line of output. -/
def line (t : Text) : Text := t ++ "\n"

def writtenLines (outcomes : List Outcome) : Text :=
  outcomes.flatMap fun o => (o.line?.map line).getD []

def entriesLine (search : SearchPath) : Text :=
  "Search path: " ++ Text.ofNat search.length ++ " entries"

/-- Generate the headers of a configuration. -/
def Config.run (host : Host) (c : Config) : BatchRun :=
  match c.searchPath host.files with
  | .error e => ⟨host.files, [], [], .error (.file (.system e))⟩
  | .ok search =>
    match host.refusal? (entriesLine search) with
    | some e => ⟨host.files, [], [], .error (.output e)⟩
    | none =>
      let batch := generateAll host search c.outputDir c.classNames
      let output := line (entriesLine search) ++ writtenLines batch.outcomes
      match batch.failure with
      | some f => ⟨batch.files, output, batch.diagnostics, .error f⟩
      | none =>
        let summary := (Summary.ofOutcomes c.outputDir batch.outcomes).text
        match host.refusal? summary with
        | some e => ⟨batch.files, output, batch.diagnostics, .error (.output e)⟩
        | none => ⟨batch.files, output ++ summary, batch.diagnostics, .ok batch.outcomes⟩

end JniHeader
