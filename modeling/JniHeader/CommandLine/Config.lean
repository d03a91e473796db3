import JniHeader.CommandLine.Options
import JniHeader.Generation.Batch

/-!
# Checked configurations

A configuration is made from arguments once they have been checked, in order:
there are classes, their names are well formed, the output path is no file, and
the entries of the module path exist.
-/
namespace JniHeader

inductive ConfigCode where
  | missingClassNames
  | invalidClassName
  | pathNotFound
  | outputNotDirectory
deriving DecidableEq, Repr

namespace ConfigCode

def text : ConfigCode → Text
  | .missingClassNames => "MISSING_CLASS_NAMES"
  | .invalidClassName => "INVALID_CLASS_NAME"
  | .pathNotFound => "PATH_NOT_FOUND"
  | .outputNotDirectory => "OUTPUT_NOT_DIRECTORY"

def all : List ConfigCode :=
  [.missingClassNames, .invalidClassName, .pathNotFound, .outputNotDirectory]

def ofText? (t : Text) : Option ConfigCode := all.find? fun c => c.text == t

def unknownMessage (t : Text) : Text := "Unknown config error code: " ++ t

end ConfigCode

/-- What is wrong with a configuration. -/
inductive ConfigError where
  | noClasses
  | className (raw : Text)
  | outputFile (path : FilePath)
  | moduleEntry (entry : Text)
deriving DecidableEq, Repr

namespace ConfigError

def code : ConfigError → ConfigCode
  | .noClasses => .missingClassNames
  | .className _ => .invalidClassName
  | .outputFile _ => .outputNotDirectory
  | .moduleEntry _ => .pathNotFound

def message : ConfigError → Text
  | .noClasses => "No classes given."
  | .className raw => "Invalid class name: " ++ raw
  | .outputFile path => "Output path is not a directory: " ++ path.text
  | .moduleEntry entry => "Module path entry does not exist: " ++ entry

def suggestion : ConfigError → Text
  | .noClasses => "Pass one or more fully qualified class names."
  | .className _ =>
    "Pass fully qualified names such as com.example.Foo or java.base/java.lang.Object."
  | .outputFile _ => "Point -d at a directory (it is created if absent)."
  | .moduleEntry _ => "Provide existing directories, modular jars or jmod files."

end ConfigError

/-- Why there is no configuration. -/
inductive ConfigProblem where
  | invalid (e : ConfigError)
  | system (e : SystemError)
deriving DecidableEq, Repr

namespace Config

/-- The names of the classes, or the first that is malformed. -/
def readNames : List Text → Except ConfigError (List QualifiedName)
  | [] => .ok []
  | raw :: rest =>
    match QualifiedName.parse raw with
    | .error _ => .error (.className raw)
    | .ok name => (readNames rest).map (name :: ·)

/-- The first entry of a module path that does not exist. -/
def missingEntry? (fs : FileSystem) : List Text → Except SystemError (Option Text)
  | [] => .ok none
  | entry :: rest =>
    match fs.isPresent (.ofText entry) with
    | .ok true => missingEntry? fs rest
    | .ok false => .ok (some entry)
    | .error e => .error e

def defaultClassPath : Text := "."

/-- The class path of the arguments, or of the environment, or the working directory. -/
def classPathOf (environment : Environment) : Option Text → Text
  | some t => t
  | none =>
    match environment.classPath with
    | none | some [] => defaultClassPath
    | some t => t

/-- The output directory, unless something else stands there. -/
def checkOutput (fs : FileSystem) (path : FilePath) : Except ConfigProblem FilePath :=
  match fs.isPresent path, fs.isDirectory path with
  | .error e, _ | _, .error e => .error (.system e)
  | .ok true, .ok false => .error (.invalid (.outputFile path))
  | .ok _, .ok _ => .ok path

/-- The module path, once all its entries are known to exist. -/
def checkModulePath (fs : FileSystem) : Option Text → Except ConfigProblem (Option Text)
  | none => .ok none
  | some t =>
    match missingEntry? fs (pathEntries t) with
    | .error e => .error (.system e)
    | .ok (some entry) => .error (.invalid (.moduleEntry entry))
    | .ok none => .ok (some t)

def ofArguments (host : Host) (a : CommandLine.Arguments) : Except ConfigProblem Config := do
  if a.operands.isEmpty then throw (.invalid .noClasses)
  let classNames ← (readNames a.operands).mapError .invalid
  let outputDir ← checkOutput host.files (.ofText a.outputDir)
  let modulePath ← checkModulePath host.files a.modulePath
  pure ⟨classNames, outputDir, classPathOf host.environment a.classPath, modulePath⟩

end Config

end JniHeader
