import JniHeader.Generation.Basic

/-!
# Summaries

The report on a batch: the headers written with their line counts, the classes
not found, the classes that failed, and the totals.
-/
namespace JniHeader

structure Summary where
  outputDir : FilePath
  written : List Outcome
  notFound : List Outcome
  failed : List Outcome

namespace Summary

def ofOutcomes (outputDir : FilePath) (outcomes : List Outcome) : Summary :=
  { outputDir
    written := outcomes.filter fun o => o.status.isWritten
    notFound := outcomes.filter fun o => o.status == .notFound
    failed := outcomes.filter fun o => !(o.status.isWritten || o.status == .notFound) }

def total (s : Summary) : Nat := s.written.length + s.notFound.length + s.failed.length

def totalLines (s : Summary) : Int := s.written.foldr (fun o n => o.status.lineCount + n) 0

/-- A titled section with one line for each outcome, left out when there is none. -/
def sectionLines (title : Text) (line : Outcome → Text) (outcomes : List Outcome) : List Text :=
  if outcomes.isEmpty then [] else [] :: title :: outcomes.map line

def writtenLine (o : Outcome) : Text :=
  "    " ++ Text.padRight 40 o.name.headerFile ++ " "
    ++ Text.padLeft 6 (Text.grouped o.status.lineCount) ++ " lines"

def lines (s : Summary) : List Text :=
  (["JNI headers generated:", [], "  Output:     " ++ s.outputDir.text] : List Text)
    ++ sectionLines "  Headers written:" writtenLine s.written
    ++ sectionLines "  Not found:" (fun o => "    " ++ o.name.text) s.notFound
    ++ sectionLines "  Failed:"
      (fun o => "    " ++ o.name.text ++ " (" ++ o.status.text ++ ")") s.failed
    ++ ([[],
      "  Total: " ++ Text.ofNat s.written.length ++ " of " ++ Text.ofNat s.total ++ " classes, "
        ++ Text.grouped s.totalLines ++ " lines"] : List Text)

/-- The summary as it is printed. -/
def text (s : Summary) : Text := Text.unlines s.lines ++ "\n"

end Summary

end JniHeader
