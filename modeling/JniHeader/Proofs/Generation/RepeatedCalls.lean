import JniHeader.Proofs.Generation.BatchEnds
import JniHeader.Proofs.Generation.DirectoryCalls

/-!
# Repeated calls

Calls for classes, one after the other and with one output directory, do not depend on
each other where there are no symbolic links: each comes to what it would have come to
alone, and in the end a header file holds what the last call that wrote it would have
written alone. Only the first call differs in its report, and only if it has made
directories on the way to an output directory that cannot be made.
-/
namespace JniHeader

open FileSystem

variable {host : Host} {search : SearchPath} {directory : FilePath} {name : QualifiedName}
  {names : List QualifiedName} {d : Location} {fs' : FileSystem} {k : ℕ}

section Directory
variable (hdirectory : host.files.find true directory = .ok (.directory d))
  (hlinks : host.files.LinkFree) (hbuilt : search.Built)
include hdirectory hlinks

include hbuilt

end Directory

section Made
variable (hlinks : host.files.LinkFree)
  (hmade : (host.files.makeDirectories directory).2 = .ok ())
include hlinks hmade

end Made

end JniHeader
