import JniHeader.Proofs.Files.FailedWrites
import JniHeader.Proofs.Files.Trees
import JniHeader.Proofs.Generation.Lookups
import JniHeader.Proofs.Generation.Turns

/-!
# Calls that write no header

A call that ends without a header, with an outcome or with a failure, keeps every file,
directory and link and adds nothing but directories on the way to the output directory.
There is one exception, a header that cannot be written or is cut short. The clean-up
takes away what stands at its path, also if the call has written nothing there: a link or
a file that was there before is lost. Only a new file goes without a trace.
-/
namespace JniHeader

open FileSystem

variable {host : Host} {search : SearchPath} {directory : FilePath} {name : QualifiedName}

/-- What is there at a place that is no directory was there before directories were made. -/
theorem entryAt_before_made {fs fs' : FileSystem} {location : Location} {e : FileEntry}
    (hmade : MadeAlong directory fs fs') (h : fs'.entryAt location = some e)
    (hnot : e ≠ .directory) : fs.entryAt location = some e := by
  cases hentry : fs.entryAt location with
  | some e' => rw [← h, hmade.keeps.entry location e' hentry]
  | none =>
      rcases hmade.made location hentry with hnone | ⟨hdirectory, -⟩
      · cases h.symm.trans hnone
      · exact absurd (Option.some.inj (h.symm.trans hdirectory)) hnot

/-- A header that is not written leaves the entries as they are, or traces at its path. -/
theorem writeHeader_traces {fs : FileSystem} {header : Text}
    (hfailed : ∀ o, (writeHeader fs directory name header).outcome.result = .ok o →
      o.status.isWritten = false) :
    SameEntries fs (writeHeader fs directory name header).files ∨
      (writeHeader fs directory name header).outcome.result = .ok ⟨name, .writeError⟩ ∧
        ∃ own, fs.find false (directory.append name.headerFile) = .ok own ∧
          Traces fs (directory.append name.headerFile) ⟨header.utf8.toArray⟩ own
            (writeHeader fs directory name header).files := by
  simp only [writeHeader] at hfailed ⊢
  split at hfailed
  · cases hfailed _ rfl
  · next hwrite =>
      cases written_of_writeFile hwrite with
      | refused _ => exact .inl (.refl fs)
  · next hwrite => exact (traces_of_writeFile hwrite).imp id fun htraces => ⟨rfl, htraces⟩

/-- A call that ends without a header keeps all that was there and makes nothing but directories on
the way to the output directory, unless a header could not be written and has left traces where its
path leads to: a link or a file that stood there is gone, the write was cut short where a file or a
link stood, or the system keeps a part of a new header. -/
theorem generate_keeps_files (host : Host) (search : SearchPath) (directory : FilePath)
    (name : QualifiedName)
    (hfailed : ∀ o, (generate host search directory name).outcome.result = .ok o →
      o.status.isWritten = false) :
    MadeAlong directory host.files (generate host search directory name).files ∨
      (generate host search directory name).outcome.result = .ok ⟨name, .writeError⟩ ∧
        let path := directory.append name.headerFile
        let made := (host.withDirectory directory).files
        MadeAlong directory host.files made ∧
        ∃ header own, (foundHeader host search directory name).result = .ok (some header) ∧
          made.find false path = .ok own ∧
          (∀ e, made.entryAt own.location = some e → e ≠ .directory →
            host.files.entryAt own.location = some e) ∧
          (∀ location, location ≠ own.location →
            (∀ place, made.find true path = .ok place → location ≠ place.location) →
            (generate host search directory name).files.entryAt location =
              made.entryAt location) ∧
          Traces made path ⟨header.utf8.toArray⟩ own
            (generate host search directory name).files := by
  have hmade : MadeAlong directory host.files (host.withDirectory directory).files :=
    makeDirectories_made host.files directory
  rcases generate_cases host search directory name with ⟨-, hinto⟩ | ⟨hfiles | hfiles, -⟩
  · rw [hinto] at hfailed ⊢
    rcases generateInto_cases (host.withDirectory directory) search directory name with
      ⟨hfiles, -⟩ | ⟨header, hfound, hwritten⟩
    · rw [hfiles]
      exact .inl hmade
    · rw [hwritten] at hfailed ⊢
      rcases writeHeader_traces hfailed with hsame | ⟨hresult, own, hown, htraces⟩
      · exact .inl (hmade.sameEntries hsame)
      · refine .inr ⟨hresult, hmade, header, own, hfound, hown, ?_, ?_, htraces⟩
        · exact fun e he hnot => entryAt_before_made hmade he hnot
        · exact fun location hother hplace => htraces.entry hother hplace
  · rw [hfiles]
    exact .inl (.refl directory host.files)
  · rw [hfiles]
    exact .inl hmade

/-- The class `A` in the working directory, and a link to the directory `d` where its header is to
stand. -/
def linkedHost : Host where
  files :=
    { entries :=
        [(["A.class"], .file { content := ⟨(userBytes [69]).toArray⟩ }), (["d"], .directory),
          (["out"], .directory), (["A.h", "out"], .link ⟨.relative, ["..", "d"]⟩)]
      workingDirectory := []
      isTree := by decide
      inside := rfl }
  environment := ⟨none, none, none⟩

/-- A class that is not found leaves two new directories behind. -/
theorem generate_keeps_files_notFound :
    let directory : FilePath := ⟨.relative, ["new", "out"]⟩
    let call := generate linkedHost [.directory ⟨.relative, []⟩] directory ⟨"B", none⟩
    (∀ o, call.outcome.result = .ok o → o.status.isWritten = false) ∧
      MadeAlong directory linkedHost.files call.files ∧
      call.files.entryAt ["out", "new"] = some .directory := by
  intro directory call
  have hresult : call.outcome.result = .ok ⟨⟨"B", none⟩, .notFound⟩ := by decide +kernel
  have hfailed : ∀ o, call.outcome.result = .ok o → o.status.isWritten = false := by
    intro o ho
    obtain rfl := Except.ok.inj (hresult.symm.trans ho)
    rfl
  refine ⟨hfailed, ?_, by decide +kernel⟩
  rcases generate_keeps_files linkedHost [.directory ⟨.relative, []⟩] directory ⟨"B", none⟩ hfailed
    with hmade | ⟨hother, -⟩
  · exact hmade
  · cases hresult.symm.trans hother

/-- The class `A` and an old header of it, on a device with space for ten bytes of a file. -/
def fullHost : Host where
  files :=
    { entries :=
        [(["A.class"], .file { content := ⟨(userBytes [69]).toArray⟩ }), (["out"], .directory),
          (["A.h", "out"], .file { content := ⟨#[10]⟩ })]
      workingDirectory := []
      limits := { cut := fun _ size => if 10 < size then some (10, .noSpace) else none }
      isTree := by decide
      inside := rfl }
  environment := ⟨none, none, none⟩

/-- The part of a new header is taken away again, and so is the old header that was to be
rewritten. -/
example :
    let call := fun directory => generate fullHost [.directory ⟨.relative, []⟩]
      ⟨.relative, [directory]⟩ ⟨"A", none⟩
    (call "new").outcome.result = .ok ⟨⟨"A", none⟩, .writeError⟩ ∧
      (call "new").files.entryAt ["A.h", "new"] = none ∧
      (call "out").outcome.result = .ok ⟨⟨"A", none⟩, .writeError⟩ ∧
      (call "out").files.entryAt ["A.h", "out"] = none := by
  decide +kernel

/-- A link to a directory is lost, and no header has been written. -/
theorem generate_loses_link :
    let location : Location := ["A.h", "out"]
    let call := generate linkedHost [.directory ⟨.relative, []⟩] ⟨.relative, ["out"]⟩ ⟨"A", none⟩
    call.outcome.result = .ok ⟨⟨"A", none⟩, .writeError⟩ ∧
      linkedHost.files.entryAt location = some (.link ⟨.relative, ["..", "d"]⟩) ∧
      call.files.entryAt location = none := by
  intro location call
  refine ⟨?_, ?_, ?_⟩
  · decide +kernel
  · decide +kernel
  · decide +kernel

end JniHeader
