import JniHeader.Proofs.Generation.KeptHeaders
import JniHeader.Proofs.Generation.StoredHeaders
import JniHeader.Proofs.Header.Layout
import JniHeader.Proofs.Text.Utf8

/-!
# Calls that write a header

A call that reports a header as written has put one file into the output directory, under
a name of letters, digits and underscores, and apart from directories on the way there it
has changed nothing else. The file holds the header in ASCII, one byte for each character.
Since the directories are made first, it is the header of the class in the file system
with these directories. It is also the header before the call, unless a path of the
search path goes up out of one of these directories: then a class can be found that was
out of reach until then.
-/
namespace JniHeader

open FileSystem

namespace CodePoint

/-- A letter, a digit or an underscore. -/
def isWord (c : CodePoint) : Bool := c.isAsciiLetter || c.isAsciiDigit || c == '_'

theorem isWord_upperDigit {d : ℕ} (h : d < 16) : (upperDigit d).isWord = true := by
  have hall : ∀ k < 16, (upperDigit k).isWord = true := by decide
  exact hall d h

theorem mangled_ne_nil (c : CodePoint) : c.mangled ≠ [] := by
  unfold mangled
  split_ifs
  · decide
  · decide
  · decide
  · decide
  · exact List.cons_ne_nil _ _
  · unfold units
    split_ifs <;> exact List.cons_ne_nil _ _

theorem only_mangled (c : CodePoint) : c.mangled.Only isWord := by
  unfold mangled
  split_ifs with _ _ _ _ hplain
  · decide
  · decide
  · decide
  · decide
  · exact Text.only_singleton.2 (by rw [isWord, hplain, Bool.true_or])
  · refine Text.only_flatMap fun u _ => Text.Only.append (by decide) ?_
    intro d hd
    obtain ⟨k, rfl⟩ := mem_fixedDigits hd
    exact isWord_upperDigit (Nat.mod_lt k (by decide))

end CodePoint

theorem mangle_ne_nil {t : Text} (h : t ≠ []) : mangle t ≠ [] := by
  cases t with
  | nil => exact absurd rfl h
  | cons c rest =>
      intro hnil
      exact c.mangled_ne_nil (List.append_eq_nil_iff.1 hnil).1

theorem QualifiedName.className_ne_nil_of_parse {text : Text} {name : QualifiedName}
    (h : QualifiedName.parse text = .ok name) : name.className ≠ [] := by
  intro hnil
  have hdotted := isDotted_of_parse h
  rw [hnil] at hdotted
  cases hdotted

/-- ASCII is its own encoding. -/
theorem Text.utf8_of_ascii {t : Text} (h : ∀ c ∈ t, c.val < 0x80) :
    t.utf8.map UInt8.toNat = t.map CodePoint.val := by
  induction t with
  | nil => rfl
  | cons c t ih =>
      obtain ⟨hc, ht⟩ := List.forall_mem_cons.1 h
      have hbyte : c.utf8 = [c.val.toUInt8] := by
        rw [CodePoint.utf8, if_pos hc]
      rw [utf8, List.flatMap_cons, hbyte, List.singleton_append, List.map_cons, List.map_cons,
        Utf8.toNat_toUInt8 (by omega)]
      exact congrArg _ (ih ht)

/-- In ASCII the line feeds are the bytes of this number. -/
theorem Text.count_utf8_feed {t : Text} (h : ∀ c ∈ t, c.val < 0x80) :
    t.utf8.count 10 = t.count (CodePoint.ofChar '\n') := by
  have hbytes : t.utf8.count 10 = (t.utf8.map UInt8.toNat).count 10 :=
    (List.count_map_of_injective t.utf8 UInt8.toNat (fun _ _ => UInt8.toNat.inj) 10).symm
  have hpoints : t.count (CodePoint.ofChar '\n') = (t.map CodePoint.val).count 10 :=
    (List.count_map_of_injective t CodePoint.val (fun _ _ => CodePoint.ext) _).symm
  rw [hbytes, hpoints, utf8_of_ascii h]

/-- The header of a class file is ASCII. -/
theorem Header.ascii_of_text {name : QualifiedName} {m : ClassMeta} {bytes : List UInt8}
    {isThrowable : QualifiedName → Reported Bool} {header : Text}
    (hparse : ClassMeta.parse bytes = .ok m)
    (h : (Header.text name m isThrowable).result = .ok header) : ∀ c ∈ header, c.val < 0x80 := by
  obtain ⟨constants, ps, hconstants, -, hps, rfl⟩ := text_eq_ok_iff.1 h
  have hlines := only_partLines hparse hconstants hps
  intro c hc
  rw [ofPrototypes_eq] at hc
  rcases Text.exists_line_of_mem_ofLines hc with rfl | ⟨l, hl, hcl⟩
  · decide
  · have hplain := hlines l hl c hcl
    rw [CodePoint.isPlain, CodePoint.within, Bool.and_eq_true, decide_eq_true_eq,
      decide_eq_true_eq] at hplain
    omega

theorem ascii_of_headerOf {s : ClassSource} {name : QualifiedName} {header : Text}
    (h : (headerOf s name).result = .ok (some header)) : ∀ c ∈ header, c.val < 0x80 := by
  obtain ⟨bytes, m, -, hm, ht⟩ := headerOf_eq_some_iff.1 h
  exact Header.ascii_of_text hm ht

variable {host : Host} {search : SearchPath} {directory : FilePath} {name : QualifiedName}

theorem writeHeader_reported {fs : FileSystem} {header : Text} {o : Outcome} {path : FilePath}
    {lines : ℤ} (h : (writeHeader fs directory name header).outcome.result = .ok o)
    (ho : o.status = .written path lines) :
    path = inDirectory directory name.headerFile ∧
      lines = header.count (CodePoint.ofChar '\n') ∧
      fs.writeFile path ⟨header.utf8.toArray⟩ =
        ((writeHeader fs directory name header).files, .ok ()) := by
  rw [← inDirectory_headerFile]
  simp only [writeHeader] at h ⊢
  split at h
  · next hwrite =>
      obtain rfl := Except.ok.inj h
      obtain ⟨rfl, rfl⟩ := Status.written.inj ho
      exact ⟨rfl, rfl, hwrite⟩
  · cases h
  · obtain rfl := Except.ok.inj h
    cases ho

/-- What a call that reports a header as written has done after making directories. -/
theorem exists_written {o : Outcome} {path : FilePath} {lines : ℤ}
    (h : (generate host search directory name).outcome.result = .ok o)
    (ho : o.status = .written path lines) :
    ∃ header, (foundHeader host search directory name).result = .ok (some header) ∧
      path = inDirectory directory name.headerFile ∧
      lines = header.count (CodePoint.ofChar '\n') ∧
      (host.withDirectory directory).files.writeFile path ⟨header.utf8.toArray⟩ =
        ((generate host search directory name).files, .ok ()) := by
  rcases generate_cases host search directory name with ⟨-, hinto⟩ | ⟨-, hrefused⟩
  · rw [hinto] at h ⊢
    rcases generateInto_cases (host.withDirectory directory) search directory name with
      ⟨-, hother⟩ | ⟨header, hfound, hcall⟩
    · have hnot := hother o h
      rw [ho] at hnot
      cases hnot
    · rw [hcall] at h ⊢
      exact ⟨header, hfound, writeHeader_reported h ho⟩
  · obtain rfl := hrefused o h
    cases ho

/-- One file has been put at a location, after directories have been made along a path. -/
structure OneFile (directory : FilePath) (location : Location) (f : RegularFile)
    (fs fs' : FileSystem) : Prop where
  workingDirectory : fs'.workingDirectory = fs.workingDirectory
  entry : fs'.entryAt location = some (.file f)
  others : ∀ other, other ≠ location → fs'.entryAt other = fs.entryAt other ∨
    fs.entryAt other = none ∧ fs'.entryAt other = some .directory ∧ OnTheWay fs' directory other

/-- A file that is written in a made directory is the only one that changes. -/
theorem oneFile_of_writeFile {fs fs' fs'' : FileSystem} {stem : Text} {content : ByteArray}
    (hlinks : fs'.LinkFree) (hmade : MadeAlong directory fs fs')
    (hwrite : fs'.writeFile (inDirectory directory stem) content = (fs'', .ok ())) :
    ∃ location f, fs''.find true (inDirectory directory stem) = .ok (.file location f) ∧
      f.content = content ∧ OneFile directory location f fs fs'' := by
  obtain ⟨d, f, hstored, hcontent, rfl, hdirectories⟩ := stored_put_of_writeFile hlinks hwrite
  have hhere := (workingDirectory_put fs' (stem :: d) (.file f)).trans hmade.workingDirectory
  refine ⟨stem :: d, f, hstored.find, hcontent, hhere, hstored.entry, fun other hother => ?_⟩
  rw [entryAt_put_of_ne _ hother]
  cases hbefore : fs.entryAt other with
  | some e => exact .inl (hmade.keeps.entry _ _ hbefore)
  | none =>
      rcases hmade.made other hbefore with hnone | ⟨hdirectory, parts, hparts, hwalk⟩
      · exact .inl hnone
      · refine .inr ⟨rfl, hdirectory, parts, hparts, ?_⟩
        rw [walk_of_linkFree hlinks] at hwalk
        rw [walk_of_linkFree hstored.linkFree, workingDirectory_put]
        exact hdirectories.plainWalk hwalk

/-- Where the search path is settled, the header that is found after directories have been made is
the one from before. -/
theorem headerOf_of_foundHeader (hlinks : host.files.LinkFree)
    (hsearch : search.Settled host.environment host.files (host.withDirectory directory).files)
    {header : Text}
    (hfound : (foundHeader host search directory name).result = .ok (some header)) :
    (headerOf (search.source host) name).result = .ok (some header) := by
  have hmade : MadeAlong directory host.files (host.withDirectory directory).files :=
    makeDirectories_made host.files directory
  have hlinks' := Host.withDirectory_linkFree directory hlinks
  apply headerOf_kept _ hfound
  exact SearchPath.resolve_kept hmade hlinks hlinks' host hsearch

/-- A call that reports a header as written has written the whole header to one file directly in the
output directory and has changed nothing else, but that directories on the way there are new. The
header is that of the class once these directories are made, and if no path of the search path goes
up out of one of them, it is that of the class before the call. -/
theorem generate_writes_header (host : Host) (search : SearchPath) (directory : FilePath)
    (text : Text) (name : QualifiedName) (o : Outcome) (path : FilePath) (lines : ℤ)
    (hlinks : host.files.LinkFree) (hname : QualifiedName.parse text = .ok name)
    (hresult : (generate host search directory name).outcome.result = .ok o)
    (hwritten : o.status = .written path lines) :
    ∃ (stem header : Text) (location : Location) (f : RegularFile),
      path = ⟨directory.root, directory.parts ++ [stem ++ ".h"]⟩ ∧
      stem ≠ [] ∧
      (∀ c ∈ stem, c.isAsciiLetter = true ∨ c.isAsciiDigit = true ∨ c = '_') ∧
      (generate host search directory name).files.find true path = .ok (.file location f) ∧
      f.content = ⟨header.utf8.toArray⟩ ∧
      header.utf8.map UInt8.toNat = header.map CodePoint.val ∧
      lines = f.content.data.toList.count 10 ∧
      (headerOf (search.source (host.withDirectory directory)) name).result = .ok (some header) ∧
      (search.Settled host.environment host.files (host.withDirectory directory).files →
        (headerOf (search.source host) name).result = .ok (some header)) ∧
      OneFile directory location f host.files (generate host search directory name).files := by
  obtain ⟨header, hfound, rfl, rfl, hwrite⟩ := exists_written hresult hwritten
  have hmade := makeDirectories_made host.files directory
  have hlinks' := Host.withDirectory_linkFree directory hlinks
  obtain ⟨location, f, hfind, hcontent, hone⟩ := oneFile_of_writeFile hlinks' hmade hwrite
  have hascii := ascii_of_headerOf hfound
  have hstem : ∀ c ∈ mangle name.className,
      c.isAsciiLetter = true ∨ c.isAsciiDigit = true ∨ c = '_' := by
    intro c hc
    have hword := Text.only_flatMap (fun c _ => CodePoint.only_mangled c) c hc
    simpa [CodePoint.isWord, or_assoc] using hword
  refine ⟨mangle name.className, header, location, f, rfl,
    mangle_ne_nil (QualifiedName.className_ne_nil_of_parse hname), hstem, hfind, hcontent,
    Text.utf8_of_ascii hascii, ?_, hfound, ?_, hone⟩
  · rw [hcontent, List.toList_toArray, Text.count_utf8_feed hascii]
  · exact fun hsearch => headerOf_of_foundHeader hlinks hsearch hfound

/-- The header of `A` is written two directories down, neither of which was there. -/
theorem generate_writes_header_new :
    let host := userAndErrorHost [69]
    let search : SearchPath := [.directory userRoot, .directory errorRoot, .runtime none]
    let directory : FilePath := ⟨.relative, ["new", "out"]⟩
    let path : FilePath := ⟨.relative, ["new", "out", "A.h"]⟩
    host.files.LinkFree ∧ QualifiedName.parse "A" = .ok ⟨"A", none⟩ ∧
    (generate host search directory ⟨"A", none⟩).outcome.result =
      .ok ⟨⟨"A", none⟩, .written path 21⟩ ∧
    search.Settled host.environment host.files (host.withDirectory directory).files ∧
    ∃ header location f, (headerOf (search.source host) ⟨"A", none⟩).result = .ok (some header) ∧
      (generate host search directory ⟨"A", none⟩).files.find true path =
        .ok (.file location f) ∧
      f.content = ⟨header.utf8.toArray⟩ := by
  intro host search directory path
  have hlinks : host.files.LinkFree := by decide
  have hname : QualifiedName.parse "A" = .ok ⟨"A", none⟩ := by decide
  have hwritten : (generate host search directory ⟨"A", none⟩).outcome.result =
      .ok ⟨⟨"A", none⟩, .written path 21⟩ := by decide +kernel
  have hprograms : ∀ d ∈ Text.splitAt ':' defaultProgramPath,
      (".." : Text) ∉ (FilePath.ofText d).parts := by decide
  have hsearch : search.Settled host.environment host.files
      (host.withDirectory directory).files := by
    simp only [SearchPath.Settled, search, List.forall_mem_cons]
    refine ⟨settled_of_no_dots (by decide), settled_of_no_dots (by decide), ?_,
      List.forall_mem_nil _⟩
    exact fun d hd => settled_of_no_dots (hprograms d hd)
  obtain ⟨stem, header, location, f, -, -, -, hfind, hcontent, -, -, -, hbefore, -⟩ :=
    generate_writes_header host search directory "A" ⟨"A", none⟩ _ path 21 hlinks hname hwritten rfl
  exact ⟨hlinks, hname, hwritten, hsearch, header, location, f, hbefore hsearch, hfind, hcontent⟩

/-- The class `A` in a directory that is reached by going up out of a missing one. -/
def detourHost : Host where
  files :=
    { entries :=
        [(["cp"], .directory),
          (["A.class", "cp"], .file { content := ⟨(userBytes [69]).toArray⟩ })]
      workingDirectory := []
      isTree := by decide
      inside := rfl }
  environment := ⟨none, none, none⟩

/-- The call makes the directory out of which the search path goes up, and so it writes the header
of a class that was not found before the call. -/
theorem generate_writes_header_detour :
    let search : SearchPath := [.directory ⟨.relative, ["new", "..", "cp"]⟩]
    let directory : FilePath := ⟨.relative, ["new"]⟩
    detourHost.files.LinkFree ∧ QualifiedName.parse "A" = .ok ⟨"A", none⟩ ∧
    (generate detourHost search directory ⟨"A", none⟩).outcome.result =
      .ok ⟨⟨"A", none⟩, .written ⟨.relative, ["new", "A.h"]⟩ 21⟩ ∧
    (headerOf (search.source detourHost) ⟨"A", none⟩).result = .ok none := by
  intro search directory
  refine ⟨by decide, by decide, ?_, ?_⟩
  · decide +kernel
  · decide +kernel

end JniHeader
