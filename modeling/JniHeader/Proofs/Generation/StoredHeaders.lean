import JniHeader.Proofs.Files.Changes
import JniHeader.Proofs.Generation.Lookups
import JniHeader.Proofs.Generation.Turns

/-!
# Stored headers

Without symbolic links every turn writes and removes one file in the output
directory, the header file of its class. So a header that has been written stays as
it is until a class with the same header file comes. Accepted names of different
classes have different header files if they are plain; otherwise the header of one
class can take the place of another's, and both count as written.
-/
namespace JniHeader

open FileSystem

variable {host : Host} {search : SearchPath} {directory : FilePath} {name : QualifiedName}
  {names : List QualifiedName} {d : Location} {other : Text} {files : FileSystem}

theorem Host.withDirectory_linkFree (directory : FilePath) (hlinks : host.files.LinkFree) :
    (host.withDirectory directory).files.LinkFree :=
  (makeDirectories_keeps host.files directory : Keeps [] _ _).linkFree hlinks

theorem inDirectory_headerFile (directory : FilePath) (name : QualifiedName) :
    directory.append name.headerFile = inDirectory directory name.headerFile :=
  name.append_headerFile directory

/-- A turn keeps all files in the output directory but the header file of its class. -/
theorem Turn.keeps {result : Except Failure Outcome}
    (h : Turn host search directory name files result) (hlinks : host.files.LinkFree)
    (hd : Leads host.files directory d) (hne : other ≠ name.headerFile) :
    Keeps (other :: d) host.files files := by
  have hmade : Keeps (other :: d) host.files (host.withDirectory directory).files :=
    makeDirectories_keeps host.files directory
  rcases h.files_cases with rfl | rfl | ⟨content, written, result, hwrite, hfiles⟩
  · exact .refl _ _
  · exact hmade
  · rw [inDirectory_headerFile] at hwrite hfiles
    have hd' := hd.keep hmade
    have hcourse := written_of_writeFile hwrite
    have hwritten : Keeps (other :: d) (host.withDirectory directory).files written :=
      hcourse.keeps (hmade.linkFree hlinks) hd' hne
    have hlinks' := hcourse.linkFree (hmade.linkFree hlinks)
    rcases hfiles with rfl | hremove
    · exact hmade.trans hwritten
    · exact (hmade.trans hwritten).trans
        (removeFile_keeps hlinks' (hd'.keep hwritten) hne hremove)

theorem Turn.linkFree {result : Except Failure Outcome}
    (h : Turn host search directory name files result) (hlinks : host.files.LinkFree) :
    files.LinkFree := by
  have hlinks' := Host.withDirectory_linkFree directory hlinks
  rcases h.files_cases with rfl | rfl | ⟨content, written, result, hwrite, hfiles⟩
  · exact hlinks
  · exact hlinks'
  · have hwritten : written.LinkFree := (written_of_writeFile hwrite).linkFree hlinks'
    rcases hfiles with rfl | hremove
    · exact hwritten
    · exact removeFile_linkFree hwritten hremove

/-- A stored file stays as it is through a batch of classes with other header files. -/
theorem stored_after {f : RegularFile} (h : Stored host.files directory d other f)
    (hne : ∀ n ∈ names, other ≠ n.headerFile) :
    Stored (host.after search directory names).files directory d other f := by
  induction names generalizing host with
  | nil => exact h
  | cons name names ih =>
      rw [List.forall_mem_cons] at hne
      have hfirst : Stored (host.after search directory [name]).files directory d other f :=
        h.keep ((turn_after host search directory name).keeps h.linkFree h.leads hne.1)
      cases hresult : turnResult host search directory name with
      | error f =>
          rw [(generateAll_cons_error hresult).2.2]
          exact hfirst
      | ok o =>
          rw [(generateAll_cons_ok names hresult).2.2]
          exact ih hfirst hne.2

/-- A written header is stored after its turn. -/
theorem Turn.stored {o : Outcome} {path : FilePath} {lines : Int}
    (h : Turn host search directory name files (.ok o)) (hlinks : host.files.LinkFree)
    (hwritten : o.status = .written path lines) :
    path = inDirectory directory name.headerFile ∧
      ∃ header d f, (foundHeader host search directory name).result = .ok (some header) ∧
        Stored files directory d name.headerFile f ∧ f.content = ⟨header.utf8.toArray⟩ := by
  cases h with
  | notDirectory => cases hwritten
  | notMade => cases hwritten
  | noHeader hstatus =>
      obtain rfl := hwritten
      simp at hstatus
  | notWritten _ _ => cases hwritten
  | written hfound hwrite =>
      obtain ⟨rfl, -⟩ := Status.written.inj hwritten
      have hlinks' := Host.withDirectory_linkFree directory hlinks
      rw [inDirectory_headerFile] at hwrite ⊢
      obtain ⟨d, f, hstored, hcontent⟩ := stored_of_writeFile hlinks' hwrite
      exact ⟨rfl, _, d, f, hfound, hstored, hcontent⟩

/-- After a batch every written header is in its file, unless a later class has the same one. -/
theorem generateAll_written {i : ℕ} {o : Outcome} {path : FilePath} {lines : Int}
    (hlinks : host.files.LinkFree)
    (ho : (generateAll host search directory names).outcomes[i]? = some o)
    (hwritten : o.status = .written path lines)
    (hlater : ∀ j n, i < j → names[j]? = some n → n.headerFile ≠ o.name.headerFile) :
    ∃ header f,
      (foundHeader (host.after search directory (names.take i)) search directory o.name).result =
        .ok (some header) ∧
      (host.after search directory names).files.regularFile? path = .ok (some f) ∧
      f.content = ⟨header.utf8.toArray⟩ := by
  induction names generalizing host i with
  | nil => cases ho
  | cons name names ih =>
      have hturn := turn_after host search directory name
      cases hresult : turnResult host search directory name with
      | error f =>
          rw [(generateAll_cons_error hresult).1] at ho
          cases ho
      | ok first =>
          rw [turnResult_ok hresult] at hturn
          obtain ⟨houtcomes, -, hafter⟩ := generateAll_cons_ok names hresult
          rw [houtcomes] at ho
          rw [hafter]
          cases i with
          | zero =>
              obtain rfl : first = o := Option.some.inj ho
              obtain ⟨rfl, header, d, f, hfound, hstored, hcontent⟩ := hturn.stored hlinks hwritten
              rw [hturn.outcome_name] at hlater ⊢
              refine ⟨header, f, hfound, ?_, hcontent⟩
              apply (stored_after hstored _).regularFile?
              intro n hn
              obtain ⟨j, hj⟩ := List.getElem?_of_mem hn
              exact (hlater (j + 1) n (Nat.succ_pos j) hj).symm
          | succ i =>
              rw [List.take_succ_cons, (generateAll_cons_ok _ hresult).2.2]
              apply ih (hturn.linkFree hlinks) ho
              intro j n hij hn
              exact hlater (j + 1) n (Nat.succ_lt_succ hij) hn

/-- When a run ends normally, every file reported as written holds the header that was generated for
its class, provided that the names of the classes are plain. -/
theorem Config.run_stores_headers (host : Host) (c : Config) (outcomes : List Outcome)
    (hlinks : host.files.LinkFree)
    (haccepted : ∀ name ∈ c.classNames, ∃ text, QualifiedName.parse text = .ok name)
    (hdistinct : c.classNames.Pairwise fun a b => a.className ≠ b.className)
    (hplain : ∀ name ∈ c.classNames, name.Plain)
    (hrun : (c.run host).result = .ok outcomes) :
    ∃ search, c.searchPath host.files = .ok search ∧
      ∀ i o path lines, outcomes[i]? = some o → o.status = .written path lines →
        ∃ header f,
          (foundHeader (host.after search c.outputDir (c.classNames.take i)) search c.outputDir
            o.name).result = .ok (some header) ∧
          (c.run host).files.regularFile? path = .ok (some f) ∧
          f.content = ⟨header.utf8.toArray⟩ := by
  obtain ⟨search, hsearch, hfailure, rfl, hfiles, -⟩ := Config.exists_batch hrun
  refine ⟨search, hsearch, ?_⟩
  intro i o path lines ho hwritten
  have hname : c.classNames[i]? = some o.name := by
    rw [← generateAll_names hfailure, List.getElem?_map, ho]
    rfl
  rw [hfiles]
  apply generateAll_written hlinks ho hwritten
  intro j n hij hn hsame
  obtain ⟨hi, hoi⟩ := List.getElem?_eq_some_iff.1 hname
  obtain ⟨hj, hnj⟩ := List.getElem?_eq_some_iff.1 hn
  have hdiffer := List.pairwise_iff_getElem.1 hdistinct i j hi hj hij
  rw [hoi, hnj] at hdiffer
  have hmemo : o.name ∈ c.classNames := List.mem_of_getElem? hname
  have hmemn : n ∈ c.classNames := List.mem_of_getElem? hn
  obtain ⟨text, htext⟩ := haccepted o.name hmemo
  obtain ⟨text', htext'⟩ := haccepted n hmemn
  exact hdiffer (QualifiedName.className_eq_of_headerFile_eq htext htext'
    (hplain o.name hmemo) (hplain n hmemn) hsame.symm)

/-- The classes `A` and `E`, each in a directory of its own. -/
def userAndErrorConfig : Config := ⟨[⟨"A", none⟩, ⟨"E", none⟩], ⟨.relative, ["out"]⟩, "a:e", none⟩

theorem Config.run_stores_headers_userAndError :
    let host := userAndErrorHost [69]
    let c := userAndErrorConfig
    host.files.LinkFree ∧ (∀ name ∈ c.classNames, ∃ text, QualifiedName.parse text = .ok name) ∧
    (c.classNames.Pairwise fun a b => a.className ≠ b.className) ∧
    (∀ name ∈ c.classNames, name.Plain) ∧
    (c.run host).result = .ok
      [⟨⟨"A", none⟩, .written ⟨.relative, ["out", "A.h"]⟩ 21⟩,
        ⟨⟨"E", none⟩, .written ⟨.relative, ["out", "E.h"]⟩ 13⟩] ∧
    ∃ search header header' f f', c.searchPath host.files = .ok search ∧
      (foundHeader host search c.outputDir ⟨"A", none⟩).result = .ok (some header) ∧
      (foundHeader (host.after search c.outputDir [⟨"A", none⟩]) search c.outputDir
        ⟨"E", none⟩).result = .ok (some header') ∧
      (c.run host).files.regularFile? ⟨.relative, ["out", "A.h"]⟩ = .ok (some f) ∧
      (c.run host).files.regularFile? ⟨.relative, ["out", "E.h"]⟩ = .ok (some f') ∧
      f.content = ⟨header.utf8.toArray⟩ ∧ f'.content = ⟨header'.utf8.toArray⟩ := by
  intro host c
  have hlinks : host.files.LinkFree := by decide
  have haccepted : ∀ name ∈ c.classNames, ∃ text, QualifiedName.parse text = .ok name :=
    List.forall_mem_cons.2 ⟨⟨"A", by decide⟩, List.forall_mem_singleton.2 ⟨"E", by decide⟩⟩
  have hdistinct : c.classNames.Pairwise fun a b => a.className ≠ b.className := by decide
  have hplain : ∀ name ∈ c.classNames, name.Plain := by decide
  have hrun : (c.run host).result = .ok
      [⟨⟨"A", none⟩, .written ⟨.relative, ["out", "A.h"]⟩ 21⟩,
        ⟨⟨"E", none⟩, .written ⟨.relative, ["out", "E.h"]⟩ 13⟩] := by
    decide +kernel
  obtain ⟨search, hsearch, hstored⟩ :=
    run_stores_headers host c _ hlinks haccepted hdistinct hplain hrun
  obtain ⟨header, f, hfound, hfile, hcontent⟩ := hstored 0 _ _ _ rfl rfl
  obtain ⟨header', f', hfound', hfile', hcontent'⟩ := hstored 1 _ _ _ rfl rfl
  exact ⟨hlinks, haccepted, hdistinct, hplain, hrun, search, header, header', f, f', hsearch,
    hfound, hfound', hfile, hfile', hcontent, hcontent'⟩

/-- Two classes whose names are mangled to one. -/
def underscoreHost : Host where
  files :=
    { entries :=
        [(["p"], .directory), (["a_b.class", "p"], .file { content := ⟨(userBytes [69]).toArray⟩ }),
          (["a", "p"], .directory),
          (["1b.class", "a", "p"],
            .file { content := ⟨ClassSource.errorSubclassBytes.toArray⟩ })]
      workingDirectory := []
      isTree := by decide
      inside := rfl }
  environment := ⟨none, none, none⟩

def underscoreConfig : Config :=
  ⟨[⟨"a_b", none⟩, ⟨"a.1b", none⟩], ⟨.relative, ["out"]⟩, "p", none⟩

def underscorePath : SearchPath := [.directory ⟨.relative, ["p"]⟩, .runtime none]

theorem eq_ok_some_of_mem {ε α : Type} {r : Except ε (Option α)} {x : α}
    (h : x ∈ r.toOption.join) : r = .ok (some x) := by
  cases r with
  | error e => cases h
  | ok y =>
      obtain rfl : y = some x := h
      rfl

/-- Both headers count as written, and the file of the first holds something else. -/
theorem Config.run_loses_header :
    let host := underscoreHost
    let c := underscoreConfig
    let path : FilePath := ⟨.relative, ["out", "a_1b.h"]⟩
    host.files.LinkFree ∧ (∀ name ∈ c.classNames, ∃ text, QualifiedName.parse text = .ok name) ∧
    (c.classNames.Pairwise fun a b => a.className ≠ b.className) ∧
    (c.run host).result =
      .ok [⟨⟨"a_b", none⟩, .written path 21⟩, ⟨⟨"a.1b", none⟩, .written path 13⟩] ∧
    c.searchPath host.files = .ok underscorePath ∧
    ∃ header f,
      (foundHeader host underscorePath c.outputDir ⟨"a_b", none⟩).result = .ok (some header) ∧
      (c.run host).files.regularFile? path = .ok (some f) ∧
      f.content ≠ ⟨header.utf8.toArray⟩ := by
  intro host c path
  have haccepted : ∀ name ∈ c.classNames, ∃ text, QualifiedName.parse text = .ok name :=
    List.forall_mem_cons.2 ⟨⟨"a_b", by decide⟩, List.forall_mem_singleton.2 ⟨"a.1b", by decide⟩⟩
  have hrun : (c.run host).result = .ok
      [⟨⟨"a_b", none⟩, .written path 21⟩, ⟨⟨"a.1b", none⟩, .written path 13⟩] := by
    decide +kernel
  have hfile : ∃ header ∈ (foundHeader host underscorePath c.outputDir
      ⟨"a_b", none⟩).result.toOption.join,
      ∃ f ∈ ((c.run host).files.regularFile? path).toOption.join,
        f.content ≠ ⟨header.utf8.toArray⟩ := by
    decide +kernel
  obtain ⟨header, hheader, f, hf, hdiffer⟩ := hfile
  exact ⟨by decide, haccepted, by decide, hrun, by decide +kernel, header, f,
    eq_ok_some_of_mem hheader, eq_ok_some_of_mem hf, hdiffer⟩

end JniHeader
