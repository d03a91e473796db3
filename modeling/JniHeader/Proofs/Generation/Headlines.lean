import JniHeader.Proofs.Generation.BatchEnds
import JniHeader.Proofs.Header.Reports
import JniHeader.Proofs.Text.Lines

/-!
# Headlines

A class without a header has one headline, a line that says what went wrong with it, and
a class with a header has none. Whatever else is reported on the way is a warning or the
detail of a line before. The end of a run and its summary say the same as the headlines:
the summary counts the headers that were written and their lines.
-/
namespace JniHeader

/-- The line says what went wrong with a class. -/
def isHeadline (l : Text) : Bool :=
  List.isPrefixOf (Text.ofString "error:") l ||
    List.isPrefixOf (Text.ofString "Not found class ") l

/-- How many headlines a failure has before it ends the work on a class. -/
def Failure.headlines : Failure → ℕ
  | .classFile _ => 1
  | _ => 0

theorem Failure.headlines_of_ne {f : Failure} (h : ∀ e, f ≠ .classFile e) : f.headlines = 0 := by
  cases f with
  | classFile e => exact absurd rfl (h e)
  | descriptor e => rfl
  | constant e => rfl
  | file e => rfl
  | tooDeep => rfl
  | archive e => rfl
  | unknownProvider label => rfl
  | output e => rfl

/-- How many headlines belong to what was found of a header. -/
def foundHeadlines : Except Failure (Option Text) → ℕ
  | .ok (some _) => 0
  | .ok none => 1
  | .error f => f.headlines

/-- How many headlines belong to what became of a class. -/
def headlines : Except Failure Outcome → ℕ
  | .ok o => if o.status.isWritten then 0 else 1
  | .error f => f.headlines

theorem Status.lineCount_of_not_written {s : Status} (h : ¬ s.isWritten = true) :
    s.lineCount = 0 := by
  cases s with
  | written path lines => exact absurd rfl h
  | notFound => rfl
  | parseError => rfl
  | writeError => rfl
  | unsupportedDescriptor => rfl

open Reported (Reports)

theorem WalkEnd.not_isHeadline {e : WalkEnd} : ∀ l ∈ e.lines, isHeadline l = false := by
  cases e with
  | throwable => exact List.forall_mem_nil _
  | object => exact List.forall_mem_nil _
  | noSuperClass => exact List.forall_mem_nil _
  | missing name => exact List.forall_mem_singleton.2 rfl
  | unreadable name e => exact List.forall_mem_cons.2 ⟨rfl, List.forall_mem_singleton.2 rfl⟩
  | cyclic name => exact List.forall_mem_singleton.2 rfl
  | failed f => exact List.forall_mem_nil _
  | unfinished => exact List.forall_mem_nil _

/-- To ask whether a class is throwable gives no headline, and no fault of a class file. -/
theorem ClassSource.reports_isThrowable (s : ClassSource) (name : QualifiedName) :
    Reports (fun l => isHeadline l = false) (fun f => ∀ e, f ≠ .classFile e)
      (s.isThrowable name) where
  lines := WalkEnd.not_isHeadline
  failure _ hf := by
    obtain ⟨-, -, -, hother⟩ := exists_ancestor_of_error hf
    exact hother

theorem countP_headerOf (s : ClassSource) (name : QualifiedName) :
    (headerOf s name).lines.countP isHeadline = foundHeadlines (headerOf s name).result := by
  unfold headerOf
  split
  · rfl
  · next f hclassFile _ => exact (Failure.headlines_of_ne hclassFile).symm
  · rfl
  · split
    · rfl
    · next m _ =>
        have htext := Header.reports_text s.reports_isThrowable
          (fun _ _ => Failure.noConfusion) (fun _ _ => Failure.noConfusion) name m
        have hfound := htext.bind fun t => .pure (some t)
        rw [List.countP_eq_zero.2 fun l hl => by simp [hfound.lines l hl]]
        cases hresult : (Header.text name m s.isThrowable).result with
        | ok t => simp only [Reported.bind, hresult, Reported.pure, foundHeadlines]
        | error f =>
            simp only [Reported.bind, hresult, foundHeadlines]
            exact (Failure.headlines_of_ne (htext.failure f hresult)).symm

variable {host : Host} {search : SearchPath} {directory : FilePath} {name : QualifiedName}

theorem countP_writeHeader (fs : FileSystem) (directory : FilePath) (name : QualifiedName)
    (header : Text) :
    (writeHeader fs directory name header).outcome.lines.countP isHeadline =
      headlines (writeHeader fs directory name header).outcome.result := by
  simp only [writeHeader]
  split
  · rfl
  · rfl
  · rfl

theorem countP_generateInto (host : Host) (search : SearchPath) (directory : FilePath)
    (name : QualifiedName) :
    (generateInto host search directory name).outcome.lines.countP isHeadline =
      headlines (generateInto host search directory name).outcome.result := by
  have hfound := countP_headerOf (search.source host) name
  simp only [generateInto]
  split
  · next f hf =>
      rw [hf] at hfound
      exact hfound
  · next hnone =>
      rw [hnone] at hfound
      exact hfound
  · next header hheader =>
      rw [hheader] at hfound
      rw [Reported.after, List.countP_append, hfound, countP_writeHeader]
      exact Nat.zero_add _

theorem countP_generate (host : Host) (search : SearchPath) (directory : FilePath)
    (name : QualifiedName) :
    (generate host search directory name).outcome.lines.countP isHeadline =
      headlines (generate host search directory name).outcome.result := by
  unfold generate
  split
  · rfl
  · rfl
  · rfl
  · split
    · exact countP_generateInto _ search directory name
    · rfl
    · next e _ _ => cases e <;> rfl

/-- The turn of a class has one headline if its outcome is no header, and none if it is one. -/
theorem countP_generateOne {o : Outcome}
    (h : (generateOne host search directory name).outcome.result = .ok o) :
    (generateOne host search directory name).outcome.lines.countP isHeadline =
      if o.status.isWritten then 0 else 1 := by
  have hcall := countP_generate host search directory name
  simp only [generateOne] at h ⊢
  split at h
  · next e he =>
      obtain rfl := Except.ok.inj h
      rw [he] at hcall
      exact hcall
  · next e he =>
      obtain rfl := Except.ok.inj h
      rw [he] at hcall
      rw [List.countP_append, hcall]
      rfl
  · rw [h] at hcall
    exact hcall

/-- What the turns of some classes report, one after the other. -/
def turnReports (host : Host) (search : SearchPath) (directory : FilePath) :
    List QualifiedName → List (List Text)
  | [] => []
  | name :: names =>
    (generateOne host search directory name).outcome.lines ::
      turnReports (host.after search directory [name]) search directory names

/-- The header that a turn writes to its file, if it writes one. -/
def turnHeader? (host : Host) (search : SearchPath) (directory : FilePath) (name : QualifiedName) :
    Option Text :=
  match (generateOne host search directory name).outcome.result with
  | .ok o =>
    if o.status.isWritten then (foundHeader host search directory name).result.toOption.join
    else none
  | .error _ => none

/-- A header that a turn writes is what it has put into the file of its class. -/
theorem writeFile_of_turnHeader {header : Text}
    (h : turnHeader? host search directory name = some header) :
    (host.withDirectory directory).files.writeFile (directory.append name.headerFile)
      ⟨header.utf8.toArray⟩ = ((generateOne host search directory name).files, .ok ()) := by
  have hturn := generateOne_turn host search directory name
  unfold turnHeader? at h
  split at h
  · next o ho =>
      split_ifs at h with hwritten
      rw [ho] at hturn
      generalize (generateOne host search directory name).files = files at hturn ⊢
      cases hturn with
      | notDirectory => cases hwritten
      | notMade => cases hwritten
      | noHeader hstatus =>
          simp only [List.mem_cons, List.not_mem_nil, or_false] at hstatus
          rcases hstatus with rfl | rfl | rfl <;> cases hwritten
      | notWritten _ _ => cases hwritten
      | written hfound hwrite =>
          rw [hfound] at h
          obtain rfl := Option.some.inj h
          exact hwrite
  · cases h

/-- The headers that the turns of some classes write, one after the other. -/
def turnHeaders (host : Host) (search : SearchPath) (directory : FilePath) :
    List QualifiedName → List Text
  | [] => []
  | name :: names =>
    (turnHeader? host search directory name).toList ++
      turnHeaders (host.after search directory [name]) search directory names

/-- The number of line feeds in some texts. -/
def feeds (texts : List Text) : ℤ :=
  (texts.map fun t => (t.count (CodePoint.ofChar '\n') : ℤ)).sum

theorem generate_eq_of_written {o : Outcome}
    (h : (generateOne host search directory name).outcome.result = .ok o)
    (hwritten : o.status.isWritten = true) :
    (generate host search directory name).outcome.result = .ok o := by
  simp only [generateOne] at h
  split at h
  · obtain rfl := Except.ok.inj h
    cases hwritten
  · obtain rfl := Except.ok.inj h
    cases hwritten
  · exact h

/-- The line count of an outcome is the number of line feeds in the header that was written. -/
theorem feeds_turnHeader? {o : Outcome}
    (h : (generateOne host search directory name).outcome.result = .ok o) :
    feeds (turnHeader? host search directory name).toList = o.status.lineCount := by
  simp only [turnHeader?, h]
  by_cases hwritten : o.status.isWritten = true
  · have hcall := generate_eq_of_written h hwritten
    rcases generate_cases host search directory name with ⟨-, hinto⟩ | ⟨-, hrefused⟩
    · rw [hinto] at hcall
      rcases generateInto_cases (host.withDirectory directory) search directory name with
        ⟨-, hnot⟩ | ⟨header, hfound, hheader⟩
      · rw [hnot o hcall] at hwritten
        cases hwritten
      · rw [hheader] at hcall
        rw [if_pos hwritten, foundHeader, hfound]
        simp only [Reported.after, writeHeader] at hcall
        split at hcall
        · obtain rfl := Except.ok.inj hcall
          exact Int.add_zero _
        · cases hcall
        · obtain rfl := Except.ok.inj hcall
          cases hwritten
    · rw [hrefused o hcall] at hwritten
      cases hwritten
  · rw [if_neg hwritten, Status.lineCount_of_not_written hwritten]
    rfl

variable {names : List QualifiedName}

/-- In a batch without failure the headlines of each turn are those of its outcome. -/
theorem generateAll_headlines (h : (generateAll host search directory names).failure = none) :
    (generateAll host search directory names).diagnostics =
        (turnReports host search directory names).flatten ∧
      (turnReports host search directory names).map (List.countP isHeadline) =
        (generateAll host search directory names).outcomes.map fun o =>
          if o.status.isWritten then 0 else 1 := by
  induction names generalizing host with
  | nil => exact ⟨rfl, rfl⟩
  | cons name names ih =>
      cases hresult : turnResult host search directory name with
      | error f =>
          rw [(generateAll_cons_error hresult).2.1] at h
          cases h
      | ok o =>
          obtain ⟨houtcomes, hfailure, -⟩ := generateAll_cons_ok names hresult
          have hdiagnostics : (generateAll host search directory (name :: names)).diagnostics =
              (generateOne host search directory name).outcome.lines ++
                (generateAll (host.after search directory [name]) search directory
                  names).diagnostics := by
            rw [Host.after_singleton]
            rw [turnResult] at hresult
            simp only [generateAll, hresult]
          rw [hfailure] at h
          obtain ⟨hrest, hall⟩ := ih h
          rw [hdiagnostics, houtcomes, hrest, turnReports, List.map_cons, List.map_cons, hall,
            countP_generateOne (turnResult_ok hresult)]
          exact ⟨rfl, rfl⟩

namespace Summary

variable {out : FilePath} {outcomes : List Outcome} {o : Outcome}

theorem totalLines_cons :
    (ofOutcomes out (o :: outcomes)).totalLines =
      o.status.lineCount + (ofOutcomes out outcomes).totalLines := by
  simp only [totalLines, ofOutcomes, List.filter_cons]
  by_cases hwritten : o.status.isWritten = true
  · rw [if_pos hwritten, List.foldr_cons]
  · rw [if_neg hwritten, Status.lineCount_of_not_written hwritten, Int.zero_add]

/-- The three lists of a summary share out the outcomes. -/
theorem perm_ofOutcomes (out : FilePath) (outcomes : List Outcome) :
    ((ofOutcomes out outcomes).written ++ (ofOutcomes out outcomes).notFound ++
      (ofOutcomes out outcomes).failed).Perm outcomes := by
  let rest := outcomes.filter fun o => !o.status.isWritten
  have hnotFound : (ofOutcomes out outcomes).notFound =
      rest.filter fun o => o.status == .notFound := by
    simp only [ofOutcomes, rest, List.filter_filter]
    congr 1
    funext o
    cases o.status <;> rfl
  have hfailed : (ofOutcomes out outcomes).failed =
      rest.filter fun o => !(o.status == .notFound) := by
    simp only [ofOutcomes, rest, List.filter_filter]
    congr 1
    funext o
    cases o.status <;> rfl
  rw [hnotFound, hfailed, List.append_assoc]
  exact ((List.filter_append_perm _ rest).append_left _).trans (List.filter_append_perm _ outcomes)

/-- The line with the totals. -/
def totalLine (written total : ℕ) (lines : ℤ) : Text :=
  "  Total: " ++ Text.ofNat written ++ " of " ++ Text.ofNat total ++ " classes, "
    ++ Text.grouped lines ++ " lines"

theorem total_ofOutcomes (out : FilePath) (outcomes : List Outcome) :
    (ofOutcomes out outcomes).total = outcomes.length := by
  have hlength := (perm_ofOutcomes out outcomes).length_eq
  rw [List.length_append, List.length_append] at hlength
  exact hlength

/-- A summary ends with its totals. -/
theorem exists_text_eq (s : Summary) :
    ∃ before, s.text = before ++ line (totalLine s.written.length s.total s.totalLines) := by
  have hlines : ∃ init, s.lines = init ++ [totalLine s.written.length s.total s.totalLines] :=
    ⟨_, (List.append_assoc _ [[]] [totalLine _ _ _]).symm⟩
  obtain ⟨init, hinit⟩ := hlines
  refine ⟨Text.ofLines init, ?_⟩
  rw [text, hinit, Text.unlines_append_feed (by simp), Text.ofLines_append]
  exact congrArg (Text.ofLines init ++ ·) (List.append_nil _)

end Summary

/-- The totals of a batch without failure are those of its headers. -/
theorem totalLines_generateAll {out : FilePath}
    (h : (generateAll host search directory names).failure = none) :
    (Summary.ofOutcomes out (generateAll host search directory names).outcomes).totalLines =
      feeds (turnHeaders host search directory names) := by
  induction names generalizing host with
  | nil => rfl
  | cons name names ih =>
      cases hresult : turnResult host search directory name with
      | error f =>
          rw [(generateAll_cons_error hresult).2.1] at h
          cases h
      | ok o =>
          obtain ⟨houtcomes, hfailure, -⟩ := generateAll_cons_ok names hresult
          rw [hfailure] at h
          rw [houtcomes, Summary.totalLines_cons, ih h, ← feeds_turnHeader? (turnResult_ok hresult),
            turnHeaders, feeds, feeds, feeds, List.map_append, List.sum_append]

/-- A run that returns its outcomes ends normally if all of them are headers and with code 1
otherwise. Every turn has one headline if its outcome is no header, and none if it is one. The
summary shares out the outcomes, and its totals are the number of headers, the number of classes and
the number of lines in the headers. The headers are those that the turns have put into the files of
their classes. -/
theorem Program.run_reports (host : Host) (argv : List Text) (c : Config) (outcomes : List Outcome)
    (hconfigured : configure host argv = .ok c) (hrun : (c.run host).result = .ok outcomes) :
    (run host argv).ending =
        (if ∀ o ∈ outcomes, o.status.isWritten = true then .done else .exit 1) ∧
      ∃ search, c.searchPath host.files = .ok search ∧
        let reports := turnReports host search c.outputDir c.classNames
        let headers := turnHeaders host search c.outputDir c.classNames
        let summary := Summary.ofOutcomes c.outputDir outcomes
        (run host argv).diagnostics = printed reports.flatten ∧
        (reports.map (List.countP isHeadline) =
          outcomes.map fun o => if o.status.isWritten then 0 else 1) ∧
        summary.written.Sublist outcomes ∧ summary.notFound.Sublist outcomes ∧
        summary.failed.Sublist outcomes ∧
        (summary.written ++ summary.notFound ++ summary.failed).Perm outcomes ∧
        (∀ done name rest header, c.classNames = done ++ name :: rest →
          let turn := host.after search c.outputDir done
          turnHeader? turn search c.outputDir name = some header →
          (turn.withDirectory c.outputDir).files.writeFile (c.outputDir.append name.headerFile)
            ⟨header.utf8.toArray⟩ = ((generateOne turn search c.outputDir name).files, .ok ())) ∧
        ∃ before, (run host argv).output = before ++
          line (Summary.totalLine (outcomes.countP fun o => o.status.isWritten)
            c.classNames.length (feeds headers)) := by
  have hexecution : run host argv = runConfig host c := by simp only [run, hconfigured]
  obtain ⟨search, hsearch, hfailure, rfl, -, hdiagnostics, start, houtput⟩ :=
    Config.exists_batch hrun
  obtain ⟨hflatten, hreports⟩ := generateAll_headlines hfailure
  have htotal : (generateAll host search c.outputDir c.classNames).outcomes.length =
      c.classNames.length := by
    rw [← List.length_map (f := Outcome.name), generateAll_names hfailure]
  obtain ⟨before, hbefore⟩ := Summary.exists_text_eq (Summary.ofOutcomes c.outputDir
    (generateAll host search c.outputDir c.classNames).outcomes)
  rw [Summary.total_ofOutcomes, htotal, totalLines_generateAll hfailure] at hbefore
  rw [hexecution]
  simp only [runConfig, hrun]
  refine ⟨?_, search, hsearch, ?_, hreports, List.filter_sublist, List.filter_sublist,
    List.filter_sublist, Summary.perm_ofOutcomes c.outputDir _,
    fun _ _ _ _ _ hheader => writeFile_of_turnHeader hheader, start ++ before, ?_⟩
  · by_cases hall : ∀ o ∈ (generateAll host search c.outputDir c.classNames).outcomes,
        o.status.isWritten = true
    · rw [if_pos hall, if_pos (List.all_eq_true.2 hall)]
    · rw [if_neg hall, if_neg (mt List.all_eq_true.1 hall)]
  · rw [hdiagnostics, hflatten]
  · rw [houtput, hbefore, List.append_assoc, List.countP_eq_length_filter]
    rfl

/-- One header is written and one class is not found. -/
theorem Program.run_reports_missing :
    let argv : List Text := ["-d", "out", "-cp", ".", "A", "B"]
    let c : Config := ⟨[⟨"A", none⟩, ⟨"B", none⟩], outPath, ".", none⟩
    let outcomes : List Outcome :=
      [⟨⟨"A", none⟩, .written (outPath.append "A.h") 21⟩, ⟨⟨"B", none⟩, .notFound⟩]
    configure userHost argv = .ok c ∧ (c.run userHost).result = .ok outcomes ∧
      (run userHost argv).ending = .exit 1 ∧
      ∃ search reports, c.searchPath userHost.files = .ok search ∧
        reports = turnReports userHost search outPath c.classNames ∧
        reports.map (List.countP isHeadline) = [0, 1] ∧
        (run userHost argv).diagnostics = printed reports.flatten := by
  intro argv c outcomes
  have hconfigured : configure userHost argv = .ok c := by
    have hsome : (configure userHost argv).toOption = some c := by decide +kernel
    cases hresult : configure userHost argv with
    | error e =>
        rw [hresult] at hsome
        cases hsome
    | ok c' =>
        rw [hresult] at hsome
        rw [Option.some.inj hsome]
  have hrun : (c.run userHost).result = .ok outcomes := by decide +kernel
  obtain ⟨hending, search, hsearch, hdiagnostics, hreports, -⟩ :=
    run_reports userHost argv c outcomes hconfigured hrun
  refine ⟨hconfigured, hrun, ?_, search, _, hsearch, rfl, hreports, hdiagnostics⟩
  rw [hending, if_neg (by decide)]

end JniHeader
