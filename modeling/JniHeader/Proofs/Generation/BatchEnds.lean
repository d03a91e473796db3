import JniHeader.CommandLine.Program
import JniHeader.Proofs.Generation.Lookups
import JniHeader.Proofs.Generation.Turns
import JniHeader.Proofs.Meta.ExportedConstants
import JniHeader.Proofs.Search.Failures

/-!
# How a batch ends

Whatever is wrong with a class file becomes the outcome of its class, and so does
nearly every error in making the output directory or in writing. A batch is kept from
going on in these ways only: the output directory is behind a barrier, has a name that
no file can have or is too deep to be made; a lookup that the header of a class depends
on meets a barrier or an archive with a fault that is not expected; or the output
refuses a line. Otherwise every class gets its outcome.
-/
namespace JniHeader

open Reported (Agree)

/-- A header that fails has failed for its class file, for a descriptor, or in a lookup that it
depends on. Constants never fail. -/
theorem headerOf_failure {s : ClassSource} {name : QualifiedName} {f : Failure}
    (h : (headerOf s name).result = .error f) :
    (∃ e, f = .classFile e) ∨ (∃ e, f = .descriptor e) ∨
      ∃ a, Consults s.lookup name a ∧ s.lookup a = .error f := by
  let justified : Failure → Failure → Prop := fun f _ =>
    (∃ e, f = .classFile e) ∨ (∃ e, f = .descriptor e) ∨
      ∃ a, Consults s.lookup name a ∧ s.lookup a = .error f
  have hself : Agree (.ofFailures justified) (HeaderLike (fun _ _ => True) name)
      (headerOf s name) (headerOf s name) := by
    apply agree_headerOf (B := fun _ _ => True) (fun _ => trivial) (fun _ _ _ => trivial)
    · exact fun e => .inr (.inl ⟨e, rfl⟩)
    · exact fun e => .inl ⟨e, rfl⟩
    · rfl
    · exact fun f hf => .inr (.inr ⟨name, .requested, hf⟩)
    · intro bytes m hbytes hm
      constructor
      · intro x hx e he
        obtain ⟨ls, hls⟩ := ClassMeta.exists_lines hm hx name.mangled
        rw [hls] at he
        cases he
      · intro n hn
        cases hresult : (s.isThrowable n).result with
        | ok b => exact .value trivial hresult hresult trivial
        | error f =>
            obtain ⟨a, ha, hf, -⟩ := ClassSource.exists_ancestor_of_error hresult
            exact .failure trivial hresult hresult
              (.inr (.inr ⟨a, .ancestor hbytes hm hn ha, hf⟩))
  cases hself with
  | value _ hvalue _ _ =>
      rw [h] at hvalue
      cases hvalue
  | failure _ hf _ hjustified =>
      obtain rfl := Except.error.inj (h.symm.trans hf)
      exact hjustified

/-- The ways in which the turn of a class can end a batch. -/
inductive Blocked (host : Host) (search : SearchPath) (directory : FilePath)
    (name : QualifiedName) : Failure → Prop
  | directoryBarred {problem : SystemProblem} : problem.isBarrier = true →
      host.files.look directory = .error ⟨problem, some directory⟩ →
      Blocked host search directory name (.file (.system ⟨problem, some directory⟩))
  | directoryUnusable {e : UnusableName} : unusableName? directory.text = some e →
      Blocked host search directory name (.file (.name e))
  | directoryTooDeep {levels : ℕ} : host.files.limits.levels = some levels →
      levels < directory.parts.length →
      (host.files.makeDirectories directory).2 = .error .tooDeep →
      Blocked host search directory name .tooDeep
  | lookup {a : QualifiedName} {f : Failure} :
      Consults (search.resolve (host.withDirectory directory)) name a →
      search.resolve (host.withDirectory directory) a = .error f → LookupFailure f →
      Blocked host search directory name f
  | line {lines : ℤ} {e : PrintError} :
      (generateOne host search directory name).outcome.result =
        .ok ⟨name, .written (directory.append name.headerFile) lines⟩ →
      host.refusal? ("  Written: " ++ (directory.append name.headerFile).text) = some e →
      Blocked host search directory name (.output e)

variable {host : Host} {search : SearchPath} {directory : FilePath} {name : QualifiedName}
  {names : List QualifiedName}

theorem error_of_map {ε α β : Type} {r : Except ε α} {g : α → β} {e : ε}
    (h : r.map g = .error e) : r = .error e := by
  cases r with
  | ok x => cases h
  | error e' =>
      obtain rfl := Except.error.inj h
      rfl

theorem Turn.blocked {files : FileSystem} {f : Failure} (hknown : search.Known)
    (h : Turn host search directory name files (.error f)) :
    Blocked host search directory name f := by
  cases h with
  | @notSeen e hseen =>
      have hlook : host.files.look directory = .error e := by
        rcases hseen with hpresent | hdirectory
        · exact error_of_map hpresent
        · exact error_of_map hdirectory
      obtain ⟨problem, hbarrier, rfl⟩ := FileSystem.look_error hlook
      exact .directoryBarred hbarrier hlook
  | unnamedDirectory hname =>
      exact .directoryUnusable (FileSystem.unusable_of_makeDirectories hname)
  | tooDeep hdeep =>
      obtain ⟨levels, hlevels, hlt⟩ := FileSystem.exists_levels_of_tooDeep hdeep
      exact .directoryTooDeep hlevels hlt hdeep
  | failed hfound hclassFile hdescriptor =>
      rcases headerOf_failure hfound with ⟨e, rfl⟩ | ⟨e, rfl⟩ | ⟨a, ha, hf⟩
      · exact absurd rfl (hclassFile e)
      · exact absurd rfl (hdescriptor e)
      · rcases SearchPath.resolve_fails hknown a f hf with ⟨e, rfl⟩ | hlookup
        · exact absurd rfl (hclassFile e)
        · exact .lookup ha hf hlookup

/-- Only a written header has a line. -/
theorem Turn.line {files : FileSystem} {o : Outcome} {t : Text}
    (h : Turn host search directory name files (.ok o)) (hline : o.line? = some t) :
    (∃ lines, o = ⟨name, .written (directory.append name.headerFile) lines⟩) ∧
      t = "  Written: " ++ (directory.append name.headerFile).text := by
  cases h with
  | notDirectory => cases hline
  | notMade => cases hline
  | noHeader hstatus =>
      simp only [List.mem_cons, List.not_mem_nil, or_false] at hstatus
      rcases hstatus with rfl | rfl | rfl <;> cases hline
  | notWritten _ _ => cases hline
  | written _ _ => exact ⟨⟨_, rfl⟩, (Option.some.inj hline).symm⟩

theorem blocked_of_turnResult (hknown : search.Known) {f : Failure}
    (h : turnResult host search directory name = .error f) :
    Blocked host search directory name f := by
  have hturn := turn_after host search directory name
  rcases turnResult_error h with hfailed | ⟨o, t, e, ho, hline, hrefused, rfl⟩
  · rw [hfailed] at hturn
    exact hturn.blocked hknown
  · rw [ho] at hturn
    obtain ⟨⟨lines, rfl⟩, rfl⟩ := hturn.line hline
    exact .line ho hrefused

/-- A batch that stops has been blocked at the turn of the first class without an outcome. -/
theorem generateAll_blocked (hknown : search.Known) {f : Failure}
    (h : (generateAll host search directory names).failure = some f) :
    ∃ done name rest, names = done ++ name :: rest ∧
      (generateAll host search directory done).failure = none ∧
      Blocked (host.after search directory done) search directory name f := by
  induction names generalizing host with
  | nil => cases h
  | cons name names ih =>
      cases hresult : turnResult host search directory name with
      | error f' =>
          rw [(generateAll_cons_error hresult).2.1] at h
          obtain rfl := Option.some.inj h
          exact ⟨[], name, names, rfl, rfl, blocked_of_turnResult hknown hresult⟩
      | ok o =>
          rw [(generateAll_cons_ok names hresult).2.1] at h
          obtain ⟨done, name', rest, rfl, hdone, hblocked⟩ := ih h
          refine ⟨name :: done, name', rest, rfl, ?_, ?_⟩
          · rw [(generateAll_cons_ok done hresult).2.1]
            exact hdone
          · rw [(generateAll_cons_ok done hresult).2.2]
            exact hblocked

/-- What a run on its search path returns. -/
theorem Config.result_of_searchPath {c : Config} (h : c.searchPath host.files = .ok search) :
    (c.run host).result =
      let batch := generateAll host search c.outputDir c.classNames
      match host.refusal? (entriesLine search), batch.failure,
        host.refusal? (Summary.ofOutcomes c.outputDir batch.outcomes).text with
      | some e, _, _ => .error (.output e)
      | none, some f, _ => .error f
      | none, none, some e => .error (.output e)
      | none, none, none => .ok batch.outcomes := by
  simp only [run, h]
  cases host.refusal? (entriesLine search) with
  | some e => rfl
  | none =>
      cases (generateAll host search c.outputDir c.classNames).failure with
      | some f => rfl
      | none =>
          cases host.refusal? (Summary.ofOutcomes c.outputDir
              (generateAll host search c.outputDir c.classNames).outcomes).text with
          | some e => rfl
          | none => rfl

/-- A run has an outcome for every class, in order, unless its search path is behind a barrier, the
output refuses the first line or the summary, or a turn is blocked. -/
theorem Config.run_outcomes_or_blocked (host : Host) (c : Config) :
    (∃ outcomes, (c.run host).result = .ok outcomes ∧
      outcomes.map Outcome.name = c.classNames) ∨
    (∃ e, e.Barred ∧ c.searchPath host.files = .error e ∧
      (c.run host).result = .error (.file (.system e))) ∨
    ∃ search, c.searchPath host.files = .ok search ∧
      ((∃ e, host.refusal? (entriesLine search) = some e ∧
          (c.run host).result = .error (.output e)) ∨
        (∃ outcomes e, outcomes.map Outcome.name = c.classNames ∧
          host.refusal? (Summary.ofOutcomes c.outputDir outcomes).text = some e ∧
          (c.run host).result = .error (.output e)) ∨
        ∃ done name rest f, c.classNames = done ++ name :: rest ∧
          (generateAll host search c.outputDir done).failure = none ∧
          Blocked (host.after search c.outputDir done) search c.outputDir name f ∧
          (c.run host).result = .error f) := by
  have hanswers := Config.searchPath_answers host.files c
  cases hsearch : c.searchPath host.files with
  | error e =>
      refine .inr (.inl ⟨e, hanswers.error e hsearch, rfl, ?_⟩)
      simp only [run, hsearch]
  | ok search =>
      have hknown := hanswers.ok search hsearch
      have hresult := result_of_searchPath hsearch
      cases hfirst : host.refusal? (entriesLine search) with
      | some e =>
          simp only [hfirst] at hresult
          exact .inr (.inr ⟨search, rfl, .inl ⟨e, hfirst, hresult⟩⟩)
      | none =>
          cases hfailure : (generateAll host search c.outputDir c.classNames).failure with
          | some f =>
              simp only [hfirst, hfailure] at hresult
              obtain ⟨done, name, rest, hnames, hdone, hblocked⟩ :=
                generateAll_blocked hknown hfailure
              exact .inr (.inr ⟨search, rfl, .inr (.inr
                ⟨done, name, rest, f, hnames, hdone, hblocked, hresult⟩)⟩)
          | none =>
              have hnames := generateAll_names hfailure
              cases hlast : host.refusal? (Summary.ofOutcomes c.outputDir
                  (generateAll host search c.outputDir c.classNames).outcomes).text with
              | some e =>
                  simp only [hfirst, hfailure, hlast] at hresult
                  exact .inr (.inr ⟨search, rfl, .inr (.inl ⟨_, e, hnames, hlast, hresult⟩)⟩)
              | none =>
                  simp only [hfirst, hfailure, hlast] at hresult
                  exact .inl ⟨_, hresult, hnames⟩

/-- A class name that makes a file name too long for the system. -/
def longName : Text := List.replicate 300 (CodePoint.ofChar 'a')

/-- The class `A` in the working directory. -/
def userHost : Host where
  files :=
    { entries := [(["A.class"], .file { content := ⟨(userBytes [69]).toArray⟩ })]
      workingDirectory := []
      isTree := by decide
      inside := rfl }
  environment := ⟨none, none, none⟩

def outPath : FilePath := ⟨.relative, ["out"]⟩

/-- A class of a long name keeps the next one from being generated. -/
theorem Config.run_stops_at_long_name :
    let c : Config := ⟨[⟨longName, none⟩, ⟨"A", none⟩], outPath, ".", none⟩
    let alone : Config := ⟨[⟨"A", none⟩], outPath, ".", none⟩
    (Program.configure userHost ["-d", "out", "-cp", ".", longName, "A"]).toOption = some c ∧
    (c.run userHost).result =
      .error (.file (.system ⟨.nameTooLong, some ⟨.relative, [longName ++ classSuffix]⟩⟩)) ∧
    (c.run userHost).files.regularFile? (outPath.append "A.h") = .ok none ∧
    (alone.run userHost).result =
      .ok [⟨⟨"A", none⟩, .written (outPath.append "A.h") 21⟩] := by
  intro c alone
  refine ⟨?_, ?_, ?_, ?_⟩
  · decide +kernel
  · decide +kernel
  · decide +kernel
  · decide +kernel

end JniHeader
