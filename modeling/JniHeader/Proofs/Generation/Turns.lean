import JniHeader.Generation.Batch
import JniHeader.Proofs.Name.HeaderFile

/-!
# Turns of a batch

A batch takes its classes one after the other. What the turn of one class can come to
is said once, with the files that it leaves behind; what holds of a batch follows by
going through its turns. As long as no turn fails, and the output takes the line of every
header, every class has its outcome.
-/
namespace JniHeader

/-- The machine after an output directory has been made. -/
def Host.withDirectory (host : Host) (directory : FilePath) : Host :=
  { host with files := (host.files.makeDirectories directory).1 }

/-- The machine after the turns of some classes. -/
def Host.after (host : Host) (search : SearchPath) (directory : FilePath)
    (done : List QualifiedName) : Host :=
  { host with files := (generateAll host search directory done).files }

/-- The header of a class as it is found at its turn. -/
def foundHeader (host : Host) (search : SearchPath) (directory : FilePath)
    (name : QualifiedName) : Reported (Option Text) :=
  headerOf (search.source (host.withDirectory directory)) name

/-- The files that the turn of a class can leave, and what the turn comes to. -/
inductive Turn (host : Host) (search : SearchPath) (directory : FilePath) (name : QualifiedName) :
    FileSystem → Except Failure Outcome → Prop
  | notSeen {e : SystemError} :
      host.files.isPresent directory = .error e ∨ host.files.isDirectory directory = .error e →
      Turn host search directory name host.files (.error (.file (.system e)))
  | notDirectory : Turn host search directory name host.files (.ok ⟨name, .writeError⟩)
  | unnamedDirectory {e : UnusableName} :
      (host.files.makeDirectories directory).2 = .error (.file (.name e)) →
      Turn host search directory name (host.withDirectory directory).files
        (.error (.file (.name e)))
  | tooDeep : (host.files.makeDirectories directory).2 = .error .tooDeep →
      Turn host search directory name (host.withDirectory directory).files (.error .tooDeep)
  | notMade : Turn host search directory name (host.withDirectory directory).files
      (.ok ⟨name, .writeError⟩)
  | noHeader {status : Status} :
      status ∈ [Status.notFound, .parseError, .unsupportedDescriptor] →
      Turn host search directory name (host.withDirectory directory).files (.ok ⟨name, status⟩)
  | failed {f : Failure} : (foundHeader host search directory name).result = .error f →
      (∀ e, f ≠ .classFile e) → (∀ e, f ≠ .descriptor e) →
      Turn host search directory name (host.withDirectory directory).files (.error f)
  | written {header : Text} {files : FileSystem} {lines : Int} :
      (foundHeader host search directory name).result = .ok (some header) →
      (host.withDirectory directory).files.writeFile (directory.append name.headerFile)
        ⟨header.utf8.toArray⟩ = (files, .ok ()) →
      Turn host search directory name files
        (.ok ⟨name, .written (directory.append name.headerFile) lines⟩)
  | notWritten {header : Text} {written files : FileSystem} {e : SystemError} :
      (host.withDirectory directory).files.writeFile (directory.append name.headerFile)
        ⟨header.utf8.toArray⟩ = (written, .error (.system e)) →
      files = written ∨ written.removeFile (directory.append name.headerFile) = .ok files →
      Turn host search directory name files (.ok ⟨name, .writeError⟩)

variable {host : Host} {search : SearchPath} {directory : FilePath} {name : QualifiedName}
  {names : List QualifiedName}

theorem Turn.outcome_name {files : FileSystem} {o : Outcome}
    (h : Turn host search directory name files (.ok o)) : o.name = name := by
  cases h with
  | notDirectory => rfl
  | notMade => rfl
  | noHeader _ => rfl
  | written _ _ => rfl
  | notWritten _ _ => rfl

/-- A turn makes the output directory, and then it writes one file at most, which it may remove. -/
theorem Turn.files_cases {files : FileSystem} {result : Except Failure Outcome}
    (h : Turn host search directory name files result) :
    files = host.files ∨ files = (host.withDirectory directory).files ∨
      ∃ content written result, (host.withDirectory directory).files.writeFile
          (directory.append name.headerFile) content = (written, result) ∧
        (files = written ∨ written.removeFile (directory.append name.headerFile) = .ok files) := by
  cases h with
  | notSeen _ => exact .inl rfl
  | notDirectory => exact .inl rfl
  | unnamedDirectory _ => exact .inr (.inl rfl)
  | tooDeep _ => exact .inr (.inl rfl)
  | notMade => exact .inr (.inl rfl)
  | noHeader _ => exact .inr (.inl rfl)
  | failed _ _ _ => exact .inr (.inl rfl)
  | written _ hwrite => exact .inr (.inr ⟨_, files, _, hwrite, .inl rfl⟩)
  | notWritten hwrite hfiles => exact .inr (.inr ⟨_, _, _, hwrite, hfiles⟩)

/-- The failure of a turn is no fault of a class file. -/
theorem Turn.failure {files : FileSystem} {f : Failure}
    (h : Turn host search directory name files (.error f)) :
    (∀ e, f ≠ .classFile e) ∧ ∀ e, f ≠ .descriptor e := by
  cases h with
  | notSeen _ => exact ⟨fun _ => Failure.noConfusion, fun _ => Failure.noConfusion⟩
  | unnamedDirectory _ => exact ⟨fun _ => Failure.noConfusion, fun _ => Failure.noConfusion⟩
  | tooDeep _ => exact ⟨fun _ => Failure.noConfusion, fun _ => Failure.noConfusion⟩
  | failed _ hclassFile hdescriptor => exact ⟨hclassFile, hdescriptor⟩

theorem writeHeader_turn {header : Text} (husable : unusableName? directory.text = none)
    (hfound : (foundHeader host search directory name).result = .ok (some header)) :
    Turn host search directory name
      (writeHeader (host.withDirectory directory).files directory name header).files
      (writeHeader (host.withDirectory directory).files directory name header).outcome.result := by
  simp only [writeHeader]
  split
  · next hwrite => exact .written hfound hwrite
  · next hwrite =>
      have hunusable := FileSystem.unusable_of_writeFile (congrArg Prod.snd hwrite)
      rw [name.usable_append_headerFile husable] at hunusable
      cases hunusable
  · next written e hwrite =>
      apply Turn.notWritten hwrite
      cases written.removeFile (directory.append name.headerFile) with
      | ok files => exact .inr rfl
      | error e => exact .inl rfl

/-- The turn is as described, or the header could not be found. -/
def TurnOrFailure (host : Host) (search : SearchPath) (directory : FilePath) (name : QualifiedName)
    (w : Worked Outcome) : Prop :=
  Turn host search directory name w.files w.outcome.result ∨
    w.files = (host.withDirectory directory).files ∧
      ∃ f, (foundHeader host search directory name).result = .error f ∧ w.outcome.result = .error f

theorem generateInto_turn (husable : unusableName? directory.text = none) :
    TurnOrFailure host search directory name
      (generateInto (host.withDirectory directory) search directory name) := by
  simp only [generateInto]
  split
  · next f hf => exact .inr ⟨rfl, f, hf, rfl⟩
  · exact .inl (.noHeader (by decide))
  · next header hheader => exact .inl (writeHeader_turn husable hheader)

theorem generate_turn (host : Host) (search : SearchPath) (directory : FilePath)
    (name : QualifiedName) :
    TurnOrFailure host search directory name (generate host search directory name) := by
  unfold generate
  split
  · next hpresent => exact .inl (.notSeen (.inl hpresent))
  · next hdirectory _ => exact .inl (.notSeen (.inr hdirectory))
  · exact .inl .notDirectory
  · have hhost : { host with files := (host.files.makeDirectories directory).1 } =
        host.withDirectory directory := rfl
    split
    · next hmade =>
        have husable : unusableName? directory.text = none := by
          by_contra hne
          obtain ⟨e, he⟩ := Option.ne_none_iff_exists'.1 hne
          rw [FileSystem.makeDirectories_of_unusable he] at hmade
          cases hmade
        rw [hmade] at hhost
        rw [hhost]
        exact generateInto_turn husable
    · next hmade =>
        rw [hmade] at hhost
        left
        have hturn : Turn host search directory name _ _ := .notMade
        rwa [← hhost] at hturn
    · next e hsystem hmade =>
        rw [hmade] at hhost
        left
        have hturn : Turn host search directory name (host.withDirectory directory).files
            (.error (.ofDirectory e)) := by
          cases e with
          | tooDeep => exact .tooDeep (congrArg Prod.snd hmade)
          | file e =>
              cases e with
              | system e => exact absurd rfl (hsystem e)
              | name e => exact .unnamedDirectory (congrArg Prod.snd hmade)
        rwa [← hhost] at hturn

/-- A call goes on in the directory that it has made, or it writes no header and does no more than
make directories. -/
theorem generate_cases (host : Host) (search : SearchPath) (directory : FilePath)
    (name : QualifiedName) :
    ((host.files.makeDirectories directory).2 = .ok () ∧
      generate host search directory name =
        generateInto (host.withDirectory directory) search directory name) ∨
    (((generate host search directory name).files = host.files ∨
        (generate host search directory name).files = (host.withDirectory directory).files) ∧
      ∀ o, (generate host search directory name).outcome.result = .ok o →
        o = ⟨name, .writeError⟩) := by
  have hrefused : ∀ o : Outcome, Except.ok (ε := Failure) ⟨name, .writeError⟩ = .ok o →
      o = ⟨name, .writeError⟩ := fun o ho => (Except.ok.inj ho).symm
  have hfailed : ∀ (f : Failure) (o : Outcome), Except.error f = .ok o →
      o = ⟨name, .writeError⟩ := by
    intro f o ho
    cases ho
  have hhost : { host with files := (host.files.makeDirectories directory).1 } =
      host.withDirectory directory := rfl
  unfold generate
  split
  · exact .inr ⟨.inl rfl, hfailed _⟩
  · exact .inr ⟨.inl rfl, hfailed _⟩
  · exact .inr ⟨.inl rfl, hrefused⟩
  · split
    · next hmade =>
        rw [hmade] at hhost
        rw [hhost, hmade]
        exact .inl ⟨rfl, rfl⟩
    · next hmade =>
        rw [hmade] at hhost
        exact .inr ⟨.inr (congrArg Host.files hhost), hrefused⟩
    · next hmade =>
        rw [hmade] at hhost
        exact .inr ⟨.inr (congrArg Host.files hhost), hfailed _⟩

/-- In its directory a call changes nothing and writes no header, or it writes the header that it
has found. -/
theorem generateInto_cases (host : Host) (search : SearchPath) (directory : FilePath)
    (name : QualifiedName) :
    ((generateInto host search directory name).files = host.files ∧
      ∀ o, (generateInto host search directory name).outcome.result = .ok o →
        o.status.isWritten = false) ∨
    ∃ header, (headerOf (search.source host) name).result = .ok (some header) ∧
      generateInto host search directory name =
        ⟨(writeHeader host.files directory name header).files,
          (writeHeader host.files directory name header).outcome.after
            (headerOf (search.source host) name).lines⟩ := by
  simp only [generateInto]
  split
  · refine .inl ⟨rfl, fun o ho => ?_⟩
    cases ho
  · refine .inl ⟨rfl, fun o ho => ?_⟩
    obtain rfl := Except.ok.inj ho
    rfl
  · next header hfound => exact .inr ⟨header, hfound, rfl⟩

/-- Only failures that are no fault of the class file are left to a turn. -/
theorem generateOne_turn (host : Host) (search : SearchPath) (directory : FilePath)
    (name : QualifiedName) :
    Turn host search directory name (generateOne host search directory name).files
      (generateOne host search directory name).outcome.result := by
  simp only [generateOne]
  rcases generate_turn host search directory name with hturn | ⟨hfiles, f, hf, hresult⟩
  · split
    · next e he =>
        rw [he] at hturn
        exact absurd rfl (hturn.failure.1 e)
    · next e he =>
        rw [he] at hturn
        exact absurd rfl (hturn.failure.2 e)
    · exact hturn
  · split
    · rw [hfiles]
      exact .noHeader (by decide)
    · rw [hfiles]
      exact .noHeader (by decide)
    · next hclassFile hdescriptor =>
        rw [hfiles, hresult]
        apply Turn.failed hf
        · rintro e rfl
          exact hclassFile e hresult
        · rintro e rfl
          exact hdescriptor e hresult

/-- What a turn comes to once its line has been printed. -/
def turnResult (host : Host) (search : SearchPath) (directory : FilePath) (name : QualifiedName) :
    Except Failure Outcome :=
  (generateOne host search directory name).outcome.result.bind (Outcome.printed host)

theorem turnResult_ok {o : Outcome} (h : turnResult host search directory name = .ok o) :
    (generateOne host search directory name).outcome.result = .ok o := by
  rw [turnResult] at h
  cases hresult : (generateOne host search directory name).outcome.result with
  | error f =>
      rw [hresult] at h
      cases h
  | ok o' =>
      rw [hresult] at h
      change Outcome.printed host o' = .ok o at h
      unfold Outcome.printed at h
      split at h
      · rw [Except.ok.inj h]
      · cases h

/-- A turn without an outcome has failed, or the output refuses the line of its header. -/
theorem turnResult_error {f : Failure} (h : turnResult host search directory name = .error f) :
    (generateOne host search directory name).outcome.result = .error f ∨
      ∃ o t e, (generateOne host search directory name).outcome.result = .ok o ∧
        o.line? = some t ∧ host.refusal? t = some e ∧ f = .output e := by
  rw [turnResult] at h
  cases hresult : (generateOne host search directory name).outcome.result with
  | error f' =>
      rw [hresult] at h
      exact .inl h
  | ok o =>
      rw [hresult] at h
      change Outcome.printed host o = .error f at h
      unfold Outcome.printed at h
      split at h
      · cases h
      · next e he =>
          obtain ⟨t, ht, he⟩ := Option.bind_eq_some_iff.1 he
          exact .inr ⟨o, t, e, rfl, ht, he, (Except.error.inj h).symm⟩

theorem Host.after_singleton (host : Host) (search : SearchPath) (directory : FilePath)
    (name : QualifiedName) :
    host.after search directory [name] =
      { host with files := (generateOne host search directory name).files } := by
  simp only [after, generateAll]
  split <;> rfl

theorem turn_after (host : Host) (search : SearchPath) (directory : FilePath)
    (name : QualifiedName) :
    Turn host search directory name (host.after search directory [name]).files
      (generateOne host search directory name).outcome.result := by
  rw [Host.after_singleton]
  exact generateOne_turn host search directory name

theorem generateAll_cons_ok {o : Outcome} (names : List QualifiedName)
    (h : turnResult host search directory name = .ok o) :
    (generateAll host search directory (name :: names)).outcomes =
        o :: (generateAll (host.after search directory [name]) search directory names).outcomes ∧
      (generateAll host search directory (name :: names)).failure =
        (generateAll (host.after search directory [name]) search directory names).failure ∧
      host.after search directory (name :: names) =
        (host.after search directory [name]).after search directory names := by
  rw [turnResult] at h
  rw [Host.after_singleton]
  simp only [Host.after, generateAll, h, and_self]

theorem generateAll_cons_error {f : Failure}
    (h : turnResult host search directory name = .error f) :
    (generateAll host search directory (name :: names)).outcomes = [] ∧
      (generateAll host search directory (name :: names)).failure = some f ∧
      host.after search directory (name :: names) = host.after search directory [name] := by
  rw [turnResult] at h
  rw [Host.after_singleton]
  simp only [Host.after, generateAll, h, and_self]

/-- After a batch without failure every class has its outcome, in order. -/
theorem generateAll_names (h : (generateAll host search directory names).failure = none) :
    (generateAll host search directory names).outcomes.map Outcome.name = names := by
  induction names generalizing host with
  | nil => rfl
  | cons name names ih =>
      cases hresult : turnResult host search directory name with
      | error f =>
          rw [(generateAll_cons_error hresult).2.1] at h
          cases h
      | ok o =>
          obtain ⟨houtcomes, hfailure, -⟩ := generateAll_cons_ok names hresult
          have hturn := turn_after host search directory name
          rw [turnResult_ok hresult] at hturn
          rw [hfailure] at h
          rw [houtcomes, List.map_cons, ih h, hturn.outcome_name]

/-- A run that returns its outcomes has gone through its classes without failure and has printed
their summary last. -/
theorem Config.exists_batch {c : Config} {outcomes : List Outcome}
    (hrun : (c.run host).result = .ok outcomes) :
    ∃ search, c.searchPath host.files = .ok search ∧
      (generateAll host search c.outputDir c.classNames).failure = none ∧
      (generateAll host search c.outputDir c.classNames).outcomes = outcomes ∧
      (c.run host).files = (host.after search c.outputDir c.classNames).files ∧
      (c.run host).diagnostics =
        (generateAll host search c.outputDir c.classNames).diagnostics ∧
      ∃ start, (c.run host).output = start ++ (Summary.ofOutcomes c.outputDir outcomes).text := by
  simp only [run] at hrun ⊢
  cases hsearch : c.searchPath host.files with
  | error e =>
      simp only [hsearch] at hrun
      cases hrun
  | ok search =>
      simp only [hsearch] at hrun ⊢
      split at hrun
      · cases hrun
      · split at hrun
        · cases hrun
        · next hfailure =>
            split at hrun
            · cases hrun
            · obtain rfl := Except.ok.inj hrun
              exact ⟨search, rfl, hfailure, rfl, rfl, rfl, _, rfl⟩

end JniHeader
