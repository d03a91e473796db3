import JniHeader.Proofs.Files.Writes

/-!
# Writes that fail

A write that fails has written nothing, or the first part of its content in the place that
the path leads to. When what stands at the path is taken away afterwards, a new file goes
without a trace. In all other cases a trace is left: a file or a link that was there is
gone, or has another content, or the system keeps the part where it is.
-/
namespace JniHeader

namespace FileSystem

variable {fs fs' written : FileSystem} {p : FilePath} {content : ByteArray} {place own : Place}
  {location : Location} {f : RegularFile}

/-- Entries, working directory and limits are the same. -/
structure SameEntries (fs fs' : FileSystem) : Prop where
  workingDirectory : fs'.workingDirectory = fs.workingDirectory
  limits : fs'.limits = fs.limits
  entry : ∀ location, fs'.entryAt location = fs.entryAt location

theorem SameEntries.refl (fs : FileSystem) : SameEntries fs fs := ⟨rfl, rfl, fun _ => rfl⟩

/-- To put an entry into a vacant place and to take it away again changes nothing. -/
theorem sameEntries_erase_put (hvacant : fs.entryAt location = none)
    (hadmits : fs.Admits location) :
    SameEntries fs ((fs.put location (.file f)).erase location) where
  workingDirectory := (workingDirectory_erase _ _).trans (workingDirectory_put _ _ _)
  limits := (limits_erase _ _).trans (limits_put _ _ _)
  entry other := by
    by_cases hsame : other = location
    · rw [hsame, hvacant, entryAt_erase]
      rw [entryAt_put _ hadmits]
      exact fun heq => FileEntry.noConfusion (Option.some.inj heq)
    · rw [entryAt_erase_of_ne hsame, entryAt_put_of_ne _ hsame]

theorem MadeAlong.sameEntries {q : FilePath} {fs'' : FileSystem} (h : MadeAlong q fs fs')
    (hsame : SameEntries fs' fs'') : MadeAlong q fs fs'' :=
  h.trans ⟨hsame.workingDirectory, ⟨hsame.limits, fun l _ he => (hsame.entry l).trans he⟩,
    fun l hnone => .inl ((hsame.entry l).trans hnone)⟩

/-- Directories and links stay when a file is put where none of them is. -/
theorem keepsWays_put (h : ∀ e, fs.entryAt location = some e → ∃ g, e = .file g) :
    KeepsWays fs (fs.put location (.file f)) where
  limits := limits_put fs location _
  entry other _ he hnot := by
    rw [entryAt_put_of_ne _, he]
    rintro rfl
    obtain ⟨g, rfl⟩ := h _ he
    exact hnot g rfl

/-- Only the first part of a content has been written in the place that the path leads to. -/
structure CutShort (fs : FileSystem) (p : FilePath) (content : ByteArray) (place : Place)
    (f : RegularFile) : Prop where
  find : fs.find true p = .ok place
  fillable : fs.Fillable place
  cut : ∃ size r, fs.limits.cut place.location content.size = some (size, r) ∧
    f = filled (content.extract 0 size) place

namespace CutShort

theorem admits (h : CutShort fs p content place f) : fs.Admits place.location :=
  (find_stands h.find).admits h.fillable.not_directory

theorem keepsWays (h : CutShort fs p content place f) :
    KeepsWays fs (fs.put place.location (.file f)) := by
  apply keepsWays_put
  intro e he
  have hstands := find_stands h.find
  cases h.fillable with
  | vacant _ =>
      obtain _ | _ | _ | ⟨-, -, hnone⟩ := hstands
      cases he.symm.trans hnone
  | file _ =>
      obtain _ | hentry := hstands
      exact ⟨_, Option.some.inj (he.symm.trans hentry)⟩

/-- What stands at the path now, a link at its end not followed: the file, or a link that was there
before. -/
theorem find_own (h : CutShort fs p content place f) :
    (fs.find false p = .ok place ∧
      (fs.put place.location (.file f)).find false p = .ok (.file place.location f)) ∨
    ∃ l target, fs.find false p = .ok (.link l target) ∧
      (fs.put place.location (.file f)).find false p = .ok (.link l target) := by
  obtain ⟨husable, hsize, hreaches⟩ := find_eq_ok_iff.1 h.find
  have hbecomes : ∀ {own own' : Place},
      Reaches fs false maxLinks (startOf p fs.workingDirectory) p.parts own →
      Place.Becomes (fs.put place.location (.file f)) own own' →
      fs.find false p = .ok own ∧
        (fs.put place.location (.file f)).find false p = .ok own' := by
    intro own own' hown hplace
    refine ⟨find_eq_ok_iff.2 ⟨husable, hsize, hown⟩, find_eq_ok_iff.2 ⟨husable, hsize, ?_⟩⟩
    rw [workingDirectory_put]
    exact hown.becomes h.keepsWays hplace
  rcases hreaches.ownEnd with hown | ⟨l, target, hown⟩
  · refine .inl (hbecomes hown ?_)
    have hput := entryAt_put (.file f) h.admits
    cases h.fillable with
    | vacant _ => exact .filled hput
    | file _ => exact .file hput
  · exact .inr ⟨l, target, hbecomes hown .link⟩

end CutShort

/-- The file system after what stands at a path has been taken away, if it can be. -/
def cleaned (fs : FileSystem) (p : FilePath) : FileSystem := (fs.removeFile p).toOption.getD fs

theorem cleaned_of_removable (hfind : fs.find false p = .ok place) (h : place.IsRemovable) :
    fs.cleaned p = fs ∧ (∃ r, fs.limits.removing place.location = some r) ∨
      fs.cleaned p = fs.erase place.location := by
  rw [cleaned, removeFile_of_removable hfind h]
  cases hremoving : fs.limits.removing place.location with
  | some r => exact .inl ⟨rfl, r, rfl⟩
  | none => exact .inr rfl

/-- The traces that a write which fails leaves once what stands at its path has been taken away, a
link at the end of the path not followed. -/
inductive Traces (fs : FileSystem) (p : FilePath) (content : ByteArray) (own : Place) :
    FileSystem → Prop
  /-- Nothing has been written, but a link or an unwritable file is gone. -/
  | takenAway {e : FileEntry} : fs.entryAt own.location = some e →
      (e.isLink = true ∨ ∃ g, e = .file g ∧ g.takesContent = false) →
      Traces fs p content own (fs.erase own.location)
  /-- A part has been written, and the system refuses to take away what stands at the path. -/
  | partKept {place : Place} {f : RegularFile} {r : Refusal} : CutShort fs p content place f →
      fs.limits.removing own.location = some r →
      Traces fs p content own (fs.put place.location (.file f))
  /-- A part has been written, and what stood at the path before is gone: the file that was to be
  written, or a link to the place. -/
  | partTaken {place : Place} {f : RegularFile} {e : FileEntry} : CutShort fs p content place f →
      fs.entryAt own.location = some e →
      Traces fs p content own ((fs.put place.location (.file f)).erase own.location)

/-- Traces are left where the path leads to, with a link at its end followed or not, and nowhere
else. -/
theorem Traces.entry (h : Traces fs p content own fs') (hown : location ≠ own.location)
    (hplace : ∀ place, fs.find true p = .ok place → location ≠ place.location) :
    fs'.entryAt location = fs.entryAt location := by
  cases h with
  | takenAway _ _ => rw [entryAt_erase_of_ne hown]
  | partKept hcut _ => rw [entryAt_put_of_ne _ (hplace _ hcut.find)]
  | partTaken hcut _ => rw [entryAt_erase_of_ne hown, entryAt_put_of_ne _ (hplace _ hcut.find)]

/-- A part that has been written leaves no trace if it stood in a new file and could be taken
away. -/
theorem CutShort.traces (h : CutShort fs p content place f) :
    SameEntries fs ((fs.put place.location (.file f)).cleaned p) ∨
      ∃ own, fs.find false p = .ok own ∧
        Traces fs p content own ((fs.put place.location (.file f)).cleaned p) := by
  have hlimits := limits_put fs place.location (.file f)
  rcases h.find_own with ⟨hown, hfile⟩ | ⟨l, target, hown, hlink⟩
  · rcases cleaned_of_removable hfile .file with ⟨hkept, r, hr⟩ | htaken
    · rw [hkept]
      rw [hlimits] at hr
      exact .inr ⟨place, hown, .partKept h hr⟩
    · rw [htaken]
      cases hentry : fs.entryAt place.location with
      | none => exact .inl (sameEntries_erase_put hentry h.admits)
      | some e => exact .inr ⟨place, hown, .partTaken h hentry⟩
  · right
    refine ⟨_, hown, ?_⟩
    rcases cleaned_of_removable hlink .link with ⟨hkept, r, hr⟩ | htaken
    · rw [hkept]
      rw [hlimits] at hr
      exact .partKept h hr
    · rw [htaken]
      obtain _ | _ | hentry := find_stands hown
      exact .partTaken h hentry

/-- Where nothing can be written, only a link or an unwritable file can be taken away. -/
theorem traces_of_refused (hnot : ∀ place, fs.find true p = .ok place → ¬ fs.Fillable place) :
    fs.cleaned p = fs ∨
      ∃ own, fs.find false p = .ok own ∧ Traces fs p content own (fs.cleaned p) := by
  rw [FileSystem.cleaned]
  cases hremove : fs.removeFile p with
  | error e => exact .inl rfl
  | ok fs' =>
      obtain ⟨own, hown, hremovable, rfl⟩ := removeFile_ok hremove
      refine .inr ⟨own, hown, ?_⟩
      cases hremovable with
      | link =>
          obtain _ | _ | hentry := find_stands hown
          exact .takenAway hentry (.inl rfl)
      | @file location g =>
          obtain _ | hentry := find_stands hown
          refine .takenAway hentry (.inr ⟨g, rfl, ?_⟩)
          obtain ⟨husable, hsize, hreaches⟩ := find_eq_ok_iff.1 hown
          -- Following links at its end makes no difference to a path that ends at a file.
          have hfollow : fs.find true p = .ok (.file location g) :=
            find_eq_ok_iff.2 ⟨husable, hsize, hreaches.followEnd fun _ _ => Place.noConfusion⟩
          exact Bool.eq_false_iff.2 fun htakes => hnot _ hfollow (.file htakes)

theorem traces_of_writeFile {e : FileError} (h : fs.writeFile p content = (written, .error e)) :
    SameEntries fs (written.cleaned p) ∨
      ∃ own, fs.find false p = .ok own ∧ Traces fs p content own (written.cleaned p) := by
  cases written_of_writeFile h with
  | refused hnot =>
      rcases traces_of_refused hnot with hsame | htraces
      · rw [hsame]
        exact .inl (.refl fs)
      · exact .inr htraces
  | part hfind hfillable hcut => exact CutShort.traces ⟨hfind, hfillable, _, _, hcut, rfl⟩

end FileSystem

end JniHeader
