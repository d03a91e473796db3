import JniHeader.Proofs.Files.Changes
import JniHeader.Proofs.Files.Children
import JniHeader.Proofs.Files.Components
import JniHeader.Proofs.Files.ObstructedPaths
import JniHeader.Proofs.Files.Trees

/-!
# Settled paths

A path that goes up out of a missing directory leads nowhere, and it leads somewhere as
soon as the directory is made. Where a path goes up only out of directories that were
there before, making directories does not matter: the path comes to the same place, or
there was nothing at it. In the second case it comes to nothing again, or to one of the
new directories, in which there are no files, or a name on the way cannot be looked up.
-/
namespace JniHeader

namespace FileSystem

variable {fs fs' : FileSystem} {p q : FilePath} {here d location : Location} {name : Text}
  {parts rest : List Text} {r r' : Except SystemProblem Place}

/-- There is nothing at the location or below it. -/
def Bare (fs : FileSystem) (here : Location) : Prop :=
  ∀ location, here <:+ location → fs.entryAt location = none

theorem Bare.below (h : fs.Bare here) (name : Text) : fs.Bare (name :: here) :=
  fun location hlocation => h location ((List.suffix_cons name here).trans hlocation)

theorem bare_of_none (hnone : fs.entryAt here = none) : fs.Bare here := by
  rintro _ ⟨inner, rfl⟩
  by_cases hinner : inner = []
  · rwa [hinner]
  · by_contra hsome
    obtain ⟨e, he⟩ := Option.ne_none_iff_exists'.1 hsome
    cases hnone.symm.trans (directory_of_append hinner he)

/-- A walk comes to a vacant place, or would have to pass one. -/
inductive Stranded : Except SystemProblem Place → Prop
  | vacant (parent : Location) (name : Text) : Stranded (.ok (.vacant parent name))
  | notFound : Stranded (.error .notFound)

/-- What a walk can come to below a place at which there was nothing. -/
inductive Fresh (fs : FileSystem) : Except SystemProblem Place → Prop
  | directory {d : Location} : fs.Bare d → Fresh fs (.ok (.directory d))
  | stranded {r : Except SystemProblem Place} : Stranded r → Fresh fs r
  | barred {problem : SystemProblem} : problem.isBarrier = true → Fresh fs (.error problem)

/-- A walk comes to the same as before, or it was stranded. -/
inductive Grown (fs : FileSystem) :
    Except SystemProblem Place → Except SystemProblem Place → Prop
  | same (r : Except SystemProblem Place) : Grown fs r r
  | fresh {r r' : Except SystemProblem Place} : Stranded r → Fresh fs r' → Grown fs r r'

theorem stranded_of_absent (hopen : fs.barrier? here name = none) (hdots : name ≠ "..")
    (hnone : fs.entryAt (name :: here) = none) (rest : List Text) :
    Stranded (fs.plainWalk here (name :: rest)) := by
  rw [plainWalk, walkWith, hopen, if_neg hdots, hnone]
  cases rest with
  | nil => exact .vacant here name
  | cons _ _ => exact .notFound

/-- Where there was nothing, there is at most a directory, and no file below it. -/
theorem MadeAlong.fresh (h : MadeAlong q fs fs') (hbare : fs.Bare here)
    (hup : ∀ before after, parts = before ++ (".." : Text) :: after →
      ∀ d, fs'.plainWalk here before ≠ .ok (.directory d)) :
    Fresh fs (fs'.plainWalk here parts) := by
  induction parts generalizing here with
  | nil => exact .directory hbare
  | cons name rest ih =>
      cases hopen : fs'.barrier? here name with
      | some problem =>
          rw [plainWalk, walkWith, hopen]
          exact .barred (isBarrier_of_barrier? hopen)
      | none =>
          by_cases hdots : name = ".."
          · exact absurd rfl (hup [] rest (by rw [hdots, List.nil_append]) here)
          rcases h.made (name :: here) (hbare _ (List.suffix_cons name here)) with
            hnone | ⟨hdirectory, -⟩
          · exact .stranded (stranded_of_absent hopen hdots hnone rest)
          · have henters : Enters fs' here name (name :: here) := .down hopen hdots hdirectory
            rw [henters.plainWalk_cons]
            refine ih (hbare.below name) fun before after hrest d => ?_
            rw [← henters.plainWalk_cons]
            exact hup (name :: before) after (by rw [hrest, List.cons_append]) d

/-- Where a walk goes on in no directory, it depends on one entry. -/
theorem plainWalk_cons_congr (hopen : fs'.barrier? here name = fs.barrier? here name)
    (hdots : name ≠ "..") (hsame : fs'.entryAt (name :: here) = fs.entryAt (name :: here))
    (hnot : fs.entryAt (name :: here) ≠ some .directory) (rest : List Text) :
    fs'.plainWalk here (name :: rest) = fs.plainWalk here (name :: rest) := by
  rw [plainWalk, plainWalk, walkWith, walkWith, if_neg hdots, if_neg hdots, hsame, hopen]
  split
  · rfl
  · split
    · rfl
    · next hdirectory => exact absurd hdirectory hnot
    · rfl
    · rfl

/-- A walk that goes up only out of directories that were there comes to the same place when
directories have been made, or there was nothing. -/
theorem MadeAlong.plainWalk (h : MadeAlong q fs fs')
    (hup : ∀ before after, parts = before ++ (".." : Text) :: after → ∀ d,
      fs'.plainWalk here before = .ok (.directory d) →
      fs.plainWalk here before = .ok (.directory d)) :
    Grown fs (fs.plainWalk here parts) (fs'.plainWalk here parts) := by
  induction parts generalizing here with
  | nil => exact .same _
  | cons name rest ih =>
      have hbarrier : fs'.barrier? here name = fs.barrier? here name :=
        barrier?_congr (by rw [h.keeps.limits]) name
      cases hopen : fs.barrier? here name with
      | some problem =>
          rw [FileSystem.plainWalk, FileSystem.plainWalk, walkWith, walkWith, hbarrier, hopen]
          exact .same _
      | none =>
          rw [hopen] at hbarrier
          -- The walk goes on in one directory in both file systems.
          have hstep : ∀ next, Enters fs here name next → Enters fs' here name next →
              Grown fs (fs.plainWalk here (name :: rest)) (fs'.plainWalk here (name :: rest)) := by
            intro next henters henters'
            rw [henters.plainWalk_cons, henters'.plainWalk_cons]
            refine ih fun before after hrest d hd => ?_
            rw [← henters.plainWalk_cons]
            rw [← henters'.plainWalk_cons] at hd
            exact hup (name :: before) after (by rw [hrest, List.cons_append]) d hd
          by_cases hdots : name = ".."
          · rw [hdots] at hstep hopen hbarrier ⊢
            exact hstep here.tail (.up hopen) (.up hbarrier)
          cases hentry : fs.entryAt (name :: here) with
          | none =>
              refine .fresh (stranded_of_absent hopen hdots hentry rest) ?_
              rcases h.made _ hentry with hnone | ⟨hdirectory, -⟩
              · exact .stranded (stranded_of_absent hbarrier hdots hnone rest)
              · have henters' : Enters fs' here name (name :: here) :=
                  .down hbarrier hdots hdirectory
                rw [henters'.plainWalk_cons]
                refine h.fresh (bare_of_none hentry) fun before after hrest d hd => ?_
                rw [← henters'.plainWalk_cons] at hd
                have hbefore := hup (name :: before) after (by rw [hrest, List.cons_append]) d hd
                have hstranded := stranded_of_absent hopen hdots hentry before
                rw [hbefore] at hstranded
                cases hstranded
          | some e =>
              have hentry' := h.keeps.entry _ _ hentry
              by_cases hdirectory : e = .directory
              · rw [hdirectory] at hentry hentry'
                exact hstep (name :: here) (.down hopen hdots hentry) (.down hbarrier hdots hentry')
              · have hnot : fs.entryAt (name :: here) ≠ some .directory := by
                  rw [hentry]
                  exact fun heq => hdirectory (Option.some.inj heq)
                rw [plainWalk_cons_congr (hbarrier.trans hopen.symm) hdots
                  (hentry'.trans hentry.symm) hnot]
                exact .same _

/-- What the path goes up out of later has been a directory before. -/
def Settled (fs fs' : FileSystem) (p : FilePath) : Prop :=
  ∀ before after, p.parts = before ++ (".." : Text) :: after → ∀ d,
    fs'.walk true maxLinks (startOf p fs'.workingDirectory) before = .ok (.directory d) →
    fs.walk true maxLinks (startOf p fs.workingDirectory) before = .ok (.directory d)

theorem settled_of_no_dots (h : (".." : Text) ∉ p.parts) : Settled fs fs' p := by
  intro before after hparts
  refine absurd ?_ h
  rw [hparts]
  exact List.mem_append_right before List.mem_cons_self

namespace Settled

theorem below (h : Settled fs fs' p) (hdots : (".." : Text) ∉ parts) :
    Settled fs fs' ⟨p.root, p.parts ++ parts⟩ := by
  intro before after hparts
  rcases List.append_eq_append_iff.1 hparts with ⟨inner, -, hrest⟩ | ⟨inner, hfirst, hrest⟩
  · refine absurd ?_ hdots
    rw [hrest]
    exact List.mem_append_right inner List.mem_cons_self
  · cases inner with
    | nil =>
        refine absurd ?_ hdots
        rw [List.nil_append] at hrest
        rw [← hrest]
        exact List.mem_cons_self
    | cons first inner =>
        obtain ⟨rfl, -⟩ := List.cons.inj hrest
        exact h before inner hfirst

/-- A text with at most one dot leads on from a settled path to a settled one. -/
theorem append (h : Settled fs fs' p) {t : Text} (hdots : t.count (CodePoint.ofChar '.') ≤ 1) :
    Settled fs fs' (p.append t) := by
  have hparts := FilePath.two_dots_not_mem_partsOf hdots
  rw [FilePath.append, FilePath.join]
  split
  · exact h.below hparts
  · exact settled_of_no_dots hparts

/-- What is in a directory that was there is at a settled path, whatever its name. -/
theorem inDirectory (h : Settled fs fs' p) (hlinks : fs.LinkFree) (hlinks' : fs'.LinkFree)
    (hd : Leads fs p d) (hd' : Leads fs' p d) (name : Text) :
    Settled fs fs' (inDirectory p name) := by
  intro before after hparts
  change p.parts ++ [name] = before ++ (".." : Text) :: after at hparts
  rcases List.eq_nil_or_concat after with rfl | ⟨init, last, rfl⟩
  · obtain ⟨rfl, -⟩ := List.append_inj' hparts rfl
    change ∀ d, fs'.walk true maxLinks (startOf p fs'.workingDirectory) p.parts = _ →
      fs.walk true maxLinks (startOf p fs.workingDirectory) p.parts = _
    rw [walk_of_linkFree hlinks, walk_of_linkFree hlinks', hd, hd']
    exact fun _ => id
  · rw [List.concat_eq_append, ← List.cons_append, ← List.append_assoc] at hparts
    exact h before init (List.append_inj_left' hparts rfl)

end Settled

theorem ok_of_mapError {ε ε' α : Type} {r : Except ε α} {f : ε → ε'} {x : α}
    (h : r.mapError f = .ok x) : r = .ok x := by
  cases r with
  | error e => cases h
  | ok y =>
      obtain rfl := Except.ok.inj h
      rfl

theorem find_of_regularFile? {f : RegularFile} (h : fs.regularFile? p = .ok (some f)) :
    ∃ location, fs.find true p = .ok (.file location f) := by
  unfold regularFile? look at h
  split at h
  · cases h
  · next place _ hfind =>
      cases place with
      | file location g =>
          obtain rfl := Option.some.inj (Except.ok.inj h)
          exact ⟨location, hfind⟩
      | directory _ => cases h
      | link _ _ => cases h
      | vacant _ _ => cases h
  · cases h
  · split at h <;> cases h

theorem leads_of_look (hlinks : fs.LinkFree) (h : fs.look p = .ok (some (.directory d))) :
    Leads fs p d := by
  obtain ⟨-, hwalk⟩ := directory_of_look h
  rwa [walk_of_linkFree hlinks] at hwalk

/-- The names that were in a directory are those under which there was something. -/
theorem MadeAlong.childNames (h : MadeAlong q fs fs') (d : Location) :
    (fs'.childNames d).filter (fun name => (fs.entryAt (name :: d)).isSome) = fs.childNames d := by
  have hall : (fs.childNames d).filter (fun name => (fs.entryAt (name :: d)).isSome) =
      fs.childNames d :=
    List.filter_eq_self.2 fun name hname => Option.isSome_iff_ne_none.2 (mem_childNames_iff.1 hname)
  rw [← hall]
  apply filter_childNames_congr
  intro name hname
  obtain ⟨e, he⟩ := Option.isSome_iff_exists.1 hname
  rw [he, h.keeps.entry _ _ he]

/-- There is a file at a name in a directory only if its entry is one. -/
theorem entryAt_of_regularFile? (hlinks : fs.LinkFree) (hd : Leads fs p d) {f : RegularFile}
    (hfile : fs.regularFile? (inDirectory p name) = .ok (some f)) :
    fs.entryAt (name :: d) = some (.file f) := by
  obtain ⟨location, hfind⟩ := find_of_regularFile? hfile
  cases hd.ends hlinks hfind fun _ => Place.noConfusion with
  | file _ _ hentry => exact hentry

section Questions
variable (h : MadeAlong q fs fs') (hlinks : fs.LinkFree)
  (hlinks' : fs'.LinkFree)
include h hlinks hlinks'

theorem MadeAlong.find (hp : Settled fs fs' p) :
    fs'.find true p = fs.find true p ∨
      ∃ r r', Stranded r ∧ Fresh fs r' ∧
        fs.find true p = r.mapError (fun problem => .system ⟨problem, some p⟩) ∧
        fs'.find true p = r'.mapError fun problem => .system ⟨problem, some p⟩ := by
  have hwalk : Grown fs (fs.plainWalk (startOf p fs.workingDirectory) p.parts)
      (fs'.plainWalk (startOf p fs.workingDirectory) p.parts) := by
    refine h.plainWalk fun before after hparts => ?_
    rw [← walk_of_linkFree hlinks true maxLinks, ← walk_of_linkFree hlinks' true maxLinks]
    have hup := hp before after hparts
    rwa [h.workingDirectory] at hup
  rcases find_related hlinks hlinks' h.workingDirectory hwalk with
    hsame | ⟨r, r', hgrown, hfind, hfind'⟩
  · exact .inl hsame
  · cases hgrown with
    | same => exact .inl (hfind'.trans hfind.symm)
    | fresh hstranded hfresh => exact .inr ⟨r, r', hstranded, hfresh, hfind, hfind'⟩

/-- A settled path leads to a file exactly if it did. -/
theorem MadeAlong.find_file (hp : Settled fs fs' p) {f : RegularFile} :
    fs'.find true p = .ok (.file location f) ↔ fs.find true p = .ok (.file location f) := by
  rcases h.find hlinks hlinks' hp with hsame | ⟨r, r', hstranded, hfresh, hfind, hfind'⟩
  · rw [hsame]
  · rw [hfind, hfind']
    constructor
    · intro hfile
      rw [ok_of_mapError hfile] at hfresh
      cases hfresh with
      | stranded hstranded' => cases hstranded'
    · intro hfile
      rw [ok_of_mapError hfile] at hstranded
      cases hstranded

/-- The answer about a settled path is kept or refused, or the path leads to a new directory. -/
theorem MadeAlong.look (hp : Settled fs fs' p) :
    fs'.look p = fs.look p ∨ (∃ e, fs'.look p = .error e) ∨
      fs.look p = .ok none ∧ ∃ d, fs.Bare d ∧ fs'.look p = .ok (some (.directory d)) := by
  rcases h.find hlinks hlinks' hp with hsame | ⟨r, r', hstranded, hfresh, hfind, hfind'⟩
  · rw [FileSystem.look, FileSystem.look, hsame]
    exact .inl rfl
  · have hnone : ∀ {fs : FileSystem} {r}, Stranded r →
        fs.find true p = r.mapError (fun problem => .system ⟨problem, some p⟩) →
        fs.look p = .ok none := by
      intro fs r hr hfind
      rw [FileSystem.look, hfind]
      cases hr with
      | vacant parent name => rfl
      | notFound => rfl
    cases hfresh with
    | @directory d hbare =>
        refine .inr (.inr ⟨hnone hstranded hfind, d, hbare, ?_⟩)
        rw [FileSystem.look, hfind']
        rfl
    | stranded hstranded' =>
        rw [hnone hstranded hfind, hnone hstranded' hfind']
        exact .inl rfl
    | @barred problem hbarred =>
        refine .inr (.inl ⟨⟨problem, some p⟩, ?_⟩)
        have habsent : problem.isAbsence = false := by
          cases problem <;> first | rfl | cases hbarred
        rw [FileSystem.look, hfind']
        simp only [Except.mapError, habsent]
        rfl

theorem MadeAlong.regularFile? (hp : Settled fs fs' p) :
    fs'.regularFile? p = fs.regularFile? p ∨ ∃ e, fs'.regularFile? p = .error e := by
  rcases h.look hlinks hlinks' hp with hsame | ⟨e, he⟩ | ⟨hnone, d, -, hd⟩
  · rw [FileSystem.regularFile?, FileSystem.regularFile?, hsame]
    exact .inl rfl
  · rw [FileSystem.regularFile?, he]
    exact .inr ⟨e, rfl⟩
  · rw [FileSystem.regularFile?, FileSystem.regularFile?, hnone, hd]
    exact .inl rfl

theorem MadeAlong.isFile (hp : Settled fs fs' p) :
    fs'.isFile p = fs.isFile p ∨ ∃ e, fs'.isFile p = .error e := by
  rcases h.regularFile? hlinks hlinks' hp with hsame | ⟨e, he⟩
  · rw [FileSystem.isFile, FileSystem.isFile, hsame]
    exact .inl rfl
  · rw [FileSystem.isFile, he]
    exact .inr ⟨e, rfl⟩

omit hlinks in
/-- At a name under which there was nothing, there is no file. -/
theorem MadeAlong.regularFile?_new (hd : fs'.look p = .ok (some (.directory d)))
    (hnone : fs.entryAt (name :: d) = none) (f : RegularFile) :
    fs'.regularFile? (inDirectory p name) ≠ .ok (some f) := by
  intro hfile
  have hentry := entryAt_of_regularFile? hlinks' (leads_of_look hlinks' hd) hfile
  rcases h.made _ hnone with hnone' | ⟨hdirectory, -⟩
  · cases hentry.symm.trans hnone'
  · cases hentry.symm.trans hdirectory

/-- Some of the children are those that were there before, and there is no file at the others. -/
structure ChildrenKept (fs fs' : FileSystem) (before after : List FilePath)
    (old : FilePath → Bool) : Prop where
  before : before = after.filter old
  settled : ∀ x ∈ after, old x = true → Settled fs fs' x
  noFile : ∀ x ∈ after, old x = false → ∀ f, fs'.regularFile? x ≠ .ok (some f)

omit h hlinks hlinks' in
theorem ChildrenKept.nil : ChildrenKept fs fs' [] [] fun _ => true where
  before := rfl
  settled := List.forall_mem_nil _
  noFile := List.forall_mem_nil _

theorem MadeAlong.children_of_directory (hp : Settled fs fs' p)
    (hd : fs.look p = .ok (some (.directory d))) (hd' : fs'.look p = .ok (some (.directory d))) :
    ChildrenKept fs fs' ((fs.childNames d).map (FileSystem.inDirectory p))
      ((fs'.childNames d).map (FileSystem.inDirectory p))
      fun x => (fs.entryAt (x.fileName :: d)).isSome := by
  have hname : ∀ name, (FileSystem.inDirectory p name).fileName = name := by
    intro name
    simp [FilePath.fileName, FileSystem.inDirectory]
  constructor
  · rw [List.filter_map, ← h.childNames d]
    simp only [Function.comp_def, hname]
  · intro x hx _
    obtain ⟨name, -, rfl⟩ := List.mem_map.1 hx
    exact hp.inDirectory hlinks hlinks' (leads_of_look hlinks hd) (leads_of_look hlinks' hd') name
  · intro x hx hold
    obtain ⟨name, -, rfl⟩ := List.mem_map.1 hx
    rw [hname, Option.isSome_eq_false_iff, Option.isNone_iff_eq_none] at hold
    exact h.regularFile?_new hlinks' hd' hold

omit hlinks in
/-- In a new directory there are no files. -/
theorem MadeAlong.children_of_bare (hbare : fs.Bare d)
    (hd : fs'.look p = .ok (some (.directory d))) :
    ChildrenKept fs fs' [] ((fs'.childNames d).map (FileSystem.inDirectory p)) fun _ => false where
  before := (List.filter_false _).symm
  settled _ _ hold := absurd hold Bool.false_ne_true
  noFile x hx _ := by
    obtain ⟨name, -, rfl⟩ := List.mem_map.1 hx
    exact h.regularFile?_new hlinks' hd (hbare _ (List.suffix_cons name d))

/-- The children that may be listed are kept, unless the system refuses to list them. -/
theorem MadeAlong.permittedChildren (hp : Settled fs fs' p) {after : List FilePath}
    (hafter : fs'.permittedChildren p = .ok after) :
    ∃ before old, fs.permittedChildren p = .ok before ∧ ChildrenKept fs fs' before after old := by
  rw [permittedChildren_eq] at hafter ⊢
  rw [h.keeps.limits] at hafter
  rcases h.look hlinks hlinks' hp with hsame | ⟨e, he⟩ | ⟨hnone, d, hbare, hd⟩
  · cases hlook : fs.look p with
    | error e =>
        rw [hsame, hlook] at hafter
        cases hafter
    | ok answer =>
        have hlook' := hsame.trans hlook
        rw [hlook'] at hafter
        match answer with
        | some (.directory d) =>
            cases hlisting : fs.limits.listing d with
            | none =>
                simp only [hlisting] at hafter ⊢
                obtain rfl := Except.ok.inj hafter
                exact ⟨_, _, rfl, h.children_of_directory hlinks hlinks' hp hlook hlook'⟩
            | some refusal =>
                simp only [hlisting] at hafter ⊢
                split_ifs at hafter ⊢
                obtain rfl := Except.ok.inj hafter
                exact ⟨_, _, rfl, .nil⟩
        | none | some (.file _ _) | some (.link _ _) | some (.vacant _ _) =>
            obtain rfl := Except.ok.inj hafter
            exact ⟨_, _, rfl, .nil⟩
  · rw [he] at hafter
    cases hafter
  · rw [hd] at hafter
    rw [hnone]
    cases hlisting : fs.limits.listing d with
    | none =>
        simp only [hlisting] at hafter
        obtain rfl := Except.ok.inj hafter
        exact ⟨_, _, rfl, h.children_of_bare hlinks' hbare hd⟩
    | some refusal =>
        simp only [hlisting] at hafter
        split_ifs at hafter
        obtain rfl := Except.ok.inj hafter
        exact ⟨_, _, rfl, .nil⟩

end Questions

end FileSystem

end JniHeader
