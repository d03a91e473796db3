import JniHeader.Proofs.Generation.BatchEnds
import JniHeader.Proofs.Header.Layout

/-!
# Lines that are printed

An output in strict UTF-8 takes every text but those that hold a surrogate. All that a
batch prints is put together from the output directory, the names of the classes and
ASCII, so a batch is never ended by such an output if no surrogate is in the directory
and the names.
-/
namespace JniHeader

/-- The code point has a form in UTF-8 of its own. -/
def CodePoint.isEncodable (c : CodePoint) : Bool := !c.isSurrogate

theorem CodePoint.isEncodable_of_isPlain {c : CodePoint} (h : c.isPlain = true) :
    c.isEncodable = true := by
  simp only [isPlain, within, Bool.and_eq_true, decide_eq_true_eq] at h
  simp only [isEncodable, isSurrogate, within, Bool.not_eq_true', Bool.and_eq_false_iff,
    decide_eq_false_iff_not]
  omega

/-- What an output in strict UTF-8 takes. -/
theorem strictUtf8?_eq_none_iff {t : Text} :
    strictUtf8? t = none ↔ t.Only CodePoint.isEncodable := by
  have hdrop : t.dropWhile (fun c => !c.isSurrogate) = t.dropWhile CodePoint.isEncodable := rfl
  simp only [strictUtf8?, hdrop]
  split
  · next hrun =>
      refine iff_of_true rfl (List.dropWhile_eq_nil_iff.1 ?_)
      rw [List.takeWhile_eq_nil_iff] at hrun
      by_contra hne
      have hpos := List.length_pos_iff.2 hne
      have hfirst := List.dropWhile_get_zero_not CodePoint.isEncodable t hpos
      exact hrun hpos (by simpa [CodePoint.isEncodable] using hfirst)
  · next first more hrun =>
      refine iff_of_false (Option.some_ne_none _) fun hall => ?_
      have hmem : first ∈ (t.dropWhile CodePoint.isEncodable).takeWhile CodePoint.isSurrogate := by
        rw [hrun]
        exact List.mem_cons_self
      have hfirst := hall first
        ((List.dropWhile_sublist _).subset ((List.takeWhile_sublist _).subset hmem))
      rw [CodePoint.isEncodable, List.mem_takeWhile_imp hmem] at hfirst
      cases hfirst

namespace Text

variable {t : Text}

theorem Only.encodable (h : t.Only CodePoint.isPlain) : t.Only CodePoint.isEncodable :=
  h.mono fun _ => CodePoint.isEncodable_of_isPlain

theorem only_blanks (n : ℕ) : Only CodePoint.isPlain (List.replicate n (CodePoint.ofChar ' ')) := by
  intro c hc
  obtain rfl := List.eq_of_mem_replicate hc
  decide

theorem only_groupThousands {P : CodePoint → Bool} (hcomma : P (CodePoint.ofChar ',') = true)
    (h : t.Only P) : (groupThousands t).Only P := by
  induction t using groupThousands.induct with
  | case1 a b c d r ih =>
      simp only [only_cons] at h
      obtain ⟨ha, hb, hc, hrest⟩ := h
      rw [groupThousands]
      simp only [only_cons]
      exact ⟨ha, hb, hc, hcomma, ih (only_cons.2 hrest)⟩
  | case2 short hshort =>
      rw [groupThousands.eq_2 short hshort]
      exact h

theorem only_grouped (i : ℤ) : (grouped i).Only CodePoint.isPlain := by
  have hnat : ∀ n : ℕ, Only CodePoint.isPlain (groupThousands (ofNat n).reverse).reverse := by
    intro n
    have hdigits : Only CodePoint.isPlain (ofNat n).reverse :=
      fun c hc => CodePoint.isPlain_of_isInert (only_ofNat_inert n c (List.mem_reverse.1 hc))
    exact fun c hc => only_groupThousands (by decide) hdigits c (List.mem_reverse.1 hc)
  cases i with
  | ofNat n => exact hnat n
  | negSucc n => exact only_cons.2 ⟨by decide, hnat (n + 1)⟩

end Text

theorem QualifiedName.only_headerFile (n : QualifiedName) :
    n.headerFile.Only CodePoint.isPlain :=
  Text.Only.append (only_mangle _).plain (by decide)

theorem Status.only_text (s : Status) : s.text.Only CodePoint.isPlain := by
  cases s with
  | written path lines => exact (by decide : Text.Only CodePoint.isPlain "written")
  | notFound => decide
  | parseError => decide
  | writeError => decide
  | unsupportedDescriptor => decide

/-- The path of a header is encodable where its directory is. -/
theorem only_append_headerFile {directory : FilePath}
    (h : directory.text.Only CodePoint.isEncodable) (n : QualifiedName) :
    (directory.append n.headerFile).text.Only CodePoint.isEncodable := by
  have hslash : CodePoint.isEncodable (CodePoint.ofChar '/') = true := by decide
  have hdot : CodePoint.isEncodable (CodePoint.ofChar '.') = true := by decide
  rw [n.append_headerFile, Text.Only, FilePath.forall_mem_text_iff hslash hdot]
  rw [Text.Only, FilePath.forall_mem_text_iff hslash hdot] at h
  exact List.forall_mem_append.2 ⟨h, List.forall_mem_singleton.2 n.only_headerFile.encodable⟩

namespace Summary

variable {outcomes : List Outcome}

theorem only_sectionLines {P : CodePoint → Bool} {title : Text} {line : Outcome → Text}
    (htitle : title.Only P) (hlines : ∀ o ∈ outcomes, (line o).Only P) :
    ∀ l ∈ sectionLines title line outcomes, l.Only P := by
  rw [sectionLines]
  split_ifs
  · simp
  · refine List.forall_mem_cons.2 ⟨by simp [Text.Only], List.forall_mem_cons.2 ⟨htitle, ?_⟩⟩
    exact List.forall_mem_map.2 hlines

/-- A summary is encodable where the directory and the names of the classes are. -/
theorem only_text {directory : FilePath} (hdirectory : directory.text.Only CodePoint.isEncodable)
    (hnames : ∀ o ∈ outcomes, o.name.text.Only CodePoint.isEncodable) :
    (ofOutcomes directory outcomes).text.Only CodePoint.isEncodable := by
  have hwritten : ∀ o : Outcome, (writtenLine o).Only CodePoint.isEncodable := by
    intro o
    apply Text.Only.encodable
    refine Text.Only.append (Text.Only.append (Text.Only.append ?_ (by decide)) ?_) (by decide)
    · exact Text.Only.append (by decide) (o.name.only_headerFile.append (Text.only_blanks _))
    · exact (Text.only_blanks _).append (Text.only_grouped _)
  have hnumber : ∀ n : ℕ, (Text.ofNat n).Only CodePoint.isEncodable :=
    fun n => (Text.only_ofNat_inert n).plain.encodable
  have hlines : ∀ l ∈ (ofOutcomes directory outcomes).lines, l.Only CodePoint.isEncodable := by
    simp only [lines, ofOutcomes, List.forall_mem_append, List.forall_mem_cons, List.not_mem_nil,
      false_imp_iff, implies_true, and_true]
    refine ⟨⟨⟨⟨⟨by decide, by decide, ?_⟩, ?_⟩, ?_⟩, ?_⟩, by decide, ?_⟩
    · exact Text.Only.append (by decide) hdirectory
    · exact only_sectionLines (by decide) fun o _ => hwritten o
    · refine only_sectionLines (by decide) fun o ho => ?_
      exact Text.Only.append (by decide) (hnames o (List.mem_of_mem_filter ho))
    · refine only_sectionLines (by decide) fun o ho => ?_
      have hname : Text.Only CodePoint.isEncodable ("    " ++ o.name.text) :=
        Text.Only.append (by decide) (hnames o (List.mem_of_mem_filter ho))
      exact ((hname.append (by decide)).append o.status.only_text.encodable).append (by decide)
    · refine Text.Only.append (Text.Only.append ?_ (Text.only_grouped _).encodable) (by decide)
      refine Text.Only.append (Text.Only.append ?_ (hnumber _)) (by decide)
      exact Text.Only.append (Text.Only.append (by decide) (hnumber _)) (by decide)
  exact (Text.only_joinWith (by decide) hlines).append (by decide)

end Summary

theorem only_entriesLine (search : SearchPath) : (entriesLine search).Only CodePoint.isPlain :=
  Text.Only.append (Text.Only.append (by decide) (Text.only_ofNat_inert _).plain) (by decide)

/-- An output in strict UTF-8 does not end a run if no surrogate is in the output directory and in
the names of the classes. -/
theorem Config.run_not_output_failure {host : Host} {c : Config}
    (hutf8 : host.refusal? = strictUtf8?)
    (hdirectory : c.outputDir.text.Only CodePoint.isEncodable)
    (hnames : ∀ n ∈ c.classNames, n.text.Only CodePoint.isEncodable) (e : PrintError) :
    (c.run host).result ≠ .error (.output e) := by
  have htakes : ∀ t : Text, t.Only CodePoint.isEncodable → host.refusal? t = none := by
    intro t ht
    rw [hutf8]
    exact strictUtf8?_eq_none_iff.2 ht
  cases hsearch : c.searchPath host.files with
  | error e' =>
      simp only [run, hsearch]
      exact fun h => Failure.noConfusion (Except.error.inj h)
  | ok search =>
      have hknown := (Config.searchPath_answers host.files c).ok search hsearch
      rw [result_of_searchPath hsearch]
      dsimp only
      rw [htakes _ (only_entriesLine search).encodable]
      cases hfailure : (generateAll host search c.outputDir c.classNames).failure with
      | none =>
          have hsummary : ∀ o ∈ (generateAll host search c.outputDir c.classNames).outcomes,
              o.name.text.Only CodePoint.isEncodable := by
            intro o ho
            apply hnames
            rw [← generateAll_names hfailure]
            exact List.mem_map_of_mem ho
          rw [htakes _ (Summary.only_text hdirectory hsummary)]
          rintro ⟨⟩
      | some f =>
          dsimp only
          rintro ⟨⟩
          obtain ⟨done, name, rest, -, -, hblocked⟩ := generateAll_blocked hknown hfailure
          cases hblocked with
          | lookup _ _ hlookup => cases hlookup
          | line _ hrefused =>
              have hstart : Text.Only CodePoint.isEncodable "  Written: " := by decide
              have hline := hstart.append (only_append_headerFile hdirectory name)
              cases hrefused.symm.trans (htakes _ hline)

end JniHeader
