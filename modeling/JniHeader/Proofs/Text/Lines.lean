import JniHeader.Proofs.Text.Split

/-!
# Lines

A text of lines, each with its line feed, is the lines joined by line feeds with one
more at the end. Where no line holds a line feed itself, the lines are read back by
splitting, and their number is the number of line feeds.
-/
namespace JniHeader.Text

/-- The lines one after the other, each with its line feed. -/
def ofLines (lines : List Text) : Text := lines.flatMap fun l => l ++ "\n"

theorem ofLines_cons (l : Text) (ls : List Text) :
    ofLines (l :: ls) = l ++ CodePoint.ofChar '\n' :: ofLines ls := by
  rw [ofLines, List.flatMap_cons, List.append_assoc]
  rfl

theorem ofLines_append (ls ls' : List Text) : ofLines (ls ++ ls') = ofLines ls ++ ofLines ls' :=
  List.flatMap_append

theorem ofLines_flatten (lss : List (List Text)) :
    ofLines lss.flatten = lss.flatMap ofLines := by
  induction lss with
  | nil => rfl
  | cons ls lss ih => rw [List.flatten_cons, ofLines_append, ih, List.flatMap_cons]

theorem unlines_append_feed {ls : List Text} (h : ls ≠ []) : unlines ls ++ "\n" = ofLines ls := by
  match ls with
  | [] => exact absurd rfl h
  | [l] => exact (List.append_nil _).symm
  | l :: l' :: rest =>
      have hrest : unlines (l' :: rest) ++ "\n" = ofLines (l' :: rest) :=
        unlines_append_feed (List.cons_ne_nil l' rest)
      rw [ofLines_cons, ← hrest]
      simp [unlines, joinWith]

/-- Lines without line feeds are read back, with nothing after the last one. -/
theorem splitAt_ofLines {ls : List Text} (h : ∀ l ∈ ls, CodePoint.ofChar '\n' ∉ l) :
    splitAt '\n' (ofLines ls) = ls ++ [[]] := by
  induction ls with
  | nil => rfl
  | cons l ls ih =>
      obtain ⟨hl, hls⟩ := List.forall_mem_cons.1 h
      rw [ofLines_cons, splitAt_append_sep, splitAt_of_not_mem hl, ih hls]
      rfl

theorem count_ofLines {ls : List Text} (h : ∀ l ∈ ls, CodePoint.ofChar '\n' ∉ l) :
    (ofLines ls).count (CodePoint.ofChar '\n') = ls.length := by
  induction ls with
  | nil => rfl
  | cons l ls ih =>
      obtain ⟨hl, hls⟩ := List.forall_mem_cons.1 h
      rw [ofLines_cons, List.count_append, List.count_cons_self, ih hls,
        List.count_eq_zero_of_not_mem hl, List.length_cons, Nat.zero_add]

theorem getLast?_ofLines {ls : List Text} (h : ls ≠ []) :
    (ofLines ls).getLast? = some (CodePoint.ofChar '\n') := by
  rw [← unlines_append_feed h]
  exact List.getLast?_concat

/-- The code points of the text are those of its lines, and line feeds. -/
theorem exists_line_of_mem_ofLines {ls : List Text} {c : CodePoint} (h : c ∈ ofLines ls) :
    c = '\n' ∨ ∃ l ∈ ls, c ∈ l := by
  obtain ⟨l, hl, hc⟩ := List.mem_flatMap.1 h
  rcases List.mem_append.1 hc with hc | hc
  · exact .inr ⟨l, hl, hc⟩
  · exact .inl (List.mem_singleton.1 hc)

end JniHeader.Text
