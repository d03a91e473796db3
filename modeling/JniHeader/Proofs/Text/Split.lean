import JniHeader.Text.CodePoint
import Mathlib.Data.List.TakeWhile
import Mathlib.Tactic.Common

/-!
# Splitting at a separator

Splitting a text at a code point is splitting the list of its code points. The
parts determine the text and are found again between separators, a separator that
is not in a text leaves it whole, and splitting at a separator that replaces another
gives the parts of the other. A text is cut where its first separator is.
-/
namespace JniHeader

namespace Text

theorem splitAt_eq_splitOn (sep : CodePoint) (t : Text) : splitAt sep t = List.splitOn sep t := by
  induction t with
  | nil => rfl
  | cons c t ih =>
      rw [splitAt, ih, List.splitOn_cons_eq_if_modifyHead]
      by_cases hc : c = sep
      · rw [if_pos hc, if_pos (by simpa using hc)]
      · rw [if_neg hc, if_neg (by simpa using hc)]
        obtain ⟨piece, pieces, hpieces⟩ := List.exists_cons_of_ne_nil (List.splitOn_ne_nil sep t)
        rw [hpieces]
        rfl

theorem splitAt_ne_nil (sep : CodePoint) (t : Text) : splitAt sep t ≠ [] := by
  rw [splitAt_eq_splitOn]
  exact List.splitOn_ne_nil sep t

theorem splitAt_sep (sep : CodePoint) (t : Text) :
    splitAt sep (sep :: t) = [] :: splitAt sep t := by
  rw [splitAt, if_pos rfl]

theorem splitAt_cons_of_ne {sep c : CodePoint} (hc : c ≠ sep) (t : Text) :
    splitAt sep (c :: t) = (splitAt sep t).modifyHead (List.cons c) := by
  rw [splitAt_eq_splitOn, splitAt_eq_splitOn, List.splitOn_cons_eq_if_modifyHead,
    if_neg (by simpa using hc)]

/-- The parts of two texts with a separator between them. -/
theorem splitAt_append_sep (sep : CodePoint) (s t : Text) :
    splitAt sep (s ++ sep :: t) = splitAt sep s ++ splitAt sep t := by
  rw [splitAt_eq_splitOn, splitAt_eq_splitOn, splitAt_eq_splitOn]
  exact List.splitOn_append_cons_self s t

theorem splitAt_of_not_mem {sep : CodePoint} {t : Text} (h : sep ∉ t) : splitAt sep t = [t] := by
  rw [splitAt_eq_splitOn]
  exact List.splitOn_eq_singleton h

/-- What holds no separator joins the last part. -/
theorem splitAt_append_of_not_mem {sep : CodePoint} {t : Text} (h : sep ∉ t) (s : Text) :
    ∃ init last, splitAt sep s = init ++ [last] ∧ splitAt sep (s ++ t) = init ++ [last ++ t] := by
  induction s with
  | nil => exact ⟨[], [], rfl, splitAt_of_not_mem h⟩
  | cons c s ih =>
      obtain ⟨init, last, hs, hst⟩ := ih
      by_cases hc : c = sep
      · rw [hc, List.cons_append, splitAt_sep, splitAt_sep, hs, hst]
        exact ⟨[] :: init, last, rfl, rfl⟩
      · rw [List.cons_append, splitAt_cons_of_ne hc, splitAt_cons_of_ne hc, hs, hst]
        cases init with
        | nil => exact ⟨[], c :: last, rfl, rfl⟩
        | cons part init => exact ⟨(c :: part) :: init, last, rfl, rfl⟩

/-- The parts determine the text. -/
theorem splitAt_injective (sep : CodePoint) {s t : Text} (h : splitAt sep s = splitAt sep t) :
    s = t := by
  rw [splitAt_eq_splitOn, splitAt_eq_splitOn] at h
  have hs : [sep].intercalate (List.splitOn sep s) = s := List.intercalate_splitOn sep
  have ht : [sep].intercalate (List.splitOn sep t) = t := List.intercalate_splitOn sep
  rw [← hs, h, ht]

theorem replace_cons (old new c : CodePoint) (t : Text) :
    replace old new (c :: t) = (if c = old then new else c) :: replace old new t := rfl

theorem replace_append (old new : CodePoint) (s t : Text) :
    replace old new (s ++ t) = replace old new s ++ replace old new t := List.map_append

theorem replace_of_not_mem {old new : CodePoint} {t : Text} (h : old ∉ t) :
    replace old new t = t := by
  induction t with
  | nil => rfl
  | cons c t ih =>
      obtain ⟨hc, ht⟩ := not_or.1 (mt List.mem_cons.2 h)
      rw [replace_cons, if_neg (Ne.symm hc), ih ht]

/-- A replacement by a new code point is undone by the opposite one. -/
theorem replace_replace {old new : CodePoint} {t : Text} (h : new ∉ t) :
    replace new old (replace old new t) = t := by
  induction t with
  | nil => rfl
  | cons c t ih =>
      obtain ⟨hc, ht⟩ := not_or.1 (mt List.mem_cons.2 h)
      rw [replace_cons, replace_cons, ih ht]
      by_cases hold : c = old
      · rw [if_pos hold, if_pos rfl, hold]
      · rw [if_neg hold, if_neg (Ne.symm hc)]

theorem splitAt_replace {old new : CodePoint} {t : Text} (h : new ∉ t) :
    splitAt new (replace old new t) = splitAt old t := by
  induction t with
  | nil => rfl
  | cons c t ih =>
      obtain ⟨hc, ht⟩ := not_or.1 (mt List.mem_cons.2 h)
      rw [replace_cons]
      by_cases hold : c = old
      · rw [if_pos hold, hold, splitAt_sep, splitAt_sep, ih ht]
      · rw [if_neg hold, splitAt_cons_of_ne (Ne.symm hc), splitAt_cons_of_ne hold, ih ht]

/-- The parts hold nothing but code points of the text, in their order. -/
theorem sublist_of_mem_splitAt {sep : CodePoint} {part t : Text} (h : part ∈ splitAt sep t) :
    List.Sublist part t := by
  induction t generalizing part with
  | nil =>
      obtain rfl : part = [] := List.mem_singleton.1 h
      exact List.Sublist.slnil
  | cons c t ih =>
      by_cases hc : c = sep
      · rw [hc, splitAt_sep, List.mem_cons] at h
        rcases h with rfl | h
        · exact List.nil_sublist _
        · exact (ih h).cons c
      · obtain ⟨piece, pieces, hpieces⟩ := List.exists_cons_of_ne_nil (splitAt_ne_nil sep t)
        rw [splitAt_cons_of_ne hc, hpieces, List.modifyHead_cons, List.mem_cons] at h
        rcases h with rfl | h
        · apply List.Sublist.cons_cons
          apply ih
          rw [hpieces]
          exact List.mem_cons_self
        · apply List.Sublist.cons
          apply ih
          rw [hpieces]
          exact List.mem_cons_of_mem _ h

theorem not_mem_of_mem_splitAt {sep : CodePoint} {part t : Text} (h : part ∈ splitAt sep t) :
    sep ∉ part := by
  induction t generalizing part with
  | nil =>
      obtain rfl : part = [] := List.mem_singleton.1 h
      exact List.not_mem_nil
  | cons c t ih =>
      by_cases hc : c = sep
      · rw [hc, splitAt_sep, List.mem_cons] at h
        rcases h with rfl | h
        · exact List.not_mem_nil
        · exact ih h
      · obtain ⟨piece, pieces, hpieces⟩ := List.exists_cons_of_ne_nil (splitAt_ne_nil sep t)
        rw [splitAt_cons_of_ne hc, hpieces, List.modifyHead_cons, List.mem_cons] at h
        rw [hpieces] at ih
        rcases h with rfl | h
        · exact not_or.2 ⟨Ne.symm hc, ih List.mem_cons_self⟩ ∘ List.mem_cons.1
        · exact ih (List.mem_cons_of_mem _ h)

theorem joinWith_eq_intercalate (sep : Text) (ts : List Text) :
    joinWith sep ts = sep.intercalate ts := by
  match ts with
  | [] => rfl
  | [t] => simp [joinWith]
  | t :: t' :: rest =>
      have hcons : joinWith sep (t :: t' :: rest) = t ++ sep ++ joinWith sep (t' :: rest) := rfl
      rw [hcons, joinWith_eq_intercalate sep (t' :: rest), List.intercalate_cons_cons,
        List.append_assoc]

/-- The text is its parts with separators between them. -/
theorem joinWith_splitAt (sep : CodePoint) (t : Text) : joinWith [sep] (splitAt sep t) = t := by
  rw [joinWith_eq_intercalate, splitAt_eq_splitOn]
  exact List.intercalate_splitOn sep

/-- Parts that hold no separator are found again between separators. -/
theorem splitAt_joinWith {sep : CodePoint} {ts : List Text} (hne : ts ≠ [])
    (h : ∀ t ∈ ts, sep ∉ t) : splitAt sep (joinWith [sep] ts) = ts := by
  rw [joinWith_eq_intercalate, splitAt_eq_splitOn]
  exact List.splitOn_intercalate sep h hne

theorem cutFirst_of_not_mem {sep : CodePoint} {t : Text} (h : sep ∉ t) :
    cutFirst sep t = (t, none) := by
  have hdrop : t.dropWhile (· ≠ sep) = [] := by
    rw [List.dropWhile_eq_nil_iff]
    exact fun c hc => decide_eq_true (ne_of_mem_of_not_mem hc h)
  rw [cutFirst, hdrop]

/-- The cut is at the first separator. -/
theorem cutFirst_append {sep : CodePoint} {s : Text} (h : sep ∉ s) (t : Text) :
    cutFirst sep (s ++ sep :: t) = (s, some t) := by
  have hall : ∀ c ∈ s, decide (c ≠ sep) = true := fun c hc =>
    decide_eq_true (ne_of_mem_of_not_mem hc h)
  have hdrop : (s ++ sep :: t).dropWhile (· ≠ sep) = sep :: t := by
    rw [List.dropWhile_append_of_pos hall, List.dropWhile_cons_of_neg (by simp)]
  have htake : (s ++ sep :: t).takeWhile (· ≠ sep) = s := by
    rw [List.takeWhile_append_of_pos hall, List.takeWhile_cons_of_neg (by simp), List.append_nil]
  rw [cutFirst, hdrop, htake]

theorem exists_mem_splitAt {sep c : CodePoint} {t : Text} (h : c ∈ t) (hc : c ≠ sep) :
    ∃ part ∈ splitAt sep t, c ∈ part := by
  induction t with
  | nil => cases h
  | cons d t ih =>
      by_cases hd : d = sep
      · rw [hd, splitAt_sep]
        rcases List.mem_cons.1 h with rfl | h
        · exact absurd hd hc
        · obtain ⟨part, hpart, hmem⟩ := ih h
          exact ⟨part, List.mem_cons_of_mem _ hpart, hmem⟩
      · obtain ⟨piece, pieces, hpieces⟩ := List.exists_cons_of_ne_nil (splitAt_ne_nil sep t)
        rw [splitAt_cons_of_ne hd, hpieces, List.modifyHead_cons]
        rcases List.mem_cons.1 h with rfl | h
        · exact ⟨c :: piece, List.mem_cons_self, List.mem_cons_self⟩
        · obtain ⟨part, hpart, hmem⟩ := ih h
          rw [hpieces] at hpart
          rcases List.mem_cons.1 hpart with rfl | hpart
          · exact ⟨d :: part, List.mem_cons_self, List.mem_cons_of_mem d hmem⟩
          · exact ⟨part, List.mem_cons_of_mem _ hpart, hmem⟩

theorem not_mem_replace {old new : CodePoint} (h : old ≠ new) (t : Text) :
    old ∉ replace old new t := by
  intro hmem
  obtain ⟨c, -, hc⟩ := List.mem_map.1 hmem
  split_ifs at hc with hold
  · exact h hc.symm
  · exact hold hc

/-- A text starts with its separator or as its first part does. -/
theorem eq_sep_or_mem_head_splitAt (sep : CodePoint) {c : CodePoint} {t : Text}
    (h : c ∈ t.head?) :
    c = sep ∨ ∃ part ∈ splitAt sep t, c ∈ part.head? := by
  cases t with
  | nil => cases h
  | cons d t =>
      obtain rfl : d = c := Option.some.inj h
      by_cases hd : d = sep
      · exact Or.inl hd
      · right
        obtain ⟨piece, pieces, hpieces⟩ := List.exists_cons_of_ne_nil (splitAt_ne_nil sep t)
        rw [splitAt_cons_of_ne hd, hpieces]
        exact ⟨d :: piece, List.mem_cons_self, rfl⟩

end Text

end JniHeader
