import JniHeader.Proofs.Descriptor.Scanner
import JniHeader.Proofs.Name.Mangling
import JniHeader.Proofs.Text.Split

/-!
# Names in parts

Names are divided into parts by dots or slashes. If no part starts with an escape
digit, no separator stands before one, so such names are guarded. The written
forms of argument types are guarded when the class names in them are divided in
this way.
-/
namespace JniHeader

namespace Text

/-- The first character is no escape digit. -/
def StartsPlain (t : Text) : Prop := ∀ c ∈ t.head?, ¬ c.IsEscapeDigit

instance (t : Text) : Decidable t.StartsPlain :=
  inferInstanceAs (Decidable (∀ c ∈ t.head?, ¬ c.IsEscapeDigit))

theorem StartsPlain.append {s t : Text} (hne : s ≠ []) (hs : s.StartsPlain) :
    (s ++ t).StartsPlain := by
  intro c hc
  rw [List.head?_append_of_ne_nil _ hne] at hc
  exact hs c hc

theorem Guarded.append {s t : Text} (hs : s.Guarded) (ht : t.Guarded) (hhead : t.StartsPlain) :
    (s ++ t).Guarded :=
  List.isChain_append.2 ⟨hs, ht, fun _ _ d hd _ => hhead d hd⟩

theorem Guarded.cons {c : CodePoint} {t : Text} (ht : t.Guarded) (hc : ¬ c.IsSeparator) :
    Guarded (c :: t) :=
  List.isChain_cons.2 ⟨fun _ _ hsep => absurd hsep hc, ht⟩

theorem Guarded.cons_of_startsPlain {t : Text} (ht : t.Guarded) (hhead : t.StartsPlain)
    {c : CodePoint} : Guarded (c :: t) :=
  List.isChain_cons.2 ⟨fun d hd _ => hhead d hd, ht⟩

/-- A text is guarded if none of its parts after the first starts with an escape digit. -/
theorem guarded_of_splitAt {sep : CodePoint} {t : Text} (hsep : ¬ sep.IsEscapeDigit)
    (honly : ∀ c ∈ t, c.IsSeparator → c = sep)
    (hparts : ∀ part ∈ (splitAt sep t).tail, StartsPlain part) : Guarded t := by
  induction t with
  | nil => exact List.isChain_nil
  | cons c t ih =>
      have honly' : ∀ d ∈ t, d.IsSeparator → d = sep := fun d hd =>
        honly d (List.mem_cons_of_mem c hd)
      by_cases hc : c = sep
      · rw [hc, splitAt_sep, List.tail_cons] at hparts
        have ht : Guarded t :=
          ih honly' fun part hpart => hparts part (List.mem_of_mem_tail hpart)
        refine List.isChain_cons.2 ⟨?_, ht⟩
        intro d hd _
        rcases eq_sep_or_mem_head_splitAt sep hd with rfl | hpart
        · exact hsep
        · obtain ⟨part, hmem, hhead⟩ := hpart
          exact hparts part hmem d hhead
      · rw [splitAt_cons_of_ne hc, List.tail_modifyHead] at hparts
        apply (ih honly' hparts).cons
        intro hcsep
        exact hc (honly c List.mem_cons_self hcsep)

/-- The parts of a name are not empty and start with no escape digit. -/
structure Divided (sep : CodePoint) (excluded : List CodePoint) (t : Text) : Prop where
  ne_nil : ∀ part ∈ splitAt sep t, part ≠ []
  startsPlain : ∀ part ∈ splitAt sep t, StartsPlain part
  free : ∀ c ∈ excluded, c ∉ t

instance (sep : CodePoint) (excluded : List CodePoint) (t : Text) :
    Decidable (Divided sep excluded t) :=
  decidable_of_iff ((∀ part ∈ splitAt sep t, part ≠ []) ∧
      (∀ part ∈ splitAt sep t, StartsPlain part) ∧ ∀ c ∈ excluded, c ∉ t)
    ⟨fun h => ⟨h.1, h.2.1, h.2.2⟩, fun h => ⟨h.ne_nil, h.startsPlain, h.free⟩⟩

namespace Divided

variable {sep : CodePoint} {excluded : List CodePoint} {t : Text}

/-- A divided name is guarded if it holds no separator but its own. -/
theorem guarded (h : Divided sep excluded t) (hsep : ¬ sep.IsEscapeDigit)
    (honly : ∀ c ∈ (['.', '/'] : List CodePoint), c = sep ∨ c ∈ excluded) : t.Guarded := by
  apply guarded_of_splitAt hsep
  · intro c hc hcsep
    have hmem : c ∈ (['.', '/'] : List CodePoint) := by
      rcases hcsep with rfl | rfl
      · exact List.mem_cons_self
      · exact List.mem_cons_of_mem _ List.mem_cons_self
    rcases honly c hmem with hc' | hc'
    · exact hc'
    · exact absurd hc (h.free c hc')
  · intro part hpart
    exact h.startsPlain part (List.mem_of_mem_tail hpart)

end Divided

end Text

namespace FieldType

/-- The class that a type names, through its arrays. -/
def className? : FieldType → Option Text
  | .base _ => none
  | .object name => some name
  | .array element => element.className?

/-- The class name in a type, if there is one, is divided by slashes. -/
def Divided (t : FieldType) : Prop := ∀ name ∈ t.className?, Text.Divided '/' ['.', '['] name

instance (t : FieldType) : Decidable t.Divided :=
  inferInstanceAs (Decidable (∀ name ∈ t.className?, Text.Divided '/' ['.', '['] name))

theorem text_startsPlain (t : FieldType) : Text.StartsPlain t.text := by
  intro c hc hdigit
  cases t with
  | base b =>
      obtain rfl : CodePoint.ofChar b.code = c := Option.some.inj hc
      have hcode : ¬ (CodePoint.ofChar b.code).val ≤ 0x33 := by cases b <;> decide
      exact hcode hdigit.2
  | object name =>
      obtain rfl : CodePoint.ofChar 'L' = c := Option.some.inj hc
      exact absurd hdigit.2 (by decide)
  | array element =>
      obtain rfl : CodePoint.ofChar '[' = c := Option.some.inj hc
      exact absurd hdigit.2 (by decide)

theorem text_guarded {t : FieldType} (ht : t.Divided) : Text.Guarded t.text := by
  induction t with
  | base b => exact List.isChain_singleton _
  | object name =>
      have hname : Text.Divided '/' ['.', '['] name := ht name rfl
      have hguarded : Text.Guarded name := hname.guarded (by decide) (by decide)
      have hend : Text.Guarded (name ++ ";") :=
        hguarded.append (List.isChain_singleton _) (by decide)
      exact hend.cons (by decide)
  | array element ih => exact (ih ht).cons (by decide)

theorem dot_not_mem_text {t : FieldType} (ht : t.Divided) : CodePoint.ofChar '.' ∉ t.text := by
  induction t with
  | base b => cases b <;> decide
  | object name =>
      have hname : Text.Divided '/' ['.', '['] name := ht name rfl
      have hfree := hname.free '.' List.mem_cons_self
      rw [text, List.mem_append, List.mem_cons, not_or, not_or]
      exact ⟨⟨by decide, hfree⟩, by decide⟩
  | array element ih =>
      rw [text, List.mem_cons, not_or]
      exact ⟨by decide, ih ht⟩

end FieldType

theorem startsPlain_flatMap_text (ts : List FieldType) :
    Text.StartsPlain (ts.flatMap FieldType.text) := by
  cases ts with
  | nil => exact fun c hc => absurd hc (by simp)
  | cons t ts => exact t.text_startsPlain.append t.text_ne_nil

theorem guarded_flatMap_text {ts : List FieldType} (hts : ∀ t ∈ ts, t.Divided) :
    Text.Guarded (ts.flatMap FieldType.text) := by
  induction ts with
  | nil => exact List.isChain_nil
  | cons t ts ih =>
      have ht := FieldType.text_guarded (hts t List.mem_cons_self)
      have hrest := ih fun t' ht' => hts t' (List.mem_cons_of_mem t ht')
      exact ht.append hrest (startsPlain_flatMap_text ts)

/-- Well-formed argument types are read back from their descriptors. -/
theorem flatMap_text_injective {ss ts : List FieldType} (hss : ∀ t ∈ ss, t.WellFormed)
    (hts : ∀ t ∈ ts, t.WellFormed)
    (h : ss.flatMap FieldType.text = ts.flatMap FieldType.text) : ss = ts := by
  have hs : Descriptor.parseMethod (MethodType.text ⟨ss, none⟩) = .ok ⟨ss, none⟩ :=
    Descriptor.parseMethod_eq_ok_iff.2 ⟨⟨hss, by simp⟩, rfl⟩
  have ht : Descriptor.parseMethod (MethodType.text ⟨ts, none⟩) = .ok ⟨ts, none⟩ :=
    Descriptor.parseMethod_eq_ok_iff.2 ⟨⟨hts, by simp⟩, rfl⟩
  have htext : MethodType.text ⟨ss, none⟩ = MethodType.text ⟨ts, none⟩ := by
    rw [MethodType.text, MethodType.text, MethodType.argumentsText, MethodType.argumentsText, h]
  rw [htext, ht] at hs
  exact (congrArg MethodType.arguments (Except.ok.inj hs)).symm

end JniHeader
