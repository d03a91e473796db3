import JniHeader.Descriptor.Parser
import Mathlib.Data.List.TakeWhile
import Mathlib.Tactic.Common

/-!
# What the descriptor parser accepts

A field type or a method type is well formed when its class names are: they are
not empty and hold no semicolon. The parser accepts exactly the written forms of
well-formed descriptors, and it gives back the descriptor that was written. The
scanners are followed with arbitrary text behind the part that they read.
-/
namespace JniHeader

/-- Class names are not empty and hold no semicolon. -/
def FieldType.WellFormed : FieldType → Prop
  | .base _ => True
  | .object name => name ≠ [] ∧ CodePoint.ofChar ';' ∉ name
  | .array element => element.WellFormed

structure MethodType.WellFormed (m : MethodType) : Prop where
  arguments : ∀ t ∈ m.arguments, t.WellFormed
  result : ∀ t ∈ m.result, t.WellFormed

def Descriptor.WellFormed : Descriptor → Prop
  | .void => True
  | .field t => t.WellFormed
  | .method m => m.WellFormed

theorem BaseType.ofCode?_code (b : BaseType) :
    BaseType.ofCode? (CodePoint.ofChar b.code) = some b := by
  cases b <;> rfl

theorem BaseType.ofCode?_sound {c : CodePoint} {b : BaseType}
    (h : BaseType.ofCode? c = some b) : c = CodePoint.ofChar b.code := by
  have hb := List.find?_some h
  exact eq_of_beq hb

/-- A base letter opens neither an array nor a class nor an argument list. -/
theorem BaseType.code_ne (b : BaseType) :
    CodePoint.ofChar b.code ≠ '[' ∧ CodePoint.ofChar b.code ≠ 'L' ∧
      CodePoint.ofChar b.code ≠ '(' ∧ CodePoint.ofChar b.code ≠ ')' ∧
      CodePoint.ofChar b.code ≠ 'V' := by
  cases b <;> decide

namespace FieldType

theorem text_ne_nil (t : FieldType) : t.text ≠ [] := by
  cases t <;> simp [text]

/-- The written form of a field type starts with none of `(`, `)` and `V`. -/
theorem head_text_ne (t : FieldType) (rest : Text) {c : CodePoint}
    (hc : c = '(' ∨ c = ')' ∨ c = 'V') : (t.text ++ rest).head? ≠ some c := by
  cases t with
  | base b =>
      obtain ⟨-, -, hopen, hclose, hvoid⟩ := b.code_ne
      simp only [text, List.cons_append, List.head?_cons, ne_eq, Option.some.injEq]
      rcases hc with rfl | rfl | rfl
      · exact hopen
      · exact hclose
      · exact hvoid
  | object name =>
      simp only [text, List.cons_append, List.head?_cons, ne_eq, Option.some.injEq]
      rcases hc with rfl | rfl | rfl <;> decide
  | array element =>
      simp only [text, List.cons_append, List.head?_cons, ne_eq, Option.some.injEq]
      rcases hc with rfl | rfl | rfl <;> decide

/-- Every field type takes at least one code point. -/
theorem length_le_flatMap_text (ts : List FieldType) :
    ts.length ≤ (ts.flatMap text).length := by
  induction ts with
  | nil => exact le_rfl
  | cons t ts ih =>
      have ht := List.length_pos_iff.2 t.text_ne_nil
      simp only [List.length_cons, List.flatMap_cons, List.length_append]
      omega

theorem text_ne_void (t : FieldType) : t.text ≠ "V" := by
  intro h
  apply t.head_text_ne [] (c := 'V') (by simp)
  rw [List.append_nil, h]
  rfl

end FieldType

namespace Descriptor

theorem isNameCharacter_iff (c : CodePoint) : isNameCharacter c = true ↔ c ≠ ';' := by
  simp [isNameCharacter]

theorem scanField_base (b : BaseType) (rest : Text) :
    scanField (CodePoint.ofChar b.code :: rest) = .ok (.base b, rest) := by
  obtain ⟨hbracket, hclass, -⟩ := b.code_ne
  rw [scanField, if_neg hbracket, if_neg hclass, BaseType.ofCode?_code]

/-- Up to the first semicolon lies the class name. -/
theorem scanField_object {name : Text} (hne : name ≠ [])
    (hname : CodePoint.ofChar ';' ∉ name) (rest : Text) :
    scanField (CodePoint.ofChar 'L' :: name ++ CodePoint.ofChar ';' :: rest) =
      .ok (.object name, rest) := by
  have hall : ∀ c ∈ name, isNameCharacter c = true := by
    intro c hc
    exact (isNameCharacter_iff c).2 fun h => hname (h ▸ hc)
  have hstop : isNameCharacter (CodePoint.ofChar ';') = false := by decide
  have htake : (name ++ CodePoint.ofChar ';' :: rest).takeWhile isNameCharacter = name := by
    rw [List.takeWhile_append_of_pos hall, List.takeWhile_cons, hstop]
    simp
  have hdrop : (name ++ CodePoint.ofChar ';' :: rest).dropWhile isNameCharacter =
      CodePoint.ofChar ';' :: rest := by
    rw [List.dropWhile_append_of_pos hall, List.dropWhile_cons, hstop]
    simp
  rw [List.cons_append, scanField, if_neg (by decide), if_pos rfl, htake, hdrop]
  cases name with
  | nil => exact absurd rfl hne
  | cons n name => rfl

/-- A well-formed field type is read back, whatever follows it. -/
theorem scanField_text {t : FieldType} (ht : t.WellFormed) (rest : Text) :
    scanField (t.text ++ rest) = .ok (t, rest) := by
  induction t with
  | base b => exact scanField_base b rest
  | object name =>
      have h := scanField_object ht.1 ht.2 rest
      simpa [FieldType.text, Text.ofString] using h
  | array element ih =>
      rw [FieldType.text, List.cons_append, scanField, if_pos rfl, ih ht]

/-- What is read as a field type is the written form of a well-formed one. -/
theorem scanField_sound {s rest : Text} {t : FieldType} (h : scanField s = .ok (t, rest)) :
    t.WellFormed ∧ s = t.text ++ rest := by
  induction s generalizing t rest with
  | nil => simp [scanField] at h
  | cons c s ih =>
      rw [scanField] at h
      split at h
      · next hc =>
          split at h
          · next u rest' hu =>
              obtain ⟨rfl, rfl⟩ : FieldType.array u = t ∧ rest' = rest := by simpa using h
              obtain ⟨hwell, hs⟩ := ih hu
              exact ⟨hwell, by rw [hc, hs]; rfl⟩
          · simp at h
      · split at h
        · next hc =>
            split at h
            · next n name d rest' htake hdrop =>
                obtain ⟨rfl, rfl⟩ : FieldType.object (n :: name) = t ∧ rest' = rest := by
                  simpa using h
                -- The name ends where the first semicolon stands.
                have hd : d = ';' := by
                  have hstop := List.head_dropWhile_not isNameCharacter (l := s) (by simp [hdrop])
                  simpa [hdrop, isNameCharacter] using hstop
                have hs := List.takeWhile_append_dropWhile (p := isNameCharacter) (l := s)
                have hmem : CodePoint.ofChar ';' ∉ n :: name := by
                  intro hm
                  rw [← htake] at hm
                  have hchar := List.mem_takeWhile_imp hm
                  exact (isNameCharacter_iff _).1 hchar rfl
                refine ⟨⟨by simp, hmem⟩, ?_⟩
                rw [hc, ← hs, htake, hdrop, hd]
                simp [FieldType.text, Text.ofString]
            · simp at h
        · split at h
          · next b hb =>
              obtain ⟨rfl, rfl⟩ : FieldType.base b = t ∧ s = rest := by simpa using h
              exact ⟨trivial, by rw [BaseType.ofCode?_sound hb]; rfl⟩
          · simp at h

/-- Field types up to a closing parenthesis are read back, whatever follows it. -/
theorem scanArguments_text {ts : List FieldType} (hts : ∀ t ∈ ts, t.WellFormed) (rest : Text)
    {fuel : ℕ} (hfuel : ts.length < fuel) :
    scanArguments fuel (ts.flatMap FieldType.text ++ CodePoint.ofChar ')' :: rest) =
      .ok (ts, rest) := by
  induction ts generalizing fuel with
  | nil =>
      obtain ⟨fuel, rfl⟩ := Nat.exists_eq_add_of_lt hfuel
      simp [scanArguments]
  | cons t ts ih =>
      cases fuel with
      | zero => simp at hfuel
      | succ fuel =>
          have hhead := t.head_text_ne (ts.flatMap FieldType.text ++ CodePoint.ofChar ')' :: rest)
            (c := ')') (by simp)
          have hscan := scanField_text (hts t (by simp))
            (ts.flatMap FieldType.text ++ CodePoint.ofChar ')' :: rest)
          rw [List.flatMap_cons, List.append_assoc]
          cases hs : t.text ++ (ts.flatMap FieldType.text ++ CodePoint.ofChar ')' :: rest) with
          | nil => simp at hs
          | cons c s =>
              rw [hs] at hhead hscan
              have hc : ¬ c = ')' := by simpa using hhead
              have hrest := ih (fun u hu => hts u (by simp [hu])) (Nat.lt_of_succ_lt_succ hfuel)
              rw [scanArguments, if_neg hc, hscan]
              simp only [hrest]

theorem scanArguments_sound {fuel : ℕ} {s rest : Text} {ts : List FieldType}
    (h : scanArguments fuel s = .ok (ts, rest)) :
    (∀ t ∈ ts, t.WellFormed) ∧ s = ts.flatMap FieldType.text ++ CodePoint.ofChar ')' :: rest := by
  induction fuel generalizing s ts with
  | zero => simp [scanArguments] at h
  | succ fuel ih =>
      cases s with
      | nil => simp [scanArguments] at h
      | cons c s =>
          rw [scanArguments] at h
          split at h
          · next hc =>
              obtain ⟨rfl, rfl⟩ : [] = ts ∧ s = rest := by simpa using h
              exact ⟨by simp, by simp [hc]⟩
          · split at h
            · simp at h
            · next t rest' ht =>
                split at h
                · simp at h
                · next us rest'' hus =>
                    obtain ⟨rfl, rfl⟩ : t :: us = ts ∧ rest'' = rest := by simpa using h
                    obtain ⟨hwell, hs⟩ := scanField_sound ht
                    obtain ⟨hwells, hrest⟩ := ih hus
                    refine ⟨List.forall_mem_cons.2 ⟨hwell, hwells⟩, ?_⟩
                    rw [hs, hrest, List.flatMap_cons, List.append_assoc]

theorem parseResult_text {whole : Text} {result : Option FieldType}
    (hresult : ∀ t ∈ result, t.WellFormed) :
    parseResult whole (resultText result) = .ok result := by
  cases result with
  | none => rfl
  | some t =>
      have hscan := scanField_text (hresult t rfl) []
      rw [List.append_nil] at hscan
      rw [parseResult, resultText, if_neg t.text_ne_void, if_neg t.text_ne_nil, hscan]

theorem parseResult_sound {whole ret : Text} {result : Option FieldType}
    (h : parseResult whole ret = .ok result) :
    (∀ t ∈ result, t.WellFormed) ∧ ret = resultText result := by
  rw [parseResult] at h
  split at h
  · next hret =>
      obtain rfl : none = result := by simpa using h
      exact ⟨by simp, hret⟩
  · split at h
    · simp at h
    · split at h
      · simp at h
      · next t ht =>
          obtain rfl : some t = result := by simpa using h
          obtain ⟨hwell, hs⟩ := scanField_sound ht
          exact ⟨by simpa using hwell, hs.trans (List.append_nil _)⟩
      · simp at h

theorem methodText_eq (m : MethodType) :
    m.text = CodePoint.ofChar '(' ::
      (m.arguments.flatMap FieldType.text ++ CodePoint.ofChar ')' :: resultText m.result) := by
  simp [MethodType.text, MethodType.argumentsText, Text.ofString]

theorem parseMethod_eq_ok_iff {s : Text} {m : MethodType} :
    parseMethod s = .ok m ↔ m.WellFormed ∧ s = m.text := by
  constructor
  · intro h
    cases s with
    | nil => simp [parseMethod] at h
    | cons c body =>
        simp only [parseMethod] at h
        split at h
        · next hc =>
            split at h
            · simp at h
            · next arguments ret harguments =>
                obtain ⟨hwell, hbody⟩ := scanArguments_sound harguments
                cases hret : parseResult (c :: body) ret with
                | error e => simp [hret, Except.map] at h
                | ok result =>
                    obtain ⟨hresult, hrest⟩ := parseResult_sound hret
                    obtain rfl : ⟨arguments, result⟩ = m := by simpa [hret, Except.map] using h
                    refine ⟨⟨hwell, hresult⟩, ?_⟩
                    rw [methodText_eq, hc, hbody, hrest]
        · simp at h
  · intro h
    obtain ⟨hwell, rfl⟩ := h
    have hlength := FieldType.length_le_flatMap_text m.arguments
    have hfuel : m.arguments.length < (m.arguments.flatMap FieldType.text ++
        CodePoint.ofChar ')' :: resultText m.result).length := by
      simp only [List.length_append, List.length_cons]
      omega
    have hscan := scanArguments_text hwell.arguments (resultText m.result) hfuel
    rw [methodText_eq, parseMethod, if_pos rfl, hscan]
    simp only [parseResult_text hwell.result, Except.map]

theorem methodText_ne_void (m : MethodType) : m.text ≠ "V" := by
  intro h
  rw [methodText_eq] at h
  have hhead : some (CodePoint.ofChar '(') = some (CodePoint.ofChar 'V') :=
    congrArg List.head? h
  exact absurd hhead (by decide)

theorem parse_text {d : Descriptor} (hd : d.WellFormed) : parse d.text = .ok d := by
  cases d with
  | void => rfl
  | field t =>
      have hopen := t.head_text_ne [] (c := '(') (by simp)
      have hscan := scanField_text (t := t) hd []
      rw [List.append_nil] at hopen hscan
      rw [parse, text, if_neg t.text_ne_void, if_neg hopen, hscan]
  | method m =>
      have hopen : m.text.head? = some (CodePoint.ofChar '(') := by rw [methodText_eq]; rfl
      have hm : parseMethod m.text = .ok m := parseMethod_eq_ok_iff.2 ⟨hd, rfl⟩
      rw [parse, text, if_neg (methodText_ne_void m), if_pos hopen, hm]
      rfl

theorem parse_fieldText {t : FieldType} (ht : t.WellFormed) : parse t.text = .ok (.field t) :=
  parse_text (d := .field t) ht

theorem parse_sound {s : Text} {d : Descriptor} (h : parse s = .ok d) :
    d.WellFormed ∧ s = d.text := by
  rw [parse] at h
  split at h
  · next hs =>
      obtain rfl : Descriptor.void = d := by simpa using h
      exact ⟨trivial, hs⟩
  · split at h
    · cases hm : parseMethod s with
      | error e => simp [hm, Except.map] at h
      | ok m =>
          obtain rfl : Descriptor.method m = d := by simpa [hm, Except.map] using h
          exact parseMethod_eq_ok_iff.1 hm
    · split at h
      · simp at h
      · next t ht =>
          obtain rfl : Descriptor.field t = d := by simpa using h
          obtain ⟨hwell, hs⟩ := scanField_sound ht
          exact ⟨hwell, hs.trans (List.append_nil _)⟩
      · simp at h

/-- Reading accepts the written forms of well-formed descriptors and nothing else. -/
theorem parse_eq_ok_iff {s : Text} {d : Descriptor} :
    parse s = .ok d ↔ d.WellFormed ∧ s = d.text := by
  constructor
  · exact parse_sound
  · intro h
    obtain ⟨hd, rfl⟩ := h
    exact parse_text hd

end Descriptor

end JniHeader
