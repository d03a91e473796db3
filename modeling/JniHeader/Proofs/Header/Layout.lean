import JniHeader.Proofs.Header.Alphabet
import JniHeader.Proofs.Header.Parts
import JniHeader.Proofs.Text.Lines

/-!
# The layout of headers

No line of a header holds a line feed or anything else that is not printable ASCII, for
every part of a line is fixed or has come through an escape. So the lines that a header
is put together from are the lines that it has: nine, two for each constant, eight for
each native method, and four.
-/
namespace JniHeader

open CodePoint (isPlain isInert isPlain_of_isInert)

theorem Text.Only.feed_not_mem {t : Text} (h : t.Only isPlain) : CodePoint.ofChar '\n' ∉ t :=
  fun hmem => absurd (h _ hmem) (by decide)

theorem Text.Only.plain {t : Text} (h : t.Only isInert) : t.Only isPlain :=
  h.mono fun _ => isPlain_of_isInert

namespace Header

variable {mangled : Text}

theorem only_opening (h : mangled.Only isPlain) : ∀ l ∈ opening mangled, l.Only isPlain := by
  have hguard : ∀ s : Text, s.Only isPlain → (s ++ mangled).Only isPlain :=
    fun s hs => hs.append h
  simp only [opening, List.forall_mem_cons, List.not_mem_nil, false_imp_iff, implies_true,
    and_true]
  refine ⟨by decide, by decide, (hguard _ (by decide)).append (by decide), by decide,
    hguard _ (by decide), hguard _ (by decide), by decide, by decide, by decide⟩

theorem only_closing : ∀ l ∈ closing, l.Only isPlain := by decide

end Header

theorem Constant.only_lines {c : Constant} {mangled : Text} {ls : List Text}
    (hmangled : mangled.Only isInert) (hfits : c.value.Fits c.descriptor)
    (h : c.lines mangled = .ok ls) : ∀ l ∈ ls, l.Only isPlain := by
  obtain ⟨t, ht, rfl⟩ := lines_eq_ok_iff.1 h
  have hname := (only_macroName hmangled c).plain
  have hliteral := (literalForm hfits ht).plain
  simp only [List.forall_mem_cons, List.not_mem_nil, false_imp_iff, implies_true, and_true]
  exact ⟨Text.Only.append (by decide) hname,
    ((Text.Only.append (by decide) hname).append (by decide)).append hliteral⟩

theorem Prototype.only_lines {p : Prototype} {mangled : Text} (hmangled : mangled.Only isPlain)
    (hsymbol : p.symbol.Only isPlain) : ∀ l ∈ p.lines mangled, l.Only isPlain := by
  have htype : ∀ t ∈ Header.receiver p.method.isStatic ++ p.arguments.map NativeType.text,
      t.Only isPlain := by
    refine List.forall_mem_append.2 ⟨?_, ?_⟩
    · cases p.method.isStatic <;> decide
    · exact List.forall_mem_map.2 fun t _ => t.only_text.plain
  simp only [lines, Header.methodBlock, List.forall_mem_cons, List.not_mem_nil, false_imp_iff,
    implies_true, and_true]
  refine ⟨by decide, Text.Only.append (by decide) hmangled,
    Text.Only.append (by decide) (only_mangle _).plain,
    Text.Only.append (by decide) (only_escapeSignature _), by decide, ?_, ?_, by decide⟩
  · exact ((Text.Only.append (by decide) p.result.only_text.plain).append (by decide)).append
      hsymbol
  · exact (Text.Only.append (by decide) (Text.only_joinWith (by decide) htype)).append (by decide)

namespace Header

variable {name : QualifiedName} {m : ClassMeta} {isThrowable : QualifiedName → Reported Bool}

/-- The lines that a header is put together from. -/
def partLines (name : QualifiedName) (constants : List (List Text)) (ps : List Prototype) :
    List Text :=
  opening name.mangled ++ constants.flatten ++ (ps.map (Prototype.lines name.mangled)).flatten ++
    closing

theorem ofPrototypes_eq (constants : List (List Text)) (ps : List Prototype) :
    ofPrototypes name constants ps = Text.ofLines (partLines name constants ps) :=
  Text.unlines_append_feed (List.cons_ne_nil _ _)

theorem length_flatten_of_forall {n : ℕ} {xss : List (List Text)} (h : ∀ xs ∈ xss, xs.length = n) :
    xss.flatten.length = n * xss.length := by
  induction xss with
  | nil => rfl
  | cons xs xss ih =>
      obtain ⟨hxs, hxss⟩ := List.forall_mem_cons.1 h
      rw [List.flatten_cons, List.length_append, hxs, ih hxss, List.length_cons, Nat.mul_succ,
        Nat.add_comm]

theorem length_partLines {constants : List (List Text)} {ps : List Prototype}
    (h : ∀ ls ∈ constants, ls.length = 2) :
    (partLines name constants ps).length = 13 + 2 * constants.length + 8 * ps.length := by
  have hopening : (opening name.mangled).length = 9 := rfl
  have hclosing : closing.length = 4 := rfl
  have hconstants : constants.flatten.length = 2 * constants.length := length_flatten_of_forall h
  have height : ∀ ls ∈ ps.map (Prototype.lines name.mangled), ls.length = 8 :=
    List.forall_mem_map.2 fun _ _ => rfl
  have hblocks := length_flatten_of_forall height
  rw [List.length_map] at hblocks
  simp only [partLines, List.length_append]
  omega

/-- The lines of a class file's constants and native methods are plain, whatever stands in its
names, descriptors and strings. -/
theorem only_partLines {bytes : List UInt8} {constants : List (List Text)} {ps : List Prototype}
    (hparse : ClassMeta.parse bytes = .ok m)
    (hconstants : List.Forall₂ (fun x ls => x.lines name.mangled = .ok ls) m.constants constants)
    (hps : ∀ p ∈ ps, p.Declared name isThrowable m.methods) :
    ∀ l ∈ partLines name constants ps, l.Only isPlain := by
  have hmangled : name.mangled.Only isInert := only_mangle name.className
  intro l hl
  simp only [partLines, List.mem_append, List.mem_flatten, List.mem_map] at hl
  rcases hl with ((hl | ⟨ls, hls, hl⟩) | ⟨_, ⟨p, hp, rfl⟩, hl⟩) | hl
  · exact only_opening hmangled.plain l hl
  · obtain ⟨x, hx, hxs⟩ := Reported.exists_mem_of_forall₂ hconstants hls
    exact Constant.only_lines hmangled (ClassMeta.fits_of_parse hparse hx) hxs l hl
  · have hsymbol := NativeMethod.only_symbol (hps p hp).symbol
    exact Prototype.only_lines hmangled.plain hsymbol.plain l hl
  · exact only_closing l hl

/-- The lines of constants that have these literals. -/
theorem forall₂_lines_iff {mangled : Text} {xs : List Constant} {lines : List (List Text)} :
    List.Forall₂ (fun x ls => Constant.lines mangled x = .ok ls) xs lines ↔
      ∃ literals : List Text, List.Forall₂ (fun x t => Constant.literal x = .ok t) xs literals ∧
        lines = List.zipWith (fun x t => ["#undef " ++ mangled ++ "_" ++ mangle x.name,
          "#define " ++ mangled ++ "_" ++ mangle x.name ++ " " ++ t]) xs literals := by
  constructor
  · intro h
    induction h with
    | nil => exact ⟨[], .nil, rfl⟩
    | cons hline _ ih =>
        obtain ⟨t, ht, rfl⟩ := Constant.lines_eq_ok_iff.1 hline
        obtain ⟨literals, hliterals, rfl⟩ := ih
        refine ⟨t :: literals, .cons ht hliterals, ?_⟩
        simp only [Constant.macroName, List.zipWith_cons_cons, List.append_assoc]
  · rintro ⟨literals, h, rfl⟩
    induction h with
    | nil => exact .nil
    | cons ht _ ih =>
        refine .cons (Constant.lines_eq_ok_iff.2 ⟨_, ht, ?_⟩) ih
        simp only [Constant.macroName, List.append_assoc]

/-- A header that is returned consists of its lines, whatever stands in the names, descriptors and
strings of the class. -/
theorem text_layout {bytes : List UInt8} {header : Text} (hparse : ClassMeta.parse bytes = .ok m)
    (h : (text name m isThrowable).result = .ok header) :
    (∀ c ∈ header, c.isPlain = true ∨ c = '\n') ∧
      header.getLast? = some (CodePoint.ofChar '\n') ∧
      header.count (CodePoint.ofChar '\n') =
        13 + 2 * m.constants.length + 8 * m.methods.length ∧
      ∃ (literals : List Text) (ps : List Prototype),
        List.Forall₂ (fun x t => Constant.literal x = .ok t) m.constants literals ∧
        ps.map Prototype.method = m.methods ∧
        (∀ p ∈ ps, p.Declared name isThrowable m.methods) ∧
        Text.splitAt '\n' header =
          (["/* DO NOT EDIT THIS FILE - it is machine generated */",
            "#include <jni.h>",
            "/* Header for class " ++ mangle name.className ++ " */",
            [],
            "#ifndef _Included_" ++ mangle name.className,
            "#define _Included_" ++ mangle name.className,
            "#ifdef __cplusplus",
            "extern \"C\" \x7b",
            "#endif"] : List Text) ++
          (List.zipWith (fun (x : Constant) t =>
            ["#undef " ++ mangle name.className ++ "_" ++ mangle x.name,
              "#define " ++ mangle name.className ++ "_" ++ mangle x.name ++ " " ++ t])
            m.constants literals).flatten ++
          (ps.map fun p =>
            (["/*",
              " * Class:      " ++ mangle name.className,
              " * Method:     " ++ mangle p.method.name,
              " * Signature:  " ++ escapeSignature p.method.descriptor,
              " */",
              "JNIEXPORT " ++ p.result.text ++ " JNICALL " ++ p.symbol,
              "  (" ++ Text.joinWith ", " ("JNIEnv *" ::
                (if p.method.isStatic then "jclass" else "jobject") ::
                p.arguments.map NativeType.text) ++ ");",
              []] : List Text)).flatten ++
          (["#ifdef __cplusplus", "\x7d", "#endif", "#endif", []] : List Text) := by
  obtain ⟨constants, ps, hconstants, hmethods, hps, rfl⟩ := text_eq_ok_iff.1 h
  have hlines := only_partLines hparse hconstants hps
  have hfeed : ∀ l ∈ partLines name constants ps, CodePoint.ofChar '\n' ∉ l :=
    fun l hl => (hlines l hl).feed_not_mem
  have htwo : ∀ ls ∈ constants, ls.length = 2 := by
    intro ls hls
    obtain ⟨x, -, hx⟩ := Reported.exists_mem_of_forall₂ hconstants hls
    obtain ⟨t, -, rfl⟩ := Constant.lines_eq_ok_iff.1 hx
    rfl
  obtain ⟨literals, hliterals, hlists⟩ := forall₂_lines_iff.1 hconstants
  rw [ofPrototypes_eq]
  refine ⟨?_, ?_, ?_, literals, ps, hliterals, hmethods, hps, ?_⟩
  · intro c hc
    rcases Text.exists_line_of_mem_ofLines hc with hc | ⟨l, hl, hc⟩
    · exact .inr hc
    · exact .inl (hlines l hl c hc)
  · exact Text.getLast?_ofLines (List.cons_ne_nil _ _)
  · rw [Text.count_ofLines hfeed, length_partLines htwo, hconstants.length_eq, ← hmethods,
      List.length_map]
  · rw [Text.splitAt_ofLines hfeed, hlists, partLines, List.append_assoc _ closing]
    rfl

/-- A class `A` with a string constant that is a line feed, and with a static native method whose
name ends in a line feed and which takes an object of a class with one in its name. -/
def lineFeedBytes : List UInt8 :=
  [0xCA, 0xFE, 0xBA, 0xBE, 0, 0, 0, 52, 0, 10, 1, 0, 1, 65, 7, 0, 1, 1, 0, 1, 83, 1, 0, 18, 76,
    106, 97, 118, 97, 47, 108, 97, 110, 103, 47, 83, 116, 114, 105, 110, 103, 59, 1, 0, 13, 67,
    111, 110, 115, 116, 97, 110, 116, 86, 97, 108, 117, 101, 1, 0, 1, 10, 8, 0, 6, 1, 0, 2, 103,
    10, 1, 0, 7, 40, 76, 69, 10, 59, 41, 73, 0, 33, 0, 2, 0, 0, 0, 0, 0, 1, 0, 24, 0, 3, 0, 4,
    0, 1, 0, 5, 0, 0, 0, 2, 0, 7, 0, 1, 1, 8, 0, 8, 0, 9, 0, 0]

/-- The line feeds of the class are no line feeds of the header. -/
theorem text_layout_lineFeed :
    let m : ClassMeta :=
      ⟨none, [⟨"S", stringDescriptor, .string "\n"⟩], [⟨"g\n", "(LE\n;)I", true⟩]⟩
    ClassMeta.parse lineFeedBytes = .ok m ∧
      ∃ header, (text ⟨"A", none⟩ m fun _ => .pure false).result = .ok header ∧
        header.count (CodePoint.ofChar '\n') = 23 ∧
        (Text.splitAt '\n' header).drop 9 =
          (["#undef A_S", "#define A_S \"\\n\"",
            "/*", " * Class:      A", " * Method:     g_0000A",
            " * Signature:  (LE\\u000A;)I", " */",
            "JNIEXPORT jint JNICALL Java_A_g_0000A", "  (JNIEnv *, jclass, jobject);", [],
            "#ifdef __cplusplus", "\x7d", "#endif", "#endif", []] : List Text) := by
  intro m
  have hparse : ClassMeta.parse lineFeedBytes = .ok m := by decide +kernel
  obtain ⟨header, htext⟩ : ∃ header,
      (text ⟨"A", none⟩ m fun _ => .pure false).result = .ok header := ⟨_, rfl⟩
  obtain ⟨-, -, hcount, literals, ps, hliterals, hmethods, hps, hsplit⟩ := text_layout hparse htext
  obtain ⟨t, rest, ht, hrest, rfl⟩ := List.forall₂_cons_left_iff.1 hliterals
  obtain rfl := List.forall₂_nil_left_iff.1 hrest
  obtain rfl : Text.ofString "\"\\n\"" = t := Except.ok.inj ht
  obtain ⟨⟨method, symbol, arguments, result⟩, rfl, hp⟩ := List.map_eq_singleton_iff.1 hmethods
  obtain rfl : method = ⟨"g\n", "(LE\n;)I", true⟩ := hp
  obtain ⟨htypes, hsymbol⟩ := hps _ (List.mem_singleton.2 rfl)
  obtain ⟨rfl, rfl⟩ := Prod.mk.inj (Except.ok.inj htypes)
  obtain rfl : shortSymbol "A" "g\n" = symbol := Except.ok.inj hsymbol
  refine ⟨hparse, header, htext, hcount, ?_⟩
  rw [hsplit]
  decide

end Header

end JniHeader
