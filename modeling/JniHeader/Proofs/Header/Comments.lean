import JniHeader.Proofs.Generation.Lookups
import JniHeader.Proofs.Header.Layout
import JniHeader.Proofs.Text.CComments

/-!
# Comments of methods

The block of a native method starts with a comment that shows the descriptor. Mangled
names hold no star, and every comment or literal that begins on another line ends on it,
so the comment is closed where it is meant to be unless the descriptor itself holds a
mark that closes it: printable ASCII is shown as it is.
-/
namespace JniHeader

open CodePoint (isQuiet isQuiet_of_isInert isInert)
open CMode

theorem Text.Only.quiet {t : Text} (h : t.Only isInert) : t.Only isQuiet :=
  h.mono fun _ => isQuiet_of_isInert

theorem star_not_mem_mangle (t : Text) : CodePoint.ofChar '*' ∉ mangle t :=
  fun h => absurd (val_of_mem_mangle h).1 (by decide)

theorem CodePoint.signatureForm_cases (c : CodePoint) :
    c.signatureForm = [c] ∨ (c ≠ '*' ∧ c ≠ '/') ∧ c.signatureForm ≠ [] ∧
      ∀ d ∈ c.signatureForm, d ≠ '*' ∧ d ≠ '/' := by
  rw [signatureForm]
  split_ifs with hplain
  · exact .inl rfl
  · refine .inr ⟨⟨?_, ?_⟩, ?_, ?_⟩
    · rintro rfl
      exact hplain (by decide)
    · rintro rfl
      exact hplain (by decide)
    · obtain ⟨u, us, hu⟩ := List.exists_cons_of_ne_nil (units_ne_nil c)
      rw [hu]
      exact List.cons_ne_nil _ _
    · intro d hd
      obtain ⟨u, -, hd⟩ := List.mem_flatMap.1 hd
      rcases List.mem_append.1 hd with hd | hd
      · have hall : ∀ d ∈ ("\\u" : Text), d ≠ '*' ∧ d ≠ '/' := by decide
        exact hall d hd
      · obtain ⟨k, rfl⟩ := mem_fixedDigits hd
        have hval := (val_upperDigit_mem (Nat.mod_lt k (by decide : 0 < 16))).1
        exact ⟨fun he => absurd (he ▸ hval) (by decide), fun he => absurd (he ▸ hval) (by decide)⟩

/-- The signature stays in the comment exactly if the descriptor holds no mark that closes it. -/
theorem along_escapeSignature_iff {m : CMode} (hm : m.inComment = true) (d : Text) :
    (∀ k ∈ m.along (escapeSignature d), k.inComment = true) ↔
      ¬ ("*/" : Text) <:+: m.pending ++ d := by
  induction d generalizing m with
  | nil =>
      have hnone : ¬ ("*/" : Text) <:+: m.pending ++ [] := by
        intro h
        have hlength := h.length_le
        cases m <;> exact absurd hlength (by decide)
      exact ⟨fun _ => hnone, fun _ => List.forall_mem_singleton.2 hm⟩
  | cons c d ih =>
      have hcons : escapeSignature (c :: d) = c.signatureForm ++ escapeSignature d :=
        List.flatMap_cons
      rw [hcons]
      rcases c.signatureForm_cases with hform | ⟨hc, hne, hform⟩
      · rw [hform, List.singleton_append, CMode.along, List.forall_mem_cons]
        cases hnext : (m.next c).inComment with
        | true =>
            rw [infix_pending_next hm hnext d, ih hnext]
            exact and_iff_right hm
        | false =>
            obtain ⟨rfl, rfl⟩ := (next_inComment hm).1 hnext
            have hcode : CMode.code ∈ CMode.code.along (escapeSignature d) := by
              cases escapeSignature d <;> exact List.mem_cons_self
            constructor
            · intro h
              cases h.2 _ hcode
            · intro h
              exact absurd ⟨[], d, rfl⟩ h
      · have hnext := next_eq_comment hm hc
        obtain ⟨halong, hscan⟩ := along_of_markless hm hform
        rw [forall_mem_along_append, hscan hne, ih rfl]
        have hrest := infix_pending_next hm (c := c) (by rw [hnext]; rfl) d
        rw [hnext] at hrest
        rw [hrest]
        exact and_iff_right halong

namespace Prototype

variable {mangled : Text} {p : Prototype}

/-- What stands between the marks of a method's comment. -/
def comment (mangled : Text) (p : Prototype) : Text :=
  "\n" ++ Text.ofLines [" * Class:      " ++ mangled, " * Method:     " ++ mangle p.method.name,
    " * Signature:  " ++ escapeSignature p.method.descriptor] ++ " "

/-- What follows the comment in the block of a method. -/
def declaration (p : Prototype) : Text :=
  "\n" ++ Text.ofLines ["JNIEXPORT " ++ p.result.text ++ " JNICALL " ++ p.symbol,
    "  (" ++ Text.joinWith ", "
      (Header.receiver p.method.isStatic ++ p.arguments.map NativeType.text) ++ ");", []]

theorem ofLines_lines (mangled : Text) (p : Prototype) :
    Text.ofLines (p.lines mangled) = "/*" ++ p.comment mangled ++ "*/" ++ p.declaration := by
  have hclose : (" */" : Text) = " " ++ "*/" := rfl
  simp only [Text.ofLines, lines, Header.methodBlock, comment, declaration, hclose,
    List.flatMap_cons, List.flatMap_nil, List.append_assoc, List.append_nil]

/-- The signature stands between parts that keep the comment. -/
theorem exists_comment_parts (hmangled : CodePoint.ofChar '*' ∉ mangled) (p : Prototype) :
    ∃ start, Keeps start ∧ p.comment mangled ++ "*" =
      start ++ escapeSignature p.method.descriptor ++ ("\n" ++ " " ++ "*") := by
  have hfeed : Keeps "\n" := ⟨by decide, by decide⟩
  have hclass : Keeps " * Class:      " := ⟨by decide, by decide⟩
  have hmethod : Keeps " * Method:     " := ⟨by decide, by decide⟩
  have hsignature : Keeps " * Signature:  " := ⟨by decide, by decide⟩
  have hname := keeps_of_not_mem (star_not_mem_mangle p.method.name)
  have hclassLine := (hclass.append (keeps_of_not_mem hmangled)).append hfeed
  have hmethodLine := (hmethod.append hname).append hfeed
  refine ⟨_, ((hfeed.append hclassLine).append hmethodLine).append hsignature, ?_⟩
  simp only [comment, Text.ofLines, List.flatMap_cons, List.flatMap_nil, List.append_assoc,
    List.append_nil]

/-- A comment is read as one up to its last code point exactly if the descriptor does not close
it. -/
theorem along_comment_iff (hmangled : CodePoint.ofChar '*' ∉ mangled) :
    (∀ k ∈ CMode.comment.along (p.comment mangled ++ "*"), k.inComment = true) ↔
      ¬ ("*/" : Text) <:+: p.method.descriptor := by
  have hend : ∀ m : CMode, m.inComment = true →
      ∀ k ∈ m.along ("\n" ++ " " ++ "*"), k.inComment = true := by
    intro m hm
    cases m with
    | comment => decide
    | star => decide
    | _ => cases hm
  have hdescriptor := along_escapeSignature_iff (m := .comment) rfl p.method.descriptor
  obtain ⟨start, hstart, hparts⟩ := p.exists_comment_parts hmangled
  rw [hparts, forall_mem_along_append, forall_mem_along_append, scan_append, hstart.scan]
  constructor
  · exact fun h => hdescriptor.1 h.1.2
  · intro h
    have hinside := hdescriptor.2 h
    exact ⟨⟨hstart.along, hinside⟩, hend _ (hinside _ (scan_mem_along _ _))⟩

/-- The mark after a comment closes it. -/
theorem scan_comment (h : ∀ k ∈ CMode.comment.along (p.comment mangled ++ "*"),
    k.inComment = true) : CMode.comment.scan (p.comment mangled ++ "*/") = .code := by
  have hlast := (forall_mem_along_append.1 h).1 _ (scan_mem_along _ _)
  rw [scan_append]
  generalize CMode.comment.scan (p.comment mangled) = m at hlast ⊢
  cases m with
  | comment => rfl
  | star => rfl
  | _ => cases hlast

theorem quiet_declaration (hsymbol : p.symbol.Only isInert) : p.declaration.Only isQuiet := by
  have htype : ∀ t ∈ Header.receiver p.method.isStatic ++ p.arguments.map NativeType.text,
      t.Only isQuiet := by
    refine List.forall_mem_append.2 ⟨?_, ?_⟩
    · cases p.method.isStatic <;> decide
    · exact List.forall_mem_map.2 fun t _ => t.only_text.quiet
  refine Text.Only.append (by decide) (Text.only_flatMap fun l hl => Text.Only.append ?_ (by decide))
  simp only [List.mem_cons, List.not_mem_nil, or_false] at hl
  rcases hl with rfl | rfl | rfl
  · exact ((Text.Only.append (by decide) p.result.only_text.quiet).append (by decide)).append
      hsymbol.quiet
  · exact (Text.Only.append (by decide) (Text.only_joinWith (by decide) htype)).append (by decide)
  · decide

end Prototype

theorem CMode.scan_ofLines {ls : List Text} (h : ∀ l ∈ ls, code.scan l = .code) :
    code.scan (Text.ofLines ls) = .code := by
  refine scan_flatMap fun l hl => ?_
  rw [scan_append, h l hl]
  decide

namespace StringLiteral

theorem scan_digits {t : Text} (h : t.Only CodePoint.isAsciiDigit) : literal.scan t = .literal := by
  refine scan_eq_of_forall_next fun c hc => ?_
  have hdigit := h c hc
  have hquote : c ≠ '"' := by
    rintro rfl
    exact absurd hdigit (by decide)
  have hbackslash : c ≠ '\\' := by
    rintro rfl
    exact absurd hdigit (by decide)
  rw [next, if_neg hquote, if_neg hbackslash]

theorem scan_octal (n : ℕ) : literal.scan (CodePoint.ofChar '\\' :: Text.octal n) = .literal := by
  have hlength : (Text.octal n).length = 3 := Text.length_fixedDigits _ _ _ _
  have honly := Text.only_octal n
  generalize Text.octal n = digits at hlength honly ⊢
  cases digits with
  | nil => cases hlength
  | cons d ds =>
      change literal.scan ds = .literal
      exact scan_digits (Text.only_cons.1 honly).2

theorem scan_escape (c : CodePoint) : literal.scan (escape c) = .literal := by
  rw [escape]
  split_ifs with hbackslash hquote
  · decide
  · decide
  · decide
  · decide
  · decide
  · change literal.next c = .literal
    rw [next, if_neg hquote, if_neg hbackslash]
  · exact scan_flatMap fun b _ => scan_octal b.toNat

/-- A string literal ends at the quote that is written behind its escapes. -/
theorem scan_write (t : Text) : code.scan (write t) = .code := by
  have hopen : code.scan "\"" = .literal := by decide
  rw [write, scan_append, scan_append, hopen, scan_flatMap fun c _ => scan_escape c]
  decide

end StringLiteral

theorem LiteralForm.scan {t : Text} (h : LiteralForm t) : code.scan t = .code := by
  cases h with
  | number ht => exact scan_code_of_quiet ht.quiet
  | quotient ht =>
      have hall : ∀ q ∈ quotientLiterals, code.scan q = .code := by decide
      exact hall t ht
  | string t => exact StringLiteral.scan_write t

theorem Constant.scan_lines {c : Constant} {mangled : Text} {ls : List Text}
    (hmangled : mangled.Only isInert) (hfits : c.value.Fits c.descriptor)
    (h : c.lines mangled = .ok ls) : ∀ l ∈ ls, code.scan l = .code := by
  obtain ⟨t, ht, rfl⟩ := lines_eq_ok_iff.1 h
  have hname := (only_macroName hmangled c).quiet
  have hdefine : Text.Only isQuiet ("#define " ++ c.macroName mangled ++ " ") :=
    (Text.Only.append (by decide) hname).append (by decide)
  simp only [List.forall_mem_cons, List.not_mem_nil, false_imp_iff, implies_true, and_true]
  refine ⟨scan_code_of_quiet (Text.Only.append (by decide) hname), ?_⟩
  rw [scan_append, scan_code_of_quiet hdefine, (literalForm hfits ht).scan]

namespace Header

theorem scan_opening {mangled : Text} (h : mangled.Only isInert)
    (hstar : CodePoint.ofChar '*' ∉ mangled) : ∀ l ∈ opening mangled, code.scan l = .code := by
  have hguard : ∀ s : Text, s.Only isQuiet → code.scan (s ++ mangled) = .code :=
    fun s hs => scan_code_of_quiet (hs.append h.quiet)
  have hclass : code.scan ("/* Header for class " ++ mangled ++ " */") = .code := by
    have hmark : code.scan "/* Header for class " = .comment := by decide
    rw [scan_append, scan_append, hmark, scan_comment_of_not_mem hstar]
    decide
  simp only [opening, List.forall_mem_cons, List.not_mem_nil, false_imp_iff, implies_true,
    and_true]
  exact ⟨by decide, by decide, hclass, by decide, hguard _ (by decide), hguard _ (by decide),
    by decide, by decide, by decide⟩

/-- In a C text, the comment that opens after `before` is closed by the mark after `comment`, and
`declaration`, which follows it, is outside comments. -/
structure OwnComment (before comment declaration : Text) : Prop where
  starts : code.scan before = .code
  inside : ∀ k ∈ (code.scan (before ++ "/*")).along (comment ++ "*"), k.inComment = true
  closes : code.scan (before ++ "/*" ++ comment ++ "*/") = .code
  outside : ∀ k ∈ (code.scan (before ++ "/*" ++ comment ++ "*/")).along declaration,
    k.inComment = false

theorem ownComment_iff {before comment declaration : Text} (hbefore : code.scan before = .code)
    (hclose : (∀ k ∈ CMode.comment.along (comment ++ "*"), k.inComment = true) →
      CMode.comment.scan (comment ++ "*/") = .code)
    (hdeclaration : declaration.Only isQuiet) :
    OwnComment before comment declaration ↔
      ∀ k ∈ CMode.comment.along (comment ++ "*"), k.inComment = true := by
  have hopen : code.scan (before ++ "/*") = .comment := by
    rw [scan_append, hbefore]
    decide
  constructor
  · intro h
    have hinside := h.inside
    rwa [hopen] at hinside
  · intro h
    have hcloses : code.scan (before ++ "/*" ++ comment ++ "*/") = .code := by
      rw [List.append_assoc, scan_append, hopen, hclose h]
    refine ⟨hbefore, by rwa [hopen], hcloses, ?_⟩
    rw [hcloses]
    intro k hk
    rw [along_eq_of_forall_next (fun c hc => next_code_of_isQuiet (hdeclaration c hc)) k hk]
    rfl

/-- The text of a header up to the blocks that come after those of the given prototypes. -/
def textBefore (name : QualifiedName) (constants : List (List Text)) (ps : List Prototype) : Text :=
  Text.ofLines (opening name.mangled ++ constants.flatten ++
    (ps.map (Prototype.lines name.mangled)).flatten)

variable {name : QualifiedName} {constants : List (List Text)}

theorem ofPrototypes_split (before : List Prototype) (p : Prototype) (after : List Prototype) :
    ofPrototypes name constants (before ++ p :: after) =
      textBefore name constants before ++ "/*" ++ p.comment name.mangled ++ "*/" ++
        p.declaration ++
        Text.ofLines ((after.map (Prototype.lines name.mangled)).flatten ++ closing) := by
  rw [ofPrototypes_eq, partLines, textBefore]
  simp only [List.map_append, List.map_cons, List.flatten_append, List.flatten_cons,
    Text.ofLines_append, p.ofLines_lines, List.append_assoc]

theorem scan_textBefore {ps : List Prototype}
    (hconstants : ∀ ls ∈ constants, ∀ l ∈ ls, code.scan l = .code)
    (hsymbols : ∀ p ∈ ps, p.symbol.Only isInert)
    (hdescriptors : ∀ p ∈ ps, ¬ ("*/" : Text) <:+: p.method.descriptor) :
    code.scan (textBefore name constants ps) = .code := by
  have hstar : CodePoint.ofChar '*' ∉ name.mangled := star_not_mem_mangle name.className
  have hblock : ∀ p ∈ ps, code.scan (Text.ofLines (p.lines name.mangled)) = .code := by
    intro p hp
    have hopen : code.scan "/*" = .comment := by decide
    have hclose := Prototype.scan_comment ((Prototype.along_comment_iff hstar).2 (hdescriptors p hp))
    rw [p.ofLines_lines, scan_append, List.append_assoc, scan_append, hopen, hclose]
    exact scan_code_of_quiet (Prototype.quiet_declaration (hsymbols p hp))
  have hlines : ∀ l ∈ opening name.mangled ++ constants.flatten, code.scan l = .code := by
    refine List.forall_mem_append.2 ⟨scan_opening (only_mangle name.className) hstar, ?_⟩
    intro l hl
    obtain ⟨ls, hls, hl⟩ := List.mem_flatten.1 hl
    exact hconstants ls hls l hl
  rw [textBefore, Text.ofLines_append, scan_append, scan_ofLines hlines,
    Text.ofLines_flatten, List.flatMap_map]
  exact scan_flatMap hblock

/-- The comments of all native methods are closed by the marks that are written for it, and what
follows them is outside comments, exactly if no descriptor holds such a mark. -/
theorem text_ownComments_iff {m : ClassMeta} {isThrowable : QualifiedName → Reported Bool}
    {bytes : List UInt8} {header : Text} (hparse : ClassMeta.parse bytes = .ok m)
    (h : (text name m isThrowable).result = .ok header) :
    ∃ (constants : List (List Text)) (ps : List Prototype),
      List.Forall₂ (fun x ls => x.lines name.mangled = .ok ls) m.constants constants ∧
      ps.map Prototype.method = m.methods ∧
      (∀ p ∈ ps, p.Declared name isThrowable m.methods) ∧
      (∀ before p after, ps = before ++ p :: after →
        ∃ rest, header = textBefore name constants before ++ "/*" ++ p.comment name.mangled ++
          "*/" ++ p.declaration ++ rest) ∧
      ((∀ before p after, ps = before ++ p :: after →
          OwnComment (textBefore name constants before) (p.comment name.mangled) p.declaration) ↔
        ∀ x ∈ m.methods, ¬ ("*/" : Text) <:+: x.descriptor) := by
  obtain ⟨constants, ps, hconstants, hmethods, hps, rfl⟩ := text_eq_ok_iff.1 h
  have hstar : CodePoint.ofChar '*' ∉ name.mangled := star_not_mem_mangle name.className
  have hsymbols : ∀ p ∈ ps, p.symbol.Only isInert :=
    fun p hp => NativeMethod.only_symbol (hps p hp).symbol
  have hclosed : ∀ ls ∈ constants, ∀ l ∈ ls, code.scan l = .code := by
    intro ls hls
    obtain ⟨x, hx, hxs⟩ := Reported.exists_mem_of_forall₂ hconstants hls
    exact Constant.scan_lines (only_mangle name.className) (ClassMeta.fits_of_parse hparse hx) hxs
  have hown : ∀ before p after, ps = before ++ p :: after →
      code.scan (textBefore name constants before) = .code →
      (OwnComment (textBefore name constants before) (p.comment name.mangled) p.declaration ↔
        ¬ ("*/" : Text) <:+: p.method.descriptor) := by
    rintro before p after rfl hbefore
    rw [ownComment_iff hbefore Prototype.scan_comment
      (Prototype.quiet_declaration (hsymbols p (by simp))), Prototype.along_comment_iff hstar]
  refine ⟨constants, ps, hconstants, hmethods, hps, ?_, ?_⟩
  · rintro before p after rfl
    exact ⟨_, ofPrototypes_split before p after⟩
  · rw [← hmethods, List.forall_mem_map]
    constructor
    · intro hall p hp
      obtain ⟨before, after, hsplit⟩ := List.append_of_mem hp
      have hcomment := hall before p after hsplit
      exact (hown before p after hsplit hcomment.starts).1 hcomment
    · rintro hdescriptors before p after rfl
      refine (hown before p after rfl ?_).2 (hdescriptors p (by simp))
      exact scan_textBefore hclosed (fun q hq => hsymbols q (List.mem_append_left _ hq))
        fun q hq => hdescriptors q (List.mem_append_left _ hq)

/-- The comment of a method that takes an object of the class `E`. -/
theorem text_ownComments_user :
    ClassMeta.parse (userBytes [69]) = .ok ⟨none, [], [⟨"f", "(LE;)V", false⟩]⟩ ∧
      ∃ p : Prototype, p.method = ⟨"f", "(LE;)V", false⟩ ∧
        OwnComment (textBefore ⟨"A", none⟩ [] []) (p.comment "A") p.declaration := by
  have hparse : ClassMeta.parse (userBytes [69]) = .ok ⟨none, [], [⟨"f", "(LE;)V", false⟩]⟩ := by
    decide +kernel
  have htext : (text ⟨"A", none⟩ ⟨none, [], [⟨"f", "(LE;)V", false⟩]⟩ fun _ => .pure false).result =
      .ok (ofPrototypes ⟨"A", none⟩ []
        [⟨⟨"f", "(LE;)V", false⟩, "Java_A_f", [.object], .void⟩]) := rfl
  obtain ⟨constants, ps, hconstants, hmethods, -, -, hiff⟩ := text_ownComments_iff hparse htext
  obtain rfl := List.forall₂_nil_left_iff.1 hconstants
  obtain ⟨p, rfl, hp⟩ := List.map_eq_singleton_iff.1 hmethods
  refine ⟨hparse, p, hp, hiff.2 ?_ [] p [] rfl⟩
  exact List.forall_mem_singleton.2 (by decide)

/-- A method that takes an object of a class in a package whose name ends in a star. -/
def starPrototype : Prototype :=
  ⟨⟨"f", "(La*/b;)V", false⟩, "Java_A_f", [.object], .void⟩

/-- The star and the slash that separates the package from the class close the comment. -/
theorem text_comment_closedEarly :
    ClassMeta.parse (userBytes [97, 42, 47, 98]) = .ok ⟨none, [], [starPrototype.method]⟩ ∧
      (∃ header rest, (text ⟨"A", none⟩ ⟨none, [], [starPrototype.method]⟩
          fun _ => .pure false).result = .ok header ∧
        header = textBefore ⟨"A", none⟩ [] [] ++ "/*" ++ starPrototype.comment "A" ++ "*/" ++
          starPrototype.declaration ++ rest) ∧
      ¬ OwnComment (textBefore ⟨"A", none⟩ [] []) (starPrototype.comment "A")
        starPrototype.declaration := by
  refine ⟨by decide +kernel, ⟨_, _, rfl, ofPrototypes_split [] starPrototype []⟩, fun h => ?_⟩
  exact absurd h.inside (by decide +kernel)

end Header

end JniHeader
