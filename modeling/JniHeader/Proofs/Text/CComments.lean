import JniHeader.Proofs.Text.Only

/-!
# Comments in C

A reader of a C text is outside comments, in a comment or in a string literal, and has
to remember at most the one code point before: a slash that may open a comment, a star
that may close one, a backslash that protects what follows it. A comment ends at the
first mark that closes it.
-/
namespace JniHeader

/-- Where a reader of a C text stands. After `slash` a star opens a comment, after `star` a slash
closes it, and after `escape` nothing ends a string literal. -/
inductive CMode where
  | code
  | slash
  | comment
  | star
  | literal
  | escape
deriving DecidableEq, Repr

namespace CMode

def afterCode (c : CodePoint) : CMode :=
  if c = '/' then .slash else if c = '"' then .literal else .code

def next : CMode → CodePoint → CMode
  | .code, c => afterCode c
  | .slash, c => if c = '*' then .comment else afterCode c
  | .comment, c => if c = '*' then .star else .comment
  | .star, c => if c = '/' then .code else if c = '*' then .star else .comment
  | .literal, c => if c = '"' then .code else if c = '\\' then .escape else .literal
  | .escape, _ => .literal

def inComment : CMode → Bool
  | .comment | .star => true
  | _ => false

/-- Where a text leads. -/
def scan (m : CMode) (t : Text) : CMode := t.foldl next m

/-- The places before, between and after the code points of a text. -/
def along : CMode → Text → List CMode
  | m, [] => [m]
  | m, c :: t => m :: along (m.next c) t

variable {m k : CMode} {s t : Text} {c : CodePoint}

theorem scan_append : m.scan (s ++ t) = (m.scan s).scan t := List.foldl_append

theorem scan_cons : m.scan (c :: t) = (m.next c).scan t := rfl

theorem scan_mem_along (m : CMode) (t : Text) : m.scan t ∈ m.along t := by
  induction t generalizing m with
  | nil => exact List.mem_singleton_self m
  | cons c t ih => exact List.mem_cons_of_mem m (ih (m.next c))

theorem mem_along_append : k ∈ m.along (s ++ t) ↔ k ∈ m.along s ∨ k ∈ (m.scan s).along t := by
  induction s generalizing m with
  | nil =>
      have hstart : m ∈ m.along t := by cases t <;> exact List.mem_cons_self
      constructor
      · exact .inr
      · rintro (h | h)
        · rwa [List.mem_singleton.1 h]
        · exact h
  | cons c s ih =>
      rw [List.cons_append, along, along, List.mem_cons, List.mem_cons, ih, or_assoc]
      rfl

theorem forall_mem_along_append {P : CMode → Prop} :
    (∀ k ∈ m.along (s ++ t), P k) ↔
      (∀ k ∈ m.along s, P k) ∧ ∀ k ∈ (m.scan s).along t, P k := by
  simp only [mem_along_append, or_imp, forall_and]

/-- A text that keeps a mode in each of its steps stays in it. -/
theorem along_eq_of_forall_next (h : ∀ c ∈ t, m.next c = m) : ∀ k ∈ m.along t, k = m := by
  induction t with
  | nil => exact fun k hk => List.mem_singleton.1 hk
  | cons c t ih =>
      obtain ⟨hc, ht⟩ := List.forall_mem_cons.1 h
      rw [along, hc]
      exact List.forall_mem_cons.2 ⟨rfl, ih ht⟩

theorem scan_eq_of_forall_next (h : ∀ c ∈ t, m.next c = m) : m.scan t = m :=
  along_eq_of_forall_next h _ (scan_mem_along m t)

/-- Texts that each lead back to where they start from do so one after the other. -/
theorem scan_flatMap {α : Type} {xs : List α} {f : α → Text} (h : ∀ x ∈ xs, m.scan (f x) = m) :
    m.scan (xs.flatMap f) = m := by
  induction xs with
  | nil => rfl
  | cons x xs ih =>
      obtain ⟨hx, hxs⟩ := List.forall_mem_cons.1 h
      rw [List.flatMap_cons, scan_append, hx, ih hxs]

theorem next_code_of_isQuiet (h : c.isQuiet = true) : code.next c = .code := by
  rw [CodePoint.isQuiet, Bool.and_eq_true, bne_iff_ne, bne_iff_ne] at h
  rw [next, afterCode, if_neg h.1, if_neg h.2]

theorem next_comment_of_ne (h : c ≠ '*') : comment.next c = .comment := if_neg h

theorem next_star_of_ne (hslash : c ≠ '/') (hstar : c ≠ '*') : star.next c = .comment := by
  rw [next, if_neg hslash, if_neg hstar]

/-- What is no half of a closing mark leads on into the comment. -/
theorem next_eq_comment (hm : m.inComment = true) (hc : c ≠ '*' ∧ c ≠ '/') :
    m.next c = .comment := by
  cases m with
  | comment => exact next_comment_of_ne hc.1
  | star => exact next_star_of_ne hc.2 hc.1
  | _ => cases hm

theorem scan_code_of_quiet (h : t.Only CodePoint.isQuiet) : code.scan t = .code :=
  scan_eq_of_forall_next fun c hc => next_code_of_isQuiet (h c hc)

theorem scan_comment_of_not_mem (h : CodePoint.ofChar '*' ∉ t) : comment.scan t = .comment :=
  scan_eq_of_forall_next fun _ hc => next_comment_of_ne fun he => h (he ▸ hc)

/-- A text without either half of a closing mark leads on into the comment. -/
theorem along_of_markless (hm : m.inComment = true) (h : ∀ d ∈ t, d ≠ '*' ∧ d ≠ '/') :
    (∀ k ∈ m.along t, k.inComment = true) ∧ (t ≠ [] → m.scan t = .comment) := by
  have hstay : ∀ s : Text, (∀ d ∈ s, d ≠ '*' ∧ d ≠ '/') → ∀ d ∈ s, comment.next d = .comment :=
    fun s hs d hd => next_comment_of_ne (hs d hd).1
  cases t with
  | nil => exact ⟨List.forall_mem_singleton.2 hm, fun hne => absurd rfl hne⟩
  | cons d t =>
      obtain ⟨hd, ht⟩ := List.forall_mem_cons.1 h
      rw [along, scan_cons, next_eq_comment hm hd]
      refine ⟨List.forall_mem_cons.2 ⟨hm, fun k hk => ?_⟩, fun _ => ?_⟩
      · rw [along_eq_of_forall_next (hstay t ht) k hk]
        rfl
      · exact scan_eq_of_forall_next (hstay t ht)

/-- The text is read inside a comment from its start to its end, where nothing is pending. -/
structure Keeps (t : Text) : Prop where
  along : ∀ k ∈ comment.along t, k.inComment = true
  scan : comment.scan t = .comment

theorem Keeps.append (hs : Keeps s) (ht : Keeps t) : Keeps (s ++ t) where
  along := by
    rw [forall_mem_along_append, hs.scan]
    exact ⟨hs.along, ht.along⟩
  scan := by rw [scan_append, hs.scan, ht.scan]

theorem keeps_of_not_mem (h : CodePoint.ofChar '*' ∉ t) : Keeps t where
  along := by
    have hnext : ∀ c ∈ t, comment.next c = .comment :=
      fun c hc => next_comment_of_ne fun he => h (he ▸ hc)
    intro k hk
    rw [along_eq_of_forall_next hnext k hk]
    rfl
  scan := scan_comment_of_not_mem h

/-- What has been read of a mark that closes a comment. -/
def pending : CMode → Text
  | .star => "*"
  | _ => []

/-- Only a slash after a star leads out of a comment. -/
theorem next_inComment (hm : m.inComment = true) :
    (m.next c).inComment = false ↔ m = .star ∧ c = '/' := by
  cases m with
  | comment =>
      rw [next]
      split_ifs <;> simp [inComment]
  | star =>
      rw [next]
      split_ifs with hslash <;> simp [inComment, hslash]
  | _ => cases hm

/-- Reading on in a comment keeps what there is of closing marks. -/
theorem infix_pending_next (hm : m.inComment = true) (h : (m.next c).inComment = true) (t : Text) :
    ("*/" : Text) <:+: m.pending ++ c :: t ↔ ("*/" : Text) <:+: (m.next c).pending ++ t := by
  have hmark : ("*/" : Text) = [CodePoint.ofChar '*', CodePoint.ofChar '/'] := rfl
  have hpending : star.pending = [CodePoint.ofChar '*'] := rfl
  have hstep : c ≠ '*' → (("*/" : Text) <:+: c :: t ↔ ("*/" : Text) <:+: t) := by
    intro hc
    rw [List.infix_cons_iff, hmark, List.cons_prefix_cons, or_iff_right]
    exact fun hstarts => hc hstarts.1.symm
  have hsecond : c ≠ '/' → (("*/" : Text) <:+: star.pending ++ c :: t ↔
      ("*/" : Text) <:+: c :: t) := by
    intro hc
    rw [hpending, List.singleton_append, List.infix_cons_iff, hmark, List.cons_prefix_cons,
      List.cons_prefix_cons, or_iff_right]
    exact fun hstarts => hc hstarts.2.1.symm
  cases m with
  | comment =>
      by_cases hstar : c = '*'
      · rw [hstar]
        rfl
      · rw [next_comment_of_ne hstar]
        exact hstep hstar
  | star =>
      by_cases hslash : c = '/'
      · rw [hslash] at h
        cases h
      · rw [hsecond hslash]
        by_cases hstar : c = '*'
        · rw [hstar]
          rfl
        · rw [next_star_of_ne hslash hstar]
          exact hstep hstar
  | _ => cases hm

end CMode

end JniHeader
