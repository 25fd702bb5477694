import HostPlan.Proofs.Source.Argument
import HostPlan.Proofs.Source.Mask
import HostPlan.Source.Argument
import Mathlib.Data.List.Forall2
/-!
The first string literal of a text. It is the first one that the segments of the text show, and its
content is what its two quotes enclose, unless a backslash stands before a line break. In a row of
arguments it is found whatever blanks and commas stand between them.
-/
namespace HostPlan.Source

open Text

def Segment.quoted : Segment → List (List Char)
  | .code _ => []
  | .literal t => [t]

/-- The string literals of a text, with their quotes. -/
def literals (s : List Char) : List (List Char) := (segments s).flatMap Segment.quoted

/-- No line break in the literal follows a backslash that escapes it. -/
def Unbroken (t : List Char) : Prop := ∀ p q, p ++ ['\n'] <+: t → Place.code.after p ≠ .escape q

/-- The content of the literal found first, when there is one and no line break in it is escaped. -/
def Shows (first content : Option (List Char)) : Prop :=
  match first with
  | none => content = none
  | some t => Unbroken t → content = some t.tail.dropLast

theorem literals_eq {s : List Char} (h : Uncommented .code s) :
    literals s = written Segment.quoted s := by
  rw [literals, segments, h.marks_code]
  rfl

theorem firstLiteral?_code {run : List Char} (plain : Unquoted run) (r : List Char) :
    firstLiteral? (run ++ r) = firstLiteral? r := by
  induction run with
  | nil => rfl
  | cons c run ih =>
    obtain ⟨head, tail⟩ := List.forall_mem_cons.1 plain
    rw [List.cons_append, firstLiteral?, if_neg (by simp [head]), ih tail]

section Closing

variable {q : Char} {body : List Char}

/-- Behind an opening quote this is the rest of a literal, up to its closing quote. -/
structure Closes (q : Char) (body : List Char) : Prop where
  inside : (Place.literal q).Within body
  ends : (Place.literal q).after body = .code

theorem Closes.quote (hq : q ≠ '\\') : Closes q [q] :=
  ⟨rfl, Place.next_closing hq⟩

theorem Closes.cons {c : Char} (other : c ≠ q) (plain : c ≠ '\\') (h : Closes q body) :
    Closes q (c :: body) := by
  have same := Place.next_inside plain other
  refine ⟨?_, by rw [Place.after_cons, same, h.ends]⟩
  rw [Place.Within, Place.marks, same, h.inside]
  rfl

theorem Closes.escape (c : Char) (h : Closes q body) : Closes q ('\\' :: c :: body) := by
  have escape := Place.next_backslash q
  have back : (Place.escape q).next c = .literal q := rfl
  refine ⟨?_, by rw [Place.after_cons, escape, Place.after_cons, back, h.ends]⟩
  rw [Place.Within, Place.marks, escape, Place.marks, back, h.inside]
  rfl

theorem ne_backslash_of_isQuote (h : isQuote q = true) : q ≠ '\\' := by
  rintro rfl
  cases h

end Closing

section Content

variable {q c : Char}

theorem literalContent?_escape (hc : c ≠ '\n') (s : List Char) :
    literalContent? q ('\\' :: c :: s) = (literalContent? q s).map fun t => '\\' :: c :: t :=
  if_neg hc

theorem literalContent?_plain (hc : c ≠ '\\') (s : List Char) : literalContent? q (c :: s) =
    if c = q then some [] else (literalContent? q s).map (c :: ·) := by
  rw [literalContent?, if_neg hc]
  intro _ _ h
  exact absurd h hc

theorem literalContent?_quote (hq : q ≠ '\\') (s : List Char) :
    literalContent? q (q :: s) = some [] := by
  rw [literalContent?_plain hq, if_pos rfl]

theorem literalContent?_other (hq : c ≠ q) (hc : c ≠ '\\') (s : List Char) :
    literalContent? q (c :: s) = (literalContent? q s).map (c :: ·) := by
  rw [literalContent?_plain hc, if_neg hq]

/-- No line break behind the place is escaped. -/
def Place.Unbroken (p : Place) (s : List Char) : Prop :=
  ∀ t q, t ++ ['\n'] <+: s → p.after t ≠ .escape q

theorem Place.Unbroken.tail {p : Place} {s : List Char} (h : p.Unbroken (c :: s)) :
    (p.next c).Unbroken s := fun t e ht =>
  h (c :: t) e (List.cons_prefix_cons.2 ⟨rfl, ht⟩)

theorem Place.Unbroken.not_break {s : List Char} (h : (Place.escape q).Unbroken (c :: s)) :
    c ≠ '\n' := by
  rintro rfl
  exact h [] q ⟨s, rfl⟩ rfl

/-- The content of a literal ends before its closing quote. -/
theorem literalContent?_append {body : List Char} (inside : (Place.literal q).Within body)
    (closed : (Place.literal q).after body = .code) (unbroken : (Place.literal q).Unbroken body)
    (r : List Char) : literalContent? q (body ++ r) = some body.dropLast := by
  -- An escape takes two characters at once, so the induction is on the length.
  induction h : body.length using Nat.strongRecOn generalizing body with
  | ind n ih =>
    have filled (t : List Char) (ht : (Place.literal q).after t = .code) : t ≠ [] := by
      rintro rfl
      cases ht
    cases body with
    | nil => cases closed
    | cons c body =>
      have within := inside.tail
      have steady := unbroken.tail
      rw [Place.after_cons] at closed
      by_cases hb : c = '\\'
      · rw [hb, Place.next_backslash] at within closed steady
        cases body with
        | nil => cases closed
        | cons d body =>
          have rest := ih body.length (by simp at h; omega) within.tail closed steady.tail rfl
          subst hb
          rw [List.cons_append, List.cons_append, literalContent?_escape steady.not_break, rest,
            List.dropLast_cons_of_ne_nil (List.cons_ne_nil d body),
            List.dropLast_cons_of_ne_nil (filled body closed)]
          rfl
      · by_cases hc : c = q
        · subst hc
          rw [Place.next_closing hb] at within
          rw [within.eq_nil, List.cons_append, literalContent?_quote hb]
          rfl
        · rw [Place.next_inside hb hc] at within closed steady
          have rest := ih body.length (by simp at h; omega) within closed steady rfl
          rw [List.cons_append, literalContent?_other hc hb, rest,
            List.dropLast_cons_of_ne_nil (filled body closed)]
          rfl

end Content

theorem firstLiteral?_literal {run body : List Char} {q : Char} (plain : Unquoted run)
    (hq : isQuote q = true) (inside : (Place.literal q).Within body)
    (closed : (Place.literal q).after body = .code) (r : List Char) :
    Shows (some (q :: body)) (firstLiteral? (run ++ q :: (body ++ r))) := by
  intro unbroken
  have behind : (Place.literal q).Unbroken body := by
    have tail := Place.Unbroken.tail (p := .code) unbroken
    rwa [Place.next_quote hq] at tail
  have content := literalContent?_append inside closed behind r
  rw [firstLiteral?_code plain, firstLiteral?, if_pos hq, content]
  rfl

theorem Padded.split {a x : List Char} (h : Padded a x) (z : List Char) :
    ∃ l r, Unquoted l ∧ Unquoted r ∧ x ++ z = l ++ (a ++ (r ++ z)) := by
  obtain ⟨l, r, hl, hr, rfl⟩ := h
  exact ⟨l, r, .of_blank hl, .of_blank hr,
    by simp⟩

/-- The first literal of the arguments is the first one in their text. -/
theorem shows_intercalate {args xs : List (List Char)} (padded : List.Forall₂ Padded args xs)
    (h : ∀ a ∈ args, ArgumentText a) :
    Shows (args.flatMap literals).head? (firstLiteral? ([','].intercalate xs)) := by
  induction padded with
  | nil => exact rfl
  | @cons a x args xs hx padded ih =>
    obtain ⟨ha, others⟩ := List.forall_mem_cons.1 h
    have rest := ih others
    -- what stands behind the argument holds the first literal of those that follow it
    obtain ⟨z, hz, shows⟩ : ∃ z, [','].intercalate (x :: xs) = x ++ z ∧
        Shows (args.flatMap literals).head? (firstLiteral? z) := by
      by_cases last : xs = []
      · subst last
        refine ⟨[], by simp, ?_⟩
        rwa [List.intercalate_nil] at rest
      · refine ⟨',' :: [','].intercalate xs, ?_, ?_⟩
        · rw [List.intercalate_cons_of_ne_nil last, List.append_assoc]
          rfl
        · rwa [firstLiteral?, if_neg (by decide)]
    obtain ⟨l, r, hl, hr, split⟩ := hx.split z
    rw [hz, split, firstLiteral?_code hl, List.flatMap_cons, literals_eq ha.uncommented]
    rcases Place.cases_segments a with plain | ⟨run, q, body, rest', rfl, plain, hq, inside, ends⟩
    · rw [written_code (f := Segment.quoted) rfl plain, firstLiteral?_code plain,
        firstLiteral?_code hr]
      exact shows
    · have closed := Place.closed_literal plain hq ends ha.enclosed.after
      have regroup : run ++ q :: (body ++ rest') ++ (r ++ z) =
          run ++ q :: (body ++ (rest' ++ (r ++ z))) := by simp
      rw [written_segments (f := Segment.quoted) rfl plain hq inside ends, regroup]
      exact firstLiteral?_literal plain hq inside closed _

section Agreement

variable {s : List Char}

/-- In a text without comments whose literals close, the first literal is the one that is found. -/
theorem shows_literals (clean : Uncommented .code s) (closed : Place.code.after s = .code) :
    Shows (literals s).head? (firstLiteral? s) := by
  rw [literals_eq clean]
  rcases Place.cases_segments s with plain | ⟨run, q, body, rest, rfl, plain, hq, inside, ends⟩
  · have none := firstLiteral?_code plain []
    rw [List.append_nil] at none
    rw [written_code (f := Segment.quoted) rfl plain, none]
    exact rfl
  · have last := Place.closed_literal plain hq ends closed
    rw [written_segments (f := Segment.quoted) rfl plain hq inside ends]
    exact firstLiteral?_literal plain hq inside last rest

/-- The first literal of such a text has a content between two quotes of its own. -/
theorem quoted_of_literals (clean : Uncommented .code s) (closed : Place.code.after s = .code)
    {t : List Char} (first : (literals s).head? = some t) :
    ∃ q content, isQuote q = true ∧ t = q :: (content ++ [q]) := by
  rw [literals_eq clean] at first
  rcases Place.cases_segments s with plain | ⟨run, q, body, rest, rfl, plain, hq, inside, ends⟩
  · rw [written_code (f := Segment.quoted) rfl plain] at first
    cases first
  · have last := Place.closed_literal plain hq ends closed
    obtain ⟨content, rfl⟩ := inside.ends_with last (.inl rfl)
    rw [written_segments (f := Segment.quoted) rfl plain hq inside ends] at first
    exact ⟨q, content, hq, (Option.some.inj first).symm⟩

/-- Only a backslash makes the next character an escaped one. -/
theorem ends_with_escape {q : Char} {t : List Char} (h : Place.code.after t = .escape q) :
    ∃ u, t = u ++ ['\\'] := by
  rcases List.eq_nil_or_concat t with rfl | ⟨u, c, rfl⟩
  · cases h
  · rw [List.concat_eq_append] at h ⊢
    rw [Place.after_append, Place.after_cons, Place.after_nil] at h
    refine ⟨u, ?_⟩
    cases place : Place.code.after u with
    | code =>
      rw [place] at h
      cases hc : isQuote c with
      | false => rw [Place.next_code hc] at h; cases h
      | true => rw [Place.next_quote hc] at h; cases h
    | literal e =>
      rw [place, Place.next_literal] at h
      split at h
      · rename_i backslash
        rw [backslash]
      · split at h <;> cases h
    | escape e =>
      rw [place] at h
      cases h

theorem unbroken_of_unescaped {t : List Char} (h : ¬ ['\\', '\n'] <:+: t) : Unbroken t := by
  intro p q broken escaped
  obtain ⟨u, rfl⟩ := ends_with_escape escaped
  apply h
  obtain ⟨v, rfl⟩ := broken
  exact ⟨u, v, by simp⟩

/-- The two readers of literals agree: in a text without comments, where every literal closes and none
holds a backslash before a line break, the content that is found first is that of the first literal
segment, and none is found if and only if there is no such segment. -/
theorem literal_readers_agree (clean : Uncommented .code s)
    (closed : Place.code.after s = .code) (unbroken : ∀ t ∈ literals s, ¬ ['\\', '\n'] <:+: t) :
    (∀ t, (literals s).head? = some t → ∃ q content, isQuote q = true ∧
      t = q :: (content ++ [q]) ∧ firstLiteral? s = some content) ∧
    (firstLiteral? s = none ↔ literals s = []) := by
  have shows := shows_literals clean closed
  cases first : (literals s).head? with
  | none =>
    rw [first] at shows
    refine ⟨?_, fun _ => List.head?_eq_none_iff.1 first, fun _ => shows⟩
    rintro t ht
    cases ht
  | some t =>
    obtain ⟨q, content, hq, rfl⟩ := quoted_of_literals clean closed first
    rw [first] at shows
    have found := shows (unbroken_of_unescaped (unbroken _ (List.mem_of_head? first)))
    rw [List.tail_cons, List.dropLast_concat] at found
    refine ⟨?_, ?_, ?_⟩
    · rintro u hu
      cases hu
      exact ⟨q, content, hq, rfl, found⟩
    · intro none
      rw [found] at none
      cases none
    · intro none
      rw [none] at first
      cases first

/-- A literal with both kinds of quote, comment signs and an escaped backslash before its end, and
another one behind it. -/
def mixedQuotes : List Char := "url: 'say \"\\'//\\'\" \\\\' / \"b\"".toList

theorem mixedQuotes_agree :
    Uncommented .code mixedQuotes ∧ Place.code.after mixedQuotes = .code ∧
      (∀ t ∈ literals mixedQuotes, ¬ ['\\', '\n'] <:+: t) ∧
      (literals mixedQuotes).head? = some "'say \"\\'//\\'\" \\\\'".toList ∧
      firstLiteral? mixedQuotes = some "say \"\\'//\\'\" \\\\".toList := by
  have clean : Uncommented .code mixedQuotes := by decide +kernel
  have closed : Place.code.after mixedQuotes = .code := by decide +kernel
  have unbroken : ∀ t ∈ literals mixedQuotes, ¬ ['\\', '\n'] <:+: t := by decide +kernel
  have first : (literals mixedQuotes).head? = some "'say \"\\'//\\'\" \\\\'".toList := by
    decide +kernel
  obtain ⟨q, content, -, text, found⟩ := (literal_readers_agree clean closed unbroken).1 _ first
  have inside : content = "say \"\\'//\\'\" \\\\".toList := by
    have behind := congrArg (fun t => t.tail.dropLast) text
    simp only [List.tail_cons, List.dropLast_concat] at behind
    rw [← behind]
    decide +kernel
  exact ⟨clean, closed, unbroken, first, inside ▸ found⟩

end Agreement

end HostPlan.Source
