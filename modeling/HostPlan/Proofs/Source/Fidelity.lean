import HostPlan.Proofs.Source.Literal
import HostPlan.Proofs.Source.Separation
/-!
The normal form of a program loses nothing. It has the literals of the program one by one and the same
code between them, blanks and comments apart, and what blanks or a comment kept apart in the code has
a blank in between still.
-/
namespace HostPlan.Source

open Text

def Segment.frame : Segment → List (Option Char)
  | .code t => (dense t).map some
  | .literal _ => [none]

/-- The code of a text without blanks, and a hole in place of each literal. -/
def frame (s : List Char) : List (Option Char) := (segments s).flatMap Segment.frame

section Parts

variable {α : Type} {f : Segment → List α} {s t b : List Char}

/-- What is made of code is made of it bit by bit, and nothing is made of blanks. -/
structure Segment.Bitwise (f : Segment → List α) : Prop where
  append : ∀ s t, f (.code (s ++ t)) = f (.code s) ++ f (.code t)
  blank : ∀ b, Blank b → f (.code b) = []

theorem Segment.bitwise_quoted : Segment.Bitwise Segment.quoted := ⟨fun _ _ => rfl, fun _ _ => rfl⟩

theorem Segment.bitwise_frame : Segment.Bitwise Segment.frame where
  append s t := by simp [Segment.frame, dense_append]
  blank b hb := by simp [Segment.frame, dense_blank hb]

namespace Segment.Bitwise

variable (hf : Segment.Bitwise f)
include hf

theorem code_dense (t : List Char) : f (.code t) = f (.code (dense t)) := by
  induction t with
  | nil => rfl
  | cons c t ih =>
    rw [← List.singleton_append, hf.append, ih, dense_append, hf.append]
    cases hc : isBlank c with
    | true =>
      have single : Blank [c] := List.forall_mem_singleton.2 hc
      rw [hf.blank [c] single, dense_blank single, hf.blank [] blank_nil]
    | false => rw [dense_cons hc]; rfl

theorem nil : f (.code []) = [] := hf.blank [] blank_nil

theorem written_append (closed : Place.code.after s = .code) (t : List Char) :
    written f (s ++ t) = written f s ++ written f t :=
  Source.written_append hf.nil closed fun a _ b _ => hf.append a b

theorem written_blank (hb : Blank b) : written f b = [] := by
  rw [written_code hf.nil (.of_blank hb), hf.blank b hb]

theorem written_tidy (s : List Char) : written f (tidy s) = written f s := by
  have same (run : List Char) : f (.code (normalCode run)) = f (.code run) := by
    rw [hf.code_dense, hf.code_dense run]
    exact congrArg (fun t => f (.code t)) (respaced_normalCode run).shown
  induction s using Place.induction_segments with
  | code run plain =>
    have plain' := (respaced_normalCode run).unquoted plain
    rw [tidy_code plain, written_code hf.nil plain', written_code hf.nil plain, same]
  | literal run q body rest plain hq inside ends ih =>
    have plain' := (respaced_normalCode run).unquoted plain
    have ends' : (Place.literal q).after body = .code ∨ tidy rest = [] :=
      ends.imp_right fun none => by rw [none]; rfl
    rw [tidy_segments plain hq inside ends, written_segments hf.nil plain' hq inside ends',
      written_segments hf.nil plain hq inside ends, same, ih]

end Segment.Bitwise

end Parts

section Trimming

variable {α : Type} {f : Segment → List α} {r s : List Char}

/-- A text whose last literal stays open, cut before that literal. -/
theorem exists_open (open_ : Place.code.after s ≠ .code) :
    ∃ v q body, s = v ++ q :: body ∧ Place.code.after v = .code ∧ isQuote q = true ∧
      (Place.literal q).Within body ∧ (Place.literal q).after body ≠ .code := by
  induction s using Place.induction_segments with
  | code run plain => exact absurd (Place.after_code plain) open_
  | literal run q body rest plain hq inside ends ih =>
    rw [Place.after_segments plain hq] at open_
    by_cases closes : (Place.literal q).after body = .code
    · rw [closes] at open_
      obtain ⟨v, q', body', rfl, closed, more⟩ := ih open_
      refine ⟨run ++ q :: (body ++ v), q', body', by simp, ?_, more⟩
      rw [Place.after_segments plain hq, closes, closed]
    · obtain rfl := ends.resolve_left closes
      exact ⟨run, q, body, by simp, Place.after_code plain, hq, inside, closes⟩

theorem trimEnd_trim (s : List Char) : trimEnd (trim s) = trim s := by
  obtain ⟨e, he, hs⟩ := exists_trimEnd (trimStart s)
  have both := trimEnd_append_blank he (trim s)
  rw [trim, ← hs] at both
  exact both.symm

theorem isBlank_of_isQuote {q : Char} (hq : isQuote q = true) : isBlank q = false := by
  cases hb : isBlank q with
  | false => rfl
  | true => rw [isQuote_of_isBlank hb] at hq; cases hq

theorem Segment.Bitwise.written_open (hf : Segment.Bitwise f) {v body : List Char} {q : Char}
    (closed : Place.code.after v = .code) (hq : isQuote q = true)
    (inside : (Place.literal q).Within body) :
    written f (v ++ q :: body) = written f v ++ f (.literal (q :: body)) := by
  have alone : written f ([] ++ q :: (body ++ [])) =
      f (.code []) ++ f (.literal (q :: body)) ++ written f [] :=
    written_segments hf.nil nofun hq inside (.inr rfl)
  rw [List.nil_append, List.append_nil, hf.nil, hf.written_blank blank_nil, List.append_nil,
    List.nil_append] at alone
  rw [hf.written_append closed, alone]

/-- Trimming takes nothing from a text whose literals close. -/
theorem Segment.Bitwise.written_trim (hf : Segment.Bitwise f)
    (closed : Place.code.after r = .code) : written f (trim r) = written f r := by
  obtain ⟨l, e, hl, he, hs⟩ := exists_trim r
  have front : Place.code.after l = .code := Place.after_code (Unquoted.of_blank hl)
  rw [hs] at closed
  have kept := closed_of_blanks he closed
  have whole : written f r = written f (l ++ trim r ++ e) := congrArg _ hs
  rw [whole, hf.written_append kept, hf.written_append front, hf.written_blank hl,
    hf.written_blank he, List.append_nil, List.nil_append]

/-- From a text with an open literal it takes the blanks at the end of that literal. -/
theorem exists_written_trim (open_ : Place.code.after r ≠ .code) :
    ∃ v lit, ∀ {α : Type} {f : Segment → List α}, Segment.Bitwise f →
      written f r = written f v ++ f (.literal lit) ∧
        written f (trim r) = written f v ++ f (.literal (trimEnd lit)) := by
  obtain ⟨l, e, hl, he, hs⟩ := exists_trim r
  have front : Place.code.after l = .code := Place.after_code (Unquoted.of_blank hl)
  have openTrim : Place.code.after (trim r) ≠ .code := by
    intro closed
    rw [hs, Place.after_append, Place.after_append, front, closed] at open_
    exact open_ (Place.after_code (Unquoted.of_blank he))
  obtain ⟨v, q, body, hn, closed, hq, inside, openBody⟩ := exists_open openTrim
  have solid := isBlank_of_isQuote hq
  -- Without the blanks at its end the open literal is what the trimmed text ends with.
  have bare : trimEnd body = body := by
    have again := trimEnd_trim r
    rw [hn, trimEnd_append_cons solid] at again
    exact (List.cons.inj (List.append_cancel_left again)).2
  have last : trimEnd (q :: (body ++ e)) = q :: body := by
    have cut := trimEnd_append_cons solid [] (body ++ e)
    rwa [List.nil_append, List.nil_append, trimEnd_append_blank he, bare] at cut
  have insideLonger : (Place.literal q).Within (body ++ e) := by
    have proper : ((Place.literal q).after body).Proper := Place.Proper.after (p := .literal q) hq body
    rw [Place.Within, Place.marks_append, inside, (proper.inside_blanks openBody he).1,
      List.map_append]
  have whole : r = l ++ (v ++ q :: (body ++ e)) := by rw [hs, hn]; simp
  refine ⟨v, q :: (body ++ e), fun hf => ⟨?_, ?_⟩⟩
  · rw [whole, hf.written_append front, hf.written_blank hl, List.nil_append,
      hf.written_open closed hq insideLonger]
  · rw [last, hn, hf.written_open closed hq inside]

end Trimming

section Fidelity

/-- The second text is the first one without anything lost: the same literals, but for the blanks at
the end of one that stays open; the same code in front of, between and behind them; and a gap for every
gap between what shows. -/
structure Faithful (s t : List Char) : Prop where
  literals : (Mode.code.after s).place = .code → literals t = literals s
  openLiteral : (Mode.code.after s).place ≠ .code →
    ∃ ls l, Source.literals s = ls ++ [l] ∧ Source.literals t = ls ++ [trimEnd l]
  code : frame t = frame s
  gaps : ∀ x a w b y, s = x ++ a :: (w ++ b :: y) → Gapped x a w b y →
    ∃ x' g y', t = x' ++ a :: (g ++ b :: y') ∧ g ≠ [] ∧ Blank g ∧
      visible (x' ++ [a]) = visible (x ++ [a])

theorem segments_eq_written {α : Type} (f : Segment → List α) (s : List Char) :
    (segments s).flatMap f = written f (Mode.code.uncommented s) := by
  rw [written, marks_uncommented]
  rfl

/-- The normal form of a text with line feeds only loses nothing, byte order marks apart. -/
theorem normalize_faithful {source : List Char} (unix : '\r' ∉ source) :
    Faithful (source.dropWhile (· == '\uFEFF')) (normalize source) := by
  have clean := uncommented_normalize source
  rw [normalize_eq] at clean ⊢
  have unix' : '\r' ∉ source.dropWhile (· == '\uFEFF') := fun mem =>
    unix ((List.dropWhile_sublist _).subset mem)
  generalize source.dropWhile (· == '\uFEFF') = s at clean unix' ⊢
  have relaid_eq : relaid s = tidy (Mode.code.uncommented s) := by
    rw [relaid, unifyBreaks_eq_self unix']
  have place : Place.code.after (relaid s) = (Mode.code.after s).place := (relaid_spec s).after
  have before {α : Type} {f : Segment → List α} (hf : Segment.Bitwise f) :
      (segments s).flatMap f = written f (relaid s) := by
    rw [segments_eq_written, relaid_eq, hf.written_tidy]
  have behind {α : Type} (f : Segment → List α) :
      (segments (trim (relaid s))).flatMap f = written f (trim (relaid s)) := by
    rw [segments, clean.marks_code]
    rfl
  refine ⟨fun closed => ?_, fun open_ => ?_, ?_, ?_⟩
  · rw [literals, literals, behind, before Segment.bitwise_quoted]
    exact Segment.bitwise_quoted.written_trim (place.trans closed)
  · obtain ⟨v, lit, both⟩ := exists_written_trim (place ▸ open_)
    obtain ⟨whole, trimmed⟩ := both Segment.bitwise_quoted
    refine ⟨written Segment.quoted v, lit, ?_, ?_⟩
    · rw [literals, before Segment.bitwise_quoted, whole]
      rfl
    · rw [literals, behind, trimmed]
      rfl
  · rw [frame, frame, behind, before Segment.bitwise_frame]
    by_cases closed : Place.code.after (relaid s) = .code
    · exact Segment.bitwise_frame.written_trim closed
    · obtain ⟨v, lit, both⟩ := exists_written_trim closed
      obtain ⟨whole, trimmed⟩ := both Segment.bitwise_frame
      rw [whole, trimmed]
      rfl
  · rintro x a w b y rfl gapped
    rw [relaid_eq]
    exact gapped.kept

/-- A comment with an apostrophe between two blanks. -/
def apology : List Char := ' ' :: '/' :: '*' :: (" it's ".toList ++ ['*', '/', ' '])

/-- What would be an arrow without its comment, a literal with comment signs, and one that stays
open. -/
def tangle : List Char :=
  "x ".toList ++ '=' :: (apology ++ '>' :: " \"a // b\"=/y // 'end'\n/ 'rest  ".toList)

theorem marked_tangle_faithful :
    '\r' ∉ '\uFEFF' :: tangle ∧ Faithful tangle (normalize ('\uFEFF' :: tangle)) ∧
      normalize ('\uFEFF' :: tangle) = "x = > \"a // b\" = /y / 'rest".toList ∧
      ∃ x g y, normalize ('\uFEFF' :: tangle) = x ++ '=' :: (g ++ '>' :: y) ∧ g ≠ [] ∧ Blank g := by
  have unix : '\r' ∉ '\uFEFF' :: tangle := by decide +kernel
  have unmarked : ('\uFEFF' :: tangle).dropWhile (· == '\uFEFF') = tangle := by decide +kernel
  have faithful : Faithful tangle (normalize ('\uFEFF' :: tangle)) := by
    have marked := normalize_faithful unix
    rwa [unmarked] at marked
  have gapped : Gapped "x ".toList '=' apology '>' " \"a // b\"=/y // 'end'\n/ 'rest  ".toList := by
    refine ⟨by decide, by decide, ?_, .inl rfl, ?_, nofun, ?_, ?_⟩
    · rintro (comment | comment | comment) <;> cases comment
    · exact .blank (by decide) (.block (by decide +kernel) (.blank (by decide) .nil))
    · exact fun opens => nomatch opens.1
    · exact fun opens => nomatch opens.1
  obtain ⟨x, g, y, split, filled, blank, -⟩ := faithful.gaps _ _ _ _ _ rfl gapped
  exact ⟨unix, faithful, by decide +kernel, x, g, y, split, filled, blank⟩

end Fidelity

end HostPlan.Source
