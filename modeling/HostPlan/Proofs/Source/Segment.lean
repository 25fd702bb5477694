import HostPlan.Proofs.Source.Place
/-!
The segments of a text without comments: a run of code, a literal, and a text of the same kind. What
is done to a text segment by segment is done to its two halves, when no literal goes over the cut
and the run of code that it divides may be divided.
-/
namespace HostPlan.Source

open Text

/-- What every segment of a text is written as, one after the other. -/
def written {α : Type} (f : Segment → List α) (s : List Char) : List α :=
  (Segment.group (Place.code.marks s)).2.flatMap f

/-- A text that opens no literal. -/
def Unquoted (s : List Char) : Prop := ∀ c ∈ s, isQuote c = false

instance : DecidablePred Unquoted := List.decidableBAll fun c => isQuote c = false

theorem Unquoted.of_blank {l : List Char} (h : Blank l) : Unquoted l :=
  fun c hc => isQuote_of_isBlank (h c hc)

theorem Unquoted.of_word {w : List Char} (h : Word w) : Unquoted w :=
  fun c hc => isQuote_of_isWord (h c hc)

theorem Unquoted.append {s t : List Char} (hs : Unquoted s) (ht : Unquoted t) :
    Unquoted (s ++ t) :=
  List.forall_mem_append.2 ⟨hs, ht⟩

theorem Unquoted.cons {c : Char} {s : List Char} (hc : isQuote c = false) (hs : Unquoted s) :
    Unquoted (c :: s) :=
  List.forall_mem_cons.2 ⟨hc, hs⟩

/-- A text inside a literal: no character closes it but the last. -/
def Place.Within (p : Place) (s : List Char) : Prop := p.marks s = s.map .inside

namespace Place

theorem Within.tail {p : Place} {c : Char} {s : List Char} (h : p.Within (c :: s)) :
    (p.next c).Within s :=
  (List.cons.inj h).2

theorem exists_within {p : Place} (hp : p ≠ .code) (s : List Char) :
    ∃ body rest, s = body ++ rest ∧ p.Within body ∧ (p.after body = .code ∨ rest = []) := by
  induction s generalizing p with
  | nil => exact ⟨[], [], rfl, rfl, .inr rfl⟩
  | cons c s ih =>
    have mark : p.mark c = .inside c := by
      cases p with
      | code => exact absurd rfl hp
      | literal q => rfl
      | escape q => rfl
    by_cases closes : p.next c = .code
    · exact ⟨[c], s, rfl, by simp [Within, marks, mark], .inl closes⟩
    · obtain ⟨body, rest, rfl, inside, ends⟩ := ih closes
      refine ⟨c :: body, rest, rfl, ?_, ends⟩
      rw [Within] at inside
      simp [Within, marks, mark, inside]

/-- A text is a run of code, or a run of code before a literal and another text. -/
theorem cases_segments (s : List Char) :
    Unquoted s ∨ ∃ run q body rest, s = run ++ q :: (body ++ rest) ∧ Unquoted run ∧
      isQuote q = true ∧ (Place.literal q).Within body ∧
      ((Place.literal q).after body = .code ∨ rest = []) := by
  induction s with
  | nil => exact .inl nofun
  | cons c s ih =>
    cases hc : isQuote c with
    | true =>
      obtain ⟨body, rest, rfl, inside, ends⟩ := exists_within (p := .literal c) nofun s
      exact .inr ⟨[], c, body, rest, rfl, nofun, hc, inside, ends⟩
    | false =>
      rcases ih with plain | ⟨run, q, body, rest, rfl, plain, literal⟩
      · exact .inl (.cons hc plain)
      · exact .inr ⟨c :: run, q, body, rest, rfl, .cons hc plain, literal⟩

theorem induction_segments {P : List Char → Prop} (code : ∀ run, Unquoted run → P run)
    (literal : ∀ run q body rest, Unquoted run → isQuote q = true → (Place.literal q).Within body →
      ((Place.literal q).after body = .code ∨ rest = []) → P rest →
      P (run ++ q :: (body ++ rest)))
    (s : List Char) : P s := by
  induction h : s.length using Nat.strongRecOn generalizing s with
  | ind n ih =>
    rcases cases_segments s with plain | ⟨run, q, body, rest, rfl, plain, hq, inside, ends⟩
    · exact code s plain
    · refine literal run q body rest plain hq inside ends (ih rest.length ?_ rest rfl)
      rw [← h]
      simp only [List.length_append, List.length_cons]
      omega

theorem marks_segments {run body rest : List Char} {q : Char} (plain : Unquoted run)
    (hq : isQuote q = true) (inside : (Place.literal q).Within body)
    (ends : (Place.literal q).after body = .code ∨ rest = []) :
    Place.code.marks (run ++ q :: (body ++ rest)) =
      run.map .code ++ .opening q :: (body.map .inside ++ Place.code.marks rest) := by
  rw [marks_append, marks_code plain, after_code plain, marks, next_quote hq, mark_quote hq,
    marks_append, inside]
  rcases ends with closed | rfl
  · rw [closed]
  · rfl

theorem after_segments {run body : List Char} {q : Char} (plain : Unquoted run)
    (hq : isQuote q = true) (rest : List Char) :
    Place.code.after (run ++ q :: (body ++ rest)) =
      ((Place.literal q).after body).after rest := by
  rw [after_append, after_code plain, after_cons, next_quote hq, after_append]

theorem closed_literal {run body rest : List Char} {q : Char} (plain : Unquoted run)
    (hq : isQuote q = true) (ends : (Place.literal q).after body = .code ∨ rest = [])
    (closed : Place.code.after (run ++ q :: (body ++ rest)) = .code) :
    (Place.literal q).after body = .code := by
  rcases ends with closes | rfl
  · exact closes
  · rwa [after_segments plain hq] at closed

end Place

namespace Segment

theorem group_inside (body : List Char) (ms : List Mark) :
    group (body.map .inside ++ ms) = (body ++ (group ms).1, (group ms).2) := by
  induction body with
  | nil => rfl
  | cons c body ih =>
    have step : group (.inside c :: (body.map .inside ++ ms)) =
        (c :: (group (body.map .inside ++ ms)).1, (group (body.map .inside ++ ms)).2) := rfl
    rw [List.map_cons, List.cons_append, step, ih]
    rfl

theorem group_code_cons (c : Char) (ms : List Mark) :
    group (.code c :: ms) =
      ([], match (group ms).2 with
        | .code t :: more => .code (c :: t) :: more
        | more => .code [c] :: more) := by
  rcases h : group ms with ⟨tail, _ | ⟨_ | _, more⟩⟩ <;> simp [group, h]

/-- No literal is open before a text. -/
theorem group_marks_code (s : List Char) : (group (Place.code.marks s)).1 = [] := by
  cases s with
  | nil => rfl
  | cons c s =>
    cases hc : isQuote c with
    | false => rw [Place.marks, Place.mark_code hc, group_code_cons]
    | true => rw [Place.marks, Place.mark_quote hc]; rfl

theorem group_code {ms : List Mark} (apart : ∀ t more, (group ms).2 ≠ .code t :: more)
    (c : Char) (run : List Char) :
    (group ((c :: run).map .code ++ ms)).2 = .code (c :: run) :: (group ms).2 := by
  induction run generalizing c with
  | nil =>
    rw [List.map_cons, List.map_nil, List.singleton_append, group_code_cons]
    split
    · rename_i h
      exact absurd h (apart _ _)
    · rfl
  | cons d run ih => rw [List.map_cons, List.cons_append, group_code_cons, ih]

end Segment

section Written

variable {α : Type} {f : Segment → List α}

theorem written_code (hf : f (.code []) = []) {run : List Char} (plain : Unquoted run) :
    written f run = f (.code run) := by
  rw [written, Place.marks_code plain]
  cases run with
  | nil => exact hf.symm
  | cons c run =>
    have grouped := @Segment.group_code [] nofun c run
    rw [List.append_nil] at grouped
    rw [grouped]
    simp [Segment.group]

theorem written_segments (hf : f (.code []) = []) {run body rest : List Char} {q : Char}
    (plain : Unquoted run) (hq : isQuote q = true) (inside : (Place.literal q).Within body)
    (ends : (Place.literal q).after body = .code ∨ rest = []) :
    written f (run ++ q :: (body ++ rest)) =
      f (.code run) ++ f (.literal (q :: body)) ++ written f rest := by
  rw [written, Place.marks_segments plain hq inside ends]
  have literal : (Segment.group (.opening q :: (body.map .inside ++ Place.code.marks rest))).2 =
      .literal (q :: body) :: (Segment.group (Place.code.marks rest)).2 := by
    change Segment.literal (q :: (Segment.group (_ ++ _)).1) :: (Segment.group (_ ++ _)).2 = _
    rw [Segment.group_inside, Segment.group_marks_code, List.append_nil]
  cases run with
  | nil =>
    rw [List.map_nil, List.nil_append, literal, List.flatMap_cons, hf]
    rfl
  | cons c run =>
    rw [Segment.group_code (by rw [literal]; nofun), literal, List.flatMap_cons, List.flatMap_cons,
      List.append_assoc]
    rfl

/-- A text may be written in two parts when no literal goes over the cut and the run of code that
does may be divided there. -/
theorem written_append (hf : f (.code []) = []) {s t : List Char}
    (closed : Place.code.after s = .code)
    (splits : ∀ a, a <:+ s → ∀ b, b <+: t → f (.code (a ++ b)) = f (.code a) ++ f (.code b)) :
    written f (s ++ t) = written f s ++ written f t := by
  -- The literals of the first text are passed one by one until the cut lies in a run of code.
  induction s using Place.induction_segments with
  | code run plain =>
    rcases Place.cases_segments t with ht | ⟨run', q, body, rest, rfl, ht, hq, inside, ends⟩
    · have both : Unquoted (run ++ t) := plain.append ht
      rw [written_code hf both, written_code hf plain, written_code hf ht,
        splits run List.suffix_rfl t List.prefix_rfl]
    · have both : Unquoted (run ++ run') := plain.append ht
      rw [← List.append_assoc, written_segments hf both hq inside ends,
        written_segments hf ht hq inside ends, written_code hf plain,
        splits run List.suffix_rfl run' (List.prefix_append run' _)]
      simp only [List.append_assoc]
  | literal run q body rest plain hq inside ends ih =>
    have bodyClosed := Place.closed_literal plain hq ends closed
    rw [Place.after_segments plain hq, bodyClosed] at closed
    have tail := ih closed fun a ha => splits a (ha.trans ⟨run ++ q :: body, by simp⟩)
    have regroup : run ++ q :: (body ++ rest) ++ t = run ++ q :: (body ++ (rest ++ t)) := by simp
    rw [regroup, written_segments hf plain hq inside (.inl bodyClosed),
      written_segments hf plain hq inside (.inl bodyClosed), tail]
    simp only [List.append_assoc]

end Written

end HostPlan.Source
