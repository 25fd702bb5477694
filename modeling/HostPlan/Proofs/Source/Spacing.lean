import HostPlan.Declaration.Assembly
import HostPlan.Proofs.Source.Sequence
import Mathlib.Data.List.DropRight
/-!
Gaps between the parts of a program. Blanks and comments that begin with a blank leave blanks behind
them and nothing else, whatever quotes and signs the comments hold, and a run of blanks in the code is
one space in the normal form. So any gap may stand for any other one.
-/
namespace HostPlan.Source

open Text

/-- Blanks and comments, every comment with its end. -/
inductive Filler : List Char → Prop where
  | nil : Filler []
  | blank {c : Char} {r : List Char} : isBlank c = true → Filler r → Filler (c :: r)
  | line {t r : List Char} : '\n' ∉ t → Filler r → Filler ('/' :: '/' :: (t ++ '\n' :: r))
  | block {t r : List Char} : ¬ ['*', '/'] <:+: t → Filler r →
      Filler ('/' :: '*' :: (t ++ '*' :: '/' :: r))

/-- A gap between two parts of a program. -/
structure Gap (w : List Char) : Prop where
  opens : ∃ c r, w = c :: r ∧ isBlank c = true
  filler : Filler w

section Marks

variable {t w : List Char}

theorem Mode.marks_lineComment (open_ : '\n' ∉ t) (z : List Char) :
    Mode.lineComment.marks (t ++ '\n' :: z) = .code '\n' :: Mode.code.marks z := by
  induction t with
  | nil => rfl
  | cons c t ih =>
    rw [List.mem_cons, not_or] at open_
    have step : Mode.lineComment.step c = (.lineComment, []) := by
      simp [Mode.step, Ne.symm open_.1]
    rw [List.cons_append, Mode.marks, step]
    exact ih open_.2

/-- A comment goes on behind a star as long as no slash follows it. -/
theorem Mode.marks_blockComment (open_ : ¬ ['*', '/'] <:+: t) (z : List Char) :
    Mode.blockComment.marks (t ++ '*' :: '/' :: z) = Mode.code.marks z ∧
      (t.head? ≠ some '/' → Mode.star.marks (t ++ '*' :: '/' :: z) = Mode.code.marks z) := by
  induction t with
  | nil => exact ⟨rfl, fun _ => rfl⟩
  | cons c t ih =>
    rw [List.infix_cons_iff, not_or] at open_
    obtain ⟨block, star⟩ := ih open_.2
    have behind : c = '*' → t.head? ≠ some '/' := by
      rintro rfl next
      obtain ⟨r, rfl⟩ : ∃ r, t = '/' :: r := List.head?_eq_some_iff.1 next
      exact open_.1 ⟨r, rfl⟩
    by_cases hc : c = '*'
    · subst hc
      exact ⟨star (behind rfl), fun _ => star (behind rfl)⟩
    · have step : Mode.blockComment.step c = (.blockComment, []) := by simp [Mode.step, hc]
      refine ⟨?_, fun slash => ?_⟩
      · rw [List.cons_append, Mode.marks, step]
        exact block
      · have other : c ≠ '/' := fun h => slash (by rw [h]; rfl)
        have step : Mode.star.step c = (.blockComment, []) := by simp [Mode.step, hc, other]
        rw [List.cons_append, Mode.marks, step]
        exact block

/-- What is left of blanks and comments is blank, and something is left of them. -/
theorem Filler.marks (h : Filler w) :
    ∃ b, Blank b ∧ (w ≠ [] → b ≠ []) ∧
      ∀ z, Mode.code.marks (w ++ z) = b.map .code ++ Mode.code.marks z := by
  induction h with
  | nil => exact ⟨[], blank_nil, id, fun _ => rfl⟩
  | @blank c r hc _ ih =>
    obtain ⟨b, hb, -, marks⟩ := ih
    have step : Mode.code.step c = (.code, [.code c]) :=
      Mode.step_code (isQuote_of_isBlank hc) (by rintro rfl; cases hc)
    refine ⟨c :: b, List.forall_mem_cons.2 ⟨hc, hb⟩, fun _ => List.cons_ne_nil _ _, fun z => ?_⟩
    rw [List.cons_append, Mode.marks, step, marks]
    rfl
  | @line t r ht _ ih =>
    obtain ⟨b, hb, -, marks⟩ := ih
    refine ⟨'\n' :: b, List.forall_mem_cons.2 ⟨by decide, hb⟩, fun _ => List.cons_ne_nil _ _, fun z => ?_⟩
    have comment := Mode.marks_lineComment ht (r ++ z)
    rw [marks] at comment
    have regroup : '/' :: '/' :: (t ++ '\n' :: r) ++ z = '/' :: '/' :: (t ++ '\n' :: (r ++ z)) := by
      simp
    rw [regroup]
    exact comment
  | @block t r ht _ ih =>
    obtain ⟨b, hb, -, marks⟩ := ih
    refine ⟨' ' :: b, List.forall_mem_cons.2 ⟨by decide, hb⟩, fun _ => List.cons_ne_nil _ _, fun z => ?_⟩
    have comment := (Mode.marks_blockComment ht (r ++ z)).1
    rw [marks] at comment
    have regroup : '/' :: '*' :: (t ++ '*' :: '/' :: r) ++ z =
        '/' :: '*' :: (t ++ '*' :: '/' :: (r ++ z)) := by simp
    rw [regroup]
    exact congrArg (List.cons (Mark.code ' ')) comment

theorem neutral_of_isBlank {c : Char} (h : isBlank c = true) : Neutral c := by
  refine ⟨isQuote_of_isBlank h, ?_⟩
  cases hs : isCommentSign c with
  | false => rfl
  | true =>
    simp only [isCommentSign, Bool.or_eq_true, beq_iff_eq] at hs
    rcases hs with rfl | rfl <;> cases h

/-- Between two texts a gap leaves blanks, and one at least. -/
theorem Gap.uncommented {s : List Char} (h : Gap w) (plain : (Mode.code.after s).IsPlain) :
    ∃ b, b ≠ [] ∧ Blank b ∧ ∀ t, Mode.code.uncommented (s ++ (w ++ t)) =
      Mode.code.uncommented s ++ (b ++ Mode.code.uncommented t) := by
  obtain ⟨c, r, rfl, hc⟩ := h.opens
  have rest : Filler r := by
    cases h.filler with
    | blank _ rest => exact rest
    | line => cases hc
    | block => cases hc
  obtain ⟨b, hb, -, marks⟩ := rest.marks
  refine ⟨c :: b, List.cons_ne_nil c b, List.forall_mem_cons.2 ⟨hc, hb⟩, fun t => ?_⟩
  have char : Mark.char ∘ Mark.code = id := rfl
  rw [List.cons_append, Mode.uncommented_append_neutral (neutral_of_isBlank hc) plain,
    Mode.uncommented, Mode.uncommented, Mode.uncommented, marks, List.map_append, List.map_map,
    char, List.map_id]
  rfl

end Marks

section Breaks

variable {s t w : List Char}

theorem head?_unifyBreaks_slash (h : (unifyBreaks s).head? = some '/') : s.head? = some '/' := by
  cases s with
  | nil => exact h
  | cons c s =>
    rcases unifyBreaks_cons_cases c s with same | ⟨same, r, rfl⟩
    · rw [same] at h
      exact h
    · rw [same, unifyBreaks_cons (by decide)] at h
      cases h

theorem not_closed_unifyBreaks (h : ¬ ['*', '/'] <:+: t) : ¬ ['*', '/'] <:+: unifyBreaks t := by
  induction t with
  | nil => exact h
  | cons c t ih =>
    rw [List.infix_cons_iff, not_or] at h
    rcases unifyBreaks_cons_cases c t with same | ⟨same, -⟩
    · rw [same, List.infix_cons_iff, not_or]
      refine ⟨fun here => ?_, ih h.2⟩
      obtain ⟨rfl, slash⟩ := List.cons_prefix_cons.1 here
      obtain ⟨r, hr⟩ := slash
      have next : t.head? = some '/' := head?_unifyBreaks_slash (by rw [← hr]; rfl)
      obtain ⟨r, rfl⟩ : ∃ r, t = '/' :: r := List.head?_eq_some_iff.1 next
      exact h.1 ⟨r, rfl⟩
    · rw [same]
      exact ih h.2

theorem unifyBreaks_line (h : '\n' ∉ t) (r : List Char) :
    ∃ t', '\n' ∉ t' ∧ unifyBreaks (t ++ '\n' :: r) = t' ++ '\n' :: unifyBreaks r := by
  induction t with
  | nil => exact ⟨[], List.not_mem_nil, unifyBreaks_cons (by decide) r⟩
  | cons c t ih =>
    rw [List.mem_cons, not_or] at h
    obtain ⟨t', ht', same⟩ := ih h.2
    rcases unifyBreaks_cons_cases c (t ++ '\n' :: r) with kept | ⟨gone, -⟩
    · refine ⟨c :: t', ?_, by rw [List.cons_append, kept, same]; rfl⟩
      rw [List.mem_cons, not_or]
      exact ⟨h.1, ht'⟩
    · exact ⟨t', ht', by rw [List.cons_append, gone, same]⟩

theorem Filler.unified (h : Filler w) : Filler (unifyBreaks w) := by
  induction h with
  | nil => exact .nil
  | @blank c r hc _ ih =>
    rcases unifyBreaks_cons_cases c r with kept | ⟨gone, -⟩
    · rw [kept]
      exact .blank hc ih
    · rw [gone]
      exact ih
  | @line t r ht _ ih =>
    obtain ⟨t', ht', same⟩ := unifyBreaks_line ht r
    rw [unifyBreaks_cons (by decide), unifyBreaks_cons (by decide), same]
    exact .line ht' ih
  | @block t r ht _ ih =>
    rw [unifyBreaks_cons (by decide), unifyBreaks_cons (by decide),
      unifyBreaks_append_cons (by decide) (by decide), unifyBreaks_cons (by decide)]
    exact .block (not_closed_unifyBreaks ht) ih

theorem Gap.unified (h : Gap w) : Gap (unifyBreaks w) := by
  refine ⟨?_, h.filler.unified⟩
  obtain ⟨c, r, rfl, hc⟩ := h.opens
  rcases unifyBreaks_cons_cases c r with kept | ⟨gone, r', rfl⟩
  · exact ⟨c, unifyBreaks r, kept, hc⟩
  · exact ⟨'\n', unifyBreaks r', by rw [gone, unifyBreaks_cons (by decide)], by decide⟩

theorem Filler.append {x : List Char} (hw : Filler w) (hx : Filler x) : Filler (w ++ x) := by
  induction hw with
  | nil => exact hx
  | blank hc _ ih => exact .blank hc ih
  | @line t r ht _ ih =>
    have whole := Filler.line ht ih
    simpa using whole
  | @block t r ht _ ih =>
    have whole := Filler.block ht ih
    simpa using whole

theorem Filler.of_blank (h : Blank w) : Filler w := by
  induction w with
  | nil => exact .nil
  | cons c w ih =>
    obtain ⟨head, tail⟩ := List.forall_mem_cons.1 h
    exact .blank head (ih tail)

/-- Blanks on its two sides widen a gap. -/
theorem Gap.widen {l r : List Char} (h : Gap w) (hl : Blank l) (hr : Blank r) :
    Gap (l ++ w ++ r) := by
  refine ⟨?_, ((Filler.of_blank hl).append h.filler).append (.of_blank hr)⟩
  cases l with
  | nil =>
    obtain ⟨c, x, rfl, hc⟩ := h.opens
    exact ⟨c, x ++ r, rfl, hc⟩
  | cons d l => exact ⟨d, l ++ w ++ r, rfl, hl d List.mem_cons_self⟩

end Breaks

section Layout

variable {b s t w w' : List Char}

/-- A run of blanks in the code is as good as one space. -/
theorem collapse_blanks (hb : Blank b) (filled : b ≠ []) (f : Bool) (s t : List Char) :
    collapse f (s ++ (b ++ t)) = collapse f (s ++ ' ' :: t) := by
  have swallowed : ∀ b, Blank b → collapse true (b ++ t) = collapse true t := by
    intro b hb
    induction b with
    | nil => rfl
    | cons c b ih =>
      obtain ⟨head, tail⟩ := List.forall_mem_cons.1 hb
      rw [List.cons_append, collapse, if_pos head, if_pos rfl, ih tail]
  have space : isBlank ' ' = true := by decide
  obtain ⟨c, b, rfl⟩ := List.exists_cons_of_ne_nil filled
  obtain ⟨head, tail⟩ := List.forall_mem_cons.1 hb
  induction s generalizing f with
  | nil => simp [collapse_cons, head, space, swallowed b tail]
  | cons d s ih =>
    have rest (f : Bool) := ih f
    simp only [List.cons_append, collapse] at rest ⊢
    rw [rest, rest]

theorem normalCode_blanks (hb : Blank b) (filled : b ≠ []) (s t : List Char) :
    normalCode (s ++ (b ++ t)) = normalCode (s ++ ' ' :: t) := by
  rw [normalCode_eq, normalCode_eq, collapse_blanks hb filled]

theorem tidy_blanks (hb : Blank b) (filled : b ≠ []) (closed : Place.code.after s = .code)
    (t : List Char) : tidy (s ++ (b ++ t)) = tidy (s ++ ' ' :: t) := by
  have blanks : Unquoted b := .of_blank hb
  have space : Unquoted [' '] := by decide
  -- The literals before the blanks are passed one by one; the run of code around them is left.
  induction s using Place.induction_segments with
  | code run plain =>
    rcases Place.cases_segments t with ht | ⟨run', q, body, rest, rfl, ht, hq, inside, ends⟩
    · have code : Unquoted (run ++ (b ++ t)) := plain.append (blanks.append ht)
      have code' : Unquoted (run ++ ' ' :: t) := plain.append (space.append ht)
      rw [tidy_code code, tidy_code code', normalCode_blanks hb filled]
    · have code : Unquoted (run ++ (b ++ run')) := plain.append (blanks.append ht)
      have code' : Unquoted (run ++ ' ' :: run') := plain.append (space.append ht)
      have first := tidy_segments code hq inside ends
      have second := tidy_segments code' hq inside ends
      rw [normalCode_blanks hb filled, ← second] at first
      simpa using first
  | literal run q body rest plain hq inside ends ih =>
    have bodyClosed := Place.closed_literal plain hq ends closed
    rw [Place.after_segments plain hq, bodyClosed] at closed
    have regroup (z : List Char) :
        run ++ q :: (body ++ rest) ++ z = run ++ q :: (body ++ (rest ++ z)) := by simp
    rw [regroup, regroup, tidy_segments plain hq inside (.inl bodyClosed),
      tidy_segments plain hq inside (.inl bodyClosed), ih closed]

/-- A text around a gap, laid out anew: the gap is one space. -/
theorem relaid_gap (hw : Gap w) (plain : (Mode.code.after s).IsPlain)
    (before : s.getLast? ≠ some '\r') (behind : t.head? ≠ some '\n') :
    relaid (s ++ (w ++ t)) = tidy (Mode.code.uncommented (unifyBreaks s) ++
      ' ' :: Mode.code.uncommented (unifyBreaks t)) := by
  have breaks : unifyBreaks (s ++ (w ++ t)) = unifyBreaks s ++ (unifyBreaks w ++ unifyBreaks t) := by
    rw [unifyBreaks_append fun last => absurd last before, unifyBreaks_append fun _ => behind]
  obtain ⟨mode, -⟩ := unified (m := .code) trivial s
  rw [← mode] at plain
  obtain ⟨b, filled, hb, left⟩ := hw.unified.uncommented plain
  have closed := (Mode.stripped .code (unifyBreaks s)).after
  rw [plain.place] at closed
  rw [relaid, breaks, left, tidy_blanks hb filled closed]

/-- Carriage returns at the end of a text leave no literal and no comment. -/
theorem isPlain_of_returns {r : List Char} (hr : ∀ c ∈ r, c = '\r')
    (plain : (Mode.code.after (s ++ r)).IsPlain) : (Mode.code.after s).IsPlain := by
  induction r using List.reverseRecOn with
  | nil => rwa [List.append_nil] at plain
  | append_singleton r c ih =>
    obtain rfl : c = '\r' := hr c (by simp)
    apply ih fun d hd => hr d (by simp [hd])
    have proper : (Mode.code.after (s ++ r)).Proper := Mode.Proper.after (m := .code) trivial _
    rw [← List.append_assoc, Mode.after_append] at plain
    exact proper.plain_of_step (c := '\r') rfl (by decide) plain

theorem relaid_gaps (plain : (Mode.code.after s).IsPlain) (hw : Gap w) (hw' : Gap w') :
    relaid (s ++ (w ++ t)) = relaid (s ++ (w' ++ t)) := by
  -- A line break at the end of the gap may go over it, so the gap takes in the breaks beside it.
  obtain ⟨s, l, rfl, hl, before⟩ :
      ∃ s' l, s = s' ++ l ∧ (∀ c ∈ l, c = '\r') ∧ s'.getLast? ≠ some '\r' := by
    refine ⟨s.rdropWhile (· == '\r'), s.rtakeWhile (· == '\r'),
      List.rdropWhile_append_rtakeWhile.symm, ?_, ?_⟩
    · intro c hc
      have returns := List.mem_rtakeWhile_imp hc
      exact eq_of_beq returns
    · intro last
      have filled : s.rdropWhile (· == '\r') ≠ [] := by
        intro none
        rw [none] at last
        cases last
      rw [List.getLast?_eq_getLast_of_ne_nil filled, Option.some.injEq] at last
      have other := List.rdropWhile_last_not (· == '\r') s filled
      exact other (beq_iff_eq.2 last)
  obtain ⟨r, t, rfl, hr, behind⟩ :
      ∃ r t', t = r ++ t' ∧ (∀ c ∈ r, c = '\n') ∧ t'.head? ≠ some '\n' := by
    refine ⟨t.takeWhile (· == '\n'), t.dropWhile (· == '\n'),
      List.takeWhile_append_dropWhile.symm, ?_, ?_⟩
    · intro c hc
      exact eq_of_beq (List.all_eq_true.1 List.all_takeWhile c hc)
    · intro first
      have other := List.head?_dropWhile_not (· == '\n') t
      rw [first] at other
      cases other
  have returns : Blank l := fun c hc => by rw [hl c hc]; decide
  have feeds : Blank r := fun c hc => by rw [hr c hc]; decide
  have regroup (w : List Char) : s ++ l ++ (w ++ (r ++ t)) = s ++ (l ++ w ++ r ++ t) := by simp
  have plain' := isPlain_of_returns hl plain
  rw [regroup, regroup, relaid_gap (hw.widen returns feeds) plain' before behind,
    relaid_gap (hw'.widen returns feeds) plain' before behind]

end Layout

section Programs

variable {s t w w' : List Char}

theorem dropWhile_gap (hw : Gap w) (z : List Char) :
    (s ++ (w ++ z)).dropWhile (· == '\uFEFF') = s.dropWhile (· == '\uFEFF') ++ (w ++ z) := by
  obtain ⟨c, r, rfl, hc⟩ := hw.opens
  have stop : (c == '\uFEFF') = false := by
    cases h : c == '\uFEFF' with
    | false => rfl
    | true =>
      rw [eq_of_beq h] at hc
      cases hc
  induction s with
  | nil => simp [stop]
  | cons d s ih =>
    rw [List.cons_append, List.dropWhile_cons, List.dropWhile_cons]
    split
    · exact ih
    · rfl

theorem readProgram_of_normalize (h : normalize s = normalize t) :
    Declaration.readProgram s = Declaration.readProgram t := by
  have found : searchSource s = searchSource t := by rw [searchSource, searchSource, h]
  rw [Declaration.readProgram, Declaration.readProgram, chains, chains, brokenChains, brokenChains,
    found]

/-- Neither the normal form of a program nor what is read from it depends on how the gap between two
of its parts is filled. -/
theorem gaps_alike (plain : (Mode.code.after s).IsPlain) (hw : Gap w) (hw' : Gap w') (t : List Char) :
    normalize (s ++ w ++ t) = normalize (s ++ w' ++ t) ∧
      Declaration.readProgram (s ++ w ++ t) = Declaration.readProgram (s ++ w' ++ t) := by
  have same : normalize (s ++ w ++ t) = normalize (s ++ w' ++ t) := by
    rw [← (unmarked misleads_unmarked s).1] at plain
    rw [List.append_assoc, List.append_assoc, normalize_eq, normalize_eq, dropWhile_gap hw,
      dropWhile_gap hw', relaid_gaps plain hw hw']
  exact ⟨same, readProgram_of_normalize same⟩

/-- A line break, a comment with quotes to the end of its line, and one with brackets over two lines. -/
def remark : List Char :=
  '\n' :: '/' :: '/' :: (" the \"cache\" /* of".toList ++
    '\n' :: '/' :: '*' :: (" it's '( \r\n // ".toList ++ ['*', '/']))

theorem remark_fills_gap :
    (Mode.code.after "var cache = builder".toList).IsPlain ∧ Gap remark ∧ Gap [' '] ∧
      normalize ("var cache = builder".toList ++ remark ++ ".AddRedis(\"cache\");".toList) =
        normalize ("var cache = builder".toList ++ [' '] ++ ".AddRedis(\"cache\");".toList) ∧
      Declaration.readProgram
          ("var cache = builder".toList ++ remark ++ ".AddRedis(\"cache\");".toList) =
        Declaration.readProgram
          ("var cache = builder".toList ++ [' '] ++ ".AddRedis(\"cache\");".toList) := by
  have plain : (Mode.code.after "var cache = builder".toList).IsPlain := .inl (by decide +kernel)
  have comments : Gap remark :=
    ⟨⟨'\n', _, rfl, by decide⟩, .blank (by decide) <|
      .line (by decide +kernel) (.block (by decide +kernel) .nil)⟩
  have space : Gap [' '] := ⟨⟨' ', [], rfl, by decide⟩, .blank (by decide) .nil⟩
  exact ⟨plain, comments, space, gaps_alike plain comments space _⟩

end Programs

end HostPlan.Source
