import HostPlan.Proofs.Source.Segment
import HostPlan.Source.Normal
/-!
The normal form of a stretch of code. It differs from the code in its blanks only and brings no
comment about, and what stands on the two sides of a character that belongs to no sign has its
normal form on its own.
-/
namespace HostPlan.Source

open Text

/-- A character of code that is no blank, opens no literal and belongs to no comment, arrow,
assignment or comparison. -/
structure Solid (c : Char) : Prop where
  shown : isBlank c = false
  neutral : Neutral c
  unsigned : c ∉ ['=', '!', '<', '>']

instance : DecidablePred Solid := fun c =>
  decidable_of_iff (isBlank c = false ∧ Neutral c ∧ c ∉ ['=', '!', '<', '>'])
    ⟨fun h => ⟨h.1, h.2.1, h.2.2⟩, fun h => ⟨h.shown, h.neutral, h.unsigned⟩⟩

section Collapse

theorem collapse_nil (f : Bool) : collapse f [] = [] := rfl

theorem collapse_cons (f : Bool) (c : Char) (r : List Char) : collapse f (c :: r) =
    if isBlank c then if f then collapse true r else ' ' :: collapse true r
    else c :: collapse false r := rfl

theorem collapse_append_cons {c : Char} (hc : isBlank c = false) (f : Bool) (s t : List Char) :
    collapse f (s ++ c :: t) = collapse f s ++ c :: collapse false t := by
  induction s generalizing f with
  | nil => simp [collapse_nil, collapse_cons, hc]
  | cons d s ih => cases hd : isBlank d <;> cases f <;> simp [collapse_cons, hd, ih]

theorem collapse_cons_blank {b : Char} (hb : isBlank b = true) (t : List Char) :
    collapse false (b :: t) = collapse false t ∨
      collapse false (b :: t) = ' ' :: collapse false t := by
  cases t with
  | nil => simp [collapse_nil, collapse_cons, hb]
  | cons d t => cases hd : isBlank d <;> simp [collapse_cons, hb, hd]

theorem mem_collapse {f : Bool} {c : Char} {t : List Char} (h : c ∈ collapse f t) :
    c = ' ' ∨ c ∈ t := by
  induction t generalizing f with
  | nil => cases h
  | cons d t ih =>
    rw [collapse_cons] at h
    split at h
    · split at h
      · exact (ih h).imp_right (List.mem_cons_of_mem d)
      · rcases List.mem_cons.1 h with rfl | h
        · exact .inl rfl
        · exact (ih h).imp_right (List.mem_cons_of_mem d)
    · rcases List.mem_cons.1 h with rfl | h
      · exact .inr List.mem_cons_self
      · exact (ih h).imp_right (List.mem_cons_of_mem d)

end Collapse

section Cuts

variable {c : Char}

theorem extend_ne_nil (c : Char) (ps : List (List Char)) : extend c ps ≠ [] := by
  cases ps <;> nofun

theorem extend_append (c : Char) (p q : List Char) (ps qs : List (List Char)) :
    ∃ ps' p', extend c (ps ++ [p]) = ps' ++ [p'] ∧
      extend c (ps ++ (p ++ q) :: qs) = ps' ++ (p' ++ q) :: qs := by
  cases ps with
  | nil => exact ⟨[], c :: p, rfl, rfl⟩
  | cons x ps => exact ⟨(c :: x) :: ps, p, rfl, rfl⟩

theorem intercalate_extend (sep : List Char) (c : Char) {ps : List (List Char)} (h : ps ≠ []) :
    sep.intercalate (extend c ps) = c :: sep.intercalate ps := by
  cases ps with
  | nil => exact absurd rfl h
  | cons p ps => cases ps <;> simp [extend, List.intercalate_cons_cons]

theorem not_arrow {r : List Char} (no : ∀ t, c = '=' → r = '>' :: t → False) :
    c = '=' → r.head? ≠ some '>' := by
  intro hc arrow
  obtain ⟨t, rest⟩ := List.head?_eq_some_iff.1 arrow
  exact no t hc rest

theorem cutArrows_cons {r : List Char} (h : c = '=' → r.head? ≠ some '>') :
    cutArrows (c :: r) = extend c (cutArrows r) := by
  rw [cutArrows]
  rintro t rfl rfl
  exact h rfl rfl

theorem cutArrows_sign (r : List Char) : cutArrows ('=' :: '>' :: r) = [] :: cutArrows r := rfl

theorem cutArrows_ne_nil (t : List Char) : cutArrows t ≠ [] := by
  cases t with
  | nil => nofun
  | cons c r =>
    by_cases sign : c = '=' ∧ r.head? = some '>'
    · obtain ⟨rfl, arrow⟩ := sign
      obtain ⟨r, rfl⟩ := List.head?_eq_some_iff.1 arrow
      nofun
    · rw [cutArrows_cons fun hc arrow => sign ⟨hc, arrow⟩]
      exact extend_ne_nil c _

theorem intercalate_cutArrows (t : List Char) : ['=', '>'].intercalate (cutArrows t) = t := by
  induction t using cutArrows.induct with
  | case1 => rfl
  | case2 r ih =>
    rw [cutArrows_sign, List.intercalate_cons_of_ne_nil (cutArrows_ne_nil r), ih]
    rfl
  | case3 c r no ih =>
    rw [cutArrows_cons (not_arrow no), intercalate_extend _ _ (cutArrows_ne_nil r), ih]

theorem cutArrows_of_not_mem {t : List Char} (h : '=' ∉ t) : cutArrows t = [t] := by
  induction t with
  | nil => rfl
  | cons c t ih =>
    rw [List.mem_cons, not_or] at h
    rw [cutArrows_cons fun hc => absurd hc.symm h.1, ih h.2]
    rfl

theorem cutAssignments_cons (b : Option Char) (c : Char) (r : List Char) :
    cutAssignments b (c :: r) =
      if c = '=' ∧ assigns b r.head? then [] :: cutAssignments (some c) r
      else extend c (cutAssignments (some c) r) := rfl

theorem cutAssignments_ne_nil (b : Option Char) (t : List Char) : cutAssignments b t ≠ [] := by
  cases t with
  | nil => nofun
  | cons c r =>
    rw [cutAssignments_cons]
    split
    · nofun
    · exact extend_ne_nil _ _

theorem intercalate_cutAssignments (b : Option Char) (t : List Char) :
    ['='].intercalate (cutAssignments b t) = t := by
  induction t generalizing b with
  | nil => rfl
  | cons c r ih =>
    have more := cutAssignments_ne_nil (some c) r
    rw [cutAssignments_cons]
    split
    · rename_i sign
      rw [List.intercalate_cons_of_ne_nil more, ih, sign.1]
      rfl
    · rw [intercalate_extend _ _ more, ih]

theorem cutAssignments_of_not_mem (b : Option Char) {t : List Char} (h : '=' ∉ t) :
    cutAssignments b t = [t] := by
  induction t generalizing b with
  | nil => rfl
  | cons c t ih =>
    rw [List.mem_cons, not_or] at h
    rw [cutAssignments_cons, if_neg fun hc => h.1 hc.1.symm, ih _ h.2]
    rfl

/-- The cuts of two texts put together are those of both, when no arrow goes over the seam. -/
theorem cutArrows_append {s t q : List Char} {qs : List (List Char)} (apart : t.head? ≠ some '>')
    (ht : cutArrows t = q :: qs) :
    ∃ ps p, cutArrows s = ps ++ [p] ∧ cutArrows (s ++ t) = ps ++ (p ++ q) :: qs := by
  induction s using cutArrows.induct with
  | case1 => exact ⟨[], [], rfl, ht⟩
  | case2 r ih =>
    obtain ⟨ps, p, hs, hst⟩ := ih
    exact ⟨[] :: ps, p, by rw [cutArrows_sign, hs]; rfl, by
      rw [List.cons_append, List.cons_append, cutArrows_sign, hst]; rfl⟩
  | case3 d r no ih =>
    obtain ⟨ps, p, hs, hst⟩ := ih
    obtain ⟨ps', p', hs', hst'⟩ := extend_append d p q ps qs
    refine ⟨ps', p', by rw [cutArrows_cons (not_arrow no), hs, hs'], ?_⟩
    rw [List.cons_append, cutArrows_cons, hst, hst']
    intro hd
    cases r with
    | nil => exact apart
    | cons e r =>
      have other := not_arrow no hd
      exact other

theorem cutArrows_append_cons (hc : Solid c) (s t : List Char) {q : List Char}
    {qs : List (List Char)} (ht : cutArrows t = q :: qs) :
    ∃ ps p, cutArrows s = ps ++ [p] ∧ cutArrows (s ++ c :: t) = ps ++ (p ++ c :: q) :: qs := by
  have unsigned := hc.unsigned
  simp only [List.mem_cons, not_or] at unsigned
  refine cutArrows_append (by simpa using unsigned.2.2.2.1) ?_
  rw [cutArrows_cons fun h => absurd h unsigned.1, ht]
  rfl

theorem assigns_solid (hc : Solid c) (n : Option Char) : assigns (some c) n = assigns none n := by
  have unsigned := hc.unsigned
  simp only [List.mem_cons, not_or] at unsigned
  simp [assigns, unsigned]

theorem cutAssignments_solid (hc : Solid c) (t : List Char) :
    cutAssignments (some c) t = cutAssignments none t := by
  cases t with
  | nil => rfl
  | cons d r => rw [cutAssignments_cons, cutAssignments_cons, assigns_solid hc]

theorem assigns_end {b n : Option Char} (h : n ≠ some '=' ∧ n ≠ some '>') :
    assigns b n = assigns b none := by
  simp [assigns, h]

theorem getLast?_cons_or (d : Char) (r : List Char) (b : Option Char) :
    (d :: r).getLast?.or b = r.getLast?.or (some d) := by
  cases h : r.getLast? <;> simp [List.getLast?_cons, h]

/-- The same of assignments, when the seam does not part a sign from what decides about it. -/
theorem cutAssignments_append (b : Option Char) {s t q : List Char} {qs : List (List Char)}
    (apart : s.getLast? = some '=' → t.head? ≠ some '=' ∧ t.head? ≠ some '>')
    (ht : cutAssignments (s.getLast?.or b) t = q :: qs) :
    ∃ ps p, cutAssignments b s = ps ++ [p] ∧ cutAssignments b (s ++ t) = ps ++ (p ++ q) :: qs := by
  induction s generalizing b with
  | nil => exact ⟨[], [], rfl, ht⟩
  | cons d r ih =>
    have last := getLast?_cons_or d r b
    have rest : r.getLast? = some '=' → t.head? ≠ some '=' ∧ t.head? ≠ some '>' := fun h =>
      apart (by simp [List.getLast?_cons, h])
    obtain ⟨ps, p, hs, hst⟩ := ih (some d) rest (last ▸ ht)
    have same : d = '=' → assigns b (r ++ t).head? = assigns b r.head? := by
      rintro rfl
      cases r with
      | nil => exact assigns_end (apart rfl)
      | cons e r => rfl
    have cut : (d = '=' ∧ assigns b (r ++ t).head? = true) =
        (d = '=' ∧ assigns b r.head? = true) := by
      refine propext (and_congr_right fun hd => ?_)
      rw [same hd]
    rw [List.cons_append, cutAssignments_cons, cutAssignments_cons, hs, hst]
    simp only [cut]
    split
    · exact ⟨[] :: ps, p, rfl, rfl⟩
    · exact extend_append d p q ps qs

theorem cutAssignments_append_cons (hc : Solid c) (b : Option Char) (s t : List Char)
    {q : List Char} {qs : List (List Char)} (ht : cutAssignments none t = q :: qs) :
    ∃ ps p, cutAssignments b s = ps ++ [p] ∧
      cutAssignments b (s ++ c :: t) = ps ++ (p ++ c :: q) :: qs := by
  have unsigned := hc.unsigned
  simp only [List.mem_cons, not_or] at unsigned
  refine cutAssignments_append b (fun _ => by simpa using ⟨unsigned.1, unsigned.2.2.2.1⟩) ?_
  rw [cutAssignments_cons, if_neg fun h => unsigned.1 h.1, cutAssignments_solid hc, ht]
  rfl

end Cuts

section Join

variable {c : Char} {sign : List Char}

theorem joinRest_cons (p : List Char) {ps : List (List Char)} (h : ps ≠ []) :
    joinRest sign (p :: ps) = trim p ++ sign ++ joinRest sign ps := by
  cases ps with
  | nil => exact absurd rfl h
  | cons q ps => rfl

theorem join_cons (p : List Char) {ps : List (List Char)} (h : ps ≠ []) :
    join sign (p :: ps) = trimEnd p ++ sign ++ joinRest sign ps := by
  cases ps with
  | nil => exact absurd rfl h
  | cons q ps => rfl

theorem joinRest_append_cons (hc : isBlank c = false) (ps : List (List Char)) (p q : List Char)
    (qs : List (List Char)) :
    joinRest sign (ps ++ (p ++ c :: q) :: qs) =
      joinRest sign (ps ++ [p]) ++ c :: join sign (q :: qs) := by
  induction ps with
  | nil =>
    cases qs with
    | nil => exact trimStart_append_cons hc p q
    | cons x qs =>
      have more := List.cons_ne_nil x qs
      rw [List.nil_append, List.nil_append, joinRest_cons _ more, join_cons _ more,
        trim_append_cons hc]
      simp [joinRest]
  | cons x ps ih =>
    rw [List.cons_append, List.cons_append, joinRest_cons _ (by simp), joinRest_cons _ (by simp), ih]
    simp

theorem join_append_cons (hc : isBlank c = false) (ps : List (List Char)) (p q : List Char)
    (qs : List (List Char)) :
    join sign (ps ++ (p ++ c :: q) :: qs) =
      join sign (ps ++ [p]) ++ c :: join sign (q :: qs) := by
  cases ps with
  | nil =>
    cases qs with
    | nil => rfl
    | cons x qs =>
      have more := List.cons_ne_nil x qs
      rw [List.nil_append, List.nil_append, join_cons _ more, join_cons _ more,
        trimEnd_append_cons hc]
      simp [join]
  | cons x ps =>
    rw [List.cons_append, List.cons_append, join_cons _ (by simp), join_cons _ (by simp),
      joinRest_append_cons hc]
    simp

/-- A blank in front of the first piece stays or goes. -/
theorem join_extend_blank {ps : List (List Char)} (h : ps ≠ []) :
    join sign (extend ' ' ps) = join sign ps ∨ join sign (extend ' ' ps) = ' ' :: join sign ps := by
  cases ps with
  | nil => exact absurd rfl h
  | cons p ps =>
    cases ps with
    | nil => exact .inr rfl
    | cons q ps =>
      have more := List.cons_ne_nil q ps
      rw [extend, join_cons _ more, join_cons _ more, trimEnd_cons]
      split
      · rename_i blank
        rw [blank.1]
        exact .inl rfl
      · exact .inr rfl

end Join

def spaceArrows (t : List Char) : List Char := join [' ', '=', '>', ' '] (cutArrows t)

/-- One space on each side of every plain assignment sign. -/
def spaceAssignments (t : List Char) : List Char := join [' ', '=', ' '] (cutAssignments none t)

theorem normalCode_eq (t : List Char) :
    normalCode t = spaceAssignments (spaceArrows (collapse false t)) := rfl

section Passes

variable {c : Char}

theorem normalCode_nil : normalCode [] = [] := rfl

theorem spaceArrows_append_cons (hc : Solid c) (s t : List Char) :
    spaceArrows (s ++ c :: t) = spaceArrows s ++ c :: spaceArrows t := by
  obtain ⟨q, qs, right⟩ := List.exists_cons_of_ne_nil (cutArrows_ne_nil t)
  obtain ⟨ps, p, left, both⟩ := cutArrows_append_cons hc s t right
  rw [spaceArrows, both, join_append_cons hc.shown, ← left, ← right]
  rfl

theorem spaceAssignments_append_cons (hc : Solid c) (s t : List Char) :
    spaceAssignments (s ++ c :: t) = spaceAssignments s ++ c :: spaceAssignments t := by
  obtain ⟨q, qs, right⟩ := List.exists_cons_of_ne_nil (cutAssignments_ne_nil none t)
  obtain ⟨ps, p, left, both⟩ := cutAssignments_append_cons hc none s t right
  rw [spaceAssignments, both, join_append_cons hc.shown, ← left, ← right]
  rfl

theorem normalCode_append_cons (hc : Solid c) (s t : List Char) :
    normalCode (s ++ c :: t) = normalCode s ++ c :: normalCode t := by
  rw [normalCode_eq, collapse_append_cons hc.shown, spaceArrows_append_cons hc,
    spaceAssignments_append_cons hc]
  rfl

theorem spaceArrows_cons_space (t : List Char) :
    spaceArrows (' ' :: t) = spaceArrows t ∨ spaceArrows (' ' :: t) = ' ' :: spaceArrows t := by
  have apart : ' ' = '=' → t.head? ≠ some '>' := fun h => by cases h
  rw [spaceArrows, cutArrows_cons apart]
  exact join_extend_blank (cutArrows_ne_nil t)

theorem spaceAssignments_cons_space (t : List Char) :
    spaceAssignments (' ' :: t) = spaceAssignments t ∨
      spaceAssignments (' ' :: t) = ' ' :: spaceAssignments t := by
  have before : cutAssignments (some ' ') t = cutAssignments none t := by
    cases t with
    | nil => rfl
    | cons d r => rfl
  rw [spaceAssignments, cutAssignments, if_neg (by simp), before]
  exact join_extend_blank (cutAssignments_ne_nil none t)

/-- A blank in front of a stretch of code is left as one space or not at all. -/
theorem normalCode_cons_blank {b : Char} (hb : isBlank b = true) (t : List Char) :
    normalCode (b :: t) = normalCode t ∨ normalCode (b :: t) = ' ' :: normalCode t := by
  rw [normalCode_eq, normalCode_eq]
  rcases collapse_cons_blank hb t with same | one
  · rw [same]
    exact .inl rfl
  · rw [one]
    rcases spaceArrows_cons_space (collapse false t) with same | one
    · rw [same]
      exact .inl rfl
    · rw [one]
      exact spaceAssignments_cons_space _

end Passes

/-- The two texts differ in their blanks only, and no comment begins in the second one that has not
begun in the first one. -/
structure Respaced (s t : List Char) : Prop where
  shown : t.filter (fun c => !isBlank c) = s.filter fun c => !isBlank c
  clean : Unquoted s → Uncommented .code s → Uncommented .code t

namespace Respaced

theorem refl (s : List Char) : Respaced s s := ⟨rfl, fun _ h => h⟩

theorem unquoted {s t : List Char} (h : Respaced s t) (plain : Unquoted s) : Unquoted t := by
  intro c hc
  cases hb : isBlank c with
  | true => exact isQuote_of_isBlank hb
  | false =>
    have shown : c ∈ t.filter fun c => !isBlank c := List.mem_filter.2 ⟨hc, by simp [hb]⟩
    rw [h.shown] at shown
    exact plain c (List.mem_filter.1 shown).1

theorem trans {s t u : List Char} (first : Respaced s t) (second : Respaced t u) :
    Respaced s u where
  shown := second.shown.trans first.shown
  clean plain h := second.clean (first.unquoted plain) (first.clean plain h)

end Respaced

theorem filter_collapse (f : Bool) (s : List Char) :
    (collapse f s).filter (fun c => !isBlank c) = s.filter fun c => !isBlank c := by
  have space : isBlank ' ' = true := by decide
  induction s generalizing f with
  | nil => rfl
  | cons c s ih => cases hc : isBlank c <;> cases f <;> simp [collapse_cons, hc, space, ih]

theorem head?_collapse {s : List Char} {d : Char} (h : (collapse false s).head? = some d) :
    d = ' ' ∨ s.head? = some d := by
  cases s with
  | nil => cases h
  | cons c s =>
    cases hc : isBlank c with
    | true =>
      simp only [collapse_cons, hc, if_true] at h
      cases h
      exact .inl rfl
    | false =>
      simp only [collapse_cons, hc] at h
      exact .inr h

theorem uncommented_collapse (f : Bool) {s : List Char} (plain : Unquoted s)
    (h : Uncommented .code s) : Uncommented .code (collapse f s) := by
  induction s generalizing f with
  | nil => exact trivial
  | cons c s ih =>
    have notQuote := plain c List.mem_cons_self
    have rest : Unquoted s := fun d hd => plain d (List.mem_cons_of_mem _ hd)
    obtain ⟨head, tail⟩ := h
    rw [Place.next_code notQuote] at tail
    rw [collapse_cons]
    split
    · split
      · exact ih true rest tail
      · exact (ih true rest tail).space
    · refine ⟨fun hp hc d hd => ?_, ?_⟩
      · rcases head?_collapse hd with rfl | hd
        · rfl
        · exact head hp hc d hd
      · rw [Place.next_code notQuote]
        exact ih false rest tail

theorem respaced_collapse (s : List Char) : Respaced s (collapse false s) where
  shown := filter_collapse false s
  clean := uncommented_collapse false

theorem filter_blank {s : List Char} (h : Blank s) : s.filter (fun c => !isBlank c) = [] := by
  rw [List.filter_eq_nil_iff]
  intro c hc
  simp [h c hc]

/-- Blanks at a sign make no difference to what is shown, and a sign between spaces keeps what is
on its two sides apart. -/
theorem respaced_sign {sep p b l s t : List Char} (hb : Blank b) (hl : Blank l)
    (plain : Unquoted sep) (clean : Uncommented .code sep) (h : Respaced s t) :
    Respaced (p ++ b ++ sep ++ (l ++ s)) (p ++ (' ' :: sep ++ [' ']) ++ t) where
  shown := by
    have space : isBlank ' ' = true := by decide
    simp only [List.filter_append, filter_blank hb, filter_blank hl, h.shown, List.filter_cons, space]
    simp
  clean := by
    intro whole done
    obtain ⟨left, right⟩ := List.forall_mem_append.1 whole
    have hp := (List.forall_mem_append.1 (List.forall_mem_append.1 left).1).1
    have hs := (List.forall_mem_append.1 right).2
    obtain ⟨doneLeft, doneRight⟩ := done.append
    rw [Place.after_code left] at doneRight
    have cleanRight := h.clean hs (doneRight.of_blank hl)
    have behind : Uncommented .code (sep ++ ' ' :: t) :=
      clean.append_space (by rw [Place.after_code plain]; exact cleanRight.space)
    have whole : Uncommented .code (p ++ ' ' :: (sep ++ ' ' :: t)) :=
      doneLeft.append.1.append.1.append_space (by rw [Place.after_code hp]; exact behind.space)
    simpa using whole

section Relating

variable {R : List Char → List Char → Prop} {sep : List Char}

theorem joinRest_relates (refl : ∀ s, R s s)
    (onSign : ∀ p b l s t, Blank b → Blank l → R s t →
      R (p ++ b ++ sep ++ (l ++ s)) (p ++ (' ' :: sep ++ [' ']) ++ t)) (ps : List (List Char)) :
    ∃ l, Blank l ∧ ∃ s, sep.intercalate ps = l ++ s ∧ R s (joinRest (' ' :: sep ++ [' ']) ps) := by
  induction ps with
  | nil => exact ⟨[], blank_nil, [], rfl, refl _⟩
  | cons p ps ih =>
    obtain ⟨l, hl, hp⟩ := exists_trimStart p
    by_cases last : ps = []
    · subst last
      refine ⟨l, hl, trimStart p, ?_, refl _⟩
      rw [List.intercalate_singleton]
      exact hp
    · obtain ⟨l', hl', s, hs, more⟩ := ih
      obtain ⟨b, hb, ht⟩ := exists_trimEnd (trimStart p)
      refine ⟨l, hl, trim p ++ b ++ sep ++ (l' ++ s), ?_, ?_⟩
      · rw [List.intercalate_cons_of_ne_nil last, hs, trim, ← ht]
        simp only [← List.append_assoc, ← hp]
      · rw [joinRest_cons _ last]
        exact onSign _ b l' s _ hb hl' more

/-- What holds between a text and itself, and across a sign whose blanks give way to single spaces,
holds between a text and its pieces put together with a sign between spaces. -/
theorem join_relates (sep : List Char) (refl : ∀ s, R s s)
    (onSign : ∀ p b l s t, Blank b → Blank l → R s t →
      R (p ++ b ++ sep ++ (l ++ s)) (p ++ (' ' :: sep ++ [' ']) ++ t)) (ps : List (List Char)) :
    R (sep.intercalate ps) (join (' ' :: sep ++ [' ']) ps) := by
  cases ps with
  | nil => exact refl _
  | cons p ps =>
    by_cases last : ps = []
    · subst last
      rw [List.intercalate_singleton]
      exact refl _
    · obtain ⟨l, hl, s, hs, more⟩ := joinRest_relates refl onSign ps
      obtain ⟨b, hb, hp⟩ := exists_trimEnd p
      have cut : p ++ sep ++ (l ++ s) = trimEnd p ++ b ++ sep ++ (l ++ s) := by rw [← hp]
      rw [List.intercalate_cons_of_ne_nil last, hs, join_cons _ last, cut]
      exact onSign _ b l s _ hb hl more

end Relating

theorem respaced_join (sep : List Char) (plain : Unquoted sep)
    (clean : Uncommented .code sep) (ps : List (List Char)) :
    Respaced (sep.intercalate ps) (join (' ' :: sep ++ [' ']) ps) :=
  join_relates sep .refl (fun _ _ _ _ _ hb hl h => respaced_sign hb hl plain clean h) ps

theorem respaced_normalCode (t : List Char) : Respaced t (normalCode t) := by
  have arrows := respaced_join ['=', '>'] (by decide) (.of_not_mem (by decide))
    (cutArrows (collapse false t))
  rw [intercalate_cutArrows] at arrows
  have signs := respaced_join ['='] (by decide) (.of_not_mem (by decide))
    (cutAssignments none (spaceArrows (collapse false t)))
  rw [intercalate_cutAssignments] at signs
  exact ((respaced_collapse t).trans arrows).trans signs

end HostPlan.Source
