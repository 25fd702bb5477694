import HostPlan.Proofs.Source.Fidelity
/-!
The normal form of a program text is its own normal form. Each of the three passes over a stretch
of code - blanks, arrows, assignment signs - leaves the result of all three as it is, because what
stands on the two sides of a sign is laid out on its own and blanks at a sign do not count. Two signs
in a row bring two spaces along, the next run makes them one and then two again.
-/
namespace HostPlan.Source

open Text

section Joining

variable {sign e l p : List Char} {ps qs : List (List Char)} {behind : Bool}

/-- Pieces joined by a sign, at the beginning of a text or behind a sign that stands in front. -/
def joined (sign : List Char) (behind : Bool) (ps : List (List Char)) : List Char :=
  if behind then joinRest sign ps else join sign ps

theorem joined_cons (p : List Char) (h : ps ≠ []) :
    joined sign behind (p :: ps) =
      (if behind then trim p else trimEnd p) ++ sign ++ joinRest sign ps := by
  cases behind with
  | true => exact joinRest_cons p h
  | false => exact join_cons p h

theorem joined_append (hp : ps ≠ []) (hq : qs ≠ []) :
    joined sign behind (ps ++ qs) =
      joined sign behind (ps ++ [[]]) ++ joinRest sign qs := by
  induction ps generalizing behind with
  | nil => exact absurd rfl hp
  | cons p ps ih =>
    by_cases last : ps = []
    · subst last
      simp [joined_cons, hq, joinRest, trimStart]
    · have rest : joined sign true (ps ++ qs) = joined sign true (ps ++ [[]]) ++ joinRest sign qs :=
        ih last
      simp only [joined, if_true] at rest
      rw [List.cons_append, List.cons_append, joined_cons _ (by simp [last]),
        joined_cons _ (by simp), rest]
      simp only [List.append_assoc]

/-- Blanks in front of a sign make no difference. -/
theorem joined_blank_sign (he : Blank e) :
    joined sign behind (ps ++ (p ++ e) :: [[]]) = joined sign behind (ps ++ p :: [[]]) := by
  induction ps generalizing behind with
  | nil =>
    have same : trim (p ++ e) = trim p := trim_append_blank (l := []) blank_nil he p
    rw [List.nil_append, List.nil_append, joined_cons _ (by simp), joined_cons _ (by simp), same,
      trimEnd_append_blank he]
  | cons x ps ih =>
    have rest : joined sign true (ps ++ (p ++ e) :: [[]]) = joined sign true (ps ++ p :: [[]]) := ih
    simp only [joined, if_true] at rest
    rw [List.cons_append, List.cons_append, joined_cons _ (by simp), joined_cons _ (by simp), rest]

theorem joinRest_blank_cons (hl : Blank l) :
    joinRest sign ((l ++ p) :: ps) = joinRest sign (p :: ps) := by
  cases ps with
  | nil => exact trimStart_append_blank hl p
  | cons q ps =>
    have more := List.cons_ne_nil q ps
    have same : trim (l ++ p) = trim p := by rw [trim, trimStart_append_blank hl, trim]
    rw [joinRest_cons _ more, joinRest_cons _ more, same]

theorem exists_trimStart_append_blank (he : Blank e) (s : List Char) :
    ∃ e', Blank e' ∧ trimStart (s ++ e) = trimStart s ++ e' := by
  induction s with
  | nil => exact ⟨[], blank_nil, by simpa using trimStart_append_blank he []⟩
  | cons c s ih =>
    cases hc : isBlank c with
    | true =>
      rw [List.cons_append, trimStart_cons_blank hc, trimStart_cons_blank hc]
      exact ih
    | false =>
      rw [List.cons_append, trimStart_cons hc, trimStart_cons hc]
      exact ⟨e, he, rfl⟩

/-- Blanks behind the last piece are left behind what is joined, or not at all. -/
theorem exists_joined_append_blank (he : Blank e) :
    ∃ e', Blank e' ∧
      joined sign behind (ps ++ [p ++ e]) = joined sign behind (ps ++ [p]) ++ e' := by
  induction ps generalizing behind with
  | nil =>
    cases behind with
    | true => exact exists_trimStart_append_blank he p
    | false => exact ⟨e, he, rfl⟩
  | cons x ps ih =>
    obtain ⟨e', he', rest⟩ : ∃ e', Blank e' ∧
        joined sign true (ps ++ [p ++ e]) = joined sign true (ps ++ [p]) ++ e' := ih
    simp only [joined, if_true] at rest
    refine ⟨e', he', ?_⟩
    rw [List.cons_append, List.cons_append, joined_cons _ (by simp), joined_cons _ (by simp), rest]
    simp only [List.append_assoc]

end Joining

section Passes

variable {e l s t x y : List Char} {behind : Bool}

theorem collapse_collapse (f : Bool) (s : List Char) :
    collapse f (collapse f s) = collapse f s := by
  have space : isBlank ' ' = true := by decide
  induction s generalizing f with
  | nil => rfl
  | cons c s ih => cases hc : isBlank c <;> cases f <;> simp [collapse_cons, hc, space, ih]

theorem blank_collapse (f : Bool) (hl : Blank l) : Blank (collapse f l) := by
  have shown := filter_collapse f l
  rw [filter_blank hl, List.filter_eq_nil_iff] at shown
  intro c hc
  simpa using shown c hc

theorem exists_collapse_append_blank (f : Bool) (he : Blank e) (s : List Char) :
    ∃ e', Blank e' ∧ collapse f (s ++ e) = collapse f s ++ e' := by
  induction s generalizing f with
  | nil => exact ⟨collapse f e, blank_collapse f he, rfl⟩
  | cons c s ih =>
    obtain ⟨e', he', rest⟩ := ih (isBlank c)
    refine ⟨e', he', ?_⟩
    cases hc : isBlank c <;> cases f <;> simp [collapse_cons, hc, hc ▸ rest]

theorem cutArrows_arrow (x y : List Char) :
    cutArrows (x ++ '=' :: '>' :: y) = cutArrows x ++ cutArrows y := by
  obtain ⟨ps, p, hx, hxy⟩ := cutArrows_append (s := x) (t := '=' :: '>' :: y) nofun rfl
  rw [hx, hxy]
  simp

theorem not_mem_of_blank {c : Char} (hc : isBlank c = false) (he : Blank e) : c ∉ e := by
  intro mem
  rw [he c mem] at hc
  cases hc

theorem head?_ne_of_blank {c : Char} (hc : isBlank c = false) (he : Blank e) : e.head? ≠ some c :=
  fun head => not_mem_of_blank hc he (List.mem_of_mem_head? head)

theorem exists_cutArrows_append_blank (he : Blank e) (x : List Char) :
    ∃ ps p, cutArrows x = ps ++ [p] ∧ cutArrows (x ++ e) = ps ++ [p ++ e] :=
  cutArrows_append (head?_ne_of_blank (by decide) he)
    (cutArrows_of_not_mem (not_mem_of_blank (by decide) he))

theorem exists_cutAssignments_append_blank (b : Option Char) (he : Blank e) (x : List Char) :
    ∃ ps p, cutAssignments b x = ps ++ [p] ∧ cutAssignments b (x ++ e) = ps ++ [p ++ e] :=
  cutAssignments_append b
    (fun _ => ⟨head?_ne_of_blank (by decide) he, head?_ne_of_blank (by decide) he⟩)
    (cutAssignments_of_not_mem _ (not_mem_of_blank (by decide) he))

end Passes

section Arrows

variable {b e l s t : List Char} {behind : Bool}

/-- Code with its arrows between spaces, when it begins a text or stands behind an arrow. -/
def arranged (behind : Bool) (t : List Char) : List Char :=
  joined [' ', '=', '>', ' '] behind (cutArrows (collapse false t))

theorem arranged_false (t : List Char) : arranged false t = spaceArrows (collapse false t) := rfl

theorem arranged_cons_blank {c : Char} (hc : isBlank c = true) (t : List Char) :
    arranged true (c :: t) = arranged true t := by
  rcases collapse_cons_blank hc t with same | one
  · rw [arranged, arranged, same]
  · obtain ⟨p, ps, cut⟩ := List.exists_cons_of_ne_nil (cutArrows_ne_nil (collapse false t))
    rw [arranged, arranged, one, cutArrows_cons (by simp), cut]
    exact joinRest_blank_cons (l := [' ']) blank_space

theorem arranged_blank_append (hl : Blank l) (t : List Char) :
    arranged true (l ++ t) = arranged true t := by
  induction l with
  | nil => rfl
  | cons c l ih =>
    obtain ⟨head, tail⟩ := List.forall_mem_cons.1 hl
    rw [List.cons_append, arranged_cons_blank head, ih tail]

/-- What stands on the two sides of an arrow is arranged on its own, whatever blanks there are. -/
theorem arranged_arrow (behind : Bool) (hb : Blank b) (hl : Blank l) (p s : List Char) :
    arranged behind (p ++ b ++ ['=', '>'] ++ (l ++ s)) =
      joined [' ', '=', '>', ' '] behind (cutArrows (collapse false p) ++ [[]]) ++
        arranged true s := by
  have cut : cutArrows (collapse false (p ++ b ++ ['=', '>'] ++ (l ++ s))) =
      cutArrows (collapse false (p ++ b)) ++ cutArrows (collapse false (l ++ s)) := by
    rw [List.append_assoc, List.cons_append, collapse_append_cons (by decide)]
    exact cutArrows_arrow ..
  obtain ⟨e, he, collapsed⟩ := exists_collapse_append_blank false hb p
  obtain ⟨ps, q, front, longer⟩ := exists_cutArrows_append_blank he (collapse false p)
  have first : joined [' ', '=', '>', ' '] behind (cutArrows (collapse false (p ++ b)) ++ [[]]) =
      joined [' ', '=', '>', ' '] behind (cutArrows (collapse false p) ++ [[]]) := by
    rw [collapsed, front, longer, List.append_assoc, List.append_assoc]
    exact joined_blank_sign he
  rw [arranged, cut, joined_append (cutArrows_ne_nil _) (cutArrows_ne_nil _), first]
  exact congrArg _ (arranged_blank_append hl s)

/-- Putting spaces around the arrows leaves nothing to do there. -/
theorem arranged_spaceArrows (t : List Char) :
    arranged false (spaceArrows t) = arranged false t := by
  have related := join_relates (R := fun s t => ∀ behind, arranged behind t = arranged behind s)
    ['=', '>'] (fun _ _ => rfl)
    (fun p b l s t hb hl same behind => by
      have spaced := arranged_arrow behind blank_space blank_space p t
      rw [arranged_arrow behind hb hl, ← same true, ← spaced]
      simp)
    (cutArrows t)
  rw [intercalate_cutArrows] at related
  exact related false

end Arrows

section Assignments

variable {b e l p s t x y : List Char} {behind : Bool}

theorem exists_arranged_append_blank (he : Blank e) (s : List Char) :
    ∃ e', Blank e' ∧ arranged behind (s ++ e) = arranged behind s ++ e' := by
  obtain ⟨e₁, he₁, collapsed⟩ := exists_collapse_append_blank false he s
  obtain ⟨ps, p, front, longer⟩ := exists_cutArrows_append_blank he₁ (collapse false s)
  rw [arranged, arranged, collapsed, longer, front]
  exact exists_joined_append_blank he₁

theorem arranged_cons_space {c : Char} (hc : isBlank c = true) (t : List Char) :
    arranged false (c :: t) = arranged false t ∨
      arranged false (c :: t) = ' ' :: arranged false t := by
  rw [arranged_false, arranged_false]
  rcases collapse_cons_blank hc t with same | one
  · exact .inl (by rw [same])
  · rw [one]
    exact spaceArrows_cons_space _

/-- An equals sign that is no part of an arrow stays where it is. -/
theorem arranged_append_cons (apart : s.head? ≠ some '>') (x : List Char) :
    arranged behind (x ++ '=' :: s) = arranged behind x ++ '=' :: arranged false s := by
  have apart' : (collapse false s).head? ≠ some '>' := fun head =>
    (head?_collapse head).elim (fun h => by cases h) apart
  obtain ⟨q, qs, right⟩ := List.exists_cons_of_ne_nil (cutArrows_ne_nil (collapse false s))
  have sign : cutArrows ('=' :: collapse false s) = ('=' :: q) :: qs := by
    rw [cutArrows_cons fun _ => apart', right]
    rfl
  obtain ⟨ps, p, left, both⟩ := cutArrows_append (s := collapse false x) (by simp) sign
  rw [arranged, arranged, arranged, collapse_append_cons (by decide), both, left, right]
  cases behind with
  | true => exact joinRest_append_cons (by decide) ps p q qs
  | false => exact join_append_cons (by decide) ps p q qs

/-- At its two ends code shows what it showed before, or a space. -/
theorem head?_arranged {d : Char} (h : (arranged false t).head? = some d) :
    d = ' ' ∨ t.head? = some d := by
  have related := join_relates (R := fun s t => t.head? = some d → d = ' ' ∨ s.head? = some d)
    ['=', '>'] (fun _ => Or.inr)
    (fun p b l s t _ _ _ => by
      cases p with
      | nil => exact fun h => .inl (Option.some.inj h).symm
      | cons c p => exact Or.inr)
    (cutArrows (collapse false t))
  rw [intercalate_cutArrows] at related
  rcases related h with space | head
  · exact .inl space
  · exact head?_collapse head

theorem collapse_eq_nil {t : List Char} (h : collapse false t = []) : t = [] := by
  cases t with
  | nil => rfl
  | cons c t => cases hc : isBlank c <;> simp [collapse_cons, hc] at h

theorem getLast?_collapse {f : Bool} {t : List Char} {d : Char}
    (h : (collapse f t).getLast? = some d) : d = ' ' ∨ t.getLast? = some d := by
  have further (c : Char) {t : List Char} (last : d = ' ' ∨ t.getLast? = some d) :
      d = ' ' ∨ (c :: t).getLast? = some d :=
    last.imp_right fun last => by rw [List.getLast?_cons, last]; rfl
  induction t generalizing f with
  | nil => cases h
  | cons c t ih =>
    rw [collapse_cons] at h
    split at h
    · split at h
      · exact further c (ih h)
      · cases rest : (collapse true t).getLast? with
        | none =>
          rw [List.getLast?_cons, rest] at h
          exact .inl (Option.some.inj h).symm
        | some d' =>
          rw [List.getLast?_cons, rest] at h
          exact further c (ih (rest.trans h))
    · by_cases last : t = []
      · subst last
        exact .inr h
      · obtain ⟨d', rest⟩ := Option.ne_none_iff_exists'.1
          (mt List.getLast?_eq_none_iff.1 (mt collapse_eq_nil last))
        rw [List.getLast?_cons, rest] at h
        exact further c (ih (rest.trans h))

theorem getLast?_arranged {d : Char} (h : (arranged false t).getLast? = some d) :
    d = ' ' ∨ t.getLast? = some d := by
  have related := join_relates
    (R := fun s t => t.getLast? = some d → d = ' ' ∨ s.getLast? = some d)
    ['=', '>'] (fun _ => Or.inr)
    (fun p b l s t _ _ same last => by
      rw [List.getLast?_append] at last
      cases behind : t.getLast? with
      | none =>
        rw [behind] at last
        exact .inl (by simpa using last.symm)
      | some d' =>
        rw [behind] at last
        obtain rfl : d' = d := Option.some.inj last
        refine (same behind).imp_right fun back => ?_
        rw [List.getLast?_append, List.getLast?_append, back]
        rfl)
    (cutArrows (collapse false t))
  rw [intercalate_cutArrows] at related
  rcases related h with space | head
  · exact .inl space
  · exact getLast?_collapse head

theorem assigns_of_assigns {b n b' n' : Option Char} (h : assigns b n = true)
    (before : ∀ d, b' = some d → d = ' ' ∨ b = some d)
    (next : ∀ d, n' = some d → d = ' ' ∨ n = some d) : assigns b' n' = true := by
  have kept {x x' : Option Char} {d : Char} (other : ' ' ≠ d) (hx : (x == some d) = false)
      (same : ∀ d, x' = some d → d = ' ' ∨ x = some d) : (x' == some d) = false := by
    rw [beq_eq_false_iff_ne] at hx ⊢
    intro here
    rcases same d here with space | back
    · exact other space.symm
    · exact hx back
  simp only [assigns, Bool.and_eq_true, Bool.not_eq_true', Bool.or_eq_false_iff] at h ⊢
  obtain ⟨⟨⟨⟨h₁, h₂⟩, h₃⟩, h₄⟩, h₅, h₆⟩ := h
  exact ⟨⟨⟨⟨kept (by decide) h₁ before, kept (by decide) h₂ before⟩, kept (by decide) h₃ before⟩,
    kept (by decide) h₄ before⟩, kept (by decide) h₅ next, kept (by decide) h₆ next⟩
theorem cutAssignments_of_apart (b b' : Option Char) (apart : s.head? ≠ some '=') :
    cutAssignments b s = cutAssignments b' s := by
  cases s with
  | nil => rfl
  | cons c s =>
    have other : c ≠ '=' := fun same => apart (by rw [same]; rfl)
    rw [cutAssignments_cons, cutAssignments_cons, if_neg fun h => other h.1,
      if_neg fun h => other h.1]

theorem apart_of_assigns {b n : Option Char} (h : assigns b n = true) :
    b ≠ some '=' ∧ n ≠ some '=' ∧ n ≠ some '>' := by
  simp only [assigns, Bool.and_eq_true, Bool.not_eq_true', Bool.or_eq_false_iff,
    beq_eq_false_iff_ne] at h
  exact ⟨h.1.1.1.1, h.2.1, h.2.2⟩

theorem cutAssignments_sign (sign : assigns x.getLast? y.head? = true) :
    cutAssignments none (x ++ '=' :: y) = cutAssignments none x ++ cutAssignments none y := by
  obtain ⟨before, next, -⟩ := apart_of_assigns sign
  have cut : cutAssignments (x.getLast?.or none) ('=' :: y) = [] :: cutAssignments none y := by
    rw [Option.or_none, cutAssignments, if_pos ⟨rfl, sign⟩, cutAssignments_of_apart _ none next]
  obtain ⟨ps, p, hx, hxy⟩ := cutAssignments_append none (fun last => absurd last before) cut
  rw [hx, hxy]
  simp

/-- The normal form of code, when it begins a text or stands behind an assignment sign. -/
def settled (behind : Bool) (t : List Char) : List Char :=
  joined [' ', '=', ' '] behind (cutAssignments none (arranged false t))

theorem settled_false (t : List Char) : settled false t = normalCode t := rfl

/-- The normal form of code in front of an assignment sign, with the sign. -/
def signed (behind : Bool) (p : List Char) : List Char :=
  joined [' ', '=', ' '] behind (cutAssignments none (arranged false p) ++ [[]])

theorem joined_space_cons (t : List Char) (ps : List (List Char)) :
    joined [' ', '=', ' '] true (cutAssignments none (' ' :: t) ++ ps) =
      joined [' ', '=', ' '] true (cutAssignments none t ++ ps) := by
  obtain ⟨p, qs, cut⟩ := List.exists_cons_of_ne_nil (cutAssignments_ne_nil none t)
  have before : cutAssignments (some ' ') t = cutAssignments none t := by
    cases t <;> rfl
  rw [cutAssignments_cons, if_neg (by simp), before, cut]
  exact joinRest_blank_cons (l := [' ']) blank_space

theorem signed_cons_blank {c : Char} (hc : isBlank c = true) (p : List Char) :
    signed true (c :: p) = signed true p := by
  rcases arranged_cons_space hc p with same | one
  · rw [signed, signed, same]
  · rw [signed, signed, one]
    exact joined_space_cons _ _

theorem settled_cons_blank {c : Char} (hc : isBlank c = true) (t : List Char) :
    settled true (c :: t) = settled true t := by
  rcases arranged_cons_space hc t with same | one
  · rw [settled, settled, same]
  · have spaced := joined_space_cons (arranged false t) []
    rw [List.append_nil, List.append_nil] at spaced
    rw [settled, settled, one, spaced]

theorem signed_blank_append (hl : Blank l) (p : List Char) :
    signed true (l ++ p) = signed true p := by
  induction l with
  | nil => rfl
  | cons c l ih =>
    obtain ⟨head, tail⟩ := List.forall_mem_cons.1 hl
    rw [List.cons_append, signed_cons_blank head, ih tail]

theorem settled_blank_append (hl : Blank l) (t : List Char) :
    settled true (l ++ t) = settled true t := by
  induction l with
  | nil => rfl
  | cons c l ih =>
    obtain ⟨head, tail⟩ := List.forall_mem_cons.1 hl
    rw [List.cons_append, settled_cons_blank head, ih tail]

theorem signed_append_blank (he : Blank e) (p : List Char) :
    signed behind (p ++ e) = signed behind p := by
  obtain ⟨e', he', longer⟩ : ∃ e', Blank e' ∧ arranged false (p ++ e) = arranged false p ++ e' :=
    exists_arranged_append_blank he p
  obtain ⟨ps, q, front, cut⟩ := exists_cutAssignments_append_blank none he' (arranged false p)
  rw [signed, signed, longer, front, cut, List.append_assoc, List.append_assoc]
  exact joined_blank_sign he'

/-- What stands on the two sides of an assignment sign is laid out on its own. -/
theorem settled_sign (sign : assigns p.getLast? s.head? = true) :
    settled behind (p ++ '=' :: s) = signed behind p ++ settled true s := by
  have sign' : assigns (arranged false p).getLast? (arranged false s).head? = true :=
    assigns_of_assigns sign (fun _ => getLast?_arranged) (fun _ => head?_arranged)
  rw [settled, arranged_append_cons (apart_of_assigns sign).2.2, cutAssignments_sign sign',
    joined_append (cutAssignments_ne_nil _ _) (cutAssignments_ne_nil _ _)]
  rfl

/-- A text has no assignment sign, or a first one. -/
theorem cases_assignments (b : Option Char) (u : List Char) :
    cutAssignments b u = [u] ∨ ∃ p s, u = p ++ '=' :: s ∧
      cutAssignments b u = p :: cutAssignments (some '=') s ∧
      assigns (p.getLast?.or b) s.head? = true := by
  induction u generalizing b with
  | nil => exact .inl rfl
  | cons c r ih =>
    rw [cutAssignments_cons]
    split
    · rename_i sign
      exact .inr ⟨[], r, by rw [sign.1]; rfl, by rw [sign.1], sign.2⟩
    · rcases ih (some c) with plain | ⟨p, s, rfl, cut, sign⟩
      · rw [plain]
        exact .inl rfl
      · rw [cut]
        exact .inr ⟨c :: p, s, rfl, rfl, by rwa [getLast?_cons_or]⟩

/-- A text is read from one assignment sign to the next. -/
theorem induction_assignments {P : List Char → Prop}
    (plain : ∀ u, cutAssignments none u = [u] → P u)
    (sign : ∀ p s, assigns p.getLast? s.head? = true →
      cutAssignments none (p ++ '=' :: s) = p :: cutAssignments none s → P s → P (p ++ '=' :: s))
    (u : List Char) : P u := by
  induction h : u.length using Nat.strongRecOn generalizing u with
  | ind n ih =>
    rcases cases_assignments none u with cut | ⟨p, s, rfl, cut, signed⟩
    · exact plain u cut
    · rw [Option.or_none] at signed
      rw [cutAssignments_of_apart _ none (apart_of_assigns signed).2.1] at cut
      refine sign p s signed cut (ih s.length ?_ s rfl)
      rw [← h, List.length_append, List.length_cons]
      omega

/-- Putting spaces around the assignment signs leaves nothing to do there. -/
theorem settled_spaceAssignments (behind : Bool) (t : List Char) :
    settled behind (joined [' ', '=', ' '] behind (cutAssignments none t)) = settled behind t := by
  induction t using induction_assignments generalizing behind with
  | plain u cut =>
    rw [cut]
    cases behind with
    | true =>
      obtain ⟨l, hl, split⟩ := exists_trimStart u
      have same := settled_blank_append hl (trimStart u)
      rw [← split] at same
      exact same.symm
    | false => rfl
  | sign p s sign cut ih =>
    have spaced (x y : List Char) : settled behind (x ++ [' ', '=', ' '] ++ y) =
        signed behind x ++ settled true y := by
      have spaces : assigns (x ++ [' ']).getLast? (' ' :: y).head? = true := by
        rw [List.getLast?_append]
        rfl
      have one : settled behind (x ++ [' '] ++ '=' :: ' ' :: y) =
          signed behind (x ++ [' ']) ++ settled true (' ' :: y) := settled_sign spaces
      rw [signed_append_blank blank_space, settled_cons_blank (by decide)] at one
      rw [← one]
      simp
    have front : signed behind (if behind then trim p else trimEnd p) = signed behind p := by
      cases behind with
      | true =>
        obtain ⟨l, e, hl, he, split⟩ := exists_trim p
        have same : signed true (l ++ trim p ++ e) = signed true (l ++ trim p) :=
          signed_append_blank he (l ++ trim p)
        rw [← split, signed_blank_append hl] at same
        exact same.symm
      | false =>
        obtain ⟨e, he, split⟩ := exists_trimEnd p
        have same : signed false (trimEnd p ++ e) = signed false (trimEnd p) :=
          signed_append_blank he (trimEnd p)
        rw [← split] at same
        exact same.symm
    have rest := ih true
    rw [cut, joined_cons _ (cutAssignments_ne_nil none s), spaced, front, settled_sign sign]
    exact congrArg _ rest

/-- Code in its normal form is laid out already. -/
theorem normalCode_normalCode (t : List Char) : normalCode (normalCode t) = normalCode t := by
  have signs (u : List Char) : normalCode (spaceAssignments u) = normalCode u :=
    settled_spaceAssignments false u
  have arrows (u : List Char) : normalCode (spaceArrows u) = normalCode u :=
    congrArg spaceAssignments (arranged_spaceArrows u)
  have blanks : normalCode (collapse false t) = normalCode t := by
    rw [normalCode_eq, collapse_collapse, normalCode_eq]
  rw [normalCode_eq t, signs, arrows, blanks, normalCode_eq]

theorem exists_normalCode_append_blank (he : Blank e) (s : List Char) :
    ∃ e', Blank e' ∧ normalCode (s ++ e) = normalCode s ++ e' := by
  obtain ⟨e₁, he₁, longer⟩ : ∃ e₁, Blank e₁ ∧
      arranged false (s ++ e) = arranged false s ++ e₁ := exists_arranged_append_blank he s
  obtain ⟨ps, p, front, cut⟩ := exists_cutAssignments_append_blank none he₁ (arranged false s)
  rw [← settled_false, ← settled_false, settled, settled, longer, cut, front]
  exact exists_joined_append_blank he₁

end Assignments

section Texts

variable {e l s : List Char} {c : Char}

theorem tidy_tidy (s : List Char) : tidy (tidy s) = tidy s := by
  induction s using Place.induction_segments with
  | code run plain =>
    have plain' := (respaced_normalCode run).unquoted plain
    rw [tidy_code plain, tidy_code plain', normalCode_normalCode]
  | literal run q body rest plain hq inside ends ih =>
    have plain' := (respaced_normalCode run).unquoted plain
    have ends' : (Place.literal q).after body = .code ∨ tidy rest = [] :=
      ends.imp_right fun none => by rw [none]; rfl
    rw [tidy_segments plain hq inside ends, tidy_segments plain' hq inside ends', ih,
      normalCode_normalCode]

/-- Blanks behind a text are left behind it, or not at all. -/
theorem exists_tidy_append_blank (he : Blank e) (s : List Char) :
    ∃ e', Blank e' ∧ tidy (s ++ e) = tidy s ++ e' := by
  induction s using Place.induction_segments with
  | code run plain =>
    rw [tidy_code plain, tidy_code (plain.append (.of_blank he))]
    exact exists_normalCode_append_blank he run
  | literal run q body rest plain hq inside ends ih =>
    by_cases closes : (Place.literal q).after body = .code
    · obtain ⟨e', he', same⟩ := ih
      have regroup : run ++ q :: (body ++ rest) ++ e = run ++ q :: (body ++ (rest ++ e)) := by simp
      refine ⟨e', he', ?_⟩
      rw [regroup, tidy_segments plain hq inside (.inl closes),
        tidy_segments plain hq inside (.inl closes), same]
      simp
    -- The blanks belong to a literal that stays open.
    · obtain rfl := ends.resolve_left closes
      have proper : ((Place.literal q).after body).Proper :=
        Place.Proper.after (p := .literal q) hq body
      have longer : (Place.literal q).Within (body ++ e) := by
        rw [Place.Within, Place.marks_append, inside, (proper.inside_blanks closes he).1,
          List.map_append]
      have whole := tidy_segments plain hq longer (.inr rfl)
      have nothing : tidy [] = [] := rfl
      rw [nothing, List.append_nil] at whole
      refine ⟨e, he, ?_⟩
      rw [tidy_segments plain hq inside (.inr rfl), nothing]
      simp [whole]

theorem trim_tidy_blank_append (hl : Blank l) (s : List Char) :
    trim (tidy (l ++ s)) = trim (tidy s) := by
  induction l with
  | nil => rfl
  | cons c l ih =>
    obtain ⟨head, tail⟩ := List.forall_mem_cons.1 hl
    rcases tidy_cons_blank head (l ++ s) with same | one
    · rw [List.cons_append, same, ih tail]
    · have spaced := trim_append_blank blank_space blank_nil (tidy (l ++ s))
      rw [List.append_nil] at spaced
      rw [List.cons_append, one, ← ih tail]
      exact spaced

/-- Trimming a text before it is laid out makes no difference to what is left between its ends. -/
theorem trim_tidy_trim (s : List Char) : trim (tidy (trim s)) = trim (tidy s) := by
  obtain ⟨l, e, hl, he, split⟩ := exists_trim s
  obtain ⟨e', he', same⟩ := exists_tidy_append_blank he (l ++ trim s)
  have trimmed := trim_append_blank blank_nil he' (tidy (l ++ trim s))
  rw [List.nil_append, ← same, ← split, trim_tidy_blank_append hl] at trimmed
  exact trimmed.symm

theorem mem_normalCode (h : c ∈ normalCode s) : c = ' ' ∨ c ∈ s := by
  have sign (sep : List Char) (ps : List (List Char)) :=
    join_relates (R := fun s t => c ∈ t → c = ' ' ∨ c ∈ s) sep (fun _ => Or.inr)
      (fun p b l s t _ _ same mem => by
        simp only [List.mem_append, List.mem_cons, List.not_mem_nil, or_false] at mem ⊢
        tauto) ps
  have assignments := sign ['='] (cutAssignments none (spaceArrows (collapse false s)))
  have arrows := sign ['=', '>'] (cutArrows (collapse false s))
  rw [intercalate_cutAssignments] at assignments
  rw [intercalate_cutArrows] at arrows
  rcases assignments h with space | mem
  · exact .inl space
  · rcases arrows mem with space | mem
    · exact .inl space
    · exact mem_collapse mem

theorem mem_tidy (h : c ∈ tidy s) : c = ' ' ∨ c ∈ s := by
  induction s using Place.induction_segments with
  | code run plain =>
    rw [tidy_code plain] at h
    exact mem_normalCode h
  | literal run q body rest plain hq inside ends ih =>
    rw [tidy_segments plain hq inside ends] at h
    simp only [List.mem_append, List.mem_cons] at h ⊢
    rcases h with h | rfl | h | h
    · exact (mem_normalCode h).imp_right .inl
    · exact .inr (.inr (.inl rfl))
    · exact .inr (.inr (.inr (.inl h)))
    · exact (ih h).imp_right fun mem => .inr (.inr (.inr mem))

theorem mem_uncommented {m : Mode} (h : c ∈ m.uncommented s) : c ∈ ['/', ' '] ∨ c ∈ s := by
  induction s generalizing m with
  | nil => cases m <;> simp_all [Mode.uncommented, Mode.marks, Mode.finish, Mark.char]
  | cons d s ih =>
    rw [Mode.uncommented, Mode.marks, List.map_append, List.mem_append] at h
    rcases h with head | tail
    · rcases m.step_marks d with none | ⟨k, hk, one | two⟩
      · simp [none] at head
      · simp only [one, List.map_cons, List.map_nil, List.mem_singleton] at head
        simp only [← head, List.mem_cons, List.not_mem_nil, or_false] at hk ⊢
        tauto
      · simp only [two, List.map_cons, List.map_nil, List.mem_cons, List.not_mem_nil, or_false,
          Mark.char] at head
        simp only [List.mem_cons, List.not_mem_nil, or_false] at hk ⊢
        rcases head with rfl | rfl
        · exact .inl (.inl rfl)
        · tauto
    · exact (ih tail).imp_right (List.mem_cons_of_mem d)

/-- Besides slashes and spaces the normal form has only characters of the text. -/
theorem mem_normalize (h : c ∈ normalize s) : c ∈ ['/', ' '] ∨ c ∈ s := by
  rw [normalize_eq] at h
  obtain ⟨l, e, -, -, split⟩ := exists_trim (relaid (s.dropWhile (· == '\uFEFF')))
  have mem : c ∈ relaid (s.dropWhile (· == '\uFEFF')) := by
    rw [split]
    exact List.mem_append_left _ (List.mem_append_right _ h)
  rcases mem_tidy mem with rfl | mem
  · exact .inl (by simp)
  · rcases mem_uncommented mem with sign | mem
    · exact .inl sign
    · exact .inr ((List.dropWhile_sublist _).subset ((unifyBreaks_sublist _).subset mem))

/-- Normalizing a normalized text changes nothing, when the text has line feeds only and no byte
order mark. -/
theorem normalize_normalize {source : List Char} (unix : '\r' ∉ source)
    (unmarked : '\uFEFF' ∉ source) : normalize (normalize source) = normalize source := by
  have bare {s : List Char} (unix : '\r' ∉ s) (unmarked : '\uFEFF' ∉ s) :
      normalize s = trim (tidy (Mode.code.uncommented s)) := by
    rw [normalize_eq, dropWhile_unmarked fun head => unmarked (List.mem_of_mem_head? head), relaid,
      unifyBreaks_eq_self unix]
  have unix' : '\r' ∉ normalize source := fun mem =>
    (mem_normalize mem).elim (by decide) unix
  have unmarked' : '\uFEFF' ∉ normalize source := fun mem =>
    (mem_normalize mem).elim (by decide) unmarked
  rw [bare unix' unmarked', (uncommented_normalize source).uncommented_eq, bare unix unmarked,
    trim_tidy_trim, tidy_tidy]

/-- Signs of every kind side by side, a comment, and a literal that stays open. -/
def signsInARow : List Char :=
  "==>=>= =a!= ==>b  = =>".toList ++ '/' :: '*' :: ("'x".toList ++ '*' :: '/' ::
    "=> \"c\" =\"d\"= 'e  ".toList)

theorem signsInARow_normal :
    '\r' ∉ signsInARow ∧ '\uFEFF' ∉ signsInARow ∧
      normalize (normalize signsInARow) = normalize signsInARow ∧
      normalize signsInARow =
        "= =>  => =  = a!= = => b = =>  => \"c\" = \"d\" = 'e".toList := by
  have unix : '\r' ∉ signsInARow := by decide +kernel
  have unmarked : '\uFEFF' ∉ signsInARow := by decide +kernel
  exact ⟨unix, unmarked, normalize_normalize unix unmarked, by decide +kernel⟩

/-- A carriage return inside a literal meets its line feed only in the second run. -/
example : normalize (normalize "'\r\r\n'".toList) ≠ normalize "'\r\r\n'".toList := by
  decide +kernel

end Texts

end HostPlan.Source
