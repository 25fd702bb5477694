import HostPlan.Proofs.Source.Layout
import HostPlan.Proofs.Source.Nesting
import Mathlib.Data.List.Forall2
import Mathlib.Data.List.Infix
/-!
Arguments. The text of an argument is its own normal form, so it stands in the normal form of a
program as it is, but for blanks around it; its brackets and literals close, so the parenthesis behind
it and the commas around it are found.
-/
namespace HostPlan.Source

open Text

/-- The text of one argument, in its normal form. -/
structure ArgumentText (a : List Char) : Prop where
  filled : a ≠ []
  trimmed : trim a = a
  normal : normalize a = a
  closed : (Mode.code.after a).place = .code
  above : ∀ p, p <+: a → 0 ≤ depth (Mode.code.marks p)
  balanced : depth (Mode.code.marks a) = 0
  single : ∀ p q, a = p ++ ',' :: q → (Mode.code.after p).place = .code →
    depth (Mode.code.marks p) ≠ 0

instance : DecidablePred ArgumentText := fun a =>
  decidable_of_iff (a ≠ [] ∧ trim a = a ∧ normalize a = a ∧ (Mode.code.after a).place = .code ∧
      (∀ p ∈ a.inits, 0 ≤ depth (Mode.code.marks p)) ∧ depth (Mode.code.marks a) = 0 ∧
      ∀ p ∈ a.inits, a = p ++ ',' :: a.drop (p.length + 1) → (Mode.code.after p).place = .code →
        depth (Mode.code.marks p) ≠ 0) (by
    simp only [List.mem_inits]
    constructor
    · intro ⟨filled, trimmed, normal, closed, above, balanced, single⟩
      refine ⟨filled, trimmed, normal, closed, above, balanced, ?_⟩
      rintro p q rfl
      exact single p (List.prefix_append p _) (by simp)
    · intro h
      exact ⟨h.filled, h.trimmed, h.normal, h.closed, h.above, h.balanced,
        fun p _ hp => h.single p _ hp⟩)

section Marks

/-- No step towards the normal form makes a byte order mark. -/
theorem count_shown {c : Char} (hc : isBlank c = false) (ms : List Mark) :
    ((shown ms).map Mark.char).count c = (ms.map Mark.char).count c := by
  induction ms with
  | nil => rfl
  | cons m ms ih =>
    cases hm : m.isShown with
    | true => simp [shown, hm, List.count_cons, ← ih]
    | false =>
      have blank : isBlank m.char = true := by
        cases m with
        | code d => simpa [Mark.isShown, Mark.char] using hm
        | opening d => cases hm
        | inside d => cases hm
      have other : m.char ≠ c := by
        rintro rfl
        rw [hc] at blank
        cases blank
      simp [shown, hm, ← ih, other]

theorem count_step_le (m : Mode) (c : Char) :
    ((m.step c).2.map Mark.char).count '\uFEFF' ≤ [c].count '\uFEFF' := by
  have single (k : Mark) (hk : k.char ∈ [c, '/', ' ']) :
      [k.char].count '\uFEFF' ≤ [c].count '\uFEFF' := by
    simp only [List.mem_cons, List.not_mem_nil, or_false] at hk
    rcases hk with hk | hk | hk <;> simp [hk]
  rcases m.step_marks c with none | ⟨k, hk, one | two⟩
  · rw [none]
    exact Nat.zero_le _
  · rw [one]
    exact single k hk
  · rw [two]
    exact single k hk

theorem count_uncommented_le (m : Mode) (s : List Char) :
    (m.uncommented s).count '\uFEFF' ≤ s.count '\uFEFF' := by
  induction s generalizing m with
  | nil => cases m <;> simp [Mode.uncommented, Mode.marks, Mode.finish, Mark.char]
  | cons c s ih =>
    have head := count_step_le m c
    have tail := ih (m.step c).1
    rw [Mode.uncommented] at tail ⊢
    rw [Mode.marks, List.map_append, List.count_append, ← List.singleton_append (x := c),
      List.count_append]
    omega

theorem count_relaid_le (s : List Char) : (relaid s).count '\uFEFF' ≤ s.count '\uFEFF' := by
  have stripped := Mode.stripped .code (unifyBreaks s)
  have solid : isBlank '\uFEFF' = false := by decide
  have same := congrArg (fun ms => (ms.map Mark.char).count '\uFEFF') (tidied stripped.clean).shown
  simp only [count_shown solid, Place.map_char_marks] at same
  have fewer := count_uncommented_le .code (unifyBreaks s)
  have sub := (unifyBreaks_sublist s).count_le '\uFEFF'
  rw [relaid, same]
  omega

theorem count_trim_le (c : Char) (s : List Char) : (trim s).count c ≤ s.count c := by
  obtain ⟨l, r, -, -, hs⟩ := exists_trim s
  have counted := congrArg (List.count c) hs
  rw [List.count_append, List.count_append] at counted
  omega

/-- A text in its normal form begins with no byte order mark. -/
theorem dropWhile_of_normal {a : List Char} (h : normalize a = a) :
    a.dropWhile (· == '\uFEFF') = a := by
  cases a with
  | nil => rfl
  | cons c r =>
    by_cases hc : c = '\uFEFF'
    · subst hc
      have dropped : ('\uFEFF' :: r).dropWhile (· == '\uFEFF') = r.dropWhile (· == '\uFEFF') := by
        simp
      have fewer : (normalize ('\uFEFF' :: r)).count '\uFEFF' ≤ r.count '\uFEFF' := by
        rw [normalize_eq, dropped]
        have sub := (List.dropWhile_sublist (l := r) (· == '\uFEFF')).count_le '\uFEFF'
        have laid := count_relaid_le (r.dropWhile (· == '\uFEFF'))
        have trimmed := count_trim_le '\uFEFF' (relaid (r.dropWhile (· == '\uFEFF')))
        omega
      rw [h, List.count_cons_self] at fewer
      omega
    · simp [hc]

end Marks

/-- A text with blanks around it. -/
def Padded (a x : List Char) : Prop := ∃ l r, Blank l ∧ Blank r ∧ x = l ++ a ++ r

theorem Padded.trim {a x : List Char} (h : Padded a x) : trim x = trim a := by
  obtain ⟨l, r, hl, hr, rfl⟩ := h
  exact trim_append_blank hl hr a

theorem map_trim_of_padded {args xs : List (List Char)} (padded : List.Forall₂ Padded args xs)
    (trimmed : ∀ a ∈ args, trim a = a) : xs.map trim = args := by
  induction padded with
  | nil => rfl
  | cons hx padded ih =>
    obtain ⟨ha, others⟩ := List.forall_mem_cons.1 trimmed
    rw [List.map_cons, hx.trim, ha, ih others]

theorem exists_of_padded {args xs : List (List Char)} (padded : List.Forall₂ Padded args xs)
    {x : List Char} (hx : x ∈ xs) : ∃ a ∈ args, Padded a x := by
  induction padded with
  | nil => cases hx
  | @cons a y args xs hy padded ih =>
    rcases List.mem_cons.1 hx with rfl | hx
    · exact ⟨a, List.mem_cons_self, hy⟩
    · obtain ⟨b, hb, hbx⟩ := ih hx
      exact ⟨b, List.mem_cons_of_mem _ hb, hbx⟩

section Fitting

variable {s t : List Char}

/-- A text whose literals and brackets close, and which closes no other bracket. -/
structure Enclosed (s : List Char) : Prop where
  after : Place.code.after s = .code
  above : Above 0 (Place.code.marks s)
  depth : depth (Place.code.marks s) = 0

theorem Enclosed.append (hs : Enclosed s) (ht : Enclosed t) : Enclosed (s ++ t) where
  after := by rw [Place.after_append, hs.after, ht.after]
  above := by
    rw [Place.marks_append, hs.after, above_append, hs.depth]
    exact ⟨hs.above, ht.above⟩
  depth := by rw [Place.marks_append, hs.after, depth_append, hs.depth, ht.depth]; rfl

/-- Code without quotes and brackets. -/
theorem Enclosed.of_flat (plain : Unquoted s)
    (flat : ∀ c ∈ s, isOpener c = false ∧ isCloser c = false) : Enclosed s := by
  have weights : ∀ m ∈ Place.code.marks s, m.weight = 0 := by
    rw [Place.marks_code plain]
    intro m hm
    obtain ⟨c, hc, rfl⟩ := List.mem_map.1 hm
    simp [Mark.weight, flat c hc]
  exact ⟨Place.after_code plain, above_of_flat (Int.le_refl 0) weights, depth_of_flat weights⟩

theorem Enclosed.of_blank (h : Blank s) : Enclosed s :=
  .of_flat (.of_blank h) fun c hc => not_bracket_of_isBlank (h c hc)

/-- The parenthesis behind such a text closes the one before it. -/
theorem Enclosed.untilClosed (h : Enclosed s) (r : List Char) :
    untilClosed .code 1 (s ++ ')' :: r) = some (s, r) := by
  rw [untilClosed_append (d := 0) (e := 0) h.above (by rw [h.depth]; rfl), h.after]
  simp [Source.untilClosed, isCloser]

/-- A text that no comma cuts, whatever follows it. -/
def Uncut (s : List Char) : Prop :=
  ∀ r, cutCommas .code 0 (s ++ r) = s.foldr extend (cutCommas .code 0 r)

theorem Uncut.append (hs : Uncut s) (ht : Uncut t) : Uncut (s ++ t) := by
  intro r
  rw [List.append_assoc, hs, ht, List.foldr_append]

theorem cutCommas_append {p : Place} {k : Int}
    (single : ∀ x y, s = x ++ ',' :: y → p.after x = .code → k + Source.depth (p.marks x) ≠ 0)
    (r : List Char) :
    cutCommas p k (s ++ r) =
      s.foldr extend (cutCommas (p.after s) (k + Source.depth (p.marks s)) r) := by
  induction s generalizing p k with
  | nil => simp [Place.marks]
  | cons c s ih =>
    have rest : ∀ x y, s = x ++ ',' :: y → (p.next c).after x = .code →
        k + (p.mark c).weight + Source.depth ((p.next c).marks x) ≠ 0 := by
      intro x y hs hx
      have longer := single (c :: x) y (by rw [hs]; rfl) hx
      rwa [Place.marks, depth_cons, ← Int.add_assoc] at longer
    rw [List.cons_append, cutCommas, Place.marks, depth_cons, ← Int.add_assoc]
    by_cases hp : p = .code
    · subst hp
      have comma : ¬(c = ',' ∧ k = 0) := by
        rintro ⟨rfl, rfl⟩
        exact single [] s rfl rfl rfl
      have depth : (if isOpener c then k + 1 else if isCloser c then k - 1 else k) =
          k + (Place.code.mark c).weight := by
        rw [Place.weight_mark_code]
        split
        · rfl
        · split <;> omega
      simp only [if_true, if_neg comma, depth, ih rest]
      rfl
    · rw [if_neg hp, Place.weight_mark hp, Int.add_zero]
      rw [Place.weight_mark hp, Int.add_zero] at rest
      rw [ih rest]
      rfl

theorem Enclosed.uncut (h : Enclosed s)
    (single : ∀ x y, s = x ++ ',' :: y → Place.code.after x = .code →
      Source.depth (Place.code.marks x) ≠ 0) : Uncut s := by
  intro r
  rw [cutCommas_append (by simpa using single), h.after, h.depth]
  rfl

theorem Uncut.of_blank (h : Blank s) : Uncut s := by
  refine (Enclosed.of_blank h).uncut ?_
  rintro x y rfl
  have comma := h ',' (by simp)
  cases comma

theorem cutCommas_intercalate {xs : List (List Char)} (filled : xs ≠ [])
    (uncut : ∀ x ∈ xs, Uncut x) : cutCommas .code 0 ([','].intercalate xs) = xs := by
  have fold (x p : List Char) (ps : List (List Char)) :
      x.foldr extend (p :: ps) = (x ++ p) :: ps := by
    induction x with
    | nil => rfl
    | cons c x ih => rw [List.foldr_cons, ih]; rfl
  induction xs with
  | nil => exact absurd rfl filled
  | cons x xs ih =>
    obtain ⟨head, tail⟩ := List.forall_mem_cons.1 uncut
    by_cases last : xs = []
    · subst last
      have alone := head []
      rw [List.append_nil] at alone
      rw [List.intercalate_singleton, alone, cutCommas, fold, List.append_nil]
    · rw [List.intercalate_cons_of_ne_nil last, List.append_assoc, head, List.singleton_append,
        cutCommas, if_pos rfl, if_pos ⟨rfl, rfl⟩, ih last tail, fold, List.append_nil]

theorem dropEmptyLast_concat (ps : List (List Char)) (p : List Char) :
    dropEmptyLast (ps ++ [p]) = ps ++ if p = [] then [] else [p] := by
  induction ps with
  | nil => cases p <;> rfl
  | cons q ps ih =>
    rw [List.cons_append, dropEmptyLast, ih, List.cons_append]
    intro none
    simp at none

/-- Texts between commas are the arguments they are trimmed to, but for a last one of blanks. -/
theorem arguments_concat {xs : List (List Char)} {x : List Char}
    (uncut : ∀ y ∈ xs ++ [x], Uncut y) :
    arguments ([','].intercalate (xs ++ [x])) =
      xs.map trim ++ if trim x = [] then [] else [trim x] := by
  rw [arguments, cutCommas_intercalate (by simp) uncut, List.map_append, List.map_singleton,
    dropEmptyLast_concat]

theorem arguments_intercalate {xs : List (List Char)} (uncut : ∀ x ∈ xs, Uncut x)
    (filled : ∀ x ∈ xs, trim x ≠ []) : arguments ([','].intercalate xs) = xs.map trim := by
  rcases List.eq_nil_or_concat xs with rfl | ⟨front, last, rfl⟩
  · rfl
  · rw [List.concat_eq_append] at uncut filled ⊢
    rw [arguments_concat uncut, if_neg (filled last (by simp)), List.map_append,
      List.map_singleton]

end Fitting

namespace ArgumentText

variable {a : List Char}

theorem padded (h : ArgumentText a) : Padded a (relaid a) := by
  have normal := h.normal
  rw [normalize_eq, dropWhile_of_normal h.normal] at normal
  obtain ⟨l, r, hl, hr, hs⟩ := exists_trim (relaid a)
  rw [normal] at hs
  exact ⟨l, r, hl, hr, hs⟩

theorem uncommented (h : ArgumentText a) : Uncommented .code a := by
  obtain ⟨l, r, hl, -, hs⟩ := h.padded
  have clean := (relaid_spec a).clean
  rw [hs] at clean
  exact clean.append.1.of_blank hl

/-- Before and behind every character the argument is read the same way, comments or not. -/
theorem prefixes (h : ArgumentText a) {p : List Char} (hp : p <+: a) :
    Mode.code.marks p = Place.code.marks p ∧ (Mode.code.after p).StandsAt (Place.code.after p) := by
  obtain ⟨q, rfl⟩ := hp
  have clean := h.uncommented.append.1
  exact ⟨clean.marks_code, clean.standsAt⟩

theorem plain (h : ArgumentText a) : (Mode.code.after a).IsPlain := by
  have stands := (h.prefixes List.prefix_rfl).2
  rw [stands.isPlain_iff, ← stands.place]
  exact h.closed

theorem enclosed (h : ArgumentText a) : Enclosed a := by
  obtain ⟨marks, stands⟩ := h.prefixes List.prefix_rfl
  refine ⟨stands.place ▸ h.closed, ?_, marks ▸ h.balanced⟩
  rw [← marks]
  refine above_of_prefixes fun p hp => ?_
  rw [Int.zero_add]
  exact h.above p hp

theorem uncut (h : ArgumentText a) : Uncut a := by
  refine h.enclosed.uncut ?_
  intro x y hxy code
  obtain ⟨marks, stands⟩ := h.prefixes (hxy ▸ List.prefix_append x _)
  rw [← marks]
  exact h.single x y hxy (stands.place.trans code)

end ArgumentText

section Padding

variable {a x : List Char}

theorem Padded.enclosed (h : Padded a x) (ha : ArgumentText a) : Enclosed x := by
  obtain ⟨l, r, hl, hr, rfl⟩ := h
  exact ((Enclosed.of_blank hl).append ha.enclosed).append (.of_blank hr)

theorem Padded.uncut (h : Padded a x) (ha : ArgumentText a) : Uncut x := by
  obtain ⟨l, r, hl, hr, rfl⟩ := h
  exact ((Uncut.of_blank hl).append ha.uncut).append (.of_blank hr)

end Padding

end HostPlan.Source
