import HostPlan.Proofs.Source.Ending
import HostPlan.Proofs.Source.Segment
/-!
Angle brackets that mislead. One that follows a word is taken for the start of type arguments, and
these are read without regard to literals; when no literal begins in them, what stands behind them is
read as code again.
-/
namespace HostPlan.Source

open Text

/-- A literal begins before the next parenthesis and before the end of the statement. -/
def reachesQuote : List Mark → Bool
  | [] => false
  | .opening _ :: _ => true
  | .inside _ :: r => reachesQuote r
  | .code c :: r => if c = '(' ∨ c = ')' ∨ c = ';' then false else reachesQuote r

/-- Some opening angle bracket that follows a word, perhaps behind blanks, has a literal begin behind
it before the next parenthesis or the end of the statement. The flag says that the text before ended
in a word. -/
def misleads (afterWord : Bool) : List Mark → Bool
  | [] => false
  | .opening _ :: r => misleads false r
  | .inside _ :: r => misleads afterWord r
  | .code c :: r =>
    if isBlank c then misleads afterWord r
    else (afterWord && c == '<' && reachesQuote r) || misleads (isWord c) r

section Marks

theorem misleads_code (b : Bool) (c : Char) (ms : List Mark) : misleads b (.code c :: ms) =
    if isBlank c then misleads b ms
    else (b && c == '<' && reachesQuote ms) || misleads (isWord c) ms := rfl

theorem misleads_mono {b : Bool} {ms : List Mark} (h : misleads b ms = false) :
    misleads false ms = false := by
  induction ms generalizing b with
  | nil => rfl
  | cons m ms ih =>
    cases m with
    | opening c => exact h
    | inside c => exact ih (b := b) h
    | code c =>
      rw [misleads_code] at h ⊢
      split
      · rename_i blank
        rw [if_pos blank] at h
        exact ih h
      · rename_i blank
        rw [if_neg blank, Bool.or_eq_false_iff] at h
        simp [h.2]

theorem misleads_suffix {b : Bool} {ms ns : List Mark} (h : misleads b (ms ++ ns) = false) :
    misleads false ns = false := by
  induction ms generalizing b with
  | nil => exact misleads_mono h
  | cons m ms ih =>
    rw [List.cons_append] at h
    cases m with
    | opening c => exact ih (b := false) h
    | inside c => exact ih (b := b) h
    | code c =>
      rw [misleads_code] at h
      split at h
      · exact ih h
      · rw [Bool.or_eq_false_iff] at h
        exact ih h.2

theorem misleads_word {b : Bool} {ms ns : List Mark} {c : Char} (hc : isWord c = true)
    (h : misleads b (ms ++ .code c :: ns) = false) : misleads true ns = false := by
  have here := misleads_suffix h
  rw [misleads_code, if_neg (by simp [isBlank_of_isWord hc]), hc] at here
  simpa using here

theorem misleads_blanks {b : Bool} {l : List Char} (hl : Blank l) (ms : List Mark) :
    misleads b (l.map .code ++ ms) = misleads b ms := by
  induction l with
  | nil => rfl
  | cons c l ih =>
    have head := hl c List.mem_cons_self
    rw [List.map_cons, List.cons_append, misleads_code, if_pos head,
      ih fun d hd => hl d (List.mem_cons_of_mem _ hd)]

end Marks

section Behind

/-- The second text is what is left of the first one at a place that is code. -/
def Leaves (s r : List Char) : Prop := ∃ x, s = x ++ r ∧ Place.code.after x = .code

theorem Leaves.trans {s t r : List Char} (first : Leaves s t) (second : Leaves t r) :
    Leaves s r := by
  obtain ⟨x, rfl, hx⟩ := first
  obtain ⟨y, rfl, hy⟩ := second
  exact ⟨x ++ y, (List.append_assoc ..).symm, by rw [Place.after_append, hx, hy]⟩

theorem Leaves.of_unquoted {x : List Char} (plain : Unquoted x) (r : List Char) :
    Leaves (x ++ r) r := ⟨x, rfl, Place.after_code plain⟩

/-- The parenthesis that closes an argument list is code. -/
theorem after_untilClosed {p : Place} {d : Nat} {s a r : List Char}
    (h : untilClosed p d s = some (a, r)) : p.after a = .code := by
  induction s generalizing p d a with
  | nil => cases h
  | cons c s ih =>
    rw [untilClosed] at h
    split at h
    · rename_i closer
      split at h
      · split at h
        · cases h
          exact closer.1
        · cases h
      · obtain ⟨⟨a', r'⟩, h', he⟩ := Option.map_eq_some_iff.1 h
        cases he
        have next : p.next c = .code := closer.1 ▸ next_closer closer.2
        rw [Place.after_cons, next]
        exact ih h'
    · obtain ⟨⟨a', r'⟩, h', he⟩ := Option.map_eq_some_iff.1 h
      cases he
      rw [Place.after_cons]
      exact ih h'

theorem leaves_untilClosed {d : Nat} {s a r : List Char}
    (h : untilClosed .code d s = some (a, r)) : Leaves s r := by
  refine ⟨a ++ [')'], ?_, ?_⟩
  · rw [eq_append_of_untilClosed h]
    simp
  · rw [Place.after_append, after_untilClosed h]
    rfl

theorem leaves_afterTypeArguments {d : Nat} {s r : List Char}
    (calm : reachesQuote (Place.code.marks s) = false) (h : afterTypeArguments d s = some r) :
    ∃ x, s = x ++ r ∧ Unquoted x := by
  induction s generalizing d with
  | nil => cases h
  | cons c s ih =>
    have quote : isQuote c = false := by
      cases hq : isQuote c with
      | false => rfl
      | true =>
        rw [Place.marks, Place.mark_quote hq] at calm
        cases calm
    have onwards {d : Nat} (other : ¬(c = '(' ∨ c = ')' ∨ c = ';'))
        (h : afterTypeArguments d s = some r) : ∃ x, c :: s = x ++ r ∧ Unquoted x := by
      rw [Place.marks, Place.mark_code quote, Place.next_code quote, reachesQuote,
        if_neg other] at calm
      obtain ⟨x, rfl, hx⟩ := ih calm h
      exact ⟨c :: x, rfl, .cons quote hx⟩
    rw [afterTypeArguments] at h
    split at h
    · rename_i opens
      exact onwards (by rw [opens]; decide) h
    · split at h
      · rename_i closes
        split at h
        · refine ⟨c :: s.takeWhile (· == ' '), ?_, ?_⟩
          · rw [← Option.some.inj h, List.cons_append, List.takeWhile_append_dropWhile]
          · refine List.forall_mem_cons.2 ⟨quote, fun e he => ?_⟩
            have space := List.all_eq_true.1 List.all_takeWhile e he
            rw [eq_of_beq space]
            rfl
        · exact onwards (by rw [closes]; decide) h
      · split at h
        · cases h
        · rename_i other
          exact onwards other h

/-- Behind a word and its type arguments the text is code again. -/
theorem leaves_skipTypeArguments {s r : List Char}
    (calm : misleads true (Place.code.marks s) = false) (h : skipTypeArguments s = some r) :
    Leaves s r := by
  unfold skipTypeArguments at h
  split at h
  · rename_i t
    rw [Place.marks, Place.mark_code (by decide), Place.next_code (by decide), misleads_code,
      if_neg (by decide), Bool.or_eq_false_iff] at calm
    obtain ⟨x, rfl, hx⟩ := leaves_afterTypeArguments (by simpa using calm.1) h
    exact .of_unquoted (x := '<' :: x) (.cons rfl hx) r
  · rw [← Option.some.inj h]
    exact ⟨[], rfl, rfl⟩

end Behind

end HostPlan.Source
