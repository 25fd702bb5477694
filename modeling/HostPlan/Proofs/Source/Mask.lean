import HostPlan.Proofs.Source.Segment
/-!
The mask of a text. It is as long as the text and is the text itself where that is code; a character
of the mask that is neither a quote nor the filling stands for code.
-/
namespace HostPlan.Source

open Text

def Segment.masked : Segment → List Char
  | .code t => t
  | .literal t => blankOut t

/-- The mask of a text without comments. -/
def masked (s : List Char) : List Char := written Segment.masked s

theorem mask_eq {s : List Char} (h : Uncommented .code s) : mask s = masked s := by
  rw [mask, segments, h.marks_code]
  refine congrArg (fun f => List.flatMap f _) ?_
  funext g
  cases g <;> rfl

theorem masked_code {run : List Char} (plain : Unquoted run) : masked run = run :=
  written_code (f := Segment.masked) rfl plain

theorem masked_segments {run body rest : List Char} {q : Char} (plain : Unquoted run)
    (hq : isQuote q = true) (inside : (Place.literal q).Within body)
    (ends : (Place.literal q).after body = .code ∨ rest = []) :
    masked (run ++ q :: (body ++ rest)) = run ++ blankOut (q :: body) ++ masked rest :=
  written_segments (f := Segment.masked) rfl plain hq inside ends

theorem masked_append {s : List Char} (closed : Place.code.after s = .code) (t : List Char) :
    masked (s ++ t) = masked s ++ masked t :=
  written_append rfl closed fun _ _ _ _ => rfl

theorem length_masked (s : List Char) : (masked s).length = s.length := by
  induction s using Place.induction_segments with
  | code run plain => rw [masked_code plain]
  | literal run q body rest plain hq inside ends ih =>
    rw [masked_segments plain hq inside ends]
    simp only [List.length_append, length_blankOut, ih, List.length_cons]
    omega

theorem Place.Within.eq_nil {body : List Char} (inside : Place.code.Within body) : body = [] := by
  cases body with
  | nil => rfl
  | cons c body =>
    rw [Within, Place.marks, List.map_cons, List.cons.injEq, mark] at inside
    have here := inside.1
    split at here <;> cases here

/-- A literal that closes does so with its quote. -/
theorem Place.Within.ends_with {p : Place} {body : List Char} (inside : p.Within body)
    (closed : p.after body = .code) {q : Char} (hp : p = .literal q ∨ p = .escape q) :
    ∃ b, body = b ++ [q] := by
  induction body generalizing p with
  | nil => rcases hp with rfl | rfl <;> cases closed
  | cons c body ih =>
    have rest := inside.tail
    have onwards (hp : p.next c = .literal q ∨ p.next c = .escape q) : ∃ b, c :: body = b ++ [q] := by
      obtain ⟨b, rfl⟩ := ih rest closed hp
      exact ⟨c :: b, rfl⟩
    rcases hp with rfl | rfl
    · by_cases hb : c = '\\'
      · exact onwards (.inr (by simp [next, hb]))
      · by_cases hc : c = q
        · subst hc
          have last : (Place.literal c).next c = .code := by simp [next, hb]
          rw [last] at rest
          rw [rest.eq_nil]
          exact ⟨[], rfl⟩
        · exact onwards (.inl (by simp [next, hb, hc]))
    · exact onwards (.inl rfl)

/-- The mask of a literal shows quotes and filling only. -/
theorem mem_blankOut {q c : Char} {body : List Char} (hq : isQuote q = true)
    (inside : (Place.literal q).Within body) (closed : (Place.literal q).after body = .code)
    (h : c ∈ blankOut (q :: body)) : isQuote c = true ∨ c = '_' := by
  obtain ⟨b, rfl⟩ := inside.ends_with closed (.inl rfl)
  cases b with
  | nil =>
    have quotes : c = q := by simpa [blankOut] using h
    exact .inl (quotes ▸ hq)
  | cons d b =>
    have last : ((d :: b) ++ [q]).getLast (by simp) = q := List.getLast_concat
    rw [List.cons_append, blankOut, List.mem_cons, List.mem_append, List.mem_replicate,
      List.mem_singleton] at h
    rcases h with h | h | h
    · exact .inl (h ▸ hq)
    · exact .inr h.2
    · exact .inl ((h.trans last) ▸ hq)

/-- Where a character of two texts put together stands. -/
theorem append_eq_append_cons {α : Type} {s t x y : List α} {c : α} (h : s ++ t = x ++ c :: y) :
    (∃ r, s = x ++ c :: r) ∨ ∃ r, x = s ++ r ∧ t = r ++ c :: y := by
  rcases List.append_eq_append_iff.1 h with ⟨r, rfl, ht⟩ | ⟨r, rfl, hr⟩
  · exact .inr ⟨r, rfl, ht⟩
  · cases r with
    | nil => exact .inr ⟨[], by simp, by simpa using hr.symm⟩
    | cons d r =>
      rw [List.cons_append, List.cons.injEq] at hr
      exact .inl ⟨r, by rw [hr.1]⟩

/-- The mask of a literal shows its opening quote and filling only, but for its last character. -/
theorem blankOut_shows {q c : Char} {body r y : List Char} (h : blankOut (q :: body) = r ++ c :: y)
    (hy : y ≠ []) : c = q ∨ c = '_' := by
  have shown : c ∈ (blankOut (q :: body)).dropLast := by
    obtain ⟨d, y, rfl⟩ := List.exists_cons_of_ne_nil hy
    rw [h, List.dropLast_append_cons, List.dropLast_cons_cons]
    simp
  cases body with
  | nil => cases shown
  | cons d body =>
    rw [blankOut, ← List.cons_append, List.dropLast_concat, List.mem_cons, List.mem_replicate] at shown
    exact shown.imp_right And.right

/-- What a mask shows besides quotes and filling is code, but for the last character of a literal
that does not close. -/
theorem code_of_masked {u x y : List Char} {c : Char} (hq : isQuote c = false) (hc : c ≠ '_')
    (further : Place.code.after u = .code ∨ y ≠ []) (h : masked u = x ++ c :: y) :
    ∃ s t, u = s ++ c :: t ∧ Place.code.after s = .code ∧ s.length = x.length := by
  induction u using Place.induction_segments generalizing x with
  | code run plain =>
    rw [masked_code plain] at h
    subst h
    exact ⟨x, y, rfl, Place.after_code (List.forall_mem_append.1 plain).1, rfl⟩
  | literal run q body rest plain hquote inside ends ih =>
    rw [Place.after_segments plain hquote] at further
    rw [masked_segments plain hquote inside ends] at h
    rcases append_eq_append_cons h with ⟨r, hr⟩ | ⟨r, rfl, hr⟩
    · rcases append_eq_append_cons hr with ⟨r', rfl⟩ | ⟨r', rfl, hr'⟩
      · exact ⟨x, r' ++ q :: (body ++ rest), by simp,
          Place.after_code (List.forall_mem_append.1 plain).1, rfl⟩
      · -- The character would be one of the literal.
        have quotes : isQuote c = true ∨ c = '_' := by
          by_cases bodyClosed : (Place.literal q).after body = .code
          · exact mem_blankOut hquote inside bodyClosed (hr' ▸ by simp)
          · obtain rfl : rest = [] := ends.resolve_left bodyClosed
            have hy : y ≠ [] := further.resolve_left bodyClosed
            have same : y = r := by
              have nothing : masked [] = [] := rfl
              rw [hr, nothing] at h
              simpa using h.symm
            rcases blankOut_shows hr' (same ▸ hy) with rfl | filling
            · exact .inl hquote
            · exact .inr filling
        rcases quotes with h | h
        · rw [hq] at h
          cases h
        · exact absurd h hc
    · have bodyClosed : (Place.literal q).after body = .code := by
        refine ends.resolve_right ?_
        rintro rfl
        cases r <;> cases hr
      rw [bodyClosed] at further
      obtain ⟨s, t, rfl, after, length⟩ := ih further hr
      refine ⟨run ++ q :: (body ++ s), t, by simp, ?_, ?_⟩
      · rw [Place.after_segments plain hquote, bodyClosed, after]
      · simp only [List.length_append, List.length_cons, length_blankOut, length]
        omega

theorem getLast?_blankOut {q : Char} {body : List Char} (inside : (Place.literal q).Within body)
    (closed : (Place.literal q).after body = .code) :
    (blankOut (q :: body)).getLast? = some q ∧ (q :: body).getLast? = some q := by
  obtain ⟨b, rfl⟩ := inside.ends_with closed (.inl rfl)
  refine ⟨?_, by rw [← List.cons_append, List.getLast?_concat]⟩
  cases b with
  | nil => rfl
  | cons d b =>
    have last : ((d :: b) ++ [q]).getLast (by simp) = q := List.getLast_concat
    rw [List.cons_append, blankOut, ← List.cons_append, List.getLast?_concat]
    exact congrArg some last

/-- The mask of a text whose literals close ends with the last character of the text. -/
theorem getLast?_masked {s : List Char} (closed : Place.code.after s = .code) :
    (masked s).getLast? = s.getLast? := by
  induction s using Place.induction_segments with
  | code run plain => rw [masked_code plain]
  | literal run q body rest plain hq inside ends ih =>
    have bodyClosed := Place.closed_literal plain hq ends closed
    rw [Place.after_segments plain hq, bodyClosed] at closed
    obtain ⟨quote, literal⟩ := getLast?_blankOut inside bodyClosed
    have front : (run ++ blankOut (q :: body)).getLast? = (run ++ q :: body).getLast? := by
      rw [List.getLast?_append, List.getLast?_append, quote, literal]
    have regroup : run ++ q :: (body ++ rest) = run ++ q :: body ++ rest := by simp
    rw [masked_segments plain hq inside (.inl bodyClosed), regroup, List.getLast?_append,
      ih closed, front, ← List.getLast?_append]

/-- Where a mask ends with a text without quotes, so does the text, and before it every literal is
closed. -/
theorem suffix_of_masked {s x h : List Char} (plain : Unquoted h)
    (closed : Place.code.after s = .code) (hs : masked s = x ++ h) :
    ∃ y, s = y ++ h ∧ Place.code.after y = .code ∧ masked y = x := by
  have split : ∃ y, s = y ++ h ∧ Place.code.after y = .code := by
    induction s using Place.induction_segments generalizing x with
    | code run plain =>
      rw [masked_code plain] at hs
      subst hs
      exact ⟨x, rfl, Place.after_code (List.forall_mem_append.1 plain).1⟩
    | literal run q body rest plainRun hq inside ends ih =>
      have bodyClosed := Place.closed_literal plainRun hq ends closed
      rw [Place.after_segments plainRun hq, bodyClosed] at closed
      rw [masked_segments plainRun hq inside ends] at hs
      have behind : ∃ x', masked rest = x' ++ h := by
        rcases List.append_eq_append_iff.1 hs with ⟨r, rfl, hr⟩ | ⟨r, hr, hh⟩
        · exact ⟨r, hr⟩
        · -- What is left of the literal would end with its quote.
          have last := congrArg List.getLast? hr
          rw [List.getLast?_append, (getLast?_blankOut inside bodyClosed).1, List.getLast?_append] at last
          cases hlast : r.getLast? with
          | none =>
            rw [List.getLast?_eq_none_iff] at hlast
            exact ⟨[], by rw [hh, hlast, List.nil_append, List.nil_append]⟩
          | some c =>
            rw [hlast] at last
            obtain rfl : q = c := by simpa using last
            have quoted := plain q (hh ▸ List.mem_append_left _ (List.mem_of_getLast? hlast))
            rw [hq] at quoted
            cases quoted
      obtain ⟨x', hx⟩ := behind
      obtain ⟨y, rfl, hy⟩ := ih closed hx
      refine ⟨run ++ q :: (body ++ y), by simp, ?_⟩
      rw [Place.after_segments plainRun hq, bodyClosed, hy]
  obtain ⟨y, rfl, hy⟩ := split
  rw [masked_append hy, masked_code plain] at hs
  exact ⟨y, rfl, hy, List.append_cancel_right hs⟩

theorem masked_cons {c : Char} (h : isQuote c = false) (s : List Char) :
    masked (c :: s) = c :: masked s := by
  have split := masked_append (s := [c]) (Place.next_code h) s
  rwa [masked_code (List.forall_mem_singleton.2 h)] at split

theorem masked_quote {c : Char} (h : isQuote c = true) (s : List Char) :
    ∃ m, masked (c :: s) = c :: m := by
  obtain ⟨body, rest, rfl, inside, ends⟩ := Place.exists_within (p := .literal c) nofun s
  have split := @masked_segments [] body rest c nofun h inside ends
  rw [List.nil_append] at split
  rw [split]
  cases body with
  | nil => exact ⟨masked rest, rfl⟩
  | cons d body => exact ⟨_, rfl⟩

/-- A text starts as its mask does, as far as that holds no quote. -/
theorem text_of_masked {a t m : List Char} (plain : Unquoted a) (h : masked t = a ++ m) :
    ∃ r, t = a ++ r ∧ masked r = m := by
  induction a generalizing t with
  | nil => exact ⟨t, rfl, h⟩
  | cons c a ih =>
    obtain ⟨head, tail⟩ := List.forall_mem_cons.1 plain
    cases t with
    | nil => cases h
    | cons d t =>
      cases hd : isQuote d with
      | true =>
        obtain ⟨m', hm⟩ := masked_quote hd t
        rw [hm, List.cons_append] at h
        rw [(List.cons.inj h).1, head] at hd
        cases hd
      | false =>
        rw [masked_cons hd, List.cons_append] at h
        obtain ⟨rfl, behind⟩ := List.cons.inj h
        obtain ⟨r, rfl, hr⟩ := ih tail behind
        exact ⟨r, rfl, hr⟩

end HostPlan.Source
