import HostPlan.Proofs.Source.Locality
import HostPlan.Source.Lambda
import Mathlib.Data.List.Infix
/-!
Truncated texts. A call that is read is settled: more text behind it changes neither the call nor what
is read before it, and the reading can go on from where it stopped. So a text that is cut off anywhere,
in a name, in a literal or in the head of a lambda, has a first part of the calls of the whole.
-/
namespace HostPlan.Source

open Text

section Words

variable {p : Char → Bool} {s : List Char}

theorem dropWhile_append_of_ne_nil (h : s.dropWhile p ≠ []) (w : List Char) :
    (s ++ w).dropWhile p = s.dropWhile p ++ w := by
  rw [List.dropWhile_append, if_neg (by simpa using h)]

theorem takeWhile_append_of_ne_nil (h : s.dropWhile p ≠ []) (w : List Char) :
    (s ++ w).takeWhile p = s.takeWhile p := by
  have split : (s ++ w).takeWhile p ++ (s ++ w).dropWhile p = s.takeWhile p ++ s.dropWhile p ++ w := by
    rw [List.takeWhile_append_dropWhile, List.takeWhile_append_dropWhile]
  rw [dropWhile_append_of_ne_nil h, List.append_assoc] at split
  exact List.append_cancel_right split

theorem trimStart_append_of_ne_nil (h : trimStart s ≠ []) (w : List Char) :
    trimStart (s ++ w) = trimStart s ++ w :=
  dropWhile_append_of_ne_nil h w

theorem afterWord_append_of_ne_nil (h : afterWord s ≠ []) (w : List Char) :
    afterWord (s ++ w) = afterWord s ++ w :=
  dropWhile_append_of_ne_nil h w

theorem leadingWord_append_of_ne_nil (h : afterWord s ≠ []) (w : List Char) :
    leadingWord (s ++ w) = leadingWord s :=
  takeWhile_append_of_ne_nil h w

theorem ne_nil_of_trimStart (h : trimStart s ≠ []) : s ≠ [] := by
  rintro rfl
  exact h rfl

theorem ne_nil_of_afterWord (h : afterWord s ≠ []) : s ≠ [] := by
  rintro rfl
  exact h rfl

/-- A name and the blanks around it are settled when something stands behind them. -/
theorem name_append_of_ne_nil (h : trimStart (afterWord (trimStart s)) ≠ []) (w : List Char) :
    leadingWord (trimStart (s ++ w)) = leadingWord (trimStart s) ∧
      trimStart (afterWord (trimStart (s ++ w))) = trimStart (afterWord (trimStart s)) ++ w := by
  have word := ne_nil_of_trimStart h
  rw [trimStart_append_of_ne_nil (ne_nil_of_afterWord word), leadingWord_append_of_ne_nil word,
    afterWord_append_of_ne_nil word, trimStart_append_of_ne_nil h]
  exact ⟨rfl, rfl⟩

end Words

section Calls

variable {s r rest : List Char} {c : MethodCall}

theorem afterTypeArguments_append_of_some {d : Nat} (h : afterTypeArguments d s = some r)
    (filled : r ≠ []) (w : List Char) : afterTypeArguments d (s ++ w) = some (r ++ w) := by
  induction s generalizing d with
  | nil => cases h
  | cons c s ih =>
    rw [afterTypeArguments] at h
    rw [List.cons_append, afterTypeArguments]
    split at h
    · rename_i opens
      rw [if_pos opens, ih h]
    · rename_i opens
      rw [if_neg opens]
      split at h
      · rename_i closes
        rw [if_pos closes]
        split at h
        · rename_i last
          cases h
          rw [if_pos last, dropWhile_append_of_ne_nil filled]
        · rename_i more
          rw [if_neg more, ih h]
      · rename_i closes
        rw [if_neg closes]
        split at h
        · cases h
        · rename_i free
          rw [if_neg free, ih h]

theorem skipTypeArguments_append_of_some (h : skipTypeArguments s = some r) (filled : r ≠ [])
    (w : List Char) : skipTypeArguments (s ++ w) = some (r ++ w) := by
  unfold skipTypeArguments at h
  split at h
  · exact afterTypeArguments_append_of_some h filled w
  · rename_i other
    cases h
    obtain ⟨c, s, rfl⟩ := List.exists_cons_of_ne_nil filled
    rw [List.cons_append, skipTypeArguments]
    intro t same
    exact other s (by rw [(List.cons.inj same).1])

/-- A call that is read does not depend on the text behind it. -/
theorem nextCall_append_of_call (h : nextCall s = .call c rest) (w : List Char) :
    nextCall (s ++ w) = .call c (rest ++ w) := by
  obtain ⟨r, t, inner, dot, named, skipped, closes, rfl⟩ := nextCall_eq_call_iff.1 h
  -- Every part but the last is followed by the next one, so none of them can go on.
  have start : trimStart s ≠ [] := by
    rw [dot]
    exact List.cons_ne_nil '.' r
  have types : trimStart (afterWord (trimStart r)) ≠ [] := by
    intro none
    rw [none] at skipped
    cases skipped
  obtain ⟨method, behind⟩ := name_append_of_ne_nil types w
  apply nextCall_eq_call_iff.2
  refine ⟨r ++ w, t ++ w, inner, ?_, ?_, ?_, untilClosed_append_of_some closes w, ?_⟩
  · rw [trimStart_append_of_ne_nil start, dot]
    rfl
  · rwa [method]
  · rw [behind]
    exact skipTypeArguments_append_of_some skipped (List.cons_ne_nil '(' t) w
  · rw [method]

/-- With more text the reading goes on from where it stopped. -/
theorem readCalls_resume (s w : List Char) :
    readCalls (s ++ w) =
      { readCalls ((readCalls s).rest ++ w) with
        calls := (readCalls s).calls ++ (readCalls ((readCalls s).rest ++ w)).calls } := by
  induction hn : s.length using Nat.strongRecOn generalizing s with
  | ind n ih =>
    cases next : nextCall s with
    | none => rw [readCalls_none next]; rfl
    | unclosed => rw [readCalls_unclosed next]; rfl
    | call c rest =>
      have shorter : rest.length < n := hn ▸ length_lt_of_nextCall next
      rw [readCalls_call next, readCalls_call (nextCall_append_of_call next w),
        ih rest.length shorter rest rfl]
      rfl

theorem prefix_readCalls {t : List Char} (h : s <+: t) :
    (readCalls s).calls <+: (readCalls t).calls := by
  obtain ⟨w, rfl⟩ := h
  rw [readCalls_resume]
  exact List.prefix_append _ _

end Calls

section Lambdas

variable {s t r body name : List Char}

theorem afterParameters?_nil : afterParameters? [] = none := by
  rw [afterParameters?]
  · exact fun r => (List.cons_ne_nil ')' r).symm
  · exact fun r => (List.cons_ne_nil ',' r).symm

/-- The end of a list of parameters does not depend on the text behind it. -/
theorem afterParameters?_append (h : afterParameters? s = some r) (w : List Char) :
    afterParameters? (s ++ w) = some (r ++ w) := by
  induction s using afterParameters?.induct with
  | case1 s =>
    rw [afterParameters?] at h
    cases h
    rw [List.cons_append, afterParameters?]
  | case2 s _ unnamed =>
    rw [afterParameters?, if_pos unnamed] at h
    cases h
  | case3 s _ named ih =>
    rw [afterParameters?, if_neg named] at h
    have filled : trimStart (afterWord (trimStart s)) ≠ [] := by
      intro none
      rw [none, afterParameters?_nil] at h
      cases h
    obtain ⟨parameter, behind⟩ := name_append_of_ne_nil filled w
    rw [List.cons_append, afterParameters?, parameter, if_neg named, behind]
    exact ih h
  | case4 s closes more =>
    rw [afterParameters?] at h
    · cases h
    · exact closes
    · exact more

theorem parameter?_round (round : trimStart s = '(' :: t) :
    parameter? s =
      if (leadingWord (trimStart t)).isEmpty then none
      else (afterParameters? (trimStart (afterWord (trimStart t)))).map fun u =>
        (leadingWord (trimStart t), u) := by
  rw [parameter?, round]
  rfl

theorem parameter?_bare (bare : ∀ t, trimStart s ≠ '(' :: t) :
    parameter? s =
      if (leadingWord (trimStart s)).isEmpty then none
      else some (leadingWord (trimStart s), afterWord (trimStart s)) := by
  rw [parameter?]
  split
  · rename_i round
    exact absurd round (bare _)
  · rfl

/-- The parameter of a lambda is settled when something stands behind it. -/
theorem parameter?_append (h : parameter? s = some (name, r)) (filled : r ≠ []) (w : List Char) :
    parameter? (s ++ w) = some (name, r ++ w) := by
  have start : trimStart s ≠ [] := by
    intro none
    rw [parameter?, none] at h
    cases h
  have text := trimStart_append_of_ne_nil start w
  by_cases round : ∃ t, trimStart s = '(' :: t
  · obtain ⟨t, round⟩ := round
    rw [round, List.cons_append] at text
    rw [parameter?_round round] at h
    rw [parameter?_round text]
    split at h
    · cases h
    · rename_i named
      obtain ⟨u, parameters, same⟩ := Option.map_eq_some_iff.1 h
      cases same
      have more : trimStart (afterWord (trimStart t)) ≠ [] := by
        intro none
        rw [none, afterParameters?_nil] at parameters
        cases parameters
      obtain ⟨parameter, behind⟩ := name_append_of_ne_nil more w
      rw [parameter, if_neg named, behind, afterParameters?_append parameters]
      rfl
  · have bare : ∀ t, trimStart s ≠ '(' :: t := not_exists.1 round
    have bare' : ∀ t, trimStart (s ++ w) ≠ '(' :: t := by
      intro t round
      obtain ⟨c, u, begins⟩ := List.exists_cons_of_ne_nil start
      rw [text, begins, List.cons_append] at round
      exact bare u (by rw [begins, (List.cons.inj round).1])
    rw [parameter?_bare bare] at h
    rw [parameter?_bare bare', text]
    split at h
    · cases h
    · rename_i named
      cases h
      rw [leadingWord_append_of_ne_nil filled, if_neg named, afterWord_append_of_ne_nil filled]

theorem lambda?_eq_some_iff :
    lambda? s = some (name, body) ↔
      ∃ r t, parameter? s = some (name, r) ∧ trimStart r = '=' :: '>' :: t ∧ trimStart t = body := by
  constructor
  · intro h
    rw [lambda?] at h
    split at h
    · rename_i name' r parameter
      split at h
      · rename_i t arrow
        cases h
        exact ⟨r, t, parameter, arrow, rfl⟩
      · cases h
    · cases h
  · rintro ⟨r, t, parameter, arrow, rfl⟩
    rw [lambda?, parameter]
    simp only [arrow]

/-- The head of a lambda is settled when its body has begun. -/
theorem lambda?_append (h : lambda? s = some (name, body)) (filled : body ≠ []) (w : List Char) :
    lambda? (s ++ w) = some (name, body ++ w) := by
  obtain ⟨r, t, parameter, arrow, rfl⟩ := lambda?_eq_some_iff.1 h
  have begun : trimStart r ≠ [] := by
    rw [arrow]
    exact List.cons_ne_nil '=' ('>' :: t)
  apply lambda?_eq_some_iff.2
  refine ⟨r ++ w, t ++ w, parameter?_append parameter (ne_nil_of_trimStart begun) w, ?_, ?_⟩
  · rw [trimStart_append_of_ne_nil begun, arrow]
    rfl
  · exact trimStart_append_of_ne_nil filled w

theorem calls_lambdaRun (h : lambda? s = some (name, body)) :
    (lambdaRun s).calls =
      if leadingWord body = name then (readCalls (afterWord body)).calls else [] := by
  simp only [lambdaRun, h]
  split <;> rfl

theorem calls_lambdaRun_none (h : lambda? s = none) : (lambdaRun s).calls = [] := by
  rw [lambdaRun, h]

theorem calls_readCalls_nil : (readCalls []).calls = [] := by
  rw [readCalls_none rfl]

/-- The calls of a lambda that is cut off are the first ones of the whole. -/
theorem prefix_lambdaRun (h : s <+: t) : (lambdaRun s).calls <+: (lambdaRun t).calls := by
  obtain ⟨w, rfl⟩ := h
  cases head : lambda? s with
  | none =>
    rw [calls_lambdaRun_none head]
    exact List.nil_prefix
  | some found =>
    obtain ⟨name, body⟩ := found
    rw [calls_lambdaRun head]
    split
    · rename_i receiver
      -- Nothing is read of a body that ends with its receiver, so the text behind may change that.
      by_cases ends : afterWord body = []
      · rw [ends, calls_readCalls_nil]
        exact List.nil_prefix
      · rw [calls_lambdaRun (lambda?_append head (ne_nil_of_afterWord ends) w),
          leadingWord_append_of_ne_nil ends, if_pos receiver, afterWord_append_of_ne_nil ends]
        exact prefix_readCalls (List.prefix_append _ w)
    · exact List.nil_prefix

/-- Cutting a text off keeps the calls before the cut: what is read from a first part of a text, from
whatever position, is a first part of what is read from the whole, and so are the calls of a lambda
at every depth. -/
theorem truncation_keeps_calls :
    (∀ (text part : List Char) (position : Nat), part <+: text →
      (readCalls (part.drop position)).calls <+: (readCalls (text.drop position)).calls) ∧
    ∀ (limit depth : Nat) (raw part : String), part.toList <+: raw.toList →
      lambdaCalls limit depth part <+: lambdaCalls limit depth raw := by
  constructor
  · intro text part position h
    exact prefix_readCalls (h.drop position)
  · intro limit depth raw part h
    rw [lambdaCalls, lambdaCalls]
    split
    · exact List.nil_prefix
    · exact prefix_lambdaRun h

/-- A lambda, and what is left of it when it is cut off in the arguments of its second call. -/
def wholeLambda : String := "c => c.WithImage(\"pg\").WithHostPort(5432)"
def cutLambda : String := "c => c.WithImage(\"pg\").WithHostPort(54"

theorem cutLambda_keeps_calls :
    cutLambda.toList <+: wholeLambda.toList ∧
      (readCalls (cutLambda.toList.drop 6)).calls <+:
        (readCalls (wholeLambda.toList.drop 6)).calls ∧
      lambdaCalls maxLambdaDepth 0 cutLambda <+: lambdaCalls maxLambdaDepth 0 wholeLambda ∧
      lambdaCalls maxLambdaDepth 0 cutLambda = [⟨"WithImage", ["\"pg\""], "\"pg\""⟩] := by
  have cut : cutLambda.toList <+: wholeLambda.toList := by decide +kernel
  exact ⟨cut, truncation_keeps_calls.1 _ _ 6 cut,
    truncation_keeps_calls.2 maxLambdaDepth 0 _ _ cut, by decide +kernel⟩

end Lambdas

end HostPlan.Source
