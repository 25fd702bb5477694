import HostPlan.Proofs.Source.Outline
/-!
Roots of chains in a mask. No root goes over the end of a statement, and what stands behind a root in
the mask stands behind it in the text, where it is code.
-/
namespace HostPlan.Source

open Text

def Root.before (w : List Char) (root : Root) : Root := { root with rest := root.rest ++ w }

section Append

variable {s : List Char}

theorem factory?_append (h : Ends s) (boundTo : Option (List Char)) (w : List Char) :
    factory? boundTo (s ++ w) = (factory? boundTo s).map (Root.before w) := by
  rw [factory?, factory?, h.leadingWord_append, h.afterWord_append, h.afterWord.trimStart_append]
  split
  · rfl
  · obtain ⟨c, r, hr⟩ := List.exists_cons_of_ne_nil h.afterWord.trimStart.ne_nil
    have ends := h.afterWord.trimStart
    rw [hr] at ends ⊢
    rw [List.cons_append]
    by_cases dot : c = '.'
    · subst dot
      have behind := ends.tail (by decide)
      simp only [behind.trimStart_append, behind.trimStart.leadingWord_append,
        behind.trimStart.afterWord_append]
      split <;> rfl
    · simp [dot]

theorem binding?_append (h : Ends s) (w : List Char) :
    binding? (s ++ w) = (binding? s).map fun (name, r) => (name, r ++ w) := by
  rw [binding?, binding?, h.leadingWord_append, h.afterWord_append]
  split
  · obtain ⟨b, r, hr⟩ := List.exists_cons_of_ne_nil h.afterWord.ne_nil
    have ends := h.afterWord
    rw [hr] at ends ⊢
    rw [List.cons_append]
    by_cases stop : b = ';'
    · subst stop
      have noBlank : isBlank ';' = false := by decide
      simp [noBlank]
    · have behind := ends.tail stop
      simp only [behind.trimStart_append, behind.trimStart.leadingWord_append,
        behind.trimStart.afterWord_append, behind.trimStart.afterWord.trimStart_append]
      split
      · rfl
      · obtain ⟨c, t, ht⟩ :=
          List.exists_cons_of_ne_nil behind.trimStart.afterWord.trimStart.ne_nil
        have ends := behind.trimStart.afterWord.trimStart
        rw [ht] at ends ⊢
        rw [List.cons_append]
        by_cases sign : c = '='
        · subst sign
          simp [(ends.tail (by decide)).trimStart_append]
        · simp [sign]
  · rfl

theorem ends_binding? (h : Ends s) {name r : List Char} (hr : binding? s = some (name, r)) :
    Ends r := by
  obtain ⟨x, rfl, binding⟩ := binding_of_binding? hr
  obtain @⟨keyword, a, b, d, -, -, -, -, -, hd⟩ := binding
  have sign : Ends ('=' :: (d ++ r)) :=
    Ends.suffix (x := keyword ++ (a ++ (name ++ b))) (by simpa using h) nofun
  have behind := (sign.tail (by decide)).trimStart
  rw [trimStart_append_blank hd] at behind
  refine h.suffix ?_
  rintro rfl
  exact behind.ne_nil rfl

theorem root?_append (h : Ends s) (w : List Char) :
    root? (s ++ w) = (root? s).map (Root.before w) := by
  rw [root?, root?, binding?_append h]
  cases bound : binding? s with
  | none => exact factory?_append h none w
  | some found =>
    obtain ⟨name, r⟩ := found
    simp only [Option.map_some, Option.bind_some,
      factory?_append (ends_binding? h bound) (some name) w]
    cases factory? (some name) r with
    | none => exact factory?_append h none w
    | some root => rfl

/-- A root is found in a text that ends a statement, or in what follows. -/
theorem findRoot_append {fresh : Bool} (h : Ends s) (w : List Char) :
    findRoot fresh (s ++ w) =
      ((findRoot fresh s).map (Prod.map id (Root.before w))).or
        ((findRoot true w).map (shift s.length)) := by
  induction s generalizing fresh with
  | nil => exact absurd rfl h.ne_nil
  | cons c s ih =>
    by_cases last : s = []
    · subst last
      obtain ⟨v, hv⟩ := h
      obtain rfl : c = ';' := by
        cases v with
        | nil => exact (List.cons.inj hv).1
        | cons d v => simp at hv
      have stop : isWord ';' = false := by decide
      have nothing : findRoot fresh [';'] = none := by simp [findRoot, stop]
      rw [nothing, List.singleton_append, findRoot_cons, stop, Bool.and_false]
      rfl
    · have rest := @ih (!isWord c) (h.suffix (x := [c]) last)
      have first : (if fresh && isWord c then root? (c :: (s ++ w)) else none) =
          (if fresh && isWord c then root? (c :: s) else none).map (Root.before w) := by
        split
        · exact root?_append h w
        · rfl
      have onwards : shift (c :: s).length = shift 1 ∘ shift s.length := by
        rw [shift_comp, List.length_cons, Nat.add_comm]
      rw [List.cons_append, findRoot_cons, findRoot_cons, first, rest, onwards]
      simp only [Option.map_or, Option.map_map, Option.or_assoc]
      rfl

end Append

section Places

/-- Where a mask shows a head, the text has it as code. -/
theorem head_of_masked {u before head behind base method : List Char} {v : Option (List Char)}
    (h : Head v base method head) (shown : masked u = before ++ (head ++ behind)) :
    ∃ x z, u = x ++ (head ++ z) ∧ Place.code.after x = .code ∧ masked x = before ∧
      masked z = behind := by
  obtain ⟨a, b, rfl, ha, hb, hmethod⟩ := h.ends
  have plain : Unquoted (b ++ method) := (Unquoted.of_blank hb).append (.of_word hmethod.word)
  have dot : masked u = (before ++ a) ++ '.' :: (b ++ method ++ behind) := by
    rw [shown]
    simp
  obtain ⟨s, t, rfl, closed, length⟩ := code_of_masked (by decide) (by decide)
    (.inr (by simp [hmethod.filled])) dot
  rw [masked_append closed, masked_cons (by decide)] at dot
  obtain ⟨front, back⟩ := List.append_inj dot (by rw [length_masked, length])
  obtain ⟨x, rfl, hx, hbefore⟩ := suffix_of_masked ha closed front
  obtain ⟨z, rfl, hz⟩ := text_of_masked plain (List.cons.inj back).2
  exact ⟨x, z, by simp, hx, hbefore, hz⟩

/-- The text behind a root of its mask is code that follows a word. -/
theorem root_place {u : List Char} {fresh : Bool} {n : Nat} {root : Root} (h : Ended u)
    (found : findRoot fresh (masked u) = some (n, root)) :
    ∃ y z, u = y ++ z ∧ Place.code.after y = .code ∧ masked z = root.rest ∧ z ≠ [] ∧
      misleads true (Place.code.marks z) = false := by
  obtain ⟨before, t, head, shown, -, begins, -⟩ := begins_of_findRoot found
  rw [begins.text] at shown
  obtain ⟨x, z, rfl, closed, -, hz⟩ := head_of_masked begins.head shown
  have plain := begins.head.unquoted
  obtain ⟨y, c, rfl, hc⟩ := begins.head.last
  refine ⟨x ++ (y ++ [c]), z, by simp, ?_, hz, ?_, ?_⟩
  · rw [Place.after_append, closed, Place.after_code plain]
  · rintro rfl
    obtain ⟨v, hv, -⟩ := h.last
    rw [List.append_nil, ← List.append_assoc] at hv
    have last := List.append_inj_right' hv rfl
    rw [(List.cons.inj last).1] at hc
    cases hc
  · have marks : Place.code.marks (x ++ (y ++ [c] ++ z)) =
        Place.code.marks x ++ y.map .code ++ .code c :: Place.code.marks z := by
      rw [Place.marks_append, closed, Place.marks_append, Place.marks_code plain,
        Place.after_code plain]
      simp
    have calm := h.calm
    rw [marks] at calm
    exact misleads_word hc calm

end Places

end HostPlan.Source
