import Mathlib.Data.Bool.AllAny
import HostPlan.Plan.Shell
import HostPlan.Proofs.Text.Replace
/-!
What the shell makes of a here document whose opening is not quoted, and what it makes of a text
that has been escaped for one: the text itself, with the values of the placeholders in their place.
-/
namespace HostPlan

namespace Placeholder

theorem toList_text (p : Placeholder) :
    p.text.toList = '$' :: '{' :: (p.name.toList ++ ['}']) := by
  simp [text]

/-- No placeholder begins another one. -/
theorem eq_of_begins {p q : Placeholder} {s : List Char}
    (h : p.text.toList <+: q.text.toList ++ s) : p = q := by
  rw [toList_text, toList_text] at h
  cases p <;> cases q <;> first | rfl | simp [name] at h

theorem find?_begins (p : Placeholder) (s : List Char) :
    (all.find? fun q => q.text.toList.isPrefixOf (p.text.toList ++ s)) = some p := by
  have only : (fun q : Placeholder => q.text.toList.isPrefixOf (p.text.toList ++ s)) =
      fun q => decide (q = p) := by
    funext q
    rw [Bool.eq_iff_iff, List.isPrefixOf_iff_prefix, decide_eq_true_iff]
    exact ⟨eq_of_begins, fun same => same ▸ List.prefix_append ..⟩
  rw [only]
  cases p <;> rfl

theorem closing_not_mem (p : Placeholder) : '}' ∉ p.name.toList := by
  cases p <;> decide

end Placeholder

namespace Shell

open Text

/-- Where the shell stands in a here document: in text, behind a backslash, behind a dollar sign, or
in the name of a variable. -/
inductive Reading where
  | text
  | backslash
  | dollar
  | name (read : List Char)

/-- The document as the shell passes it on, given the values of its variables. There is none if the
shell would act on something else than a placeholder, or if a last backslash would join the document
to the line behind it. -/
def expand (r : String → List Char) : Reading → List Char → Option (List Char)
  | .text, [] => some []
  | .text, c :: s =>
    if c = '\\' then expand r .backslash s
    else if c = '$' then expand r .dollar s
    else if c = '`' then none
    else (expand r .text s).map (c :: ·)
  | .backslash, [] => none
  | .backslash, c :: s =>
    if c = '\n' then expand r .text s
    else if c = '$' ∨ c = '`' ∨ c = '\\' then (expand r .text s).map (c :: ·)
    else (expand r .text s).map (['\\', c] ++ ·)
  | .dollar, [] => none
  | .dollar, c :: s => if c = '{' then expand r (.name []) s else none
  | .name _, [] => none
  | .name read, c :: s =>
    if c = '}' then
      if String.ofList read ∈ Placeholder.all.map Placeholder.name then
        (expand r .text s).map (r (String.ofList read) ++ ·)
      else none
    else expand r (.name (read ++ [c])) s

/-- A placeholder stands for the value of its variable. -/
def values (r : String → List Char) : List (List Char × List Char) :=
  Placeholder.all.map fun p => (p.text.toList, r p.name)

section Expand

variable (r : String → List Char)

theorem expand_text (c : Char) (s : List Char) : expand r .text (c :: s) =
    if c = '\\' then expand r .backslash s
    else if c = '$' then expand r .dollar s
    else if c = '`' then none
    else (expand r .text s).map (c :: ·) := rfl

theorem expand_backslash (c : Char) (s : List Char) : expand r .backslash (c :: s) =
    if c = '\n' then expand r .text s
    else if c = '$' ∨ c = '`' ∨ c = '\\' then (expand r .text s).map (c :: ·)
    else (expand r .text s).map (['\\', c] ++ ·) := rfl

theorem expand_brace (s : List Char) : expand r .dollar ('{' :: s) = expand r (.name []) s := rfl

theorem expand_name_cons (read : List Char) {c : Char} (h : c ≠ '}') (s : List Char) :
    expand r (.name read) (c :: s) = expand r (.name (read ++ [c])) s :=
  if_neg h

theorem expand_name_end {read : List Char}
    (known : String.ofList read ∈ Placeholder.all.map Placeholder.name) (s : List Char) :
    expand r (.name read) ('}' :: s) =
      (expand r .text s).map (r (String.ofList read) ++ ·) :=
  if_pos known

theorem expand_name (name read s : List Char) (h : '}' ∉ name) :
    expand r (.name read) (name ++ '}' :: s) =
      expand r (.name (read ++ name)) ('}' :: s) := by
  induction name generalizing read with
  | nil => rw [List.nil_append, List.append_nil]
  | cons c name ih =>
    have other : c ≠ '}' := by
      rintro rfl
      exact h List.mem_cons_self
    rw [List.cons_append, expand_name_cons r read other,
      ih _ fun mem => h (List.mem_cons_of_mem c mem)]
    simp

theorem expand_placeholder (p : Placeholder) (s : List Char) :
    expand r .text (p.text.toList ++ s) = (expand r .text s).map (r p.name ++ ·) := by
  have known : String.ofList p.name.toList ∈ Placeholder.all.map Placeholder.name := by
    rw [String.ofList_toList]
    exact List.mem_map_of_mem p.mem_all
  have name := expand_name r p.name.toList [] s p.closing_not_mem
  have whole : p.text.toList ++ s = '$' :: '{' :: (p.name.toList ++ '}' :: s) := by
    simp [Placeholder.toList_text]
  rw [whole, expand_text, if_neg (by decide), if_pos rfl, expand_brace, name, List.nil_append,
    expand_name_end r known, String.ofList_toList]

end Expand

/-- The text with a backslash before every active character, except where one of some placeholders
begins. -/
def escapedExcept (ps : List Placeholder) : List Char → List Char
  | [] => []
  | c :: s =>
    if isActive c ∧ ¬ ∃ p ∈ ps, p.text.toList <+: c :: s then '\\' :: c :: escapedExcept ps s
    else c :: escapedExcept ps s

theorem escapedExcept_cons (ps : List Placeholder) (c : Char) (s : List Char) :
    escapedExcept ps (c :: s) =
      if isActive c ∧ ¬ ∃ p ∈ ps, p.text.toList <+: c :: s then '\\' :: c :: escapedExcept ps s
      else c :: escapedExcept ps s := rfl

theorem escaped_eq (s : List Char) : escaped s = escapedExcept Placeholder.all s := by
  induction s with
  | nil => rfl
  | cons c s ih =>
    have starts : startsPlaceholder (c :: s) = true ↔
        ∃ p ∈ Placeholder.all, p.text.toList <+: c :: s := by
      simp [startsPlaceholder]
    rw [escaped, escapedExcept_cons, ih]
    simp only [← starts]
    simp

section Except

variable {ps : List Placeholder} {c : Char} {s : List Char}

theorem escapedExcept_plain (h : isActive c = false) :
    escapedExcept ps (c :: s) = c :: escapedExcept ps s := by
  simp [escapedExcept_cons, h]

theorem escapedExcept_active (h : isActive c = true)
    (none : ∀ p ∈ ps, ¬ p.text.toList <+: c :: s) :
    escapedExcept ps (c :: s) = '\\' :: c :: escapedExcept ps s := by
  rw [escapedExcept_cons, if_pos ⟨h, fun ⟨p, hp, prefixed⟩ => none p hp prefixed⟩]

theorem escapedExcept_append {x : List Char} (h : ∀ c ∈ x, isActive c = false) (s : List Char) :
    escapedExcept ps (x ++ s) = x ++ escapedExcept ps s := by
  induction x with
  | nil => rfl
  | cons c x ih =>
    rw [List.cons_append, escapedExcept_plain (h c List.mem_cons_self),
      ih fun d hd => h d (List.mem_cons_of_mem c hd), List.cons_append]

theorem plain_name (p : Placeholder) : ∀ c ∈ '{' :: (p.name.toList ++ ['}']), isActive c = false := by
  cases p <;> exact List.all_iff_forall_prop.1 rfl

theorem escapedExcept_placeholder {p : Placeholder} (hp : p ∈ ps) (s : List Char) :
    escapedExcept ps (p.text.toList ++ s) = p.text.toList ++ escapedExcept ps s := by
  have here : ∃ q ∈ ps, q.text.toList <+: p.text.toList ++ s := ⟨p, hp, List.prefix_append ..⟩
  rw [Placeholder.toList_text, List.cons_append] at here ⊢
  rw [escapedExcept_cons, if_neg fun both => both.2 here, escapedExcept_append (plain_name p)]
  rfl

end Except

/-- Texts are read placeholder by placeholder, and character by character between them. -/
theorem induction_placeholders {motive : List Char → Prop} (nil : motive [])
    (placeholder : ∀ (p : Placeholder) t, motive t → motive (p.text.toList ++ t))
    (plain : ∀ c s, (∀ p : Placeholder, ¬ p.text.toList <+: c :: s) → motive s → motive (c :: s))
    (s : List Char) : motive s := by
  induction h : s.length using Nat.strong_induction_on generalizing s with
  | _ n ih =>
    subst h
    cases s with
    | nil => exact nil
    | cons c s =>
      by_cases here : ∃ p : Placeholder, p.text.toList <+: c :: s
      · obtain ⟨p, t, whole⟩ := here
        have shorter : t.length < (c :: s).length := by
          rw [← whole, List.length_append, Placeholder.toList_text]
          simp
        exact whole ▸ placeholder p t (ih _ shorter t rfl)
      · exact plain c s (fun p prefixed => here ⟨p, prefixed⟩) (ih _ (by simp) s rfl)

section Values

variable (r : String → List Char)

theorem replace_placeholder (p : Placeholder) (t : List Char) :
    replace (values r) (p.text.toList ++ t) = r p.name ++ replace (values r) t := by
  refine replace_append (by simp [Placeholder.toList_text]) ?_
  rw [values, List.find?_map]
  exact congrArg (Option.map _) (p.find?_begins t)

theorem replace_plain {c : Char} {s : List Char}
    (none : ∀ p : Placeholder, ¬ p.text.toList <+: c :: s) :
    replace (values r) (c :: s) = c :: replace (values r) s := by
  refine replace_cons fun rule hrule prefixed => ?_
  obtain ⟨p, _, rfl⟩ := List.mem_map.1 hrule
  exact none p prefixed

/-- An escaped text is passed on as it was, but for its placeholders. -/
theorem expand_escaped (s : List Char) :
    expand r .text (escaped s) = some (replace (values r) s) := by
  rw [escaped_eq]
  induction s using induction_placeholders with
  | nil => rw [replace_nil]; rfl
  | placeholder p t ih =>
    rw [escapedExcept_placeholder p.mem_all, expand_placeholder, ih, replace_placeholder]
    rfl
  | plain c s none ih =>
    rw [replace_plain r none]
    cases active : isActive c with
    | false =>
      rw [escapedExcept_plain active]
      simp only [isActive, Bool.or_eq_false_iff, beq_eq_false_iff_ne] at active
      simp [expand_text, active, ih]
    | true =>
      rw [escapedExcept_active active fun p _ => none p]
      simp only [isActive, Bool.or_eq_true, beq_iff_eq] at active
      rcases active with (rfl | rfl) | rfl <;> simp [expand_text, expand_backslash, ih]

end Values

/-- Every active character behind a backslash. -/
def shielded (s : List Char) : List Char := s.flatMap fun c => if isActive c then ['\\', c] else [c]

/-- A placeholder without the backslash in front of it. -/
def unshielded (p : Placeholder) : List Char → List Char :=
  replace [('\\' :: p.text.toList, p.text.toList)]

theorem shielded_eq (s : List Char) : shielded s = escapedExcept [] s := by
  induction s with
  | nil => rfl
  | cons c s ih =>
    rw [escapedExcept_cons, ← ih, shielded, List.flatMap_cons]
    by_cases h : isActive c = true <;> simp [h, shielded]

section Unshielded

variable {ps : List Placeholder} {q : Placeholder}

/-- Escaping brings no text about that was not there before. -/
theorem prefix_of_escapedExcept {x s : List Char} (plain : ∀ c ∈ x, isActive c = false)
    (h : x <+: escapedExcept ps s) : x <+: s := by
  induction x generalizing s with
  | nil => exact List.nil_prefix
  | cons d x ih =>
    have inert := plain d List.mem_cons_self
    cases s with
    | nil => cases List.prefix_nil.1 h
    | cons c s =>
      rw [escapedExcept_cons] at h
      split at h
      · obtain ⟨rfl, _⟩ := List.cons_prefix_cons.1 h
        cases inert
      · obtain ⟨rfl, rest⟩ := List.cons_prefix_cons.1 h
        exact List.cons_prefix_cons.2 ⟨rfl, ih (fun c hc => plain c (List.mem_cons_of_mem d hc)) rest⟩

theorem placeholder_of_escapedExcept {c : Char} {s : List Char}
    (h : q.text.toList <+: c :: escapedExcept ps s) : q.text.toList <+: c :: s := by
  rw [Placeholder.toList_text] at h ⊢
  obtain ⟨first, rest⟩ := List.cons_prefix_cons.1 h
  exact List.cons_prefix_cons.2 ⟨first, prefix_of_escapedExcept (plain_name q) rest⟩

theorem escapedExcept_other {p : Placeholder} (hp : p ∉ ps) (s : List Char) :
    escapedExcept ps (p.text.toList ++ s) = '\\' :: (p.text.toList ++ escapedExcept ps s) := by
  have none : ∀ p' ∈ ps, ¬ p'.text.toList <+: p.text.toList ++ s := by
    intro p' hp' prefixed
    exact hp (Placeholder.eq_of_begins prefixed ▸ hp')
  rw [p.toList_text, List.cons_append] at none ⊢
  rw [escapedExcept_active (by decide) none, escapedExcept_append (plain_name p)]
  rfl

/-- A placeholder that has its backslash does not begin. -/
theorem not_placeholder_escapedExcept (new : q ∉ ps) (s : List Char) :
    ¬ q.text.toList <+: escapedExcept ps s := by
  intro h
  induction s using induction_placeholders with
  | nil =>
    rw [q.toList_text] at h
    cases List.prefix_nil.1 h
  | placeholder p t _ =>
    by_cases hp : p ∈ ps
    · rw [escapedExcept_placeholder hp] at h
      exact new (Placeholder.eq_of_begins h ▸ hp)
    · rw [escapedExcept_other hp, q.toList_text] at h
      simp at h
  | plain c s none _ =>
    cases active : isActive c with
    | false =>
      rw [escapedExcept_plain active] at h
      exact none q (placeholder_of_escapedExcept h)
    | true =>
      rw [escapedExcept_active active fun p _ => none p, q.toList_text] at h
      simp at h

theorem unshielded_append {x : List Char} (h : '\\' ∉ x) (s : List Char) :
    unshielded q (x ++ s) = x ++ unshielded q s :=
  replace_append_of_not_mem h s

theorem unshielded_placeholder (s : List Char) :
    unshielded q ('\\' :: (q.text.toList ++ s)) = q.text.toList ++ unshielded q s := by
  rw [← List.cons_append, unshielded]
  exact replace_append (List.cons_ne_nil _ _)
    (List.find?_cons_of_pos (List.isPrefixOf_iff_prefix.2 (List.prefix_append _ s)))

theorem unshielded_backslash {s : List Char} (h : ¬ q.text.toList <+: s) :
    unshielded q ('\\' :: s) = '\\' :: unshielded q s := by
  refine replace_cons fun rule hrule prefixed => h ?_
  obtain rfl := List.mem_singleton.1 hrule
  exact (List.cons_prefix_cons.1 prefixed).2

theorem unshielded_cons {c : Char} (h : c ≠ '\\') (s : List Char) :
    unshielded q (c :: s) = c :: unshielded q s :=
  unshielded_append (x := [c]) (by simpa using h.symm) s

theorem backslash_not_mem (p : Placeholder) : '\\' ∉ p.text.toList := by
  cases p <;> decide

/-- Taking the backslashes from one more placeholder makes one more exception. -/
theorem unshielded_escapedExcept (new : q ∉ ps) (s : List Char) :
    unshielded q (escapedExcept ps s) = escapedExcept (ps ++ [q]) s := by
  induction s using induction_placeholders with
  | nil => exact replace_nil _
  | placeholder p t ih =>
    by_cases hp : p ∈ ps
    · rw [escapedExcept_placeholder hp, unshielded_append (backslash_not_mem p), ih,
        escapedExcept_placeholder (List.mem_append_left _ hp)]
    · rw [escapedExcept_other hp]
      by_cases same : p = q
      · subst same
        rw [unshielded_placeholder, ih, escapedExcept_placeholder (by simp)]
      · have apart : ¬ q.text.toList <+: p.text.toList ++ escapedExcept ps t :=
          fun prefixed => same (Placeholder.eq_of_begins prefixed).symm
        rw [unshielded_backslash apart, unshielded_append (backslash_not_mem p), ih,
          escapedExcept_other (by simp [hp, same])]
  | plain c s none ih =>
    cases active : isActive c with
    | false =>
      have other : c ≠ '\\' := by
        rintro rfl
        cases active
      rw [escapedExcept_plain active, escapedExcept_plain active, unshielded_cons other, ih]
    | true =>
      have before : ¬ q.text.toList <+: c :: escapedExcept ps s :=
        fun prefixed => none q (placeholder_of_escapedExcept prefixed)
      rw [escapedExcept_active active fun p _ => none p, unshielded_backslash before,
        escapedExcept_active active fun p _ => none p]
      -- The backslash may itself stand before something that could be taken for a placeholder.
      by_cases backslash : c = '\\'
      · subst backslash
        rw [unshielded_backslash (not_placeholder_escapedExcept new s), ih]
      · rw [unshielded_cons backslash, ih]

end Unshielded

/-- Escaping a text is to put a backslash before every active character, and then to take it away
from the placeholders, from one kind after the other. -/
theorem escaped_eq_unshielded (s : List Char) :
    escaped s = Placeholder.all.foldl (fun t p => unshielded p t) (shielded s) := by
  have server := @unshielded_escapedExcept [] .server (by simp) s
  have project := @unshielded_escapedExcept [.server] .project (by simp) s
  have environment := @unshielded_escapedExcept [.server, .project] .environment (by simp) s
  simp only [List.nil_append, List.cons_append] at server project environment
  rw [escaped_eq, shielded_eq, Placeholder.all]
  simp only [List.foldl_cons, List.foldl_nil, server, project, environment]

end Shell
end HostPlan
