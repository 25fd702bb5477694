import HostPlan.Proofs.Data.Printed
import HostPlan.Proofs.Plan.HereDocument
import HostPlan.Proofs.Plan.Script
/-!
What the calls of a script send. The here document of an operation ends where the script ends it,
and what the shell hands on is the payload with the values of the placeholders.
-/
namespace HostPlan.Script

open Text Shell

/-- A line and what escaping makes of it. -/
structure EscapedLine (escaped line : List Char) : Prop where
  head : escaped.head? = line.head? ∨ escaped.head? = some '\\'
  chars : ∀ c ∈ escaped, c = '\\' ∨ c ∈ line

theorem EscapedLine.cons {escaped line : List Char} (h : EscapedLine escaped line) (c : Char) :
    EscapedLine (c :: escaped) (c :: line) where
  head := Or.inl rfl
  chars := by
    intro d hd
    rcases List.mem_cons.1 hd with rfl | hd
    · exact Or.inr List.mem_cons_self
    · exact (h.chars d hd).imp_right (List.mem_cons_of_mem c)

theorem EscapedLine.backslash {escaped line : List Char} (h : EscapedLine escaped line) :
    EscapedLine ('\\' :: escaped) line where
  head := Or.inr rfl
  chars := by
    intro d hd
    rcases List.mem_cons.1 hd with rfl | hd
    · exact Or.inl rfl
    · exact h.chars d hd

/-- Escaping keeps the lines apart. -/
theorem lines_escaped (s : List Char) :
    List.Forall₂ EscapedLine (cutAt '\n' (escaped s)) (cutAt '\n' s) := by
  have nothing : EscapedLine [] [] := ⟨Or.inl rfl, by simp⟩
  have backslash : '\\' ≠ '\n' := by decide
  induction s with
  | nil => exact .cons nothing .nil
  | cons c s ih =>
    by_cases newline : c = '\n'
    · subst newline
      have plain : escaped ('\n' :: s) = '\n' :: escaped s := by
        rw [escaped_eq, escaped_eq, escapedExcept_plain (by decide)]
      rw [plain, cutAt_cons_self, cutAt_cons_self]
      exact .cons nothing ih
    · obtain ⟨p, ps, whole, cut⟩ := cutAt_cons_of_ne newline s
      obtain ⟨p', ps', whole', cut'⟩ := cutAt_cons_of_ne newline (escaped s)
      rw [whole, whole'] at ih
      obtain ⟨head, rest⟩ := List.forall₂_cons.1 ih
      rw [escaped]
      split
      · obtain ⟨q, qs, same, cut''⟩ := cutAt_cons_of_ne backslash (c :: escaped s)
        rw [cut'] at same
        obtain ⟨rfl, rfl⟩ := List.cons.inj same
        rw [cut, cut'']
        exact .cons (head.cons c).backslash rest
      · rw [cut, cut']
        exact .cons (head.cons c) rest

theorem exists_escapedLine {es ls : List (List Char)} (h : List.Forall₂ EscapedLine es ls) :
    ∀ e ∈ es, ∃ line ∈ ls, EscapedLine e line := by
  induction h with
  | nil => exact fun e he => absurd he List.not_mem_nil
  | cons head _ ih =>
    intro e he
    rcases List.mem_cons.1 he with rfl | he
    · exact ⟨_, List.mem_cons_self, head⟩
    · obtain ⟨line, mem, kept⟩ := ih e he
      exact ⟨line, List.mem_cons_of_mem _ mem, kept⟩

/-- The lines of the here document of an operation. -/
def document (o : Operation) : List (List Char) :=
  cutAt '\n' (escaped (Json.print Json.indented 0 (Payload.toValue o.payload)))

/-- No line of a here document ends it, and none holds a character that would break it. -/
theorem document_lines (o : Operation) : ∀ line ∈ document o,
    line ≠ "EOF".toList ∧ ∀ c ∈ line, Json.IsPrinted c := by
  intro line h
  obtain ⟨original, mem, kept⟩ := exists_escapedLine (lines_escaped _) line h
  rw [Json.cutAt_payload] at mem
  obtain ⟨printed, begins⟩ := Json.printed_payloadLines o.payload original mem
  constructor
  · rintro rfl
    rcases kept.head with same | backslash
    · rw [← same] at begins
      exact absurd begins (by decide)
    · exact absurd backslash (by decide)
  · intro c hc
    rcases kept.chars c hc with rfl | hc
    · decide
    · exact printed c hc

theorem lines_body (o : Operation) : (body o).flatMap lines = document o := by
  have single : ∀ line ∈ document o, lines (String.ofList line) = [line] := by
    intro line h
    rw [lines, String.toList_ofList]
    exact cutAt_of_not_mem (Json.break_not_mem (document_lines o line h).2)
  rw [body, List.flatMap_map]
  exact (List.flatMap_congr single).trans (List.flatMap_singleton' _)

/-- Where the here document of an operation stands in a script. -/
theorem lines_render_split (withRemarks : Bool) (earlier later : List Operation) (o : Operation) :
    ∃ after, lines (render withRemarks (earlier ++ o :: later)) =
      (guard (earlier ++ o :: later) ++ earlier.flatMap (operationLines withRemarks) ++
          introduction withRemarks o).flatMap lines ++
        (opening o).toList :: (document o ++ "EOF".toList :: after) := by
  refine ⟨(conclusion o).flatMap lines ++
    ((later.flatMap fun o => (operationLines withRemarks o).flatMap lines) ++
      [("echo \"Done.\"").toList, []]), ?_⟩
  have ending : lines "EOF" = ["EOF".toList] := cutAt_of_not_mem (by decide)
  rw [lines_render, List.flatMap_append, List.flatMap_cons, operationLines_eq]
  simp only [List.flatMap_append, List.flatMap_cons, List.flatMap_assoc, lines_opening, lines_body,
    ending, List.append_assoc, List.cons_append, List.nil_append]

/-- In a script, the here document of an operation ends where the script ends it, whatever the
payload is, and the shell passes the payload on with the values of the placeholders in their place.
It does so with every text that is escaped; escaping puts a backslash before every active character
and then takes it away from the placeholders. -/
theorem here_documents_expand (r : String → List Char) :
    (∀ s, expand r .text (escaped s) = some (replace (values r) s) ∧
      escaped s = Placeholder.all.foldl (fun t p => unshielded p t) (shielded s)) ∧
    ∀ (withRemarks : Bool) (earlier later : List Operation) (o : Operation),
      ∃ sent after : List (List Char),
        lines (render withRemarks (earlier ++ o :: later)) =
          (guard (earlier ++ o :: later) ++ earlier.flatMap (operationLines withRemarks) ++
              introduction withRemarks o).flatMap lines ++
            (opening o).toList :: (sent ++ "EOF".toList :: after) ∧
        (∀ line ∈ sent, line ≠ "EOF".toList ∧ ∀ c ∈ line, Json.IsPrinted c) ∧
        expand r .text (['\n'].intercalate sent) =
          some (replace (values r) (Json.print Json.indented 0 (Payload.toValue o.payload))) := by
  refine ⟨fun s => ⟨expand_escaped r s, escaped_eq_unshielded s⟩, fun withRemarks earlier later o => ?_⟩
  obtain ⟨after, whole⟩ := lines_render_split withRemarks earlier later o
  refine ⟨document o, after, whole, document_lines o, ?_⟩
  rw [document, intercalate_cutAt]
  exact expand_escaped r _

end HostPlan.Script
