import HostPlan.Proofs.Data.Yaml.Values
/-!
A document that was printed is read again: its remarks are passed over, and its data is that of its
node.
-/
namespace HostPlan.Yaml

/-- Nothing but the lexer decides what an acceptable text holds, unless a byte order mark comes
first. -/
theorem ofText_of_acceptable {text : List Char} (acceptable : ∀ c ∈ text, isAcceptable c = true)
    (noMark : ∀ r, text ≠ '\uFEFF' :: r) :
    Tokens.ofText text = Lexer.run (text.length + 2) { cursor := { rest := text } } := by
  have none : text.findIdx? (fun c => !isAcceptable c) = none :=
    List.findIdx?_eq_none_iff.2 fun c mem => by rw [acceptable c mem]; rfl
  unfold Tokens.ofText
  simp only [none]

open Lexer in
/-- The tokens of a printed record, up to the end of the text. -/
theorem tokens_of_print (f : String × Option String × Node)
    (fs : List (String × Option String × Node))
    (whole : ∀ s ∈ fieldNotes (f :: fs), Whole s)
    (acceptable : ∀ c ∈ print (.record (f :: fs)), isAcceptable c = true) :
    ∃ ts, Tokens.ofText (print (.record (f :: fs))) = ⟨ts, none⟩ ∧
      ts.map Placed.token = (Node.record (f :: fs)).tokens ++ [.streamEnd] := by
  let text := printFields 0 (f :: fs)
  let s : Lexer := { cursor := { rest := text } }
  have begun : Holds s ⟨[], 0, []⟩ := ⟨rfl, rfl, rfl, rfl⟩
  have first : text = printKey 0 f.1 ++ (printBehind 2 2 f.2.1 f.2.2 ++ printFields 0 fs) := by
    simp [text, printFields]
  have opens : Opens text := first ▸ opens_printKey 0 f.1 _
  have calm : Calm s s.cursor.mark.line := nofun
  have faces : Faces s ⟨[], 0, []⟩ (printFields 0 (f :: fs) ++ []) := by
    rw [List.append_nil]
    exact ⟨0, text, rfl, opens, reaches_here (n := 0) begun calm opens.fresh rfl⟩
  have last : Shallow 1 [] := ⟨0, [], rfl, opens_nil, Nat.one_pos⟩
  obtain ⟨u, ⟨n, steps, run⟩, faces⟩ :=
    leads_fields (f :: fs) faces whole (Nat.zero_le _) (absurd · (List.cons_ne_nil _ _)) last
  have reaches : Reaches u _ true 0 [] := faces.reaches (n := 0) fresh_nil
  obtain ⟨fuel, more⟩ : ∃ fuel, text.length + 2 = fuel + 1 + n := by
    have less : n + u.cursor.rest.length ≤ text.length := steps
    exact ⟨text.length + 1 - n, by omega⟩
  obtain ⟨ts, finished, tokens⟩ := reaches.finish fuel
  refine ⟨ts, ?_, ?_⟩
  · have noMark : ∀ r, text ≠ '\uFEFF' :: r := by
      obtain ⟨c, w, shape, inline⟩ := inline_printKey 0 f.1 (printBehind 2 2 f.2.1 f.2.2 ++
        printFields 0 fs)
      rintro r same
      rw [first, shape] at same
      cases same
      cases inline
    have cut : Tokens.ofText text = Lexer.run (text.length + 2) s :=
      ofText_of_acceptable acceptable noMark
    rwa [more, run, finished] at cut
  · rw [tokens]
    rfl

namespace Grammar

/-- A node up to the end of the text is a document. -/
theorem run_document {fuel : Nat} {m m' : Mark} {more : List Placed} {last : Placed} {t : Tree}
    {as : List (String × Tree)} (ends : last.token = .streamEnd)
    (read : (node (fuel + 1) true false).run ⟨⟨⟨.blockMapping, m, m'⟩ :: more, none⟩, []⟩ =
      .ok (t, ⟨⟨[last], none⟩, as⟩)) :
    ((document (fuel + 1)).run ⟨⟨⟨.blockMapping, m, m'⟩ :: more, none⟩, []⟩).map Prod.fst =
      .ok (some t) := by
  obtain ⟨_, m₁, m₂⟩ := last
  obtain rfl : _ = Token.streamEnd := ends
  -- A block mapping announces nothing, so its node is read at once.
  change Except.map Prod.fst
    ((node (fuel + 1) true false).run ⟨⟨⟨.blockMapping, m, m'⟩ :: more, none⟩, []⟩ >>= _) = _
  rw [read]
  rfl

end Grammar

/-- The data of a printed record. -/
theorem read_print (f : String × Option String × Node)
    (fs : List (String × Option String × Node))
    (whole : ∀ s ∈ fieldNotes (f :: fs), Whole s)
    (acceptable : ∀ c ∈ print (.record (f :: fs)), isAcceptable c = true) :
    (read (print (.record (f :: fs)))).toOption = (Node.record (f :: fs)).value? := by
  obtain ⟨ts, tokens, same⟩ := tokens_of_print f fs whole acceptable
  obtain ⟨placed, lasts, rfl, own, closing⟩ := List.map_eq_append_iff.1 same
  obtain ⟨last, rfl, ends⟩ := List.map_eq_singleton_iff.1 closing
  obtain ⟨fuel, more⟩ : ∃ fuel, 2 * (placed ++ [last]).length + 2 = fuel + 1 := ⟨_, rfl⟩
  have enough : (Node.record (f :: fs)).tokens.length ≤ fuel + 1 := by
    rw [← own, List.length_map, ← more, List.length_append]
    omega
  obtain ⟨t, parsed, yields⟩ := Grammar.reads_node (.record (f :: fs)) false nofun enough placed
    [last] none [] own
  have tree : Tree.ofText (print (.record (f :: fs))) = .ok (some t) := by
    rw [Node.tokens, List.map_eq_cons_iff] at own
    obtain ⟨⟨_, m, m'⟩, others, rfl, rfl, -⟩ := own
    rw [Tree.ofText, tokens]
    simp only [more]
    exact Grammar.run_document ends parsed
  rw [read, tree, ← value_of_yields _ yields]
  rfl

/-- A character that no document may hold spoils the text, wherever it stands. -/
theorem read_unacceptable {text : List Char} {c : Char} (mem : c ∈ text)
    (unacceptable : isAcceptable c = false) : (read text).toOption = none := by
  have found : (text.findIdx? fun c => !isAcceptable c).isSome = true := by
    rw [List.findIdx?_isSome, List.any_eq_true]
    exact ⟨c, mem, by rw [unacceptable]; rfl⟩
  obtain ⟨i, place⟩ := Option.isSome_iff_exists.1 found
  have tokens : Tokens.ofText text = ⟨[], some (.unacceptable (text.getD i '\x00') i)⟩ := by
    unfold Tokens.ofText
    simp only [place]
  rw [read, Tree.ofText, tokens]
  rfl

end HostPlan.Yaml
