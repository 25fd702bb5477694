import HostPlan.Proofs.Source.Literal
import HostPlan.Proofs.Source.Reading
/-!
Programs and their chains. A program that is a statement on each line has one chain for each of them,
in the same order, and every chain holds the parts that its statement was written from.
-/
namespace HostPlan.Source

open Text

/-- The chain is what the statement says. -/
structure Reads (s : Statement) (c : Chain) : Prop where
  boundTo : c.boundTo = s.boundTo.map String.ofList
  base : c.base? = some (String.ofList s.base)
  rootMethod : c.rootMethod = String.ofList s.root.method
  rootArgs : c.rootArgs = s.root.args.map String.ofList
  calls : c.calls.map (fun m => (m.method, m.args)) =
    s.calls.map fun m => (String.ofList m.method, m.args.map String.ofList)
  name : match (s.root.args.flatMap literals).head? with
    | none => c.name = ""
    | some t => Unbroken t → c.name = String.ofList t.tail.dropLast

section Legibility

theorem CallText.WellFormed.padded {c : CallText} (h : c.WellFormed) :
    List.Forall₂ Padded c.args c.laid.args := by
  have spaced {a : List Char} (ha : ArgumentText a) : Padded a (relaid (' ' :: a)) := by
    obtain ⟨l, r, hl, hr, hs⟩ := ha.padded
    rcases relaid_cons_blank (b := ' ') (by decide) (by decide) a with same | one
    · exact ⟨l, r, hl, hr, by rw [same, hs]⟩
    · exact ⟨' ' :: l, r, blank_space.append hl, hr, by rw [one, hs]; rfl⟩
  have each := h.args
  rw [laid]
  cases hargs : c.args with
  | nil => exact .nil
  | cons a r =>
    rw [hargs] at each
    obtain ⟨ha, hr⟩ := List.forall_mem_cons.1 each
    refine .cons ha.padded ?_
    rw [List.forall₂_map_right_iff, List.forall₂_same]
    intro b hb
    exact spaced (hr b hb)

theorem CallText.WellFormed.legible {c : CallText} (h : c.WellFormed) : c.laid.Legible where
  method := h.method
  types t ht := by
    obtain ⟨u, hu, rfl⟩ := Option.map_eq_some_iff.1 ht
    exact (h.types u hu).collapsed
  enclosed x hx := by
    obtain ⟨a, ha, hax⟩ := exists_of_padded h.padded hx
    exact hax.enclosed (h.args a ha)
  uncut x hx := by
    obtain ⟨a, ha, hax⟩ := exists_of_padded h.padded hx
    exact hax.uncut (h.args a ha)
  filled x hx := by
    obtain ⟨a, ha, hax⟩ := exists_of_padded h.padded hx
    rw [hax.trim, (h.args a ha).trimmed]
    exact (h.args a ha).filled

theorem CallText.WellFormed.arguments_laid {c : CallText} (h : c.WellFormed) :
    arguments c.laid.inner = c.args := by
  rw [h.legible.arguments_inner, map_trim_of_padded h.padded fun a ha => (h.args a ha).trimmed]

theorem Statement.WellFormed.legible {s : Statement} (h : s.WellFormed) : s.laid.Legible where
  boundTo := h.boundTo
  base := h.base
  factory := by
    obtain ⟨w, hw, method⟩ := h.factory
    have method : s.laid.root.method = factoryStem ++ w := method
    have longer := List.length_pos_iff.2 hw.filled
    rw [isFactory, method, List.length_append]
    simp [longer]
  root := h.root.legible
  calls c hc := by
    obtain ⟨d, hd, rfl⟩ := List.mem_map.1 hc
    exact (h.calls d hd).legible

theorem Statement.WellFormed.reads {s : Statement} (h : s.WellFormed) (raw : String) :
    Reads s (s.laid.read raw) where
  boundTo := rfl
  base := rfl
  rootMethod := rfl
  rootArgs := congrArg (List.map String.ofList) h.root.arguments_laid
  calls := by
    have calls := h.calls
    simp only [read, laid, List.map_map]
    refine List.map_congr_left fun c hc => ?_
    simp only [Function.comp_apply, MethodCall.ofText, (calls c hc).arguments_laid]
    rfl
  name := by
    have shows := shows_intercalate h.root.padded h.root.args
    cases first : (s.root.args.flatMap literals).head? with
    | none =>
      rw [first] at shows
      have none : firstLiteral? s.laid.root.inner = none := shows
      simp only [read, none]
      rfl
    | some t =>
      rw [first] at shows
      intro unbroken
      have some : firstLiteral? s.laid.root.inner = some t.tail.dropLast := shows unbroken
      simp only [read, some]
      rfl

end Legibility

section Programs

/-- The statements in their normal form, with a space between them. -/
def laidProgram (statements : List Statement) : List Char :=
  [' '].intercalate (statements.map fun s => s.laid.spell [','])

theorem Statement.WellFormed.closed {s : Statement} (h : s.WellFormed) :
    Place.code.after (s.laid.spell [',']) = .code := by
  have settles := h.settles (l := []) relaid_nil (.inl rfl)
  rw [List.nil_append, List.nil_append] at settles
  rw [← settles.relaid_eq, (relaid_spec _).after, settles.after_eq]
  rfl

theorem laidProgram_cons (s r : Statement) (statements : List Statement) :
    laidProgram (s :: r :: statements) = s.laid.spell [','] ++ ' ' :: laidProgram (r :: statements) := by
  simp [laidProgram, List.intercalate_cons_cons]

theorem Statement.spell_cons {s : Statement} (h : Name s.base) (comma : List Char) :
    ∃ c t, isWord c = true ∧ s.spell comma = c :: t := h.binding_cons _ _

theorem intercalate_cons (sep x : List Char) (xs : List (List Char)) :
    ∃ z, sep.intercalate (x :: xs) = x ++ z := by
  cases xs with
  | nil => exact ⟨[], by simp⟩
  | cons y xs => exact ⟨sep ++ sep.intercalate (y :: xs), by simp [List.intercalate_cons_cons]⟩

theorem laidProgram_last (s : Statement) (statements : List Statement) :
    ∃ t, laidProgram (s :: statements) = t ++ [';'] := by
  induction statements generalizing s with
  | nil =>
    rw [laidProgram, List.map_cons, List.map_nil, List.intercalate_singleton, Statement.spell]
    simp only [← List.append_assoc, ← List.cons_append]
    exact ⟨_, rfl⟩
  | cons r statements ih =>
    obtain ⟨t, ht⟩ := ih r
    exact ⟨s.laid.spell [','] ++ ' ' :: t, by rw [laidProgram_cons, ht]; simp⟩

theorem normalize_program {statements : List Statement} (h : ∀ s ∈ statements, s.WellFormed) :
    normalize (program statements) = laidProgram statements := by
  cases statements with
  | nil => rfl
  | cons s statements =>
    obtain ⟨head, tail⟩ := List.forall_mem_cons.1 h
    have unmarked : (program (s :: statements)).dropWhile (· == '\uFEFF') =
        program (s :: statements) := by
      obtain ⟨c, t, hc, ht⟩ := Statement.spell_cons head.base [',', ' ']
      obtain ⟨z, hz⟩ := intercalate_cons ['\n'] (s.spell [',', ' '])
        (statements.map (Statement.spell [',', ' ']))
      have noWord : isWord '\uFEFF' = false := by decide +kernel
      have other : c ≠ '\uFEFF' := by
        rintro rfl
        rw [noWord] at hc
        cases hc
      rw [program, List.map_cons, hz, ht]
      simp [other]
    have settles := settles_program (l := []) head tail relaid_nil (.inl rfl)
    have relaid : relaid (program (s :: statements)) = laidProgram (s :: statements) :=
      settles.relaid_eq
    have first : trimStart (laidProgram (s :: statements)) = laidProgram (s :: statements) := by
      obtain ⟨c, t, hc, ht⟩ := Statement.spell_cons (s := s.laid) head.base [',']
      obtain ⟨z, hz⟩ := intercalate_cons [' '] (s.laid.spell [','])
        (statements.map fun s => s.laid.spell [','])
      rw [laidProgram, List.map_cons, hz, ht, List.cons_append,
        trimStart_cons (isBlank_of_isWord hc)]
    have last : trimEnd (laidProgram (s :: statements)) = laidProgram (s :: statements) := by
      obtain ⟨t, ht⟩ := laidProgram_last s statements
      rw [ht, trimEnd_append_cons (by decide)]
      rfl
    rw [normalize_eq, unmarked, relaid, trim, first, last]

/-- A search through the statements comes upon their chains and nothing else. -/
theorem search_laidProgram {statements : List Statement} (h : ∀ s ∈ statements, s.WellFormed)
    (position : Nat) :
    ∃ found : List (Nat × Chain),
      search position (laidProgram statements) (masked (laidProgram statements)) =
        found.map (fun f => .chain f.1 f.2) ∧
      List.Forall₂ Reads statements (found.map Prod.snd) := by
  have ends (position : Nat) : search position [] (masked []) = [] := search_none rfl
  -- Each statement is read where the search stands, and the space behind it is passed over.
  induction statements generalizing position with
  | nil => exact ⟨[], ends position, .nil⟩
  | cons s statements ih =>
    obtain ⟨head, tail⟩ := List.forall_mem_cons.1 h
    cases statements with
    | nil =>
      obtain ⟨raw, found⟩ := head.legible.search head.closed position []
      rw [List.append_nil, ends] at found
      refine ⟨[(position, s.laid.read raw)], ?_, .cons (head.reads raw) .nil⟩
      rw [laidProgram, List.map_cons, List.map_nil, List.intercalate_singleton]
      exact found
    | cons r statements =>
      obtain ⟨raw, found⟩ :=
        head.legible.search head.closed position (' ' :: laidProgram (r :: statements))
      have behind : masked (' ' :: laidProgram (r :: statements)) =
          [' '] ++ masked (laidProgram (r :: statements)) :=
        masked_append (s := [' ']) rfl _
      have skip := search_skip (x := [' ']) (v := laidProgram (r :: statements))
        (position + (s.laid.spell [',']).length) rfl
        (findRoot_blank blank_space (masked (laidProgram (r :: statements))))
      rw [List.singleton_append] at skip
      obtain ⟨more, rest, reads⟩ := ih tail (position + (s.laid.spell [',']).length + [' '].length)
      refine ⟨(position, s.laid.read raw) :: more, ?_, .cons (head.reads raw) reads⟩
      rw [laidProgram_cons, found, behind, skip, rest]
      rfl

/-- A program with one statement on each line has one chain for each statement, in the same order,
with the statement's variable, object, methods and arguments, and its name is the content of the
first literal among the arguments of its root. No chain of it is broken. -/
theorem chains_program (statements : List Statement) (h : ∀ s ∈ statements, s.WellFormed) :
    List.Forall₂ Reads statements (chains (program statements)) ∧
      brokenChains (program statements) = [] := by
  obtain ⟨found, searched, reads⟩ := search_laidProgram h 0
  have source : searchSource (program statements) = found.map fun f => .chain f.1 f.2 := by
    have clean : Uncommented .code (laidProgram statements) := by
      cases statements with
      | nil => exact trivial
      | cons s statements =>
        obtain ⟨head, tail⟩ := List.forall_mem_cons.1 h
        have settles := settles_program (l := []) head tail relaid_nil (.inl rfl)
        have laid := (relaid_spec (program (s :: statements))).clean
        rwa [← List.nil_append (program _), settles.relaid_eq] at laid
    rw [searchSource, normalize_program h, mask_eq clean, searched]
  rw [chains, brokenChains, source, List.filterMap_map, List.filterMap_map]
  constructor
  · have each : found.map Prod.snd = found.filterMap (some ∘ Prod.snd) := by
      rw [List.filterMap_eq_map]
    rw [each] at reads
    exact reads
  · exact List.filterMap_eq_nil_iff.2 fun f _ => rfl

end Programs

namespace Sample

/-- `var web = builder.AddProject<App.Web>("web").WithEnvironment("A", ctx => f(ctx, [1, 2]));` -/
def web : Statement where
  boundTo := some ['w', 'e', 'b']
  base := "builder".toList
  root := ⟨"AddProject".toList, some "App.Web".toList, ["\"web\"".toList]⟩
  calls := [⟨"WithEnvironment".toList, none, ["\"A\"".toList, "ctx => f(ctx, [1, 2])".toList]⟩]

/-- `builder.AddRedis("a;(b", 6379).WithReference<T>();` -/
def cache : Statement where
  base := "builder".toList
  root := ⟨"AddRedis".toList, none, ["\"a;(b\"".toList, "6379".toList]⟩
  calls := [⟨"WithReference".toList, some ['T'], []⟩]

end Sample

theorem chains_program_sample :
    (∀ s ∈ [Sample.web, Sample.cache], s.WellFormed) ∧
      List.Forall₂ Reads [Sample.web, Sample.cache] (chains (program [Sample.web, Sample.cache])) ∧
      brokenChains (program [Sample.web, Sample.cache]) = [] := by
  have wellFormed : ∀ s ∈ [Sample.web, Sample.cache], s.WellFormed := by decide +kernel
  exact ⟨wellFormed, chains_program [Sample.web, Sample.cache] wellFormed⟩

end HostPlan.Source
