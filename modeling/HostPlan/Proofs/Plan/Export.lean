import HostPlan.Proofs.Data.Yaml.Document
import HostPlan.Proofs.Data.Yaml.Layout
import HostPlan.Proofs.Plan.Lossless
import HostPlan.Proofs.Plan.Remarks
/-!
Remarks in the YAML text of a plan. Each one stands behind the endpoint of its operation, and no
other line is touched, if no remark holds a line break, and only then. A remark that stays on its
line is passed over when the plan is read, unless it holds a character that no document may hold.
-/
namespace HostPlan

open Text

/-- An item begins, and its endpoint follows. -/
def endpointSign : List Char := "  - endpoint: ".toList

namespace Operation

/-- The operation without its remark. -/
def bare (o : Operation) : Operation := { o with note := none }

/-- What a document says of an operation behind its endpoint. -/
def details (o : Operation) : List (String × Value) :=
  [("payload", Payload.toValue o.payload), ("display_name", .text o.displayName),
    ("category", .text o.category.name), ("method", .text o.method),
    ("environment", environmentValue o.environment)]

/-- The line that tells the endpoint. -/
def opening (o : Operation) : List Char := endpointSign ++ Yaml.printText 6 o.endpoint.toList

/-- The lines below it. -/
def body (o : Operation) : List Char := Yaml.printFields 4 (Yaml.Node.ofFields o.details)

/-- All remarks on the operations are like this. -/
def EveryRemark (p : String → Prop) (os : List Operation) : Prop :=
  ∀ o ∈ os, ∀ s, o.note = some s → p s

instance (p : String → Prop) [DecidablePred p] (os : List Operation) :
    Decidable (EveryRemark p os) :=
  inferInstanceAs (Decidable (∀ o ∈ os, ∀ s ∈ o.note, p s))

end Operation

/-- A remark that is not empty and brings no number sign along. -/
def Titled (s : String) : Prop := ∃ c r, s.toList = c :: r ∧ c ≠ '#'

theorem Titled.append {s : String} (titled : Titled s) (t : String) : Titled (s ++ t) := by
  obtain ⟨c, r, shape, noSign⟩ := titled
  exact ⟨c, r ++ t.toList, by rw [String.toList_append, shape, List.cons_append], noSign⟩

/-- What a remark adds to its line. -/
def behind : Option String → List Char
  | none => []
  | some s => "  # ".toList ++ s.toList

theorem behind_some (s : String) : behind (some s) = "  # ".toList ++ s.toList := rfl

def opensOperation (line : List Char) : Bool := endpointSign.isPrefixOf line

/-- The lines of a plan with a remark behind each line that tells an endpoint. -/
def annotated : List (Option String) → List (List Char) → List (List Char)
  | note :: notes, line :: rest =>
    if opensOperation line then (line ++ behind note) :: annotated notes rest
    else line :: annotated (note :: notes) rest
  | _, rest => rest

section Annotated

variable {notes : List (Option String)} {ls rest : List (List Char)}

theorem annotated_nil (ls : List (List Char)) : annotated [] ls = ls := by
  cases ls <;> rfl

theorem annotated_cons (note : Option String) (notes : List (Option String)) (line : List Char)
    (rest : List (List Char)) : annotated (note :: notes) (line :: rest) =
      if opensOperation line then (line ++ behind note) :: annotated notes rest
      else line :: annotated (note :: notes) rest := rfl

theorem length_annotated (notes : List (Option String)) (ls : List (List Char)) :
    (annotated notes ls).length = ls.length := by
  induction ls generalizing notes with
  | nil => cases notes <;> rfl
  | cons line ls ih =>
    cases notes with
    | nil => rfl
    | cons note notes =>
      rw [annotated_cons]
      split <;> simp [ih]

theorem annotated_append (h : ∀ l ∈ ls, opensOperation l = false) :
    annotated notes (ls ++ rest) = ls ++ annotated notes rest := by
  induction ls with
  | nil => rfl
  | cons line ls ih =>
    obtain ⟨here, more⟩ := List.forall_mem_cons.1 h
    cases notes with
    | nil => simp [annotated_nil]
    | cons note notes => simp [annotated_cons, here, ih more]

/-- Deeper lines belong to the operation above them. -/
theorem opensOperation_of_deep {l : List Char} (deep : List.replicate 4 ' ' <+: l) :
    opensOperation l = false := by
  obtain ⟨r, rfl⟩ := deep
  rfl

end Annotated

section Remarks

open Yaml

variable {s : String} {c : Char}

theorem printRemark_of_titled {note : Option String}
    (titled : ∀ s, note = some s → Titled s) (whole : ∀ s, note = some s → '\n' ∉ s.toList) :
    printRemark note = behind note := by
  cases note with
  | none => rfl
  | some s =>
    obtain ⟨c, r, shape, noSign⟩ := titled s rfl
    have line := whole s rfl
    rw [shape] at line
    have last : ¬ ('#' :: ' ' :: c :: r).getLast? = some '\n' := fun last => by
      have mem := List.mem_of_getLast? last
      simp only [List.mem_cons] at mem line
      simp_all
    simp only [printRemark, shape]
    split
    · rename_i same
      exact absurd (List.cons.inj same).1 noSign
    · rw [if_neg last, behind_some, shape]
      rfl

/-- A remark brings nothing along but its sign, and loses nothing but a line break. -/
theorem mem_printRemark (other : c ≠ '\n') :
    c ∈ printRemark (some s) ↔ c = ' ' ∨ c = '#' ∨ c ∈ s.toList := by
  have cut (t : List Char) :
      c ∈ (if t.getLast? = some '\n' then t.dropLast else t) ↔ c ∈ t := by
    split
    · rename_i last
      rw [← List.dropLast_append_getLast? _ last]
      simp [other]
    · rfl
  simp only [printRemark, List.mem_cons, cut]
  split
  · rename_i r shape
    simp [shape]
  · simp only [List.mem_cons]
    tauto

theorem acceptable_printRemark_iff (note : Option String) :
    (∀ c ∈ printRemark note, isAcceptable c = true) ↔
      ∀ s, note = some s → ∀ c ∈ s.toList, isAcceptable c = true := by
  cases note with
  | none => exact ⟨nofun, nofun⟩
  | some s =>
    constructor
    · rintro acceptable t same c mem
      cases same
      by_cases feed : c = '\n'
      · rw [feed]
        rfl
      · exact acceptable c ((mem_printRemark feed).2 (.inr (.inr mem)))
    · intro acceptable c mem
      by_cases feed : c = '\n'
      · rw [feed]
        rfl
      rcases (mem_printRemark feed).1 mem with rfl | rfl | mem
      · rfl
      · rfl
      · exact acceptable s rfl c mem

end Remarks

section Nodes

open Yaml

namespace Operation

variable {o : Operation}

theorem document_bare (plain : o.Plain) :
    o.bare.document = .record (("endpoint", .text o.endpoint) :: o.details) := by
  have payload := Payload.prune_toValue plain.payload
  have environment := prune_environmentValue o.environment
  simp only [document, toValue, bare, Value.prune, Value.pruneFields, payload, environment]
  rfl

/-- The remark that is written: an empty one is none. -/
def shown (o : Operation) : Option String :=
  match o.note with
  | some "" => none
  | n => n

theorem shown_of_titled (titled : ∀ s, o.note = some s → Titled s) : o.shown = o.note := by
  unfold shown
  split
  · rename_i empty
    obtain ⟨c, r, shape, -⟩ := titled "" empty
    cases shape
  · rfl

theorem remark_ofFields (fs : List (String × Value)) (key : String) (note : Option String)
    (other : key ∉ Entries.keys fs) :
    ((Node.ofFields fs).map fun f => if f.1 = key then (f.1, note, f.2.2) else f) =
      Node.ofFields fs := by
  induction fs with
  | nil => rfl
  | cons f fs ih =>
    obtain ⟨here, more⟩ := not_or.1 (mt List.mem_cons.2 other)
    rw [Node.ofFields, List.map_cons, ih more, if_neg (Ne.symm here)]

theorem node_eq (plain : o.Plain) :
    o.node = .record (("endpoint", o.shown, .leaf (.text o.endpoint)) ::
      Node.ofFields o.details) := by
  have others := remark_ofFields o.details "endpoint" o.shown (by simp [details, Entries.keys])
  have whole := document_bare plain
  rw [bare] at whole
  rw [node, whole, Node.ofValue, Node.ofFields, Node.remark, List.map_cons, if_pos rfl]
  exact congrArg (fun fs => Node.record (("endpoint", o.shown, .leaf (.text o.endpoint)) :: fs))
    others

/-- The operation as it is written. -/
def block (o : Operation) : List Char := o.opening ++ (printRemark o.shown ++ '\n' :: o.body)

theorem itemText_endpoint (note : Option String) (endpoint : String)
    (fs : List (String × Option String × Node)) :
    List.replicate 2 ' ' ++
        '-' :: itemText 0 (.record (("endpoint", note, .leaf (.text endpoint)) :: fs)) =
      endpointSign ++ printText 6 endpoint.toList ++
        (printRemark note ++ '\n' :: printFields 4 fs) := by
  have key : printKey 4 "endpoint" = "endpoint:".toList := by decide +kernel
  have sign : endpointSign =
      List.replicate 2 ' ' ++ '-' :: ' ' :: ("endpoint:".toList ++ [' ']) := by decide
  rw [sign]
  simp only [itemText, Nat.zero_add, key]
  simp only [printBehind, printScalar, List.append_assoc, List.cons_append, List.nil_append]

theorem printItems_nodes {os : List Operation} (plain : ∀ o ∈ os, o.Plain) :
    printItems 0 (os.map node) = os.flatMap block := by
  induction os with
  | nil => rfl
  | cons o os ih =>
    obtain ⟨own, others⟩ := List.forall_mem_cons.1 plain
    have first := itemText_endpoint o.shown o.endpoint (Node.ofFields o.details)
    rw [List.map_cons, printItems_cons, ih others, List.flatMap_cons, node_eq own,
      ← List.cons_append, ← List.append_assoc]
    exact congrArg (· ++ os.flatMap block) first

theorem toList_export {os : List Operation} (plain : ∀ o ∈ os, o.Plain) (filled : os ≠ []) :
    (exportOperations os .yaml).toList = "operations:".toList ++ '\n' :: os.flatMap block := by
  obtain ⟨o, os, rfl⟩ := List.exists_cons_of_ne_nil filled
  have key : printKey 0 "operations" = "operations:".toList := by decide +kernel
  rw [exportOperations, render, String.toList_ofList, ← printItems_nodes plain]
  simp [print, printFields, printBehind, key, printRemark]

end Operation

end Nodes

section Law

namespace Operation

variable {o : Operation} {os : List Operation}

theorem opening_flat (o : Operation) : '\n' ∉ o.opening := by
  have sign : '\n' ∉ endpointSign := by decide
  rw [opening, List.mem_append, not_or]
  exact ⟨sign, fun mem => (Yaml.written_printText 6 _ _ mem).2 rfl⟩

theorem opensOperation_opening (o : Operation) (r : List Char) :
    opensOperation (o.opening ++ r) = true := by
  rw [opensOperation, List.isPrefixOf_iff_prefix, opening, List.append_assoc]
  exact List.prefix_append _ _

theorem indented_body (o : Operation) : Yaml.Indented 4 o.body :=
  Yaml.indented_fields _ 4 (Yaml.notes_ofFields _)

/-- The lines of an operation, whatever stands behind its endpoint. -/
theorem block_lines (o : Operation) :
    ∃ ls : List (List Char), (∀ l ∈ ls, opensOperation l = false) ∧
      ∀ r t, '\n' ∉ r → cutAt '\n' (o.opening ++ (r ++ '\n' :: o.body) ++ t) =
        (o.opening ++ r) :: (ls ++ cutAt '\n' t) := by
  obtain ⟨ls, deep, cut⟩ := o.indented_body.cut
  refine ⟨ls, fun l mem => opensOperation_of_deep (deep l mem), fun r t flat => ?_⟩
  have line : '\n' ∉ o.opening ++ r := by
    rw [List.mem_append, not_or]
    exact ⟨o.opening_flat, flat⟩
  have parts : o.opening ++ (r ++ '\n' :: o.body) ++ t =
      o.opening ++ r ++ '\n' :: (o.body ++ t) := by simp
  rw [parts, cutAt_append_cons, cutAt_of_not_mem line, cut t]
  rfl

/-- The remark is put behind the first line of the operation, and the others are passed over. -/
theorem annotated_block {ls : List (List Char)} (deep : ∀ l ∈ ls, opensOperation l = false)
    (note : Option String) (notes : List (Option String)) (rest : List (List Char)) :
    annotated (note :: notes) ((o.opening ++ []) :: (ls ++ rest)) =
      (o.opening ++ behind note) :: (ls ++ annotated notes rest) := by
  rw [annotated_cons, if_pos (o.opensOperation_opening []), annotated_append deep, List.append_nil]

theorem cut_blocks (titled : EveryRemark Titled os)
    (whole : EveryRemark (fun s => '\n' ∉ s.toList) os) :
    cutAt '\n' (os.flatMap block) =
      annotated (os.map note) (cutAt '\n' ((os.map bare).flatMap block)) := by
  induction os with
  | nil => rfl
  | cons o os ih =>
    obtain ⟨own, titled⟩ := List.forall_mem_cons.1 titled
    obtain ⟨line, whole⟩ := List.forall_mem_cons.1 whole
    obtain ⟨ls, deep, cut⟩ := o.block_lines
    have written : Yaml.printRemark o.shown = behind o.note := by
      rw [shown_of_titled own, printRemark_of_titled own line]
    have flat : '\n' ∉ behind o.note := by
      cases same : o.note with
      | none => exact List.not_mem_nil
      | some s =>
        have sign : '\n' ∉ "  # ".toList := by decide
        rw [behind_some, List.mem_append, not_or]
        exact ⟨sign, line s same⟩
    have first : o.block = o.opening ++ (behind o.note ++ '\n' :: o.body) := by
      rw [block, written]
    have plain : o.bare.block = o.opening ++ ([] ++ '\n' :: o.body) := rfl
    rw [List.map_cons, List.map_cons, List.flatMap_cons, List.flatMap_cons, first, plain,
      cut _ _ flat, cut _ _ List.not_mem_nil, annotated_block deep, ih titled whole]

/-- Each remark is put behind some line. -/
theorem behind_mem_annotated (mem : o ∈ os) :
    ∃ l ∈ annotated (os.map note) (cutAt '\n' ((os.map bare).flatMap block)),
      behind o.note ⊆ l := by
  induction os with
  | nil => cases mem
  | cons p os ih =>
    obtain ⟨ls, deep, cut⟩ := p.block_lines
    have plain : p.bare.block = p.opening ++ ([] ++ '\n' :: p.body) := rfl
    rw [List.map_cons, List.map_cons, List.flatMap_cons, plain, cut _ _ List.not_mem_nil,
      annotated_block deep]
    rcases List.mem_cons.1 mem with rfl | mem
    · exact ⟨_, List.mem_cons_self, List.subset_append_right _ _⟩
    · obtain ⟨l, known, inside⟩ := ih mem
      exact ⟨l, List.mem_cons_of_mem _ (List.mem_append_right _ known), inside⟩

theorem lines_export (plain : ∀ o ∈ os, o.Plain) (filled : os ≠ []) :
    lines (exportOperations os .yaml) =
      "operations:".toList :: cutAt '\n' (os.flatMap block) := by
  have first : cutAt '\n' "operations:".toList = ["operations:".toList] :=
    cutAt_of_not_mem (by decide)
  rw [lines, toList_export plain filled, cutAt_append_cons, first]
  rfl

theorem plain_bare (plain : ∀ o ∈ os, o.Plain) : ∀ o ∈ os.map bare, o.Plain :=
  List.forall_mem_map.2 fun o mem =>
    ⟨(plain o mem).payload, (plain o mem).environment, (plain o mem).category⟩

theorem annotated_export (plain : ∀ o ∈ os, o.Plain) (filled : os ≠ []) :
    annotated (os.map note) (lines (exportOperations (os.map bare) .yaml)) =
      "operations:".toList ::
        annotated (os.map note) (cutAt '\n' ((os.map bare).flatMap block)) := by
  rw [lines_export (plain_bare plain) (by simpa using filled)]
  exact annotated_append (List.forall_mem_singleton.2 (by decide))

/-- The remarks stand behind the endpoints, and the text is else the same, if and only if no remark
holds a line break. -/
theorem lines_export_iff (plain : ∀ o ∈ os, o.Plain) (titled : EveryRemark Titled os) :
    lines (exportOperations os .yaml) =
        annotated (os.map note) (lines (exportOperations (os.map bare) .yaml)) ↔
      EveryRemark (fun s => '\n' ∉ s.toList) os := by
  by_cases filled : os = []
  · subst filled
    exact iff_of_true rfl nofun
  rw [annotated_export plain filled]
  constructor
  · intro same o mem s known feed
    obtain ⟨l, among, inside⟩ := behind_mem_annotated mem
    rw [known] at inside
    have broken : '\n' ∈ l := inside (List.mem_append_right _ feed)
    rw [lines] at same
    exact not_mem_of_mem_cutAt (same ▸ List.mem_cons_of_mem _ among) broken
  · intro whole
    rw [lines_export plain filled, cut_blocks titled whole]

end Operation

end Law

section Reading

open Yaml

namespace Operation

variable {o : Operation} {os : List Operation}

theorem acceptable_block_iff (o : Operation) :
    (∀ c ∈ o.block, isAcceptable c = true) ↔
      ∀ s, o.shown = some s → ∀ c ∈ s.toList, isAcceptable c = true := by
  have sign : ∀ c ∈ endpointSign, isAcceptable c = true :=
    List.all_iff_forall_prop.1 rfl
  have endpoint : ∀ c ∈ o.opening, isAcceptable c = true :=
    List.forall_mem_append.2 ⟨sign, fun c mem => (written_printText 6 _ c mem).1⟩
  have below : ∀ c ∈ '\n' :: o.body, isAcceptable c = true :=
    List.forall_mem_cons.2 ⟨by decide, o.indented_body.acceptable⟩
  rw [block, List.forall_mem_append, List.forall_mem_append, acceptable_printRemark_iff]
  exact ⟨fun all => all.2.1, fun remark => ⟨endpoint, remark, below⟩⟩

/-- The text of a plan is acceptable if its remarks are. -/
theorem acceptable_export_iff (plain : ∀ o ∈ os, o.Plain) (titled : EveryRemark Titled os) :
    (∀ c ∈ (exportOperations os .yaml).toList, isAcceptable c = true) ↔
      EveryRemark (fun s => ∀ c ∈ s.toList, isAcceptable c = true) os := by
  by_cases filled : os = []
  · subst filled
    exact iff_of_true (List.all_iff_forall_prop.1 rfl) nofun
  have first : ∀ c ∈ "operations:".toList, isAcceptable c = true :=
    List.all_iff_forall_prop.1 rfl
  have feed : isAcceptable '\n' = true := rfl
  rw [toList_export plain filled, List.forall_mem_append, List.forall_mem_cons,
    List.forall_mem_flatMap, and_iff_right first, and_iff_right feed]
  refine forall₂_congr fun o mem => ?_
  rw [acceptable_block_iff, shown_of_titled (titled o mem)]

theorem notes_nodes (plain : ∀ o ∈ os, o.Plain) :
    itemNotes (os.map node) = os.flatMap fun o => o.shown.toList := by
  induction os with
  | nil => rfl
  | cons o os ih =>
    obtain ⟨own, others⟩ := List.forall_mem_cons.1 plain
    rw [List.map_cons, itemNotes, node_eq own, ih others, List.flatMap_cons, Node.notes, fieldNotes,
      notes_ofFields, Node.notes, List.append_nil, List.append_nil]

/-- Without remarks a plan is the node of its document. -/
theorem value?_nodes (os : List Operation) :
    (Node.record [("operations", none, .list (os.map node))]).value? =
      (Node.ofValue (listDocument (os.map bare))).value? := by
  have items : itemValues? (os.map node) =
      itemValues? (Node.ofItems ((os.map bare).map document)) := by
    induction os with
    | nil => rfl
    | cons o os ih =>
      have own : o.node.value? = (Node.ofValue o.bare.document).value? := by
        rw [node, value?_remark, bare]
      rw [List.map_cons, List.map_cons, List.map_cons, Node.ofItems, itemValues?, itemValues?, ih,
        own]
  rw [listDocument, Node.ofValue, Node.ofFields, Node.ofValue, Node.ofFields, Node.value?,
    Node.value?, fieldValues?, fieldValues?, Node.value?, Node.value?, items]

/-- A plan whose remarks stay on their lines is read as if it had none. -/
theorem read_export (plain : ∀ o ∈ os, o.Plain) (titled : EveryRemark Titled os)
    (whole : EveryRemark Whole os)
    (acceptable : EveryRemark (fun s => ∀ c ∈ s.toList, isAcceptable c = true) os) :
    (Yaml.read (exportOperations os .yaml).toList).toOption =
      (Node.ofValue (listDocument (os.map bare))).value? := by
  have text : (exportOperations os .yaml).toList =
      print (.record [("operations", none, .list (os.map node))]) := String.toList_ofList
  have notes : ∀ s ∈ fieldNotes [("operations", none, .list (os.map node))], Whole s := by
    have all : fieldNotes [("operations", none, .list (os.map node))] =
        itemNotes (os.map node) := by
      simp [fieldNotes, Node.notes]
    rw [all, notes_nodes plain]
    refine List.forall_mem_flatMap.2 fun o mem s known => whole o mem s ?_
    rw [← shown_of_titled (titled o mem)]
    exact Option.mem_toList.1 known
  have characters := (acceptable_export_iff plain titled).2 acceptable
  rw [text] at characters ⊢
  rw [read_print _ _ notes characters, value?_nodes]

theorem node_bare (plain : o.Plain) : o.bare.node = Node.ofValue o.bare.document := by
  have whole : o.bare.Plain := ⟨plain.payload, plain.environment, plain.category⟩
  rw [node_eq whole, document_bare plain]
  rfl

/-- The text of a plan without remarks is that of its document. -/
theorem export_bare (plain : ∀ o ∈ os, o.Plain) :
    (exportOperations (os.map bare) .yaml).toList =
      printFields 0 (Node.ofFields [("operations", .list ((os.map bare).map document))]) := by
  have nodes : (os.map bare).map node = Node.ofItems ((os.map bare).map document) := by
    induction os with
    | nil => rfl
    | cons o os ih =>
      obtain ⟨own, others⟩ := List.forall_mem_cons.1 plain
      rw [List.map_cons, List.map_cons, ih others, List.map_cons, Node.ofItems, node_bare own]
  rw [exportOperations, nodes, render, String.toList_ofList]
  rfl

/-- The document of a plan is read from it, with or without remarks, unless a text of it is folded.
-/
theorem value?_listDocument (plain : ∀ o ∈ os, o.Plain)
    (next : '\x85' ∉ (exportOperations (os.map bare) .yaml).toList) :
    (Node.ofValue (listDocument (os.map bare))).value? = some (listDocument (os.map bare)) := by
  rw [export_bare plain] at next
  exact value?_ofValue (wellFormed_listDocument (plain_bare plain)) (rereadText_eq_self next)

theorem everyRemark_bare (p : String → Prop) (os : List Operation) :
    EveryRemark p (os.map bare) :=
  List.forall_mem_map.2 fun _ _ _ none => nomatch none

end Operation

end Reading

section Plans

open Operation

namespace Options

variable (o : Options)

theorem titled_note {label : String} (titled : Titled label) (name kind : String) :
    ∀ s, o.note label name kind = some s → Titled s := by
  intro s given
  unfold note at given
  split at given
  · rw [← Option.some.inj given]
    exact ((((titled.append _).append _).append _).append _).append _
  · cases given

theorem titled_projectOperation {p : Operation} (needed : o.projectOperation? = some p) :
    ∀ s, p.note = some s → Titled s := by
  have label : Titled "Project: " := ⟨'P', "roject: ".toList, by decide, by decide⟩
  unfold projectOperation? at needed
  split at needed
  · cases needed
    intro s given
    dsimp only at given
    split at given
    · exact Option.some.inj given ▸ label.append _
    · cases given
  · cases needed

end Options

theorem Resource.titled_operation (m : Model) (o : Options) (r : Resource) :
    ∀ s, (r.operation m o).note = some s → Titled s := by
  cases r with
  | database d => exact o.titled_note ⟨'D', "atabase".toList, by decide, by decide⟩ _ _
  | storage s => exact o.titled_note ⟨'S', "torage".toList, by decide, by decide⟩ _ _
  | service s => exact o.titled_note ⟨'S', "ervice".toList, by decide, by decide⟩ _ _
  | application a => exact o.titled_note ⟨'A', "pplication".toList, by decide, by decide⟩ _ _

theorem Model.titled_operations (m : Model) (o : Options) :
    EveryRemark Titled (m.operations o) := by
  intro p mem
  rcases List.mem_append.1 mem with project | resource
  · exact o.titled_projectOperation (Option.mem_toList.1 project)
  · obtain ⟨r, -, rfl⟩ := List.mem_map.1 resource
    exact r.titled_operation m o

theorem Model.isSome_note (m : Model) (o : Options) :
    ∀ p ∈ m.operations o, p.note.isSome = o.withNotes := by
  have given (label name kind : String) : (o.note label name kind).isSome = o.withNotes := by
    unfold Options.note
    split <;> simp [*]
  intro p mem
  rcases List.mem_append.1 mem with project | resource
  · have needed := Option.mem_toList.1 project
    unfold Options.projectOperation? at needed
    split at needed
    · cases needed
      cases o.withNotes <;> rfl
    · cases needed
  · obtain ⟨r, -, rfl⟩ := List.mem_map.1 resource
    cases r <;> exact given _ _ _

/-- The options for a project whose name would begin a comment of its own. -/
def harbourOptions : Options where
  projectName := .text "it's #1: café"

end Plans

end HostPlan
