import HostPlan.Config.Reading
import Mathlib.Data.List.Find
import Mathlib.Data.List.Nodup
import Mathlib.Logic.Relation
/-!
What written data means as a configuration. Of every mapping only the entries under known names
count, in whatever spelling, and null counts as no entry. Data is refused for a section that is no
mapping and for an unknown format, except that a format with a number of excessive length in it is
not refused: the message that should refuse it cannot be written.
-/
namespace HostPlan.Config

/-- What a mapping says under a name: the value of its last key of that name. Null stands for
nothing. -/
def said (name : String) : Value → Value
  | .record fields =>
    ((fields.reverse.find? fun f => keyName f.1 = name).map Prod.snd).getD .null
  | _ => .null

def isSection : Value → Bool
  | .null => true
  | .record _ => true
  | _ => false

section Said

variable {name key key' : String} {v : Value} {before after : List (String × Value)}

theorem getD_fieldsOf (data : Value) (name : String) :
    (Entries.get? name (fieldsOf data)).getD .null = said name data := by
  cases data with
  | record fields =>
    simp only [fieldsOf, byName, Entries.get?_ofList, said, ← List.map_reverse, List.find?_map,
      Option.map_map]
    rfl
  | _ => rfl

theorem known_fieldsOf (data : Value) (name : String) (default : Value) :
    known (fieldsOf data) name default =
      if (said name data).isNull then default else said name data := by
  rw [← getD_fieldsOf]
  unfold known
  cases Entries.get? name (fieldsOf data) with
  | none => rfl
  | some v => cases v <;> rfl

theorem section?_fieldsOf (data : Value) (name : String) :
    Config.section? (fieldsOf data) name =
      if isSection (said name data) then .ok (fieldsOf (said name data))
      else .error (.refused (.badSection name (kindName (said name data)))) := by
  rw [← getD_fieldsOf]
  unfold section?
  cases Entries.get? name (fieldsOf data) with
  | none => rfl
  | some v => cases v <;> rfl

/-- An entry under another name does not count. -/
theorem said_of_ne (other : keyName key ≠ name) :
    said name (.record (before ++ (key, v) :: after)) = said name (.record (before ++ after)) := by
  simp [said, List.find?_append, other]

theorem said_respelled (same : keyName key = keyName key') :
    said name (.record (before ++ (key, v) :: after)) =
      said name (.record (before ++ (key', v) :: after)) := by
  by_cases here : keyName key' = name
  · cases found : after.reverse.find? fun f => keyName f.1 = name <;>
      simp [said, List.find?_append, found, same, here]
  · rw [said_of_ne here, said_of_ne (same ▸ here)]

/-- No key stands twice in the mapping, whatever its spelling. -/
def Distinct (fields : List (String × Value)) : Prop := (fields.map fun f => keyName f.1).Nodup

instance (fields : List (String × Value)) : Decidable (Distinct fields) :=
  inferInstanceAs (Decidable (List.Nodup _))

theorem find?_eq_none_of_distinct (distinct : Distinct (before ++ (key, v) :: after)) :
    ((before ++ after).reverse.find? fun f => keyName f.1 = keyName key) = none := by
  rw [List.find?_eq_none]
  intro f mem
  have apart : keyName key ∉ (before ++ after).map fun f => keyName f.1 := by
    have moved : (before ++ (key, v) :: after).Perm ((key, v) :: (before ++ after)) :=
      List.perm_middle
    exact (List.nodup_cons.1 ((moved.map _).nodup_iff.1 distinct)).1
  have found : keyName f.1 ∈ (before ++ after).map fun f => keyName f.1 :=
    List.mem_map_of_mem (List.mem_reverse.1 mem)
  simpa using fun same : keyName f.1 = keyName key => apart (same ▸ found)

/-- The only entry under its name is what is said there. -/
theorem said_of_distinct (distinct : Distinct (before ++ (key, v) :: after)) :
    said (keyName key) (.record (before ++ (key, v) :: after)) = v := by
  have none := find?_eq_none_of_distinct distinct
  rw [List.reverse_append, List.find?_append, Option.or_eq_none_iff] at none
  simp [said, List.find?_append, none.1]

theorem said_of_missing (distinct : Distinct (before ++ (key, v) :: after)) :
    said (keyName key) (.record (before ++ after)) = .null := by
  rw [said, find?_eq_none_of_distinct distinct]
  rfl

end Said

section Changes

/-- The spelling of a name in words that begin with capital letters. -/
def camelChars : List Char → List Char
  | '_' :: c :: r => c.toUpper :: camelChars r
  | c :: r => c :: camelChars r
  | [] => []

def camel (name : String) : String := String.ofList (camelChars name.toList)

/-- A mapping in other words, as far as some names are concerned. -/
inductive Reworded (names : List String) :
    List (String × Value) → List (String × Value) → Prop where
  | respelled {name key key' : String} (known : name ∈ names) (spelled : key ∈ [name, camel name])
    (spelled' : key' ∈ [name, camel name]) (v : Value) (before after : List (String × Value)) :
    Reworded names (before ++ (key, v) :: after) (before ++ (key', v) :: after)
  | extended {key : String} (unknown : keyName key ∉ names) (v : Value)
    (before after : List (String × Value)) :
    Reworded names (before ++ after) (before ++ (key, v) :: after)
  | cleared (key : String) (before after : List (String × Value)) :
    Reworded names (before ++ (key, .null) :: after) (before ++ after)

/-- Both spellings of every name that is known anywhere have this name. -/
theorem keyName_spelled : ∀ s ∈ sections, ∀ name ∈ s.1 :: s.2.2,
    keyName name = name ∧ keyName (camel name) = name := by
  decide +kernel

theorem said_of_reworded {names : List String} {fields fields' : List (String × Value)}
    (spellings : ∀ name ∈ names, keyName name = name ∧ keyName (camel name) = name)
    (distinct : Distinct fields) (reworded : Reworded names fields fields') {name : String}
    (known : name ∈ names) : said name (.record fields) = said name (.record fields') := by
  cases reworded with
  | @respelled word key key' hword spelled spelled' v before after =>
    have named : ∀ k ∈ [word, camel word], keyName k = word := by
      simpa using spellings word hword
    exact said_respelled ((named key spelled).trans (named key' spelled').symm)
  | @extended key unknown v before after =>
    exact (said_of_ne (fun same => unknown (same ▸ known))).symm
  | cleared key before after =>
    by_cases here : keyName key = name
    · rw [← here, said_of_distinct distinct, said_of_missing distinct]
    · exact said_of_ne here

/-- Two values that say the same under some names. -/
inductive AlikeUnder (names : List String) : Value → Value → Prop where
  | refl (v : Value) : AlikeUnder names v v
  | records {fields fields' : List (String × Value)}
    (same : ∀ name ∈ names, said name (.record fields) = said name (.record fields')) :
    AlikeUnder names (.record fields) (.record fields')

/-- Written data in other words: another wording of the whole, or of one of its sections. -/
inductive Change : List (String × Value) → List (String × Value) → Prop where
  | outside {fields fields' : List (String × Value)}
    (reworded : Reworded (sections.map fun s => s.1) fields fields') : Change fields fields'
  | inside {section_ : String × String × List String} (known : section_ ∈ sections) {key : String}
    (named : keyName key = section_.1) {inner inner' : List (String × Value)}
    (reworded : Reworded section_.2.2 inner inner') (before after : List (String × Value)) :
    Change (before ++ (key, .record inner) :: after) (before ++ (key, .record inner') :: after)

/-- No key stands twice in the data or in a mapping right inside. -/
structure Apart (fields : List (String × Value)) : Prop where
  outer : Distinct fields
  inner : ∀ key inner, (key, Value.record inner) ∈ fields → Distinct inner

theorem alikeUnder_of_change {fields fields' : List (String × Value)} (apart : Apart fields)
    (change : Change fields fields') {s : String × String × List String} (mem : s ∈ sections) :
    AlikeUnder s.2.2 (said s.1 (.record fields)) (said s.1 (.record fields')) := by
  cases change with
  | outside reworded =>
    have spellings : ∀ name ∈ sections.map fun s => s.1,
        keyName name = name ∧ keyName (camel name) = name := by
      intro name hname
      obtain ⟨s, hs, rfl⟩ := List.mem_map.1 hname
      exact keyName_spelled s hs s.1 List.mem_cons_self
    rw [said_of_reworded spellings apart.outer reworded (List.mem_map_of_mem mem)]
    exact .refl _
  | @inside t known key named inner inner' reworded before after =>
    by_cases here : keyName key = s.1
    · -- The names of the sections tell them apart.
      have only : ∀ s ∈ sections, ∀ t ∈ sections, s.1 = t.1 → s = t := by decide
      obtain rfl := only s mem t known (here.symm.trans named)
      have spellings : ∀ name ∈ s.2.2, keyName name = name ∧ keyName (camel name) = name :=
        fun name hname => keyName_spelled s mem name (List.mem_cons_of_mem _ hname)
      have distinct : Distinct inner := apart.inner key inner (by simp)
      have distinct' : Distinct (before ++ (key, .record inner') :: after) := by
        simpa [Distinct] using apart.outer
      rw [← named, said_of_distinct apart.outer, said_of_distinct distinct']
      exact .records fun name hname => said_of_reworded spellings distinct reworded hname
    · rw [said_of_ne here, said_of_ne here]
      exact .refl _

end Changes

section Outcome

/-- The configuration that data with sections makes. -/
def made (data : Value) (source : Option String) : Config where
  platform := .ofFields (fieldsOf (said "coolify" data))
  repository := RepositorySettings.ofFields? (fieldsOf (said "github" data))
  buildPack := known (fieldsOf (said "defaults" data)) "build_pack" .null
  output := .ofFields (fieldsOf (said "output" data))
  source

/-- The format of the data, whether it is one or not. -/
def wanted (data : Value) : Value := (Output.ofFields (fieldsOf (said "output" data))).format

theorem ofData_eq (data : Value) (source : Option String) :
    ofData data source =
      match sections.find? fun s => !isSection (said s.1 data) with
      | some s => .error (.refused (.badSection s.1 (kindName (said s.1 data))))
      | none =>
        if isFormat (wanted data) then .ok (made data source)
        else if (wanted data).isSpellable then .error (.refused (.badFormat (wanted data)))
        else .error .unspellable := by
  unfold ofData sections
  simp only [section?_fieldsOf, List.find?_cons]
  cases isSection (said "coolify" data) with
  | false => rfl
  | true =>
    cases isSection (said "defaults" data) with
    | false => rfl
    | true =>
      cases isSection (said "output" data) with
      | false => rfl
      | true =>
        cases isSection (said "github" data) with
        | false => rfl
        | true => rfl

section Alike

variable {names : List String} {v w : Value}

theorem AlikeUnder.isSection (alike : AlikeUnder names v w) : isSection v = isSection w := by
  cases alike <;> rfl

theorem AlikeUnder.kindName (alike : AlikeUnder names v w) : kindName v = kindName w := by
  cases alike <;> rfl

theorem AlikeUnder.known (alike : AlikeUnder names v w) (name : String) (mem : name ∈ names)
    (default : Value) : known (fieldsOf v) name default = known (fieldsOf w) name default := by
  cases alike with
  | refl => rfl
  | records same => rw [known_fieldsOf, known_fieldsOf, same name mem]

variable {data data' : Value}

/-- Only what the sections say under their names goes into a configuration. -/
theorem made_congr (alike : ∀ s ∈ sections, AlikeUnder s.2.2 (said s.1 data) (said s.1 data'))
    (source : Option String) : made data source = made data' source := by
  simp only [sections, List.forall_mem_cons] at alike
  obtain ⟨coolify, defaults, output, github, -⟩ := alike
  have platform : Platform.ofFields (fieldsOf (said "coolify" data)) =
      Platform.ofFields (fieldsOf (said "coolify" data')) := by
    unfold Platform.ofFields
    congr 1 <;> exact coolify.known _ (by simp) _
  have written : Output.ofFields (fieldsOf (said "output" data)) =
      Output.ofFields (fieldsOf (said "output" data')) := by
    unfold Output.ofFields
    congr 1 <;> exact output.known _ (by simp) _
  have repository : RepositorySettings.ofFields? (fieldsOf (said "github" data)) =
      RepositorySettings.ofFields? (fieldsOf (said "github" data')) := by
    unfold RepositorySettings.ofFields?
    simp only [github.known "repository" (by simp), github.known "branch" (by simp),
      github.known "base_path" (by simp), github.known "app_uuid" (by simp)]
  unfold made
  rw [platform, written, repository, defaults.known _ (by simp)]

theorem ofData_congr (alike : ∀ s ∈ sections, AlikeUnder s.2.2 (said s.1 data) (said s.1 data'))
    (source : Option String) : ofData data source = ofData data' source := by
  have found : (sections.find? fun s => !isSection (said s.1 data)) =
      sections.find? fun s => !isSection (said s.1 data') :=
    List.find?_congr fun s mem => congrArg _ (alike s mem).isSection
  have format : wanted data = wanted data' :=
    congrArg (fun c : Config => c.output.format) (made_congr alike none)
  rw [ofData_eq, ofData_eq, found, format, made_congr alike]
  cases bad : sections.find? fun s => !isSection (said s.1 data') with
  | none => rfl
  | some s =>
    have kind := (alike s (List.mem_of_find?_eq_some bad)).kindName
    simp only [kind]

end Alike

section Refusal

/-- One of the sections is neither null nor a mapping. -/
def BadSection (data : Value) : Prop :=
  ∃ name ∈ ["coolify", "defaults", "output", "github"],
    said name data ≠ .null ∧ ∀ fields, said name data ≠ .record fields

/-- A format is given that is none. -/
def BadFormat (data : Value) : Prop :=
  said "format" (said "output" data) ≠ .null ∧
    ∀ f ∈ ["shell", "json", "yaml"], said "format" (said "output" data) ≠ .text f

/-- Data is refused for a section or for its format, and for nothing else; and there is no other way
not to get a configuration. -/
structure RefusedAsPromised (data : Value) (source : Option String) : Prop where
  refused : (∃ p, ofData data source = .error (.refused p)) ↔ BadSection data ∨ BadFormat data
  otherwise : ∀ e, ofData data source = .error e → ∃ p, e = .refused p

theorem isSection_eq_false_iff {v : Value} :
    isSection v = false ↔ v ≠ .null ∧ ∀ fields, v ≠ .record fields := by
  cases v <;> simp [isSection]

theorem badSection_iff (data : Value) :
    BadSection data ↔ ∃ s ∈ sections, isSection (said s.1 data) = false := by
  simp [BadSection, sections, isSection_eq_false_iff]

theorem isFormat_eq_false_iff {v : Value} :
    isFormat v = false ↔ ∀ f ∈ ["shell", "json", "yaml"], v ≠ .text f := by
  simp [isFormat, formats]

theorem wanted_eq (data : Value) :
    wanted data = if (said "format" (said "output" data)).isNull then .text "shell"
      else said "format" (said "output" data) :=
  known_fieldsOf (said "output" data) "format" (.text "shell")

theorem badFormat_iff (data : Value) : BadFormat data ↔ isFormat (wanted data) = false := by
  rw [wanted_eq, BadFormat, isFormat_eq_false_iff]
  cases said "format" (said "output" data) <;> simp [Value.isNull]

/-- A format that is refused is the one that was given. -/
theorem wanted_of_badFormat {data : Value} (bad : BadFormat data) :
    wanted data = said "format" (said "output" data) := by
  rw [wanted_eq, if_neg]
  have given := bad.1
  cases same : said "format" (said "output" data) <;> simp_all [Value.isNull]

variable {data : Value}

theorem ofData_of_badSection (bad : BadSection data) (source : Option String) :
    ∃ p, ofData data source = .error (.refused p) := by
  obtain ⟨s, mem, plain⟩ := (badSection_iff data).1 bad
  rw [ofData_eq]
  cases found : sections.find? fun s => !isSection (said s.1 data) with
  | some t => exact ⟨_, rfl⟩
  | none =>
    have whole := List.find?_eq_none.1 found s mem
    rw [plain] at whole
    exact absurd rfl whole

/-- With sections only, the format decides. -/
theorem ofData_of_sections (good : ¬ BadSection data) (source : Option String) :
    ofData data source =
      if isFormat (wanted data) then .ok (made data source)
      else if (wanted data).isSpellable then .error (.refused (.badFormat (wanted data)))
      else .error .unspellable := by
  rw [ofData_eq]
  have none : (sections.find? fun s => !isSection (said s.1 data)) = none := by
    rw [List.find?_eq_none]
    intro s mem plain
    exact good ((badSection_iff data).2 ⟨s, mem, by simpa using plain⟩)
  rw [none]

/-- The promise is kept unless the format is a value that no message can hold. -/
theorem refusedAsPromised_iff (data : Value) (source : Option String) :
    RefusedAsPromised data source ↔
      (BadFormat data → BadSection data ∨
        (said "format" (said "output" data)).isSpellable = true) := by
  by_cases bad : BadSection data
  · obtain ⟨p, refused⟩ := ofData_of_badSection bad source
    refine iff_of_true ⟨iff_of_true ⟨p, refused⟩ (.inl bad), ?_⟩ fun _ => .inl bad
    intro e he
    rw [refused] at he
    cases he
    exact ⟨p, rfl⟩
  · have outcome := ofData_of_sections bad source
    by_cases wrong : BadFormat data
    · rw [(badFormat_iff data).1 wrong, if_neg Bool.false_ne_true, wanted_of_badFormat wrong]
        at outcome
      cases spellable : (said "format" (said "output" data)).isSpellable with
      | true =>
        rw [spellable, if_pos rfl] at outcome
        refine iff_of_true ⟨iff_of_true ⟨_, outcome⟩ (.inr wrong), ?_⟩ fun _ => .inr rfl
        intro e he
        rw [outcome] at he
        cases he
        exact ⟨_, rfl⟩
      | false =>
        rw [spellable, if_neg Bool.false_ne_true] at outcome
        refine iff_of_false (fun promised => ?_) fun h => ?_
        · obtain ⟨p, impossible⟩ := promised.otherwise _ outcome
          cases impossible
        · rcases h wrong with section_ | impossible
          · exact bad section_
          · cases impossible
    · have fine : isFormat (wanted data) = true := by
        simpa using mt (badFormat_iff data).2 wrong
      rw [fine, if_pos rfl] at outcome
      refine iff_of_true ⟨iff_of_false ?_ (not_or.2 ⟨bad, wrong⟩), ?_⟩ fun h => absurd h wrong
      · rintro ⟨p, refused⟩
        exact nomatch outcome.symm.trans refused
      · intro e he
        exact nomatch outcome.symm.trans he

/-- A repository is configured exactly if one is named. -/
theorem repository_isSome_iff {source : Option String} {c : Config}
    (read : ofData data source = .ok c) :
    c.repository.isSome = true ↔ (said "repository" (said "github" data)).isFilled = true := by
  by_cases bad : BadSection data
  · obtain ⟨p, refused⟩ := ofData_of_badSection bad source
    exact nomatch read.symm.trans refused
  · rw [ofData_of_sections bad] at read
    split at read
    · cases read
      simp only [made, RepositorySettings.ofFields?, known_fieldsOf]
      cases said "repository" (said "github" data) <;> simp [Value.isNull, Value.isFilled]
    · split at read <;> cases read

end Refusal

namespace Spelling

/-- The address of a platform, and a key that is not given. -/
def camelCased : List (String × Value) :=
  [("coolify", .record [("apiUrl", .text "https://c.example.org"), ("token", .null)])]

def cleared : List (String × Value) :=
  [("coolify", .record [("apiUrl", .text "https://c.example.org")])]

def snakeCased : List (String × Value) :=
  [("coolify", .record [("api_url", .text "https://c.example.org")])]

/-- The same with a key that means nothing. -/
def extended : List (String × Value) := snakeCased ++ [("Note", .list [.number 1])]

theorem apart_of_single {inner : List (String × Value)} (distinct : Distinct inner) :
    Apart [("coolify", .record inner)] where
  outer := List.nodup_singleton _
  inner := by simpa using distinct

theorem changes :
    Relation.ReflTransGen (fun a b => Apart a ∧ Change a b) camelCased extended := by
  have platform : sections.head (by decide) ∈ sections := List.head_mem _
  have word : "api_url" ∈ (sections.head (by decide)).2.2 := by decide
  have clear : Reworded (sections.head (by decide)).2.2
      [("apiUrl", .text "https://c.example.org"), ("token", .null)]
      [("apiUrl", .text "https://c.example.org")] :=
    .cleared "token" [("apiUrl", _)] []
  have respell : Reworded (sections.head (by decide)).2.2
      [("apiUrl", .text "https://c.example.org")] [("api_url", .text "https://c.example.org")] :=
    .respelled word (by decide +kernel) (by decide +kernel) _ [] []
  have extend : Reworded (sections.map fun s => s.1) snakeCased extended :=
    .extended (by decide +kernel) _ snakeCased []
  have first : Apart camelCased ∧ Change camelCased cleared :=
    ⟨apart_of_single (by decide +kernel), .inside platform (by decide +kernel) clear [] []⟩
  have second : Apart cleared ∧ Change cleared snakeCased :=
    ⟨apart_of_single (by decide +kernel), .inside platform (by decide +kernel) respell [] []⟩
  have third : Apart snakeCased ∧ Change snakeCased extended :=
    ⟨apart_of_single (by decide +kernel), .outside extend⟩
  exact .tail (.tail (.tail .refl first) second) third

/-- A whole number where a format is wanted. -/
def numbered (n : Nat) : Value := .record [("output", .record [("format", .number n)])]

theorem output_known : ("output", "OutputSettings", ["include_comments", "format"]) ∈ sections := by
  simp [sections]

theorem said_numbered (n : Nat) : said "format" (said "output" (numbered n)) = .number n := by
  have output := (keyName_spelled _ output_known "output" (by simp)).1
  have format := (keyName_spelled _ output_known "format" (by simp)).1
  simp [numbered, said, output, format]

theorem badFormat_numbered (n : Nat) : BadFormat (numbered n) := by
  rw [BadFormat, said_numbered]
  exact ⟨nofun, fun _ _ => nofun⟩

theorem not_badSection_numbered (n : Nat) : ¬ BadSection (numbered n) := by
  rw [badSection_iff]
  rintro ⟨s, mem, plain⟩
  have output := (keyName_spelled _ output_known "output" (by simp)).1
  by_cases here : s.1 = "output"
  · simp [numbered, said, output, here, isSection] at plain
  · simp [numbered, said, output, Ne.symm here, isSection] at plain

/-- The least number of more digits than can be written. -/
theorem not_isSpellable :
    Value.isSpellable (.number (Nat.pow 10 Value.maxDigits)) = false := by
  simp only [Value.isSpellable, Int.natAbs_natCast, Nat.lt_irrefl, decide_false]

end Spelling

end Outcome
end HostPlan.Config
