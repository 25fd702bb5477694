import HostPlan.Config.File
import HostPlan.Proofs.Config.Reading
/-!
What becomes of a file that is to hold a configuration. A file that cannot be read, is no YAML or
says the wrong things is refused with a message. Two kinds of files are not: bytes that are no text,
and a format with a number in it that no message can hold.
-/
namespace HostPlan.Config

/-- There is a configuration, or a message that says why there is none. -/
def Settled (loaded : Except Failure Config) : Prop :=
  (∃ c, loaded = .ok c) ∨ ∃ p, loaded = .error (.refused p)

/-- The format of the data can be named where it is to be refused. -/
def Spellable (data : Value) : Prop :=
  BadFormat data → BadSection data ∨
    (said "format" (said "output" data)).isSpellable = true

/-- A file that is not there or is not read, or else one that holds text in which an unknown format
can be named. -/
inductive Legible : File.Contents → Prop where
  | absent (fault : File.Fault) : Legible (.error fault)
  | text {bytes : List UInt8} {text : List Char} (decodes : Text.fileText? bytes = some text)
    (spellable : ∀ data, Yaml.read text = .ok data → Spellable data) : Legible (.ok bytes)

theorem settled_refused (p : Problem) : Settled (.error (.refused p)) := .inr ⟨p, rfl⟩

theorem settled_ofData_iff (data : Value) (source : Option String) :
    Settled (ofData data source) ↔ Spellable data := by
  refine Iff.trans ?_ (refusedAsPromised_iff data source)
  by_cases bad : BadSection data
  · exact iff_of_true (.inr (ofData_of_badSection bad source))
      ((refusedAsPromised_iff data source).2 fun _ => .inl bad)
  · constructor
    · intro settled
      refine (refusedAsPromised_iff data source).2 fun wrong => .inr ?_
      have outcome := ofData_of_sections bad source
      rw [(badFormat_iff data).1 wrong, if_neg Bool.false_ne_true, wanted_of_badFormat wrong]
        at outcome
      by_contra unspellable
      rw [if_neg unspellable] at outcome
      rcases settled with ⟨c, read⟩ | ⟨p, refused⟩
      · exact nomatch read.symm.trans outcome
      · exact nomatch refused.symm.trans outcome
    · intro promised
      cases loaded : ofData data source with
      | ok c => exact .inl ⟨c, rfl⟩
      | error e =>
        obtain ⟨p, rfl⟩ := promised.otherwise e loaded
        exact settled_refused p

theorem spellable_of_no_mapping {data : Value} (other : ∀ fields, data ≠ .record fields) :
    Spellable data := by
  intro bad
  refine absurd ?_ bad.1
  cases data with
  | record fields => exact absurd rfl (other fields)
  | _ => rfl

/-- What a text says is settled as far as its data can be named. -/
theorem settled_text_iff {path : String} {bytes : List UInt8} {text : List Char}
    (decodes : Text.fileText? bytes = some text) :
    Settled (ofFile path (.ok bytes)) ↔ ∀ data, Yaml.read text = .ok data → Spellable data := by
  simp only [ofFile, dataOf, decodes]
  cases read : Yaml.read text with
  | error e => exact iff_of_true (settled_refused _) nofun
  | ok data =>
    have only : (∀ d, Except.ok (ε := Yaml.Fault) data = .ok d → Spellable d) ↔ Spellable data :=
      ⟨fun h => h data rfl, fun h d same => Except.ok.inj same ▸ h⟩
    rw [only]
    cases data with
    | null =>
      exact (settled_ofData_iff (.record []) (some path)).trans
        (iff_of_true (fun bad => absurd rfl bad.1) (spellable_of_no_mapping nofun))
    | record fields => exact settled_ofData_iff (.record fields) (some path)
    | _ => exact iff_of_true (settled_refused _) (spellable_of_no_mapping nofun)

/-- A file settles the matter exactly if it is legible. -/
theorem settled_iff_legible (path : String) (contents : File.Contents) :
    Settled (ofFile path contents) ↔ Legible contents := by
  cases contents with
  | error fault => exact iff_of_true (settled_refused _) (.absent fault)
  | ok bytes =>
    cases decodes : Text.fileText? bytes with
    | none =>
      have broken : ofFile path (.ok bytes) = .error .undecodable := by
        simp only [ofFile, dataOf, decodes]
        rfl
      rw [broken]
      refine iff_of_false ?_ ?_
      · rintro (⟨c, impossible⟩ | ⟨p, impossible⟩) <;> cases impossible
      · intro legible
        cases legible with
        | text found _ => exact nomatch found.symm.trans decodes
    | some text =>
      rw [settled_text_iff decodes]
      constructor
      · exact .text decodes
      · intro legible
        cases legible with
        | text found spellable =>
          cases found.symm.trans decodes
          exact spellable

end HostPlan.Config
