import HostPlan.Deploy.Run
import HostPlan.Remote.Response
/-!
Answers and the status of the response behind them. An answer follows its status if success stands
for a status of the two hundreds with a body that can be read, and if every other status makes a
failure with the reason that the response gives. All answers do, but for those to a redirect: that
is not an error to the client, which takes its body for the result.
-/
namespace HostPlan.Remote

def IsFine (status : Nat) : Prop := 200 ≤ status ∧ status ≤ 299

def IsRedirect (status : Nat) : Prop := 300 ≤ status ∧ status ≤ 399

instance (status : Nat) : Decidable (IsFine status) := inferInstanceAs (Decidable (_ ∧ _))

instance (status : Nat) : Decidable (IsRedirect status) := inferInstanceAs (Decidable (_ ∧ _))

theorem status_cases {status : Nat} (h : 200 ≤ status ∧ status ≤ 599) :
    (IsFine status ∧ ¬ IsRedirect status ∧ isError status = false) ∨
    (¬ IsFine status ∧ IsRedirect status ∧ isError status = false) ∨
    (¬ IsFine status ∧ ¬ IsRedirect status ∧ isError status = true) := by
  have refused : isError status = true ↔ 400 ≤ status ∧ status ≤ 599 := by simp [isError]
  rw [← Bool.not_eq_true, refused]
  unfold IsFine IsRedirect
  omega

/-- What may be said about a response that is no success, the most telling first. -/
def reasons (status : Nat) (charset : Charset) (body : List UInt8) : List Value :=
  let text := charset.decode body
  let data := (Json.read? text).getD .null
  [data.field "message", data.field "error", .text (String.ofList text),
    .text ("HTTP " ++ String.ofList (Text.decimal status) ++ ": " ++ phrase status)]

theorem isFilled_text {s : List Char} :
    (Value.text (String.ofList s)).isFilled = true ↔ s ≠ [] := by
  rw [Value.isFilled, bne_iff_ne, ← String.ofList_nil]
  exact not_congr String.ofList_inj

/-- The reason of an error is the first that says anything. -/
theorem find?_reasons (status : Nat) (charset : Charset) (body : List UInt8) :
    (reasons status charset body).find? Value.isFilled = some (errorOf status charset body) := by
  have nothing : Json.read? [] = none := by decide
  have line : (Value.text ("HTTP " ++ String.ofList (Text.decimal status) ++ ": " ++
      phrase status)).isFilled = true := by
    have parts : "HTTP " ++ String.ofList (Text.decimal status) ++ ": " ++ phrase status =
        String.ofList ('H' :: ("TTP ".toList ++ Text.decimal status ++ ": ".toList ++
          (phrase status).toList)) := by
      apply String.toList_inj.1
      simp
    rw [parts, isFilled_text]
    exact List.cons_ne_nil _ _
  unfold reasons errorOf
  simp only
  generalize charset.decode body = text
  cases data : Json.read? text with
  | none =>
    have silent (key : String) : (Value.null.field key).isFilled = false := rfl
    cases text with
    | nil =>
      have empty : (Value.text (String.ofList [])).isFilled = false := rfl
      simp only [Option.getD_none, List.find?_cons, silent, empty, line]
      rfl
    | cons c s =>
      have shown := isFilled_text.2 (List.cons_ne_nil c s)
      simp only [Option.getD_none, List.find?_cons, silent, shown]
      rfl
  | some v =>
    have shown : (Value.text (String.ofList text)).isFilled = true := by
      rw [isFilled_text]
      rintro rfl
      rw [nothing] at data
      cases data
    cases message : (v.field "message").isFilled with
    | true => simp [message]
    | false =>
      cases error : (v.field "error").isFilled with
      | true => simp [message, error]
      | false => simp [message, error, shown]

/-- The body of a success is absent or JSON. -/
def Readable (body : List UInt8) : Prop := body = [] ∨ (json? body).isSome = true

def Answer.Follows (readable : List UInt8 → Prop) (o : Outcome) (a : Answer) : Prop :=
  match o with
  | .broken _ _ => a.isSuccess = false
  | .response status charset body =>
    (a.isSuccess = true ↔ IsFine status ∧ readable body) ∧
    (¬ IsFine status → ∃ reason, a = .failure reason ∧
      (reasons status charset body).find? Value.isFilled = some reason)

namespace Outcome

def Valid : Outcome → Prop
  | .broken _ _ => True
  | .response status _ _ => 200 ≤ status ∧ status ≤ 599

def Redirects : Outcome → Prop
  | .broken _ _ => False
  | .response status _ _ => IsRedirect status

/-- The body is no JSON, and its own text complains about that in the client's words. -/
def Echoes (path : String) : Outcome → Prop
  | .broken _ _ => False
  | .response status charset body =>
    body ≠ [] ∧ json? body = none ∧
      errorOf status charset body = .text ("Invalid JSON response from " ++ path)

end Outcome

section Follows

variable {status : Nat} {charset : Charset} {body : List UInt8} {readable : List UInt8 → Prop}
  {a : Answer}

theorem follows_failure (h : ¬ IsFine status) :
    a.Follows readable (.response status charset body) ↔
      a = .failure (errorOf status charset body) := by
  simp only [Answer.Follows, find?_reasons, h, false_and, iff_false, not_false_eq_true,
    forall_const, Option.some.injEq]
  constructor
  · rintro ⟨-, reason, failed, rfl⟩
    exact failed
  · rintro rfl
    exact ⟨by simp [Answer.isSuccess], _, rfl, rfl⟩

theorem follows_success (h : IsFine status) :
    a.Follows readable (.response status charset body) ↔
      (a.isSuccess = true ↔ readable body) := by
  simp only [Answer.Follows, h, true_and, not_true_eq_false, false_implies, and_true]

theorem isSuccess_answer (accepted : isError status = false) (path : String) :
    ((Outcome.response status charset body).answer path).isSuccess = true ↔ Readable body := by
  simp only [Outcome.answer, accepted, Bool.false_eq_true, if_false, Readable]
  cases body with
  | nil => simp [Answer.isSuccess]
  | cons b rest => cases json? (b :: rest) <;> simp [Answer.isSuccess]

/-- The body of a redirect makes the answer; only by its own words can it be the right one. -/
theorem answer_redirect_iff (accepted : isError status = false) (path : String) :
    (Outcome.response status charset body).answer path = .failure (errorOf status charset body) ↔
      (Outcome.response status charset body).Echoes path := by
  simp only [Outcome.answer, accepted, Bool.false_eq_true, if_false, Outcome.Echoes]
  cases body with
  | nil => simp
  | cons b rest =>
    cases json? (b :: rest) with
    | some v => simp
    | none => simp [eq_comm]

end Follows

/-- The answer to a call follows the status exactly if the response is no redirect, or one that
says by chance what the client says about it; the test of the connection is misled by every
redirect. -/
theorem answers_follow_status_iff (o : Outcome) (valid : o.Valid) :
    (∀ c : Call, (o.answer c.path).Follows Readable o ↔ ¬ o.Redirects ∨ o.Echoes c.path) ∧
    (o.connection.Follows (fun _ => True) o ↔ ¬ o.Redirects) := by
  cases o with
  | broken kind message => simp [Outcome.answer, Outcome.connection, Outcome.Redirects,
      Answer.Follows, Answer.isSuccess]
  | response status charset body =>
    rcases status_cases valid with ⟨fine, straight, accepted⟩ | ⟨bad, redirected, accepted⟩ |
      ⟨bad, straight, refused⟩
    · refine ⟨fun c => ?_, ?_⟩
      · rw [follows_success fine, isSuccess_answer accepted]
        exact iff_of_true Iff.rfl (.inl straight)
      · rw [follows_success fine, Outcome.connection, accepted]
        exact iff_of_true (by simp [Answer.isSuccess]) straight
    · refine ⟨fun c => ?_, ?_⟩
      · rw [follows_failure bad, answer_redirect_iff accepted]
        exact (or_iff_right fun straight => straight redirected).symm
      · rw [follows_failure bad, Outcome.connection, accepted]
        exact iff_of_false (by simp) fun straight => straight redirected
    · refine ⟨fun c => ?_, ?_⟩
      · rw [follows_failure bad, Outcome.answer, if_pos refused]
        exact iff_of_true rfl (.inl straight)
      · rw [follows_failure bad, Outcome.connection, if_pos refused]
        exact iff_of_true rfl straight

namespace Sample

def moved : Outcome := .response 302 .utf8 []

def refused : Outcome := .response 422 .utf8 "\x7b\"message\": \"no such server\"\x7d".toUTF8.toList

end Sample

open Sample in
/-- A refusal is told as it is, and a redirect is not. -/
theorem refusal_follows_and_redirect_does_not :
    refused.Valid ∧ moved.Valid ∧ moved.Redirects ∧
    (∀ c : Call, (refused.answer c.path).Follows Readable refused) ∧
    ∀ c : Call, ¬ (moved.answer c.path).Follows Readable moved := by
  have refusal : refused.Valid := ⟨by decide, by decide⟩
  have redirect : moved.Valid := ⟨by decide, by decide⟩
  have redirects : moved.Redirects := ⟨by decide, by decide⟩
  have straight : ¬ refused.Redirects := fun h => absurd h.2 (by decide)
  refine ⟨refusal, redirect, redirects, fun c => ?_, fun c follows => ?_⟩
  · exact ((answers_follow_status_iff refused refusal).1 c).2 (.inl straight)
  · rcases ((answers_follow_status_iff moved redirect).1 c).1 follows with straight | echo
    · exact straight redirects
    · exact echo.1 rfl

open Sample in
/-- A service is reported as created when the platform only says that it has moved. -/
theorem redirect_taken_for_creation :
    moved.Valid ∧
    ¬ (moved.answer (Call.createService (.record [("name", .text "cache")])).path).Follows
      Readable moved ∧
    (Deploy.concluded (.service { name := "cache" })
      (.answered (moved.answer (Call.createService (.record [("name", .text "cache")])).path))).success =
        true := by
  refine ⟨⟨by decide, by decide⟩, fun follows => ?_, rfl⟩
  exact nomatch (follows_failure (by decide)).1 follows

end HostPlan.Remote
