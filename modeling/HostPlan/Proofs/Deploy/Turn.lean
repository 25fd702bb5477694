import HostPlan.Proofs.Deploy.Client
/-!
The turns of a deployment, one after the other. The turn of a resource is told by the inventory and
by the answer to its own creation: its call, its two lines and its result are functions of these,
and a whole run puts the turns in a row.
-/
namespace HostPlan.Deploy

open Remote

/-- What is asked of the client in the turn of a resource. -/
def creation? (s : Settings) (inventory : Inventory) (r : Resource) : Option Call :=
  match decision s inventory r with
  | .create c => some c
  | _ => none

/-- What becomes of a resource whose creation is answered so, if there is one. -/
def outcome (s : Settings) (inventory : Inventory) (r : Resource) (reply : Reply) : Result :=
  match decision s inventory r with
  | .skip identifier => .existing r identifier
  | .refuse => .failed r (.text (alreadyExists r))
  | .unsupported => .failed r (.text ("Unsupported database type: " ++ r.kindName))
  | .create _ => concluded r reply

def openingLine (r : Resource) : String := "Creating " ++ heading r ++ "..."

def closingLine (s : Settings) (inventory : Inventory) (r : Resource) (reply : Reply) : String :=
  match decision s inventory r with
  | .skip _ => "  ⊘ Skipped " ++ noun r.category ++ " " ++ quotedName r ++ " (already exists)"
  | .refuse => "  ✗ " ++ alreadyExists r ++ " (use --skip-existing to skip)"
  | _ => creationLine r (outcome s inventory r reply)

theorem call?_of_decision {s : Settings} {inventory : Inventory} {r : Resource} {c : Call}
    (h : decision s inventory r = .create c) : call? s r = some c := by
  unfold decision at h
  split at h
  · split at h <;> cases h
  · split at h
    · rename_i c' hc
      cases h
      exact hc
    · cases h

theorem call?_of_creation? {s : Settings} {inventory : Inventory} {r : Resource} {c : Call}
    (h : creation? s inventory r = some c) : call? s r = some c := by
  unfold creation? at h
  split at h
  · rename_i c' hd
    cases h
    exact call?_of_decision hd
  · cases h

/-- A creation is answered by the position of its resource. -/
theorem reply_of_call? {s : Settings} {r : Resource} {c : Call} (h : call? s r = some c)
    (client : Client) (turn : Nat) : client.reply turn c = client.create (turn - 1) := by
  cases r with
  | database d =>
    simp only [call?] at h
    split at h
    · cases h; rfl
    · cases h
  | storage _ => cases h; rfl
  | service _ => cases h; rfl
  | application _ => cases h; rfl

section Turns

variable (client : Client) (s : Settings) (inventory : Inventory)

/-- One turn, taken up with the lines of the turns before it said. -/
theorem talk_deployOne (r : Resource) (j : Journal) (i : Nat)
    (before : j.lines.length = 2 * (i + 1)) :
    (client.talk (deployOne s inventory r) j).1 = outcome s inventory r (client.create i) ∧
    (client.talk (deployOne s inventory r) j).2.lines =
      j.lines ++ [openingLine r, closingLine s inventory r (client.create i)] ∧
    (client.talk (deployOne s inventory r) j).2.calls =
      j.calls ++ ((creation? s inventory r).map fun c => (i + 1, c)).toList := by
  unfold deployOne
  cases hd : decision s inventory r with
  | skip identifier => simp [hd, outcome, openingLine, closingLine, creation?]
  | refuse => simp [hd, outcome, openingLine, closingLine, creation?]
  | unsupported => simp [hd, outcome, openingLine, closingLine, creation?]
  | create c =>
    have turn : (j.say ("Creating " ++ heading r ++ "...")).turn = i + 1 := by
      simp only [Journal.turn, Journal.lines_say, List.length_append, List.length_singleton]
      omega
    have answered := reply_of_call? (call?_of_decision hd) client (i + 1)
    simp only [Nat.add_sub_cancel] at answered
    simp [hd, outcome, openingLine, closingLine, creation?, Client.talk_warn, turn, answered]

theorem talk_turns (rs : List Resource) (j : Journal) (i : Nat)
    (before : j.lines.length = 2 * (i + 1)) :
    (client.talk (rs.mapM (deployOne s inventory)) j).1 =
      (rs.zipIdx i).map (fun p => outcome s inventory p.1 (client.create p.2)) ∧
    (client.talk (rs.mapM (deployOne s inventory)) j).2.lines =
      j.lines ++ (rs.zipIdx i).flatMap
        (fun p => [openingLine p.1, closingLine s inventory p.1 (client.create p.2)]) ∧
    (client.talk (rs.mapM (deployOne s inventory)) j).2.calls =
      j.calls ++ (rs.zipIdx i).filterMap
        (fun p => (creation? s inventory p.1).map fun c => (p.2 + 1, c)) := by
  induction rs generalizing j i with
  | nil => simp
  | cons r rest ih =>
    obtain ⟨result, lines, calls⟩ := talk_deployOne client s inventory r j i before
    have next : (client.talk (deployOne s inventory r) j).2.lines.length = 2 * (i + 1 + 1) := by
      rw [lines, List.length_append, before]
      rfl
    obtain ⟨results', lines', calls'⟩ := ih _ (i + 1) next
    refine ⟨?_, ?_, ?_⟩
    · simp [List.mapM_cons, results', result]
    · simp [List.mapM_cons, lines', lines]
    · cases hc : creation? s inventory r <;>
        simp [List.mapM_cons, calls', calls, hc]

end Turns

def fetchingLine : String := "Fetching existing resources..."

def foundLine (inventory : Inventory) : String :=
  "  Found " ++ count inventory.databases.length ++ " databases, " ++
    count inventory.applications.length ++ " applications, " ++
    count inventory.services.length ++ " services"

/-- What was written down when the inventory is complete. -/
def Client.opened (client : Client) : Journal :=
  ((((({} : Journal).say fetchingLine).list "databases" .databases client.databases).list
    "applications" .applications client.applications).list
    "services" .services client.services).say (foundLine client.inventory)

theorem Client.calls_opened (client : Client) :
    client.opened.calls = [(0, .databases), (0, .applications), (0, .services)] := by
  simp [Client.opened, Journal.turn]

/-- A deployment from its beginning, and what was written down about it. -/
def Client.deployment (client : Client) (s : Settings) (m : Model) : Summary × Journal :=
  client.talk (deploy s m) {}

def Client.rehearsal (client : Client) (m : Model) : Summary × Journal :=
  client.talk (rehearse m) {}

section Runs

variable (client : Client) (s : Settings) (m : Model)

/-- A deployment is the inventory and then the turns of the resources. -/
theorem deployment_turns :
    ∃ ns, client.deployment s m =
      ({ results := (client.talk (m.resources.mapM (deployOne s client.inventory)) client.opened).1
         warnings := (listingWarning? "databases" client.databases.answer).toList ++
          (listingWarning? "applications" client.applications.answer).toList ++
          (listingWarning? "services" client.services.answer).toList ++
          warnings s client.inventory m.resources },
        (client.talk (m.resources.mapM (deployOne s client.inventory)) client.opened).2.note ns) := by
  simp only [Client.deployment, deploy, finish, Client.talk_bind, Client.talk_say, Client.talk_list,
    Client.talk_log, Client.talk_pure]
  exact ⟨_, rfl⟩

theorem deployment_results :
    (client.deployment s m).1.results =
      m.resources.zipIdx.map fun p => outcome s client.inventory p.1 (client.create p.2) := by
  obtain ⟨_, whole⟩ := deployment_turns client s m
  rw [whole]
  exact (talk_turns client s client.inventory m.resources client.opened 0 rfl).1

theorem deployment_warnings :
    (client.deployment s m).1.warnings =
      (listingWarning? "databases" client.databases.answer).toList ++
        (listingWarning? "applications" client.applications.answer).toList ++
        (listingWarning? "services" client.services.answer).toList ++
        warnings s client.inventory m.resources := by
  obtain ⟨_, whole⟩ := deployment_turns client s m
  rw [whole]

theorem deployment_lines :
    (client.deployment s m).2.lines =
      [fetchingLine, foundLine client.inventory] ++
        m.resources.zipIdx.flatMap fun p =>
          [openingLine p.1, closingLine s client.inventory p.1 (client.create p.2)] := by
  obtain ⟨_, whole⟩ := deployment_turns client s m
  rw [whole]
  exact (talk_turns client s client.inventory m.resources client.opened 0 rfl).2.1

theorem deployment_calls :
    (client.deployment s m).2.calls =
      [(0, .databases), (0, .applications), (0, .services)] ++
        m.resources.zipIdx.filterMap fun p =>
          (creation? s client.inventory p.1).map fun c => (p.2 + 1, c) := by
  obtain ⟨_, whole⟩ := deployment_turns client s m
  rw [whole, Journal.calls_note, (talk_turns client s client.inventory _ client.opened 0 rfl).2.2,
    client.calls_opened]

theorem deployment_result {i : Nat} {r : Resource} (place : m.resources[i]? = some r) :
    (client.deployment s m).1.results[i]? =
      some (outcome s client.inventory r (client.create i)) := by
  rw [deployment_results, List.getElem?_map, List.getElem?_zipIdx, place]
  simp

/-- The turn of a resource holds the call that creates it, if there is one. -/
theorem mem_deployment_calls {i : Nat} {r : Resource} (place : m.resources[i]? = some r)
    (c : Call) :
    (i + 1, c) ∈ (client.deployment s m).2.calls ↔ creation? s client.inventory r = some c := by
  rw [deployment_calls, List.mem_append, List.mem_filterMap]
  constructor
  · rintro (listing | ⟨p, hp, asked⟩)
    · simp at listing
    · obtain ⟨c', created, same⟩ := Option.map_eq_some_iff.1 asked
      obtain ⟨turn, rfl⟩ := Prod.mk.inj same
      obtain rfl : p.2 = i := by omega
      have here : m.resources[p.2]? = some p.1 := List.mem_zipIdx_iff_getElem?.1 hp
      rw [place] at here
      rw [Option.some.inj here]
      exact created
  · intro created
    refine Or.inr ⟨(r, i), List.mem_zipIdx_iff_getElem?.2 place, ?_⟩
    rw [created]
    rfl

/-- A rehearsal says what it would do and calls nobody. -/
theorem talk_rehearsal (rs : List Resource) (j : Journal) :
    (client.talk (rs.mapM rehearseOne) j).1 =
      rs.map (fun r => .created r (.text "dry-run-uuid")) ∧
    (client.talk (rs.mapM rehearseOne) j).2.lines.length = j.lines.length + 2 * rs.length ∧
    (client.talk (rs.mapM rehearseOne) j).2.calls = j.calls := by
  induction rs generalizing j with
  | nil => simp
  | cons r rest ih =>
    obtain ⟨results, lines, calls⟩ := ih (client.talk (rehearseOne r) j).2
    refine ⟨?_, ?_, ?_⟩
    · simp [List.mapM_cons, results]
      rfl
    · simp only [List.mapM_cons, Client.talk_bind, Client.talk_pure, lines, List.length_cons]
      simp only [rehearseOne, Client.talk_bind, Client.talk_say, Client.talk_pure,
        Journal.lines_say, List.length_append, List.length_singleton]
      omega
    · simp only [List.mapM_cons, Client.talk_bind, Client.talk_pure, calls]
      rfl

end Runs

end HostPlan.Deploy
