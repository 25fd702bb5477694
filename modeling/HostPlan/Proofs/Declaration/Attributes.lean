import HostPlan.Proofs.Declaration.Breakdown
/-!
What a row of calls makes of a record, attribute by attribute. The calls of a lambda that is handed
back to the table stand in the place of the call that holds it, down to the last level that is read;
in the row that comes out every attribute looks at its own calls only, and the last one, all of them
or any of them decides.
-/
namespace HostPlan.Declaration

open Source Text

section Inlining

/-- The calls that a call on a database stands for: a lambda is read in its place, down to so many
levels. -/
def inlined : Nat → MethodCall → List MethodCall
  | 0, c => if c.method = "RunAsContainer" then [] else [c]
  | levels + 1, c =>
    if c.method = "RunAsContainer" then
      (lambdaRun c.rawArgs.toList).calls.flatMap (inlined levels)
    else [c]

theorem foldlM_flatMap {α β ρ : Type} (step : ρ → β → Reading ρ) (f : α → List β) (l : List α)
    (r : ρ) : (l.flatMap f).foldlM step r = l.foldlM (fun r a => (f a).foldlM step r) r := by
  induction l generalizing r with
  | nil => rfl
  | cons a l ih => simp only [List.flatMap_cons, List.foldlM_append, List.foldlM_cons, ih]

theorem databaseRules_replay_iff (method : String) :
    databaseRules method = some .replay ↔ method = "RunAsContainer" := by
  unfold databaseRules
  split <;> simp_all [Rule.overwrite, Rule.reset, Rule.accumulate, Rule.always]

/-- The level of a call matters to nothing but its lambda. -/
theorem applyCall_levels {ρ : Type} {rules : Rules ρ} {c : MethodCall}
    (h : rules c.method ≠ some .replay) (levels : Nat) (r : ρ) :
    applyCall rules levels r c = applyCall rules 0 r c := by
  unfold applyCall
  split
  · simp [*]
  · simp [*]
  · contradiction
  · contradiction

/-- Where no call has a lambda to replay, the levels do not matter. -/
theorem applyCalls_flat {ρ : Type} {rules : Rules ρ} (h : ∀ m, rules m ≠ some .replay)
    (calls : List MethodCall) (r : ρ) :
    applyCalls rules 0 calls r = calls.foldlM (applyCall rules 0) r :=
  congrArg (fun step => calls.foldlM step r)
    (funext fun r => funext fun c => applyCall_levels (h c.method) 8 r)

theorem applyCall_replay {ρ : Type} {rules : Rules ρ} {c : MethodCall}
    (h : rules c.method = some .replay) (levels : Nat) (r : ρ) :
    applyCall rules (levels + 1) r c =
      (lambdaRun c.rawArgs.toList).calls.foldlM (applyCall rules levels) r := by
  simp only [applyCall, h]

theorem applyCall_inlined (levels : Nat) (d : Database) (c : MethodCall) :
    applyCall databaseRules levels d c =
      (inlined levels c).foldlM (applyCall databaseRules 0) d := by
  have alone (c : MethodCall) (h : c.method ≠ "RunAsContainer") (levels : Nat) (d : Database) :
      applyCall databaseRules levels d c = [c].foldlM (applyCall databaseRules 0) d := by
    rw [applyCall_levels (by rwa [ne_eq, databaseRules_replay_iff]), List.foldlM_cons]
    exact (bind_pure _).symm
  -- A lambda that is read at one level has its calls read at the level below, also where they stand in
  -- the row, so the induction is on the levels and not on the calls.
  induction levels generalizing d c with
  | zero =>
    rw [inlined]
    split
    · rename_i host
      simp only [applyCall, (databaseRules_replay_iff _).2 host]
      rfl
    · rename_i other
      exact alone c other 0 d
  | succ levels ih =>
    rw [inlined]
    split
    · rename_i host
      have step : applyCall databaseRules levels =
          fun d c => (inlined levels c).foldlM (applyCall databaseRules 0) d :=
        funext fun d => funext fun c => ih d c
      rw [applyCall_replay ((databaseRules_replay_iff _).2 host), foldlM_flatMap, step]
    · rename_i other
      exact alone c other _ d

/-- Lambdas may be read in place, down to the eighth level. -/
theorem applyCalls_inlined (calls : List MethodCall) (d : Database) :
    applyCalls databaseRules 0 calls d =
      (calls.flatMap (inlined 8)).foldlM (applyCall databaseRules 0) d := by
  rw [foldlM_flatMap]
  exact congrArg (fun step => calls.foldlM step d)
    (funext fun r => funext fun c => applyCall_inlined 8 r c)

end Inlining

section Ports

/-- The texts in a call that ports are read from. -/
def portTexts (c : MethodCall) : List (List Char) :=
  let first := (c.args.take 1).map String.toList
  match c.method with
  | "WithHostPort" | "WithServiceBinding" => first
  | "WithHttpEndpoint" | "WithHttpsEndpoint" =>
    (first.filter fun a => !a.contains ':') ++ (namedArgument? c.args "port").toList ++
      (namedArgument? c.args "targetPort").toList
  | _ => []

/-- No port of the call has more than 4300 digits. -/
def Fits (c : MethodCall) : Prop :=
  ∀ s ∈ portTexts c, ((trimStart s).takeWhile isDecimalDigit).length ≤ 4300

instance : DecidablePred Fits := fun c =>
  inferInstanceAs (Decidable (∀ s ∈ portTexts c, _))

variable {c : MethodCall}

theorem exists_port {s : List Char}
    (short : ((trimStart s).takeWhile isDecimalDigit).length ≤ 4300) : ∃ p, port s = .ok p := by
  cases read : port s with
  | ok p => exact ⟨p, rfl⟩
  | error e =>
    obtain ⟨long, digits⟩ := (port_eq_error_iff s e).1 read
    rw [maxDigits] at long
    omega

theorem exists_firstPort (h : c.method = "WithHostPort" ∨ c.method = "WithServiceBinding")
    (fits : Fits c) : ∃ p, c.firstPort = .ok p := by
  unfold MethodCall.firstPort
  cases args : c.args with
  | nil => exact ⟨none, rfl⟩
  | cons a rest =>
    refine exists_port (fits a.toList ?_)
    rcases h with h | h <;> simp [portTexts, h, args]

/-- The port of an endpoint is the named one, or else the one in front, which is read in any case. -/
theorem endpointPort_eq (c : MethodCall) : c.endpointPort =
    (c.args.head?.elim (.ok none) fun a =>
      if a.toList.contains ':' then .ok none else port a.toList) >>=
    fun first => (namedArgument? c.args "port").elim (.ok first) port := by
  unfold MethodCall.endpointPort
  cases c.args with
  | nil => cases namedArgument? [] "port" <;> rfl
  | cons a rest =>
    simp only [List.head?_cons, Option.elim_some]
    split <;> cases namedArgument? (a :: rest) "port" <;> rfl

theorem exists_endpointPort
    (unnamed : ∀ a rest, c.args = a :: rest → a.toList.contains ':' = false →
      ((trimStart a.toList).takeWhile isDecimalDigit).length ≤ 4300)
    (named : ∀ s, namedArgument? c.args "port" = some s →
      ((trimStart s).takeWhile isDecimalDigit).length ≤ 4300) :
    ∃ p, c.endpointPort = .ok p := by
  obtain ⟨first, hfirst⟩ : ∃ first, (c.args.head?.elim (.ok none) fun a =>
      if a.toList.contains ':' then .ok none else port a.toList) = .ok first := by
    cases args : c.args with
    | nil => exact ⟨none, rfl⟩
    | cons a rest =>
      cases colon : a.toList.contains ':' with
      | true => exact ⟨none, if_pos colon⟩
      | false =>
        simp only [List.head?_cons, Option.elim_some, colon, Bool.false_eq_true, if_false]
        exact exists_port (unnamed a rest args colon)
  rw [endpointPort_eq, hfirst]
  cases given : namedArgument? c.args "port" with
  | none => exact ⟨first, rfl⟩
  | some s => exact exists_port (named s given)

theorem exists_endpoint (h : c.method = "WithHttpEndpoint" ∨ c.method = "WithHttpsEndpoint")
    (fits : Fits c) (protocol : String) : ∃ e, c.endpoint protocol = .ok e := by
  have texts : portTexts c = (((c.args.take 1).map String.toList).filter fun a => !a.contains ':') ++
      (namedArgument? c.args "port").toList ++ (namedArgument? c.args "targetPort").toList := by
    rcases h with h | h <;> simp only [portTexts, h]
  simp only [Fits, texts, List.forall_mem_append] at fits
  obtain ⟨⟨unnamed, named⟩, target⟩ := fits
  obtain ⟨p, hp⟩ : ∃ p, c.endpointPort = .ok p := by
    refine exists_endpointPort (fun a rest args colon => unnamed a.toList ?_) fun s given => ?_
    · rw [args]
      exact List.mem_filter.2 ⟨List.mem_singleton_self _, by rw [colon]; rfl⟩
    · exact named s (by rw [given]; exact List.mem_singleton_self s)
  rw [MethodCall.endpoint, hp]
  cases given : namedArgument? c.args "targetPort" with
  | none => exact ⟨_, rfl⟩
  | some s =>
    obtain ⟨t, ht⟩ := exists_port (target s (by rw [given]; exact List.mem_singleton_self s))
    simp only [ht]
    exact ⟨_, rfl⟩

theorem exists_binding (h : c.method = "WithServiceBinding") (fits : Fits c) :
    ∃ e, c.binding? = .ok e := by
  obtain ⟨p, hp⟩ := exists_firstPort (.inr h) fits
  rw [MethodCall.binding?, hp]
  cases p with
  | none => exact ⟨none, rfl⟩
  | some p => exact ⟨_, rfl⟩

end Ports

section Values

variable {α : Type}

/-- What the calls of one method say. -/
def saidBy (method : String) (read : MethodCall → Option α) (c : MethodCall) : Option α :=
  if c.method = method then read c else none

/-- The last value that the calls give, or else the one from before. -/
def lastValue (read : MethodCall → Option α) (calls : List MethodCall) (old : Option α) : Option α :=
  (calls.filterMap read).getLast?.or old

/-- The port of the last call that sets one, even when that is no port. -/
def lastPort (calls : List MethodCall) (old : Option Int) : Option Int :=
  match (calls.filter fun c => c.method = "WithHostPort").getLast? with
  | some c => c.firstPort.toOption.join
  | none => old

/-- The targets to wait for; there is no list of them before there is a target. -/
def awaited (targets : List String) (old : Option (List String)) : Option (List String) :=
  if targets = [] then old else some (old.getD [] ++ targets)

@[simp] theorem awaited_nil (old : Option (List String)) : awaited [] old = old := rfl

@[simp] theorem awaited_singleton (target : String) (old : Option (List String)) :
    awaited [target] old = some (old.getD [] ++ [target]) := rfl

theorem lastValue_append (read : MethodCall → Option α) (cs ds : List MethodCall)
    (old : Option α) :
    lastValue read (cs ++ ds) old = lastValue read ds (lastValue read cs old) := by
  simp only [lastValue, List.filterMap_append, List.getLast?_append, Option.or_assoc]

theorem lastValue_getD (read : MethodCall → Option α) (calls : List MethodCall) (old : Option α)
    (other : α) :
    (lastValue read calls old).getD other = (lastValue read calls none).getD (old.getD other) := by
  unfold lastValue
  cases (calls.filterMap read).getLast? <;> rfl

theorem lastPort_append (cs ds : List MethodCall) (old : Option Int) :
    lastPort (cs ++ ds) old = lastPort ds (lastPort cs old) := by
  simp only [lastPort, List.filter_append, List.getLast?_append]
  cases (ds.filter fun c => c.method = "WithHostPort").getLast? <;> rfl

theorem awaited_append (xs ys : List String) (old : Option (List String)) :
    awaited (xs ++ ys) old = awaited ys (awaited xs old) := by
  unfold awaited
  by_cases hx : xs = [] <;> by_cases hy : ys = [] <;> simp [hx, hy]

theorem filterMap_one (read : MethodCall → Option α) (c : MethodCall) :
    [c].filterMap read = (read c).toList := by
  cases h : read c <;> simp [h]

theorem lastValue_one (read : MethodCall → Option α) (c : MethodCall) (old : Option α) :
    lastValue read [c] old = (read c).or old := by
  rw [lastValue, filterMap_one]
  cases read c <;> rfl

theorem lastPort_one (c : MethodCall) (old : Option Int) :
    lastPort [c] old =
      if c.method = "WithHostPort" then c.firstPort.toOption.join else old := by
  by_cases h : c.method = "WithHostPort" <;> simp [lastPort, h]

def volume? (c : MethodCall) : Option Volume :=
  match c.method with
  | "WithDataVolume" => some c.dataVolume
  | "WithBindMount" => c.bindMount?
  | _ => none

def webEndpoint? (c : MethodCall) : Option Endpoint :=
  match c.method with
  | "WithHttpEndpoint" => (c.endpoint "http").toOption
  | "WithHttpsEndpoint" => (c.endpoint "https").toOption
  | "WithExternalHttpEndpoints" => some { isExternal := true }
  | _ => none

/-- Applications have bindings besides. -/
def boundEndpoint? (c : MethodCall) : Option Endpoint :=
  if c.method = "WithServiceBinding" then c.binding?.toOption.join else webEndpoint? c

def publishMode? (c : MethodCall) : Option String :=
  match c.method with
  | "PublishAsDockerFile" | "PublishAsDockerfile" => some "dockerfile"
  | "PublishAsContainer" => some "container"
  | _ => none

/-- Whatever is published is built from a file. -/
def buildPack? (c : MethodCall) : Option String := (publishMode? c).map fun _ => "dockerfile"

end Values

section Records

variable {c : MethodCall}

/-- The database after a row of calls without lambdas. -/
def databaseAfter (d : Database) (calls : List MethodCall) : Database :=
  { d with
    image := lastValue (saidBy "WithImage" MethodCall.literal?) calls d.image
    imageTag := lastValue (saidBy "WithImageTag" MethodCall.literal?) calls d.imageTag
    hostPort := lastPort calls d.hostPort
    hasDataVolume := d.hasDataVolume || calls.any fun c => c.method = "WithDataVolume"
    environment := d.environment ++
      calls.filterMap (saidBy "WithEnvironment" MethodCall.environmentVariable?) }

def serviceAfter (s : Service) (calls : List MethodCall) : Service :=
  { s with
    image := lastValue (saidBy "WithImage" MethodCall.literal?) calls s.image
    imageTag := lastValue (saidBy "WithImageTag" MethodCall.literal?) calls s.imageTag
    hostPort := lastPort calls s.hostPort
    environment := s.environment ++
      calls.filterMap (saidBy "WithEnvironment" MethodCall.environmentVariable?)
    volumes := s.volumes ++ calls.filterMap volume?
    endpoints := s.endpoints ++ calls.filterMap webEndpoint?
    references := s.references ++ calls.filterMap (saidBy "WithReference" MethodCall.target?) }

def applicationAfter (a : Application) (calls : List MethodCall) : Application :=
  { a with
    buildPack := (lastValue buildPack? calls none).getD a.buildPack
    publishMode := lastValue publishMode? calls a.publishMode
    environment := a.environment ++
      calls.filterMap (saidBy "WithEnvironment" MethodCall.environmentVariable?)
    endpoints := a.endpoints ++ calls.filterMap boundEndpoint?
    references := a.references ++ calls.filterMap (saidBy "WithReference" MethodCall.target?)
    waitFor := awaited (calls.filterMap (saidBy "WaitFor" MethodCall.target?)) a.waitFor
    runScript := lastValue (saidBy "WithRunScript" MethodCall.firstText?) calls a.runScript
    npmInstallCommand :=
      lastValue (saidBy "WithNpm" (MethodCall.named? · "installCommand")) calls
        a.npmInstallCommand }

theorem databaseAfter_append (d : Database) (cs ds : List MethodCall) :
    databaseAfter d (cs ++ ds) = databaseAfter (databaseAfter d cs) ds := by
  simp only [databaseAfter, lastValue_append, lastPort_append, List.filterMap_append,
    List.append_assoc, List.any_append, Bool.or_assoc]

theorem serviceAfter_append (s : Service) (cs ds : List MethodCall) :
    serviceAfter s (cs ++ ds) = serviceAfter (serviceAfter s cs) ds := by
  simp only [serviceAfter, lastValue_append, lastPort_append, List.filterMap_append,
    List.append_assoc]

theorem applicationAfter_append (a : Application) (cs ds : List MethodCall) :
    applicationAfter a (cs ++ ds) = applicationAfter (applicationAfter a cs) ds := by
  simp only [applicationAfter, lastValue_append, awaited_append, List.filterMap_append,
    List.append_assoc]
  rw [lastValue_getD]

theorem databaseAfter_one (d : Database) (c : MethodCall) :
    databaseAfter d [c] = { d with
      image := (saidBy "WithImage" MethodCall.literal? c).or d.image
      imageTag := (saidBy "WithImageTag" MethodCall.literal? c).or d.imageTag
      hostPort := if c.method = "WithHostPort" then c.firstPort.toOption.join else d.hostPort
      hasDataVolume := d.hasDataVolume || c.method = "WithDataVolume"
      environment := d.environment ++
        (saidBy "WithEnvironment" MethodCall.environmentVariable? c).toList } := by
  simp only [databaseAfter, lastValue_one, lastPort_one, filterMap_one, List.any_cons,
    List.any_nil, Bool.or_false]

theorem serviceAfter_one (s : Service) (c : MethodCall) :
    serviceAfter s [c] = { s with
      image := (saidBy "WithImage" MethodCall.literal? c).or s.image
      imageTag := (saidBy "WithImageTag" MethodCall.literal? c).or s.imageTag
      hostPort := if c.method = "WithHostPort" then c.firstPort.toOption.join else s.hostPort
      environment := s.environment ++
        (saidBy "WithEnvironment" MethodCall.environmentVariable? c).toList
      volumes := s.volumes ++ (volume? c).toList
      endpoints := s.endpoints ++ (webEndpoint? c).toList
      references := s.references ++ (saidBy "WithReference" MethodCall.target? c).toList } := by
  simp only [serviceAfter, lastValue_one, lastPort_one, filterMap_one]

theorem applicationAfter_one (a : Application) (c : MethodCall) :
    applicationAfter a [c] = { a with
      buildPack := (buildPack? c).getD a.buildPack
      publishMode := (publishMode? c).or a.publishMode
      environment := a.environment ++
        (saidBy "WithEnvironment" MethodCall.environmentVariable? c).toList
      endpoints := a.endpoints ++ (boundEndpoint? c).toList
      references := a.references ++ (saidBy "WithReference" MethodCall.target? c).toList
      waitFor := awaited (saidBy "WaitFor" MethodCall.target? c).toList a.waitFor
      runScript := (saidBy "WithRunScript" MethodCall.firstText? c).or a.runScript
      npmInstallCommand := (saidBy "WithNpm" (MethodCall.named? · "installCommand") c).or
        a.npmInstallCommand } := by
  simp only [applicationAfter, lastValue_one, filterMap_one, Option.or_none]

/-- What each call of a row makes of a record, the row makes of it in turn. -/
theorem foldlM_eq_after {ρ : Type} {step : ρ → MethodCall → Reading ρ}
    {after : ρ → List MethodCall → ρ} (start : ∀ r, after r [] = r)
    (append : ∀ r cs ds, after r (cs ++ ds) = after (after r cs) ds)
    (one : ∀ c, Fits c → ∀ r, step r c = .ok (after r [c])) {calls : List MethodCall}
    (fits : ∀ c ∈ calls, Fits c) (r : ρ) : calls.foldlM step r = .ok (after r calls) := by
  induction calls generalizing r with
  | nil => exact congrArg Except.ok (start r).symm
  | cons c rest ih =>
    obtain ⟨head, tail⟩ := List.forall_mem_cons.1 fits
    have split : after r (c :: rest) = after (after r [c]) rest := append r [c] rest
    rw [List.foldlM_cons, one c head, split]
    exact ih tail (after r [c])

end Records

section Steps

variable {ρ α : Type} {r : ρ} {c : MethodCall} {calls : List MethodCall}

/-- What a rule that replays nothing makes of a record. -/
def Rule.act (rule : Option (Rule ρ)) (r : ρ) (c : MethodCall) : Reading ρ :=
  match rule with
  | some (.update change) => (change c).map (· r)
  | _ => .ok r

theorem applyCall_act (rules : Rules ρ) (r : ρ) (c : MethodCall) :
    applyCall rules 0 r c = Rule.act (rules c.method) r c := by
  unfold applyCall Rule.act
  split <;> simp [*]
  contradiction

theorem act_overwrite (read : MethodCall → Option α) (write : α → ρ → ρ) :
    Rule.act (some (.overwrite read write)) r c = .ok ((read c).elim r (write · r)) := by
  cases h : read c <;> simp [Rule.act, Rule.overwrite, h, Except.map]

theorem act_reset {read : MethodCall → Reading (Option α)} {write : Option α → ρ → ρ}
    {v : Option α} (h : read c = .ok v) :
    Rule.act (some (.reset read write)) r c = .ok (write v r) := by
  simp [Rule.act, Rule.reset, h, Except.map]

theorem act_accumulate {read : MethodCall → Reading (Option α)} {add : α → ρ → ρ}
    {v : Option α} (h : read c = .ok v) :
    Rule.act (some (.accumulate read add)) r c = .ok (v.elim r (add · r)) := by
  cases v <;> simp [Rule.act, Rule.accumulate, h, Except.map]

theorem act_collect (read : MethodCall → Option α) (add : α → ρ → ρ) :
    Rule.act (some (.accumulate (.ok ∘ read) add)) r c = .ok ((read c).elim r (add · r)) :=
  act_accumulate rfl

theorem act_always (change : ρ → ρ) : Rule.act (some (.always change)) r c = .ok (change r) := rfl

theorem step_database (fits : Fits c) (d : Database) :
    applyCall databaseRules 0 d c = .ok (databaseAfter d [c]) := by
  rw [applyCall_act, databaseAfter_one]
  unfold databaseRules
  split <;> rename_i h <;> simp only [saidBy]
  · rw [act_overwrite]
    cases c.literal? <;> simp [h]
  · rw [act_overwrite]
    cases c.literal? <;> simp [h]
  · obtain ⟨p, hp⟩ := exists_firstPort (.inl h) fits
    rw [act_reset hp]
    simp [h, hp, Except.toOption]
  · rw [act_always]
    simp [h]
  · rw [act_collect]
    cases c.environmentVariable? <;> simp [h]
  · simp [Rule.act, h]
  · simp_all [Rule.act]

theorem applyCalls_database (fits : ∀ c ∈ calls.flatMap (inlined 8), Fits c) (d : Database) :
    applyCalls databaseRules 0 calls d = .ok (databaseAfter d (calls.flatMap (inlined 8))) := by
  rw [applyCalls_inlined]
  exact foldlM_eq_after (fun d => by simp [databaseAfter, lastValue, lastPort])
    databaseAfter_append (fun c h => step_database h) fits d

theorem step_service (fits : Fits c) (s : Service) :
    applyCall serviceRules 0 s c = .ok (serviceAfter s [c]) := by
  rw [applyCall_act, serviceAfter_one]
  unfold serviceRules
  split <;> rename_i h <;> simp only [saidBy, volume?, webEndpoint?]
  · rw [act_overwrite]
    cases c.literal? <;> simp [h]
  · rw [act_overwrite]
    cases c.literal? <;> simp [h]
  · obtain ⟨p, hp⟩ := exists_firstPort (.inl h) fits
    rw [act_reset hp]
    simp [h, hp, Except.toOption]
  · rw [act_collect]
    cases c.environmentVariable? <;> simp [h]
  · rw [act_accumulate rfl]
    simp [h]
    rfl -- what adds a volume is that update of the record
  · rw [act_collect]
    cases c.bindMount? <;> simp [h]
    rfl
  · obtain ⟨e, he⟩ := exists_endpoint (.inl h) fits "http"
    rw [act_accumulate (congrArg (some <$> ·) he)]
    simp [h, he, Except.toOption]
    rfl
  · obtain ⟨e, he⟩ := exists_endpoint (.inr h) fits "https"
    rw [act_accumulate (congrArg (some <$> ·) he)]
    simp [h, he, Except.toOption]
    rfl
  · rw [act_always]
    simp [h]
    rfl
  · rw [act_collect]
    cases c.target? <;> simp [h]
  · simp_all [Rule.act]

theorem applyCalls_service (fits : ∀ c ∈ calls, Fits c) (s : Service) :
    applyCalls serviceRules 0 calls s = .ok (serviceAfter s calls) := by
  rw [applyCalls_flat (by unfold serviceRules; intro m; split <;> nofun)]
  exact foldlM_eq_after (fun s => by simp [serviceAfter, lastValue, lastPort])
    serviceAfter_append (fun c h => step_service h) fits s

theorem step_application (fits : Fits c) (a : Application) :
    applyCall applicationRules 0 a c = .ok (applicationAfter a [c]) := by
  rw [applyCall_act, applicationAfter_one]
  unfold applicationRules
  split <;> rename_i h <;>
    simp only [saidBy, boundEndpoint?, webEndpoint?, buildPack?, publishMode?]
  · rw [act_collect]
    cases c.environmentVariable? <;> simp [h]
  · obtain ⟨e, he⟩ := exists_endpoint (.inl h) fits "http"
    rw [act_accumulate (congrArg (some <$> ·) he)]
    simp [h, he, Except.toOption]
    rfl
  · obtain ⟨e, he⟩ := exists_endpoint (.inr h) fits "https"
    rw [act_accumulate (congrArg (some <$> ·) he)]
    simp [h, he, Except.toOption]
    rfl
  · rw [act_always]
    simp [h]
    rfl
  · obtain ⟨e, he⟩ := exists_binding h fits
    rw [act_accumulate he]
    cases e <;> simp [h, he, Except.toOption]
    rfl
  · rw [act_collect]
    cases c.target? <;> simp [h]
  · rw [act_collect]
    cases c.target? <;> simp [h]
  · rw [act_always]
    simp [h]
    rfl
  · rw [act_always]
    simp [h]
    rfl
  · rw [act_always]
    simp [h]
    rfl
  · rw [act_overwrite]
    cases c.firstText? <;> simp [h]
  · rw [act_overwrite]
    cases c.named? "installCommand" <;> simp [h]
  · simp_all [Rule.act]

theorem applyCalls_application (fits : ∀ c ∈ calls, Fits c) (a : Application) :
    applyCalls applicationRules 0 calls a = .ok (applicationAfter a calls) := by
  rw [applyCalls_flat (by unfold applicationRules; intro m; split <;> nofun)]
  exact foldlM_eq_after (fun a => by simp [applicationAfter, lastValue])
    applicationAfter_append (fun c h => step_application h) fits a

end Steps

/-- A row of calls whose ports can be read makes of every attribute what the calls for it say: on a
database the calls that are left once every lambda is read in its place, on a service and an
application the calls themselves. -/
theorem applyCalls_attribute_by_attribute :
    (∀ (d : Database) (calls : List MethodCall), (∀ c ∈ calls.flatMap (inlined 8), Fits c) →
      applyCalls databaseRules 0 calls d = .ok (databaseAfter d (calls.flatMap (inlined 8)))) ∧
    (∀ (s : Service) (calls : List MethodCall), (∀ c ∈ calls, Fits c) →
      applyCalls serviceRules 0 calls s = .ok (serviceAfter s calls)) ∧
    (∀ (a : Application) (calls : List MethodCall), (∀ c ∈ calls, Fits c) →
      applyCalls applicationRules 0 calls a = .ok (applicationAfter a calls)) :=
  ⟨fun d _ fits => applyCalls_database fits d, fun s _ fits => applyCalls_service fits s,
    fun a _ fits => applyCalls_application fits a⟩

/-- A lambda in a lambda, and a port that is none after one that is. -/
def nestedLambdas : List MethodCall := [
  .ofText "WithImage".toList "\"postgres\"".toList,
  .ofText "RunAsContainer".toList
    "c => c.WithHostPort(5432).RunAsContainer(d => d.WithImage(\"pgvector\")).WithDataVolume()".toList,
  .ofText "WithHostPort".toList "port".toList]

def waitingCalls : List MethodCall := [
  .ofText "WaitFor".toList "orders".toList,
  .ofText "PublishAsContainer".toList [],
  .ofText "WithHttpEndpoint".toList "8080".toList,
  .ofText "WaitFor".toList "cache".toList]

theorem nested_lambdas_inlined :
    applyCalls databaseRules 0 nestedLambdas { name := "orders" } =
        .ok { name := "orders", image := some "pgvector", hasDataVolume := true } ∧
      applyCalls serviceRules 0 nestedLambdas { name := "orders" } =
        .ok { name := "orders", image := some "postgres" } ∧
      applyCalls applicationRules 0 waitingCalls { name := "shop" } =
        .ok { name := "shop", publishMode := some "container",
              endpoints := [{ port := some 8080 }],
              waitFor := some ["orders", "cache"] } := by
  obtain ⟨databases, services, applications⟩ := applyCalls_attribute_by_attribute
  refine ⟨(databases _ nestedLambdas (by decide +kernel)).trans (congrArg Except.ok ?_),
    (services _ nestedLambdas (by decide +kernel)).trans (congrArg Except.ok ?_),
    (applications _ waitingCalls (by decide +kernel)).trans (congrArg Except.ok ?_)⟩
  · decide +kernel
  · decide +kernel
  · decide +kernel

end HostPlan.Declaration
