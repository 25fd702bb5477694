import HostPlan.Declaration.Assembly
/-!
What the reading of a program keeps. A property of a record that no rule of its table breaks holds
after any row of calls, inside lambdas too; so every database of a program is of a kind that the
platform can create, whichever way it came into the model.
-/
namespace HostPlan.Declaration

open Source

theorem Reading.bind_eq_ok_iff {α β : Type} {x : Reading α} {f : α → Reading β} {b : β} :
    x >>= f = .ok b ↔ ∃ a, x = .ok a ∧ f a = .ok b := by
  cases x with
  | error e => simp [bind, Except.bind]
  | ok a => simp [bind, Except.bind]

theorem Reading.map_eq_ok_iff {α β : Type} {x : Reading α} {f : α → β} {b : β} :
    x.map f = .ok b ↔ ∃ a, x = .ok a ∧ f a = b := by
  cases x with
  | error e => simp [Except.map]
  | ok a => simp [Except.map]

theorem Reading.mem_of_mapM {α β : Type} {f : α → Reading β} {l : List α} {l' : List β}
    (h : l.mapM f = .ok l') {b : β} (hb : b ∈ l') : ∃ a ∈ l, f a = .ok b := by
  induction l generalizing l' with
  | nil =>
    cases h
    simp at hb
  | cons a rest ih =>
    rw [List.mapM_cons] at h
    obtain ⟨b₀, hb₀, h⟩ := bind_eq_ok_iff.1 h
    obtain ⟨rest', hrest, h⟩ := bind_eq_ok_iff.1 h
    cases h
    rcases List.mem_cons.1 hb with rfl | hb
    · exact ⟨a, List.mem_cons_self, hb₀⟩
    · obtain ⟨a', ha', hf⟩ := ih hrest hb
      exact ⟨a', List.mem_cons_of_mem _ ha', hf⟩

section Rules

variable {ρ : Type} (P : ρ → Prop)

/-- No rule of the table breaks the property. -/
def Rules.Keep (rules : Rules ρ) : Prop :=
  ∀ method change, rules method = some (.update change) →
    ∀ c f, change c = .ok f → ∀ r, P r → P (f r)

variable {P} {rules : Rules ρ}

theorem keep_foldlM {step : ρ → MethodCall → Reading ρ}
    (keep : ∀ r c r', step r c = .ok r' → P r → P r') (calls : List MethodCall) {r r' : ρ}
    (h : calls.foldlM step r = .ok r') (hr : P r) : P r' := by
  induction calls generalizing r with
  | nil =>
    cases h
    exact hr
  | cons c rest ih =>
    rw [List.foldlM_cons] at h
    obtain ⟨r₁, h₁, h⟩ := Reading.bind_eq_ok_iff.1 h
    exact ih h (keep r c r₁ h₁ hr)

theorem keep_applyCall (keep : rules.Keep P) (levels : Nat) (r : ρ) (c : MethodCall) (r' : ρ)
    (h : applyCall rules levels r c = .ok r') (hr : P r) : P r' := by
  induction levels generalizing r c r' with
  | zero =>
    unfold applyCall at h
    split at h
    · cases h
      exact hr
    · rename_i change hrule
      obtain ⟨f, hf, rfl⟩ := Reading.map_eq_ok_iff.1 h
      exact keep _ change hrule c f hf r hr
    · cases h
      exact hr
    · rename_i impossible
      cases impossible
  | succ levels ih =>
    unfold applyCall at h
    split at h
    · cases h
      exact hr
    · rename_i change hrule
      obtain ⟨f, hf, rfl⟩ := Reading.map_eq_ok_iff.1 h
      exact keep _ change hrule c f hf r hr
    · rename_i impossible
      cases impossible
    · rename_i same
      cases same
      exact keep_foldlM ih _ h hr

/-- What a table keeps, it keeps over any row of calls. -/
theorem keep_applyCalls (keep : rules.Keep P) (depth : Nat) (calls : List MethodCall) {r r' : ρ}
    (h : applyCalls rules depth calls r = .ok r') (hr : P r) : P r' :=
  keep_foldlM (keep_applyCall keep (maxLambdaDepth - depth)) calls h hr

end Rules

/-- The database is of one of the kinds that the platform can create. -/
def Known (d : Database) : Prop := ∃ e, d.kind = .engine e

theorem databaseRules_keep (k : DatabaseKind) : databaseRules.Keep fun d => d.kind = k := by
  intro method change hrule c f hf d hd
  unfold databaseRules at hrule
  split at hrule
  · cases hrule
    cases hf
    cases c.literal? <;> exact hd
  · cases hrule
    cases hf
    cases c.literal? <;> exact hd
  · cases hrule
    obtain ⟨port, _, rfl⟩ := Reading.map_eq_ok_iff.1 hf
    exact hd
  · cases hrule
    cases hf
    exact hd
  · cases hrule
    obtain ⟨v, _, rfl⟩ := Reading.map_eq_ok_iff.1 hf
    cases v <;> exact hd
  · cases hrule
  · cases hrule

theorem known_database {c : Chain} {d : Database} (h : database c = .ok d) : Known d :=
  ⟨_, keep_applyCalls (databaseRules_keep _) 0 c.calls h rfl⟩

theorem known_place {s : Service} {d : Database} (h : place s = .database d) : Known d := by
  unfold place at h
  split at h
  · rename_i hk
    cases h
    rcases hk with hk | hk
    · exact ⟨.redis, by simp only [asDatabase, hk]; rfl⟩
    · exact ⟨.mongodb, by simp only [asDatabase, hk]; rfl⟩
  · split at h <;> cases h

theorem known_resource {c : Chain} {d : Database} (h : resource? c = .ok (some (.database d))) :
    Known d := by
  unfold resource? at h
  split at h
  · obtain ⟨d', hd', he⟩ := Reading.map_eq_ok_iff.1 h
    cases he
    exact known_database hd'
  · split at h
    · obtain ⟨s, _, he⟩ := Reading.map_eq_ok_iff.1 h
      exact known_place (Option.some.inj he)
    · split at h
      · obtain ⟨_, _, he⟩ := Reading.map_eq_ok_iff.1 h
        cases he
      · cases h

theorem known_child {chains : List Chain} {c : Chain} {d : Database}
    (h : child chains c = .ok d) : Known d := by
  unfold child at h
  simp only at h
  split at h
  · cases h
    exact ⟨.postgres, rfl⟩
  · split at h
    · cases h
      exact ⟨.postgres, rfl⟩
    · obtain ⟨server, hserver, h⟩ := Reading.bind_eq_ok_iff.1 h
      cases h
      obtain ⟨e, he⟩ := known_database hserver
      exact ⟨e, he⟩

/-- Where the databases of an assembly come from. -/
theorem databases_of_assemble {chains : List Chain} {a : Assembly} (h : assemble chains = .ok a) :
    ∃ added, children chains = .ok added ∧
      a.model.databases =
        withoutServers (collect (resources chains)).databases added ++ added := by
  unfold assemble at h
  obtain ⟨added, hadded, h⟩ := Reading.bind_eq_ok_iff.1 h
  cases h
  exact ⟨added, hadded, rfl⟩

theorem known_assemble {chains : List Chain} {a : Assembly} (h : assemble chains = .ok a) :
    ∀ d ∈ a.model.databases, Known d := by
  obtain ⟨added, hadded, databases⟩ := databases_of_assemble h
  intro d hd
  rw [databases] at hd
  rcases List.mem_append.1 hd with hd | hd
  · have declared := (List.mem_filter.1 hd).1
    obtain ⟨r, hr, hrd⟩ := List.mem_filterMap.1 declared
    obtain ⟨c, _, hc⟩ := List.mem_filterMap.1 hr
    split at hrd
    · cases hrd
      split at hc
      · rename_i hres
        rw [hc] at hres
        exact known_resource hres
      · cases hc
    · cases hrd
  · obtain ⟨c, _, hc⟩ := Reading.mem_of_mapM hadded hd
    exact known_child hc

theorem known_readProgram {source : List Char} {a : Assembly} (h : readProgram source = .ok a) :
    ∀ d ∈ a.model.databases, Known d := by
  unfold readProgram at h
  obtain ⟨a', ha', h⟩ := Reading.bind_eq_ok_iff.1 h
  cases h
  intro d hd
  exact known_assemble ha' d hd

end HostPlan.Declaration
