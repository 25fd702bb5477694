/-!
Kinds of databases. The engines that a plan knows are five; a kind that is none of them keeps its
name, so that a model can still be shown and exported.
-/
namespace HostPlan

inductive Engine where
  | postgres
  | sqlserver
  | mysql
  | mongodb
  | redis
deriving DecidableEq, Repr

namespace Engine

def name : Engine → String
  | .postgres => "postgres"
  | .sqlserver => "sqlserver"
  | .mysql => "mysql"
  | .mongodb => "mongodb"
  | .redis => "redis"

def ofName? : String → Option Engine
  | "postgres" => some .postgres
  | "sqlserver" => some .sqlserver
  | "mysql" => some .mysql
  | "mongodb" => some .mongodb
  | "redis" => some .redis
  | _ => none

theorem ofName?_name (e : Engine) : ofName? e.name = some e := by
  cases e <;> rfl

theorem name_of_ofName? {s : String} {e : Engine} (h : ofName? s = some e) : e.name = s := by
  unfold ofName? at h
  split at h <;> cases h <;> rfl

end Engine

inductive DatabaseKind where
  | engine (e : Engine)
  | other (name : String) (unknown : Engine.ofName? name = none)
deriving DecidableEq

namespace DatabaseKind

def name : DatabaseKind → String
  | .engine e => e.name
  | .other s _ => s

def ofName (s : String) : DatabaseKind :=
  match h : Engine.ofName? s with
  | some e => .engine e
  | none => .other s h

@[simp] theorem name_ofName (s : String) : (ofName s).name = s := by
  unfold ofName
  split
  · exact Engine.name_of_ofName? (by assumption)
  · rfl

@[simp] theorem ofName_name (k : DatabaseKind) : ofName k.name = k := by
  cases k with
  | engine e => cases e <;> rfl
  | other s h =>
    unfold ofName
    split
    · rename_i e he
      simp [name, h] at he
    · rfl

instance : Inhabited DatabaseKind := ⟨.engine .postgres⟩

end DatabaseKind
end HostPlan
