import Dalston.Foundation.Pool
import Dalston.Model.Json

/-!
# Admin settings

Overrides of the settings are rows of the database, one for a key of a namespace. Each
gateway process keeps what it last read of a namespace for some seconds. An update can
carry the timestamp of the namespace its author has seen; it is checked against the
newest timestamp of the rows, which may come from the cache, before the rows are read
one by one and the changes are committed.

## Implementation notes

A transaction's changes are committed in one effect, at which other calls see them. The
time that `now()` has in a call's transaction is an argument of the call. The versions
of a namespace, the newest timestamps it has had, latest first, are kept for the
statements only: no code reads them. The definitions of the settings are a parameter, and
a value is stored as it is rather than under a key of its own.
-/

namespace Dalston.Gateway.Settings

open Foundation Model

/-- A point in time, in seconds. -/
abbrev Instant := Rat

/-- `_CACHE_TTL_SECONDS`. -/
def cacheTtlSeconds : Rat := 5

/-- The rows that one namespace has for a tenant, or for the whole system. -/
structure Scope where
  tenantId : Option Nat
  ns : String
  deriving DecidableEq

section Values

mutual

/-- Equality of Python values: `True` and `1` are equal. -/
def same : Json → Json → Bool
  | .null, .null => true
  | .str s, .str s' => s = s'
  | .arr items, .arr items' => sameItems items items'
  | .obj fields, .obj fields' => sameFields fields fields'
  | value, value' => value.number.isSome && value.number = value'.number

def sameItems : List Json → List Json → Bool
  | [], [] => true
  | item :: items, item' :: items' => same item item' && sameItems items items'
  | _, _ => false

def sameFields : List (String × Json) → List (String × Json) → Bool
  | [], [] => true
  | (key, value) :: fields, (key', value') :: fields' =>
      key = key' && same value value' && sameFields fields fields'
  | _, _ => false

end

inductive ValueType
  | int | float | bool | string | select

/-- `SettingDefinition`, with the default its environment variable gives. -/
structure SettingDefinition where
  key : String
  valueType : ValueType
  minValue : Option Rat
  maxValue : Option Rat
  options : Option (List Json)
  nullable : Bool
  envDefault : Json

/-- What is wrong with a value. -/
inductive ValueProblem
  | null
  | expected (what got : String)
  | belowMinimum (minimum : Rat)
  | aboveMaximum (maximum : Rat)
  | notAnOption (options : List Json)

/-- `type(value).__name__`. -/
def typeName : Json → String
  | .null => "NoneType"
  | .bool _ => "bool"
  | .num q => if q.den = 1 then "int" else "float"
  | .str _ => "str"
  | .arr _ => "list"
  | .obj _ => "dict"

/-- The bounds of a number. -/
def validateBounds (defn : SettingDefinition) (q : Rat) : Option ValueProblem :=
  match defn.minValue.filter (q < ·), defn.maxValue.filter (· < q) with
  | some minimum, _ => some (.belowMinimum minimum)
  | none, some maximum => some (.aboveMaximum maximum)
  | none, none => none

/-- `_validate_value`. -/
def validateValue (defn : SettingDefinition) (value : Json) : Option ValueProblem :=
  match defn.valueType, value with
  | _, .null => if defn.nullable then none else some .null
  | .int, .num q =>
      if q.den = 1 then validateBounds defn q else some (.expected "integer" (typeName value))
  | .int, _ => some (.expected "integer" (typeName value))
  | .float, .num q => validateBounds defn q
  | .float, _ => some (.expected "number" (typeName value))
  | .bool, .bool _ => none
  | .bool, _ => some (.expected "boolean" (typeName value))
  | .string, .str _ => none
  | .string, _ => some (.expected "string" (typeName value))
  | .select, _ =>
      match defn.options with
      | none | some [] => none
      | some options => if options.any (same value) then none else some (.notAnOption options)

/-- The namespaces and their settings. -/
structure SettingsRegistry where
  /-- Whether a namespace is editable, if it exists. -/
  editable : String → Option Bool
  definitions : String → List SettingDefinition

def SettingsRegistry.definition? (registry : SettingsRegistry) (ns key : String) :
    Option SettingDefinition :=
  (registry.definitions ns).find? fun defn => defn.key = key

inductive SettingsError
  | unknownNamespace (ns : String)
  | readOnly (ns : String)
  | unknownSetting (ns key : String)
  | invalidValue (key : String) (problem : ValueProblem)
  /-- Settings were modified by another admin. -/
  | conflict
  | multipleResultsFound
  /-- A row that was to be updated is gone. -/
  | staleData
  /-- A row with the key exists. -/
  | integrity

/-- Validate all keys and values. -/
def validateUpdates (registry : SettingsRegistry) (ns : String) :
    Dict Json → Option SettingsError
  | [] => none
  | (key, value) :: rest =>
      match registry.definition? ns key with
      | none => some (.unknownSetting ns key)
      | some defn =>
          match validateValue defn value with
          | some problem => some (.invalidValue key problem)
          | none => validateUpdates registry ns rest

/-- The namespace exists and is editable. -/
def validateNamespace (registry : SettingsRegistry) (ns : String) : Option SettingsError :=
  match registry.editable ns with
  | none => some (.unknownNamespace ns)
  | some false => some (.readOnly ns)
  | some true => none

end Values

section Store

/-- A row of the `settings` table. -/
structure SettingRow where
  id : Nat
  scope : Scope
  key : String
  value : Json
  updatedBy : Option Nat
  updatedAt : Instant

/-- Overrides of a namespace as a process read them. -/
structure CacheEntry where
  rows : Dict Json
  updatedAt : Option Instant
  fetchedAt : Instant

/-- A pending change of a transaction. -/
inductive Change
  | delete (id : Nat)
  | write (id : Nat) (value : Json) (updatedBy : Nat)
  | insert (key : String) (value : Json) (updatedBy : Nat)

/-- The database, the clock and the caches of the processes. -/
structure SettingsStore where
  now : Instant
  nextId : Nat
  rows : List SettingRow
  caches : Nat → Scope → Option CacheEntry
  /-- The newest timestamps each namespace has had, latest first. -/
  versions : Scope → List (Option Instant)

namespace SettingsStore

variable (s : SettingsStore)

/-- The rows of a namespace. -/
def rowsOf (scope : Scope) : List SettingRow := s.rows.filter fun row => row.scope = scope

/-- The newest timestamp of rows. -/
def latest : List SettingRow → Option Instant
  | [] => none
  | row :: rest =>
      match latest rest with
      | none => some row.updatedAt
      | some updatedAt => some (max row.updatedAt updatedAt)

/-- The newest timestamp of a namespace. -/
def updatedAt (scope : Scope) : Option Instant := latest (s.rowsOf scope)

def overrides (scope : Scope) : Dict Json :=
  (s.rowsOf scope).foldl (fun rows row => rows.set row.key row.value) []

/-- The entry of a process's cache, while it is fresh. -/
def cached (process : Nat) (scope : Scope) : Option CacheEntry :=
  (s.caches process scope).filter fun entry => s.now - entry.fetchedAt < cacheTtlSeconds

def setCache (process : Nat) (scope : Scope) (entry : Option CacheEntry) : SettingsStore :=
  { s with
      caches := fun process' scope' =>
        if process' = process ∧ scope' = scope then entry else s.caches process' scope' }

/-- What the database makes of a change of a row of the namespace; an update that changes
nothing is not sent. -/
def change (scope : Scope) (stamp : Instant) (s : SettingsStore) : Change → SettingsStore
  | .delete id =>
      { s with rows := s.rows.filter fun row => ¬ (row.scope = scope ∧ row.id = id) }
  | .write id value updatedBy =>
      { s with
          rows := s.rows.map fun row =>
            if (row.scope = scope ∧ row.id = id) ∧
                ¬ (same row.value value ∧ row.updatedBy = some updatedBy) then
              { row with value, updatedBy := some updatedBy, updatedAt := stamp }
            else row }
  | .insert key value updatedBy =>
      { s with
          nextId := s.nextId + 1
          rows := s.rows ++ [⟨s.nextId, scope, key, value, some updatedBy, stamp⟩] }

/-- A committed transaction leaves a new version of the namespace. -/
def addVersion (scope : Scope) : SettingsStore :=
  { s with
      versions := fun scope' =>
        if scope' = scope then s.updatedAt scope :: s.versions scope else s.versions scope' }

/-- The error that a commit raises: a row to update is gone, or a key of a tenant exists. -/
def commitError (scope : Scope) (changes : List Change) : Option SettingsError :=
  changes.findSome? fun
    | .delete _ => none
    | .write id _ _ => if s.rows.any (·.id = id) then none else some .staleData
    | .insert key _ _ =>
        if scope.tenantId.isSome ∧ (s.rowsOf scope).any (·.key = key) then some .integrity
        else none

end SettingsStore

end Store

section Requests

inductive Request
  /-- The timestamp that an update checks is not part of a request, here and below. -/
  | readCache (process : Nat) (scope : Scope) (check : Option Instant)
  | selectNamespace (scope : Scope) (check : Option Instant)
  | putCache (process : Nat) (scope : Scope) (rows : Dict Json) (updatedAt : Option Instant)
      (check : Option Instant)
  | selectRow (scope : Scope) (key : String) (check : Option Instant)
  | commitUpdate (scope : Scope) (changes : List Change) (stamp : Instant) (check : Option Instant)
  | deleteRows (scope : Scope)
  | commitReset (scope : Scope) (ids : List Nat)
  | invalidate (process : Nat) (scope : Scope)
  | timePasses (seconds : Nat)
  | processRestarts (process : Nat)

def Request.apply (r : Request) (s : SettingsStore) : SettingsStore :=
  match r with
  | .putCache process scope rows updatedAt _ =>
      s.setCache process scope (some ⟨rows, updatedAt, s.now⟩)
  | .commitUpdate scope changes stamp _ =>
      match s.commitError scope changes with
      | some _ => s
      | none => (changes.foldl (SettingsStore.change scope stamp) s).addVersion scope
  | .commitReset scope ids =>
      { s with
          rows := s.rows.filter fun row => ¬ (row.scope = scope ∧ row.id ∈ ids) }.addVersion scope
  | .invalidate process scope => s.setCache process scope none
  | .timePasses seconds => { s with now := s.now + seconds }
  | .processRestarts process =>
      { s with
          caches := fun process' scope =>
            if process' = process then none else s.caches process' scope }
  | .readCache _ _ _ | .selectNamespace _ _ | .selectRow _ _ _ | .deleteRows _ => s

instance : Interprets Request SettingsStore := ⟨Request.apply⟩

abbrev Op (A : Type) := Program Request SettingsStore A

def exec (r : Request) : Op Unit := do
  let _ ← Program.perform r
  return ()

theorem follows_exec {L A : Type} {R : L → SettingsStore → Request → L → Prop}
    {J : SettingsStore → Prop} {Q : A → L → Prop} {l : L} {r : Request} {next : Op A} :
    (exec r >>= fun _ => next).Follows R J Q l ↔
      ∀ s, J s → ∃ l', R l s r l' ∧ next.Follows R J Q l' :=
  Iff.rfl

/-- What happens outside the calls. -/
def Request.fromOutside : Request → Bool
  | .timePasses _ | .processRestarts _ => true
  | _ => false

end Requests

section Code

/-- A setting with its resolved value. -/
structure ResolvedSetting where
  key : String
  value : Json
  defaultValue : Json
  isOverridden : Bool

structure NamespaceSettings where
  ns : String
  settings : List ResolvedSetting
  updatedAt : Option Instant

inductive Reply
  | settings (found : Option NamespaceSettings)
  | changed (settings : NamespaceSettings) (oldValues : Dict Json)
  | failed (error : SettingsError)

/-- Read the rows of a namespace and cache them. -/
def selectRows (process : Nat) (scope : Scope) (check : Option Instant) :
    Op (Dict Json × Option Instant) := do
  let s ← Program.perform (.selectNamespace scope check)
  exec (.putCache process scope (s.overrides scope) (s.updatedAt scope) check)
  return (s.overrides scope, s.updatedAt scope)

def fetchUncached (process : Nat) (scope : Scope) (check : Option Instant) :
    Option CacheEntry → Op (Dict Json × Option Instant)
  | some entry => return (entry.rows, entry.updatedAt)
  | none => selectRows process scope check

/-- `_fetch_namespace_rows`. -/
def fetchNamespaceRows (process : Nat) (scope : Scope) (check : Option Instant) :
    Op (Dict Json × Option Instant) := do
  let s ← Program.perform (.readCache process scope check)
  fetchUncached process scope check (s.cached process scope)

/-- `_resolve`. -/
def resolve (defn : SettingDefinition) (overrides : Dict Json) : ResolvedSetting :=
  let defaultValue := if defn.nullable then .null else defn.envDefault
  ⟨defn.key, overrides.getD defn.key defaultValue, defaultValue, overrides.contains defn.key⟩

def namespaceSettings (registry : SettingsRegistry) (ns : String)
    (fetched : Dict Json × Option Instant) : NamespaceSettings where
  ns
  settings := (registry.definitions ns).map fun defn => resolve defn fetched.1
  updatedAt := fetched.2

/-- `get_namespace`, for the namespaces whose settings are in the database. -/
def getNamespace (registry : SettingsRegistry) (process : Nat) (scope : Scope) :
    Op NamespaceSettings := do
  let fetched ← fetchNamespaceRows process scope none
  return namespaceSettings registry scope.ns fetched

def getSettings (registry : SettingsRegistry) (process : Nat) (scope : Scope) : Op Reply :=
  match registry.editable scope.ns with
  | none => return .settings none
  | some _ => do
      let found ← getNamespace registry process scope
      return .settings (some found)

/-- The changes of an update so far, and the values they replace. -/
structure Pending where
  changes : List Change
  oldValues : Dict Json

/-- The change of one setting. -/
def upsert (registry : SettingsRegistry) (scope : Scope) (updatedBy : Nat) (key : String)
    (value : Json) (pending : Pending) : Option SettingRow → Pending
  | none =>
      match registry.definition? scope.ns key, value with
      | some ⟨_, _, _, _, _, true, _⟩, .null => pending
      | none, _ => pending
      | some defn, value =>
          ⟨pending.changes ++ [.insert key value updatedBy],
            pending.oldValues.set key defn.envDefault⟩
  | some row =>
      let oldValues := pending.oldValues.set key row.value
      match registry.definition? scope.ns key, value with
      | some ⟨_, _, _, _, _, true, _⟩, .null => ⟨pending.changes ++ [.delete row.id], oldValues⟩
      | _, value => ⟨pending.changes ++ [.write row.id value updatedBy], oldValues⟩

/-- `scalar_one_or_none`. -/
def oneOrNone : List SettingRow → Except SettingsError (Option SettingRow)
  | [] => .ok none
  | [row] => .ok (some row)
  | _ => .error .multipleResultsFound

/-- Fetch the row of each setting and upsert it. -/
def upsertAll (registry : SettingsRegistry) (scope : Scope) (updatedBy : Nat)
    (check : Option Instant) (pending : Pending) : Dict Json → Op (Except SettingsError Pending)
  | [] => return .ok pending
  | (key, value) :: rest => do
      let s ← Program.perform (.selectRow scope key check)
      match oneOrNone ((s.rowsOf scope).filter fun row => row.key = key) with
      | .error error => return .error error
      | .ok row =>
          upsertAll registry scope updatedBy check
            (upsert registry scope updatedBy key value pending row) rest

/-- Invalidate the cache and return the namespace. -/
def finishChange (registry : SettingsRegistry) (process : Nat) (scope : Scope)
    (oldValues : Dict Json) : Op Reply := do
  exec (.invalidate process scope)
  let settings ← getNamespace registry process scope
  return .changed settings oldValues

def commitPending (registry : SettingsRegistry) (process : Nat) (scope : Scope) (stamp : Instant)
    (check : Option Instant) : Except SettingsError Pending → Op Reply
  | .error error => return .failed error
  | .ok pending => do
      let s ← Program.perform (.commitUpdate scope pending.changes stamp check)
      match s.commitError scope pending.changes with
      | some error => return .failed error
      | none => finishChange registry process scope pending.oldValues

/-- The arguments of `update_namespace`, and the time that `now()` has in its transaction. -/
structure Update where
  process : Nat
  scope : Scope
  updates : Dict Json
  updatedBy : Nat
  expectedUpdatedAt : Option Instant
  stamp : Instant

def applyUpdate (registry : SettingsRegistry) (u : Update) : Op Reply :=
  upsertAll registry u.scope u.updatedBy u.expectedUpdatedAt ⟨[], []⟩ u.updates >>=
    commitPending registry u.process u.scope u.stamp u.expectedUpdatedAt

/-- The namespace was modified after the expected timestamp. -/
def modifiedAfter (expected : Instant) (current : Option Instant) : Bool :=
  current.any fun current => expected < current

def applyChecked (registry : SettingsRegistry) (u : Update) (expected : Instant)
    (fetched : Dict Json × Option Instant) : Op Reply :=
  if modifiedAfter expected fetched.2 then return .failed .conflict
  else applyUpdate registry u

def checkUpdate (registry : SettingsRegistry) (u : Update) : Option Instant → Op Reply
  | none => applyUpdate registry u
  | some expected =>
      fetchNamespaceRows u.process u.scope (some expected) >>= applyChecked registry u expected

/-- `update_namespace`. -/
def updateNamespace (registry : SettingsRegistry) (u : Update) : Op Reply :=
  match (validateNamespace registry u.scope.ns).or
      (validateUpdates registry u.scope.ns u.updates) with
  | some error => return .failed error
  | none => checkUpdate registry u u.expectedUpdatedAt

/-- `reset_namespace`. -/
def resetNamespace (registry : SettingsRegistry) (process : Nat) (scope : Scope) : Op Reply :=
  match validateNamespace registry scope.ns with
  | some error => return .failed error
  | none => do
      let fetched ← fetchNamespaceRows process scope none
      let s ← Program.perform (.deleteRows scope)
      exec (.commitReset scope ((s.rowsOf scope).map (·.id)))
      finishChange registry process scope fetched.1

inductive Call
  | get (process : Nat) (scope : Scope)
  | update (u : Update)
  | reset (process : Nat) (scope : Scope)

def Call.code (registry : SettingsRegistry) : Call → Op Reply
  | .get process scope => getSettings registry process scope
  | .update u => updateNamespace registry u
  | .reset process scope => resetNamespace registry process scope

abbrev SettingsThread := Thread Call Request SettingsStore Reply

abbrev SettingsPool := Pool Call Request SettingsStore Reply

end Code

end Dalston.Gateway.Settings
