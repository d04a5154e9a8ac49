import S4.Lib.Agents
import S4.Lib.KeyMap
import S4.Lib.Recency
import S4.Lib.Word
import S4.Managed.Types
import S4.Records.Decoder

/-!
# Plugins — Registry

`PluginRegistry`: a catalog of plugins over a cache of compiled components, which is keyed by digest
and bounded by weight.  Components that the catalog refers to are pinned; of the others the least
recently used go when the cache is over its bound.

The registry's state is behind a lock, and the calls take it once or twice: an import looks the
component up, compiles it without the lock, and takes the lock again to register it; a request does
the same, with the component fetched first.  What is done under the lock at one time is a `Section`,
and the calls are programs over sections, compilations and fetches.  Every call to
`evict_unreferenced_engines` is the last thing a section does.

`World` adds to the state what the cache has gone through: the uses of components, oldest first, and
the evictions.  Nothing in the registry reads them.
-/

namespace S4.Plugins

open Lib
open Managed (Sha256 Uuid)
open Records (Bytes S4Error)

namespace Codes

def wasmInit : String := "wasm.init"

end Codes

/-- The width of a `usize`. -/
def usizeBits : Nat := 64

def defaultCompileCacheMaxWeight : Nat := 1024 * 1024 * 1024

def defaultGuestMemoryBytes : Nat := 64 * 1024 * 1024

structure PluginInfo where
  id : String
  name : String
  version : String
  enabled : Bool
  description : String
deriving DecidableEq

structure PluginCapabilities where
  prefixSafeForRead : Bool
deriving DecidableEq

/-- A compiled component. -/
structure FilterEngine where
  component : Bytes
  fuel : Nat
  guestMemoryLimit : Nat
deriving DecidableEq

/-- The engine of a component that compiles, with the default limits. -/
def FilterEngine.withFuel (component : Bytes) (fuel : Nat) : FilterEngine :=
  ⟨component, fuel, defaultGuestMemoryBytes⟩

structure Plugin where
  info : PluginInfo
  componentHash : String
  capabilities : PluginCapabilities
  engine : FilterEngine
deriving DecidableEq

structure CacheEntry where
  engine : FilterEngine
  capabilities : PluginCapabilities
  bytes : Bytes
  weight : Nat
deriving DecidableEq

/-- The catalog of plugins in its order, and the cache of components. -/
structure RegistryState where
  plugins : KeyMap String Plugin
  order : List String
  engines : KeyMap String CacheEntry
  cacheOrder : List String
  cacheWeight : Nat
  cacheMaxWeight : Nat

/-- The state of a registry that `with_options_and_cache` makes. -/
def RegistryState.withCache (cacheMaxWeight : Option Nat) : Except S4Error RegistryState :=
  let cacheMaxWeight := cacheMaxWeight.getD defaultCompileCacheMaxWeight
  if cacheMaxWeight = 0 then
    .error ⟨Records.Codes.configInvalid, "component compile cache weight must be greater than zero"⟩
  else .ok ⟨∅, [], ∅, [], 0, cacheMaxWeight⟩

/-! ### The cache -/

namespace RegistryState

variable (s : RegistryState)

def touchCacheEntry (componentHash : String) : RegistryState :=
  { s with cacheOrder := touch s.cacheOrder componentHash }

/-- A plugin of the catalog has this component. -/
def referenced (componentHash : String) : Bool :=
  s.plugins.any fun plugin => plugin.componentHash == componentHash

/-- The least recently used component that is cached and that no plugin references. -/
def victim : Option String :=
  s.cacheOrder.find? fun hash => !s.referenced hash && s.engines.contains hash

def evict (victim : String) : RegistryState :=
  { s with
    cacheOrder := s.cacheOrder.erase victim
    engines := s.engines.erase victim
    cacheWeight := match s.engines.get? victim with
      | some entry => s.cacheWeight - entry.weight
      | none => s.cacheWeight }

/-- The component that the next turn of the loop of `evict_unreferenced_engines` evicts. -/
def nextVictim : Option String := if s.cacheMaxWeight < s.cacheWeight then s.victim else none

/-- The turns of the loop, each with the state before it. -/
def evictionsFor : Nat → RegistryState → List (RegistryState × String)
  | 0,         _ => []
  | turns + 1, s => match s.nextVictim with
      | none => []
      | some victim => (s, victim) :: evictionsFor turns (s.evict victim)

def evictFor : Nat → RegistryState → RegistryState
  | 0,         s => s
  | turns + 1, s => match s.nextVictim with
      | none => s
      | some victim => evictFor turns (s.evict victim)

/-- Every turn takes a component from the order, which bounds their number. -/
def evictUnreferencedEngines : RegistryState := evictFor s.cacheOrder.length s

def evictions : List (RegistryState × String) := evictionsFor s.cacheOrder.length s

end RegistryState

/-! ### What is done under the lock -/

/-- The answer of a section, the state that it leaves, the component that it touches, and whether it
ends with a call to `evict_unreferenced_engines`, in that state. -/
structure Section (α : Type) where
  answer : α
  state : RegistryState
  touched : Option String
  evicts : Bool

/-- What `import_with_capabilities` brings to its second section. -/
structure Import where
  info : PluginInfo
  componentHash : String
  componentBytes : Bytes
  capabilities : PluginCapabilities
  candidate : FilterEngine
deriving DecidableEq

/-- The arguments of `insert_engine`. -/
structure Insertion where
  componentHash : String
  engine : FilterEngine
  capabilities : PluginCapabilities
  bytes : Bytes
  weight : Nat
deriving DecidableEq

/-- The text of the error for a component with other capabilities. -/
def conflict (componentHash : String) : String :=
  "component " ++ componentHash ++ " is already registered with different capabilities"

def conflictError (componentHash : String) : S4Error :=
  ⟨Records.Codes.configInvalid, conflict componentHash⟩

namespace RegistryState

variable (s : RegistryState)

def insertEntry (componentHash : String) (entry : CacheEntry) : RegistryState :=
  { s with
    cacheWeight := satAdd usizeBits s.cacheWeight entry.weight
    engines := s.engines.insert componentHash entry }

def insertPlugin (plugin : Plugin) : RegistryState :=
  { s with
    plugins := s.plugins.insert plugin.info.id plugin
    order := s.order ++ [plugin.info.id] }

def cachedEngine (componentHash : String) : Section (Option (FilterEngine × PluginCapabilities)) :=
  match s.engines.get? componentHash with
  | none => ⟨none, s, none, false⟩
  | some entry => ⟨some (entry.engine, entry.capabilities),
      if componentHash ∈ s.cacheOrder then s.touchCacheEntry componentHash else s,
      some componentHash, false⟩

/-- The second section of `import_with_capabilities`. -/
def registerImport (i : Import) : Section (Except String PluginInfo) :=
  match s.engines.get? i.componentHash with
  | some existing =>
    if existing.capabilities ≠ i.capabilities then
      ⟨.error (conflict i.componentHash), s, none, false⟩
    else
      let s := s.touchCacheEntry i.componentHash
      ⟨.ok i.info, s.insertPlugin ⟨i.info, i.componentHash, i.capabilities, existing.engine⟩,
        some i.componentHash, true⟩
  | none =>
    let s := s.insertEntry i.componentHash
      ⟨i.candidate, i.capabilities, i.componentBytes, i.candidate.guestMemoryLimit⟩
    let s := s.touchCacheEntry i.componentHash
    ⟨.ok i.info, s.insertPlugin ⟨i.info, i.componentHash, i.capabilities, i.candidate⟩,
      some i.componentHash, true⟩

def insertEngine (i : Insertion) : Section (Except S4Error FilterEngine) :=
  match s.engines.get? i.componentHash with
  | some existing =>
    if existing.capabilities ≠ i.capabilities then
      ⟨.error (conflictError i.componentHash), s, none, false⟩
    else ⟨.ok existing.engine, s.touchCacheEntry i.componentHash, some i.componentHash, false⟩
  | none =>
    let s := s.insertEntry i.componentHash ⟨i.engine, i.capabilities, i.bytes, i.weight⟩
    ⟨.ok i.engine, s.touchCacheEntry i.componentHash, some i.componentHash, true⟩

/-- `set_enabled` and `set_name`, which change the information of a plugin. -/
def updateInfo (id : String) (f : PluginInfo → PluginInfo) : Section (Option PluginInfo) :=
  ⟨(s.plugins.get? id).map fun plugin => f plugin.info,
    { s with plugins := s.plugins.modify id fun plugin => { plugin with info := f plugin.info } },
    none, false⟩

def setEnabled (id : String) (enabled : Bool) : Section (Option PluginInfo) :=
  s.updateInfo id fun info => { info with enabled := enabled }

def setName (id name : String) : Section (Option PluginInfo) :=
  s.updateInfo id fun info => { info with name := name }

def remove (id : String) : Section Bool :=
  let removed := s.plugins.contains id
  ⟨removed, { s with order := s.order.filter (· ≠ id), plugins := s.plugins.erase id }, none,
    removed⟩

/-- The listed plugins come first; the others keep their order. -/
def reorder (ids : List String) : Section Unit :=
  let listed := ids.foldl (fun newOrder id =>
    if s.plugins.contains id && !newOrder.contains id then newOrder ++ [id] else newOrder) []
  let newOrder := s.order.foldl (fun newOrder id =>
    if !newOrder.contains id then newOrder ++ [id] else newOrder) listed
  ⟨(), { s with order := newOrder }, none, false⟩

end RegistryState

/-- The state after the section. -/
def Section.result {α : Type} (x : Section α) : RegistryState :=
  if x.evicts then x.state.evictUnreferencedEngines else x.state

/-! ### Calls -/

/-- A component was evicted, in a state and after some uses. -/
structure Eviction where
  before : RegistryState
  uses : List String
  victim : String

structure World where
  registry : RegistryState
  uses : List String
  evicted : List Eviction

/-- The section is run. -/
def World.run {α : Type} (w : World) (x : Section α) : World :=
  let uses := w.uses ++ x.touched.toList
  { registry := x.result
    uses
    evicted := w.evicted ++
      if x.evicts then x.state.evictions.map fun turn => ⟨turn.1, uses, turn.2⟩ else [] }

/-- What a call does: sections, and what happens between them. -/
inductive Effect where
  | cachedEngine (componentHash : String)
  | compile (component : Bytes)
  | newId
  | load (componentHash : String)
  | registerImport (i : Import)
  | insertEngine (i : Insertion)
  | setEnabled (id : String) (enabled : Bool)
  | setName (id name : String)
  | remove (id : String)
  | reorder (ids : List String)

/-- What is returned: a compilation gives the text of its error, a fetch of a component its bytes.
-/
abbrev Answer : Effect → Type
  | .cachedEngine _   => Option (FilterEngine × PluginCapabilities)
  | .compile _        => Except String Unit
  | .newId            => Uuid
  | .load _           => Except S4Error Bytes
  | .registerImport _ => Except String PluginInfo
  | .insertEngine _   => Except S4Error FilterEngine
  | .setEnabled _ _   => Option PluginInfo
  | .setName _ _      => Option PluginInfo
  | .remove _         => Bool
  | .reorder _        => Unit

/-- Compilations, fetches and new ids may have any outcome. -/
def Effect.Performs : (e : Effect) → World → Answer e → World → Prop
  | .cachedEngine hash, w, r, w' =>
    r = (w.registry.cachedEngine hash).answer ∧ w' = w.run (w.registry.cachedEngine hash)
  | .compile _, w, _, w' => w' = w
  | .newId, w, _, w' => w' = w
  | .load _, w, _, w' => w' = w
  | .registerImport i, w, r, w' =>
    r = (w.registry.registerImport i).answer ∧ w' = w.run (w.registry.registerImport i)
  | .insertEngine i, w, r, w' =>
    r = (w.registry.insertEngine i).answer ∧ w' = w.run (w.registry.insertEngine i)
  | .setEnabled id enabled, w, r, w' =>
    r = (w.registry.setEnabled id enabled).answer ∧ w' = w.run (w.registry.setEnabled id enabled)
  | .setName id name, w, r, w' =>
    r = (w.registry.setName id name).answer ∧ w' = w.run (w.registry.setName id name)
  | .remove id, w, r, w' =>
    r = (w.registry.remove id).answer ∧ w' = w.run (w.registry.remove id)
  | .reorder ids, w, _, w' => w' = w.run (w.registry.reorder ids)

/-- The errors of the calls: `anyhow::Error` of an import, `S4Error` of a request. -/
inductive RegistryError where
  | anyhow (message : String)
  | s4 (error : S4Error)
deriving DecidableEq

/-- A call on the registry. -/
abbrev RegistryMethod (α : Type) : Type := Method Effect Answer Unit RegistryError α

/-- The component and the capabilities of a step of a pipeline. -/
structure PipelineStep where
  componentHash : String
  capabilities : PluginCapabilities
deriving DecidableEq

section Calls

variable [Sha256] (fuel : Nat)

/-- The engine that an import goes on with: the cached one, or one that is compiled. -/
def candidateEngine (componentHash : String) (componentBytes : Bytes)
    (capabilities : PluginCapabilities) : RegistryMethod FilterEngine := do
  let cached : Option (FilterEngine × PluginCapabilities) ←
    Method.perform (Effect.cachedEngine componentHash)
  match cached with
  | some (engine, registered) =>
    if registered ≠ capabilities then throw (.anyhow (conflict componentHash)) else pure engine
  | none => do
    let compiled : Except String Unit ← Method.perform (Effect.compile componentBytes)
    match compiled with
    | .error error => throw (.anyhow error)
    | .ok () => pure (FilterEngine.withFuel componentBytes fuel)

def importWithCapabilities (name : String) (componentBytes : Bytes)
    (capabilities : PluginCapabilities) : RegistryMethod PluginInfo := do
  let componentHash := Managed.hexEncode (Sha256.digest componentBytes)
  let candidate ← candidateEngine fuel componentHash componentBytes capabilities
  let id : Uuid ← Method.perform Effect.newId
  let info : PluginInfo := ⟨id.toString, name, "0.1.0", true, ""⟩
  let registered : Except String PluginInfo ← Method.perform
    (Effect.registerImport ⟨info, componentHash, componentBytes, capabilities, candidate⟩)
  Method.ofExcept (registered.mapError .anyhow)

/-- The component that was fetched is compiled and cached. -/
def insertFetched (step : PipelineStep) (bytes : Bytes) : RegistryMethod FilterEngine := do
  let compiled : Except String Unit ← Method.perform (Effect.compile bytes)
  match compiled with
  | .error error => throw (.s4 ⟨Codes.wasmInit,
      "component " ++ step.componentHash ++ " failed to compile: " ++ error⟩)
  | .ok () => do
    let engine := FilterEngine.withFuel bytes fuel
    let inserted : Except S4Error FilterEngine ← Method.perform (Effect.insertEngine
      ⟨step.componentHash, engine, step.capabilities, bytes, engine.guestMemoryLimit⟩)
    Method.ofExcept (inserted.mapError .s4)

/-- The engine of a step: cached, or fetched, checked and compiled. -/
def engineFor (step : PipelineStep) : RegistryMethod FilterEngine := do
  let cached : Option (FilterEngine × PluginCapabilities) ←
    Method.perform (Effect.cachedEngine step.componentHash)
  match cached with
  | some (engine, registered) =>
    if registered ≠ step.capabilities then throw (.s4 (conflictError step.componentHash))
    else pure engine
  | none => do
    let loaded : Except S4Error Bytes ← Method.perform (Effect.load step.componentHash)
    match loaded with
    | .error error => throw (.s4 error)
    | .ok bytes =>
      if Managed.hexEncode (Sha256.digest bytes) ≠ step.componentHash then
        throw (.s4 ⟨Codes.wasmInit,
          "component " ++ step.componentHash ++ " digest mismatch after fetch"⟩)
      else insertFetched fuel step bytes

/-- The calls that change the registry. -/
inductive RegistryCall where
  | importWithCapabilities (name : String) (componentBytes : Bytes)
    (capabilities : PluginCapabilities)
  | engineFor (step : PipelineStep)
  | insertEngine (i : Insertion)
  | cachedEngine (componentHash : String)
  | setEnabled (id : String) (enabled : Bool)
  | setName (id name : String)
  | remove (id : String)
  | reorder (ids : List String)

/-- What the calls return. -/
inductive Reply where
  | imported (result : Except RegistryError PluginInfo)
  | engine (result : Except RegistryError FilterEngine)
  | cached (result : Option (FilterEngine × PluginCapabilities))
  | updated (result : Option PluginInfo)
  | removed (result : Bool)
  | reordered

/-- A call that is one section. -/
def single {α : Type} (reply : α → Reply) (p : Prog Effect Answer α) :
    Prog Effect Answer (Reply × Unit) := do
  return (reply (← p), ())

/-- A call that may fail. -/
def fallible {α : Type} (reply : Except RegistryError α → Reply) (m : RegistryMethod α) :
    Prog Effect Answer (Reply × Unit) := do
  let (result, ()) ← m ()
  return (reply result, ())

def RegistryCall.exec : RegistryCall → Prog Effect Answer (Reply × Unit)
  | .importWithCapabilities name componentBytes capabilities =>
    fallible .imported (Plugins.importWithCapabilities fuel name componentBytes capabilities)
  | .engineFor step => fallible .engine (Plugins.engineFor fuel step)
  | .insertEngine i =>
    single (fun r => .engine (r.mapError .s4)) (Prog.perform (Effect.insertEngine i))
  | .cachedEngine hash => single .cached (Prog.perform (Effect.cachedEngine hash))
  | .setEnabled id enabled => single .updated (Prog.perform (Effect.setEnabled id enabled))
  | .setName id name => single .updated (Prog.perform (Effect.setName id name))
  | .remove id => single .removed (Prog.perform (Effect.remove id))
  | .reorder ids => single (fun _ => .reordered) (Prog.perform (Effect.reorder ids))

variable (ι : Type)

/-- Callers of one registry. -/
def registrySystem : AgentSystem ι Effect Answer World where
  State _ := Unit
  Op _ := RegistryCall
  Result _ := Reply
  exec _ call _ := call.exec fuel
  perform _ := Effect.Performs
  drift w w' := w' = w

/-- A new registry, before the first call. -/
structure RegistryInit (c : (registrySystem fuel ι).Config) : Prop where
  registry : ∃ cacheMaxWeight, RegistryState.withCache cacheMaxWeight = .ok c.world.registry
  uses : c.world.uses = []
  evicted : c.world.evicted = []
  idle : ∀ i, c.agent i = .idle ()
  logs : ∀ i, c.log i = []

end Calls

end S4.Plugins
