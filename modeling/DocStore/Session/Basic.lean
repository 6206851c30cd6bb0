import DocStore.Client.Config
import DocStore.Client.Handle
import DocStore.Client.ScriptCache
import DocStore.Store.Rehearsed

/-!
Sessions: several handles at work on one store, one step after another.

Handles may share a memory of loaded scripts by name; otherwise each has its own.
-/

namespace DocStore

open DocStore.Store DocStore.Client

namespace Session

/-- Where a client's steps are answered: a store, and the client's memory of loaded scripts. -/
structure Station where
  store : Rehearsed
  cache : ScriptCache

/-- Answers a step. -/
def Station.answer (step : Step) (station : Station) : step.Answer × Station :=
  match step with
  | .call call =>
    let (result, store) := station.store.answer call
    (result, { station with store := store })
  | .isLoaded digest =>
    let (found, cache) := station.cache.look digest
    (found, { station with cache := cache })
  | .markLoaded digest => ((), { station with cache := station.cache.mark digest })
  | .countReload => ((), { station with cache := station.cache.countReload })

/-- An open handle, what it knows of the schema, and the name of its memory of loaded scripts. -/
structure Opened where
  handle : Handle
  schema : SchemaState
  cache : String

end Session

/-- A session. -/
structure Session where
  store : Rehearsed := {}
  caches : SortedMap ScriptCache := ∅
  /-- Number of caches made for one handle alone. -/
  ownCaches : Nat := 0
  handles : SortedMap Session.Opened := ∅

namespace Session

/-- Calls the store directly. -/
def call (session : Session) (call : Call) : Except StoreError call.Result × Session :=
  let (result, store) := session.store.answer call
  (result, { session with store := store })

/-- Rehearses the result of the next call of a kind. -/
def addCue (session : Session) (cue : Cue) : Session :=
  { session with store := session.store.addCue cue }

/-- Sets all counters of calls back to zero. -/
def resetMeter (session : Session) : Session :=
  { session with store := { session.store with meter := {} } }

/-- Lets the store forget every script. -/
def flushScripts (session : Session) : Session :=
  { session with store := { session.store with memory := session.store.memory.flushScripts } }

/-- The name of a cache that handles share, or of one made for a single handle. -/
def cacheName (session : Session) : Option String → String
  | some shared => "shared " ++ shared
  | none => "own " ++ Decimal.ofNat session.ownCaches

/-- Opens a handle under a name, with a shared cache or one of its own. -/
def openHandle (session : Session) (name ns : String) (shared : Option String) (preload : Bool) :
    Except Failure Handle × Session :=
  match Handle.open? ns preload with
  | .error failure => (.error failure, session)
  | .ok handle =>
    let cache := session.cacheName shared
    (.ok handle,
      { session with
        caches := if session.caches.contains cache then session.caches
          else session.caches.insert cache {}
        ownCaches := session.ownCaches + 1
        handles := session.handles.insert name ⟨handle, .unloaded, cache⟩ })

/-- Opens a handle by its settings, with a cache of its own. -/
def openConfig (session : Session) (name : String) (config : Config) :
    Except Failure Handle × Session :=
  session.openHandle name config.ns none config.preload

/-- The cache of a handle. -/
def cacheOf (session : Session) (opened : Opened) : ScriptCache :=
  (session.caches.find? opened.cache).getD {}

/-- Lets a handle forget which scripts are loaded, and those that share its cache. -/
def clearCache (session : Session) (opened : Opened) : Session :=
  { session with
    caches := session.caches.insert opened.cache (session.cacheOf opened).clear }

/-- Runs an action of the handle called `name`. -/
def act {α : Type} (session : Session) (name : String) (opened : Opened) (action : Act α) :
    Except Failure α × Session :=
  let station : Station := ⟨session.store, session.cacheOf opened⟩
  let ((result, schema), station) := (action.run.run opened.schema).run Station.answer station
  (result,
    { session with
      store := station.store
      caches := session.caches.insert opened.cache station.cache
      handles := session.handles.insert name { opened with schema := schema } })

end Session

end DocStore
