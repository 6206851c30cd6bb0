import DocStore.SortedMap

/-!
A client's memory of the scripts that the store has loaded. It only saves round trips: whether it is right
never matters for a result.
-/

namespace DocStore.Client

/-- The digests remembered as loaded, and how often that helped. -/
structure ScriptCache where
  loaded : NameSet := ∅
  /-- Looks that found the digest. -/
  hits : Nat := 0
  /-- Looks that did not find the digest. -/
  misses : Nat := 0
  /-- Evaluations of scripts that the store did not hold. -/
  reloads : Nat := 0
deriving DecidableEq, Repr

namespace ScriptCache

/-- Whether the digest is remembered; counts the look. -/
def look (cache : ScriptCache) (digest : String) : Bool × ScriptCache :=
  if cache.loaded.contains digest then (true, { cache with hits := cache.hits + 1 })
  else (false, { cache with misses := cache.misses + 1 })

/-- Remembers a digest. -/
def mark (cache : ScriptCache) (digest : String) : ScriptCache :=
  { cache with loaded := cache.loaded.insert digest () }

/-- Counts a reload. -/
def countReload (cache : ScriptCache) : ScriptCache :=
  { cache with reloads := cache.reloads + 1 }

/-- Forgets every digest. -/
def clear (cache : ScriptCache) : ScriptCache :=
  { cache with loaded := ∅ }

end ScriptCache

end DocStore.Client
