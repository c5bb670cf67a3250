import FedTrack.Poll
import FedTrack.Watch.Reader

namespace FedTrack

/-- What a watch tells. A listing comes as a beginning, its objects and an end. -/
inductive WatchEvent
  | listing
  | listed (object : Object)
  | listingDone
  | applied (object : Object)
  | deleted (object : Object)
  deriving DecidableEq

/-- A cache that follows a watch, and the objects of a listing that has no end yet. -/
structure WatchedCache where
  cache : ObjectCache
  listing : Option (Table Name Object)

namespace WatchedCache

def empty : WatchedCache := ⟨.empty, none⟩

instance : Inhabited WatchedCache := ⟨empty⟩

def vanished (c : ObjectCache) (loaded : Table Name Object) : List Name :=
  c.keys.filter fun n => !loaded.contains n

/-- Whether a listed object is new or has another resource version than the cached one. -/
def differs (c : ObjectCache) (name : Name) (o : Object) : Bool :=
  match c.find? name with
  | none => true
  | some old => old.metadata.resourceVersion != o.metadata.resourceVersion

def changed (c : ObjectCache) (loaded : Table Name Object) : List Name :=
  (loaded.entries.filter fun e => differs c e.1 e.2).map Prod.fst

/-- Takes an event; the names of which readers have to be told are published. A listing takes
effect all at once, at its end. -/
def handle (c : WatchedCache) : WatchEvent → WatchedCache × List Name
  | .listing => ({ c with listing := some .empty }, [])
  | .listed o =>
    ({ c with listing := some ((c.listing.getD .empty).insert o.name o) }, [])
  | .listingDone =>
    let loaded := c.listing.getD .empty
    (⟨⟨loaded, true⟩, none⟩, vanished c.cache loaded ++ changed c.cache loaded)
  | .applied o => ({ c with cache := c.cache.put o }, [o.name])
  | .deleted o => ({ c with cache := c.cache.remove o.name }, [o.name])

def handleAll (c : WatchedCache) : List WatchEvent → WatchedCache × List Name
  | [] => (c, [])
  | e :: rest =>
    let (c, names) := c.handle e
    let (c, more) := handleAll c rest
    (c, names ++ more)

/-- The watch broke off: a listing without end counts for nothing. -/
def restart (c : WatchedCache) : WatchedCache := { c with listing := none }

def listingEvents (objects : List Object) : List WatchEvent :=
  .listing :: (objects.map .listed ++ [.listingDone])

/-- How long after a failure the watch begins again. -/
def retryDelay : Span := 1000

end WatchedCache

end FedTrack
