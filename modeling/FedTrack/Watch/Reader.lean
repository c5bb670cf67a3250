import FedTrack.Object.Basic

namespace FedTrack

/-- A cache of objects by name, and whether its first listing is complete. -/
structure ObjectCache where
  objects : Table Name Object
  synced : Bool

namespace ObjectCache

def empty : ObjectCache := ⟨.empty, false⟩

instance : Inhabited ObjectCache := ⟨empty⟩

def find? (c : ObjectCache) (name : Name) : Option Object := c.objects.find? name

def keys (c : ObjectCache) : List Name := c.objects.keys

def put (c : ObjectCache) (o : Object) : ObjectCache := { c with objects := c.objects.insert o.name o }

def remove (c : ObjectCache) (name : Name) : ObjectCache := { c with objects := c.objects.erase name }

def setSynced (c : ObjectCache) (synced : Bool) : ObjectCache := { c with synced := synced }

end ObjectCache

end FedTrack
