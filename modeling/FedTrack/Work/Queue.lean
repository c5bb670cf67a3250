import FedTrack.Table.Basic

namespace FedTrack

/-- Keys to work on, first in first out. A key is queued at most once, and a key added while
it is worked on is queued again when that work is done. -/
structure WorkQueue (K : Type) [Key K] where
  dirty : Table K Unit
  processing : Table K Unit
  channel : List K

namespace WorkQueue

variable {K : Type} [Key K]

def empty : WorkQueue K := ⟨.empty, .empty, []⟩

instance : Inhabited (WorkQueue K) := ⟨empty⟩

def isDirty (q : WorkQueue K) (key : K) : Bool := q.dirty.contains key

def isProcessing (q : WorkQueue K) (key : K) : Bool := q.processing.contains key

/-- First part of an addition: the key is dirty; tells whether it has to be sent. -/
def mark (q : WorkQueue K) (key : K) : WorkQueue K × Bool :=
  if q.isDirty key then (q, false)
  else ({ q with dirty := q.dirty.insert key () }, !q.isProcessing key)

/-- Last part of an addition or of the end of work. -/
def send (q : WorkQueue K) (key : K) : WorkQueue K := { q with channel := q.channel ++ [key] }

/-- First part of taking a key. -/
def receive (q : WorkQueue K) : Option (K × WorkQueue K) :=
  match q.channel with
  | [] => none
  | key :: rest => some (key, { q with channel := rest })

/-- Last part of taking a key: work on it begins. -/
def take (q : WorkQueue K) (key : K) : WorkQueue K :=
  { q with dirty := q.dirty.erase key, processing := q.processing.insert key () }

/-- First part of the end of work; tells whether the key has to be sent again. -/
def release (q : WorkQueue K) (key : K) : WorkQueue K × Bool :=
  let q := { q with processing := q.processing.erase key }
  (q, q.isDirty key)

def add (q : WorkQueue K) (key : K) : WorkQueue K :=
  match q.mark key with
  | (q, true) => q.send key
  | (q, false) => q

def get? (q : WorkQueue K) : Option (K × WorkQueue K) :=
  q.receive.map fun (key, q) => (key, q.take key)

def done (q : WorkQueue K) (key : K) : WorkQueue K :=
  match q.release key with
  | (q, true) => q.send key
  | (q, false) => q

def size (q : WorkQueue K) : Nat := q.channel.length

end WorkQueue

end FedTrack
