import FedTrack.Store.Memory

namespace FedTrack

/-- A call that waits at the gate of a held object. -/
structure Flight where
  kind : Kind
  call : Call
  gate : Nat

namespace MemoryStore

/-- Starts a call: it is answered at once unless it has to wait at a closed gate. -/
def launch (s : MemoryStore) (kind : Kind) (call : Call) : MemoryStore × (Outcome ⊕ Flight) :=
  match s.enter call.operation with
  | (s, some e) => (s, .inl (.error e))
  | (s, none) =>
    match s.gate? call with
    | some gate =>
      if s.isOpen gate then
        let (s, outcome) := s.commit kind call
        (s, .inl outcome)
      else (s, .inr ⟨kind, call, gate⟩)
    | none =>
      let (s, outcome) := s.commit kind call
      (s, .inl outcome)

def land (s : MemoryStore) (f : Flight) : MemoryStore × Outcome := s.commit f.kind f.call

end MemoryStore

end FedTrack
