import FedTrack.Federation

namespace FedTrack.Simulation

structure StartScene where
  /-- Contexts that lead to the one server there is. -/
  contexts : List String
  /-- What the server serves, if it can be reached. -/
  served : Option (List Resource)
  records : List Object

namespace StartScene

def kubeconfig (s : StartScene) : Kubeconfig :=
  { Kubeconfig.empty with
    clusters := [⟨"server", some (some "http://127.0.0.1")⟩]
    contexts := s.contexts.map fun c => ⟨c, some ⟨"server", none⟩⟩ }

def resolve (s : StartScene) (kind : Kind) : Except StoreError Resource :=
  match s.served with
  | none => .error (.transport .service)
  | some served =>
    match served.find? (·.toKind == kind) with
    | some r => .ok r
    | none => .error (.transport .discovery)

/-- Starts a federation and lets it load all records. -/
def run (s : StartScene) (settings : Settings) : Except StartError Federation :=
  match Federation.start settings (fun _ => some s.kubeconfig) (fun _ => s.resolve) with
  | .error e => .error e
  | .ok f => .ok (f.load s.records)

end StartScene

end FedTrack.Simulation
