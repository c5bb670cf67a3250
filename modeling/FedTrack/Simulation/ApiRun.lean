import FedTrack.Api.Client

namespace FedTrack.Simulation

inductive ApiStep
  | call (resource : Resource) (call : Call)
  | resolve (kind : Kind)
  | isHealthy

inductive ApiAnswer
  | outcome (o : Outcome)
  | resolved (r : Except StoreError Resource)
  | healthy (b : Bool)

/-- A client of a server whose responses are given beforehand. -/
structure ApiRun where
  client : ApiClient
  responses : List Response

namespace ApiRun

def new (responses : List Response) : ApiRun := ⟨.new, responses⟩

def exhausted : Response := ⟨500, "no answer left"⟩

def take (r : ApiRun) : ApiRun × Response :=
  match r.responses with
  | [] => (r, exhausted)
  | response :: rest => ({ r with responses := rest }, response)

def perform (r : ApiRun) : ApiStep → ApiRun × List Request × ApiAnswer
  | .call resource call =>
    match ApiClient.ofCall resource call with
    | .error e => (r, [], .outcome (.error e))
    | .ok request =>
      let (r, response) := r.take
      (r, [request], .outcome (ApiClient.answer call response))
  | .resolve kind =>
    match r.client.resources.find? kind with
    | some resource => (r, [], .resolved (.ok resource))
    | none =>
      match ApiClient.discover kind with
      | .error e => (r, [], .resolved (.error e))
      | .ok request =>
        let (r, response) := r.take
        let (client, resource) := r.client.learn kind response
        ({ r with client := client }, [request], .resolved resource)
  | .isHealthy =>
    let (r, response) := r.take
    (r, [ApiClient.probe], .healthy (ApiClient.isHealthy response))

end ApiRun

end FedTrack.Simulation
