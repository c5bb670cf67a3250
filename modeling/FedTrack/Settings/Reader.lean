import FedTrack.Json.Field
import FedTrack.Settings.Basic
import FedTrack.Settings.Fault

namespace FedTrack

inductive Absence
  | never
  /-- Left out by name, but not by position. -/
  | named
  | always
  deriving DecidableEq, Repr

/-- A field of a record under construction, and how a value is put into it. -/
structure Slot (α : Type) where
  name : String
  absence : Absence
  put : Json → α → Except ReadFault α

namespace Slot

variable {α : Type}

def of {β : Type} (name : String) (absence : Absence) (read : Json → Except ReadFault β)
    (set : β → α → α) : Slot α :=
  ⟨name, absence, fun j a => (read j).map fun b => set b a⟩

/-- Members are visited in the order of their names; unknown ones are passed over. -/
def putMembers (slots : List (Slot α)) : Json.Members → α → Except ReadFault α
  | [], a => .ok a
  | (name, j) :: rest, a =>
    match slots.find? (·.name == name) with
    | none => putMembers slots rest a
    | some slot =>
      match within name (slot.put j a) with
      | .error f => .error f
      | .ok a => putMembers slots rest a

/-- The first field that has to be there by name and is not. -/
def missing? (slots : List (Slot α)) (m : Json.Members) : Option String :=
  (slots.find? fun s => s.absence == .never && (Assoc.find? m s.name).isNone).map (·.name)

/-- Items are visited by position, counted from `index`. Whether more items than fields are a
fault is up to `exact`. -/
def putItems (exact : Bool) : List (Slot α) → Nat → List Json → α → Except ReadFault α
  | [], _, [], a => .ok a
  | [], _, _ :: _, a => if exact then .error (.here .length) else .ok a
  | slots, _, [], a =>
    if slots.all (·.absence == .always) then .ok a else .error (.here .length)
  | slot :: slots, index, j :: rest, a =>
    match within (toString index) (slot.put j a) with
    | .error f => .error f
    | .ok a => putItems exact slots (index + 1) rest a

/-- Reads a record given by name or, in an array, by position. -/
def record (exact : Bool) (slots : List (Slot α)) (start : α) (j : Json) : Except ReadFault α :=
  match j with
  | .object m =>
    match putMembers slots m start with
    | .error f => .error f
    | .ok a =>
      match missing? slots m with
      | some field => .error (.here (.missingField field))
      | none => .ok a
  | .array items => putItems exact slots 0 items start
  | _ => .error (.here .type)

end Slot

namespace Settings.Reader

def text (j : Json) : Except ReadFault String :=
  match j with
  | .string s => .ok s
  | _ => .error (.here .type)

def flag (j : Json) : Except ReadFault Bool :=
  match j with
  | .bool b => .ok b
  | _ => .error (.here .type)

def natural (j : Json) : Except ReadFault Nat :=
  match j with
  | .number (.whole i) =>
    if i < 0 then .error (.here .value)
    else if i ≤ Json.maxNat64 then .ok i.toNat
    else .error (.here .type)
  | _ => .error (.here .type)

def optional {β : Type} (read : Json → Except ReadFault β) (j : Json) : Except ReadFault (Option β) :=
  match j with
  | .null => .ok none
  | j => (read j).map some

def address (j : Json) : Except ReadFault SocketAddress :=
  match j with
  | .string s =>
    match SocketAddress.ofText? s with
    | some a => .ok a
    | none => .error (.here .text)
  | _ => .error (.here .type)

def itemsFrom {β : Type} (read : Json → Except ReadFault β) : Nat → List Json → Except ReadFault (List β)
  | _, [] => .ok []
  | index, j :: rest => do
    let b ← within (toString index) (read j)
    .ok (b :: (← itemsFrom read (index + 1) rest))

def list {β : Type} (read : Json → Except ReadFault β) (j : Json) : Except ReadFault (List β) :=
  match j with
  | .array items => itemsFrom read 0 items
  | _ => .error (.here .type)

def controller (exact : Bool) : Json → Except ReadFault ControllerSettings :=
  Slot.record exact
    [.of "target_namespace" .always (optional text) fun v c => { c with targetNamespace := v },
      .of "cluster_available_delay_seconds" .always natural fun v c => { c with availableDelay := v },
      .of "cluster_unavailable_delay_seconds" .always natural fun v c =>
        { c with unavailableDelay := v },
      .of "cluster_health_check_period_seconds" .always natural fun v c =>
        { c with healthCheckPeriod := v },
      .of "cache_sync_timeout_seconds" .always natural fun v c => { c with cacheSyncTimeout := v },
      .of "max_concurrent_status_reconciles" .always natural fun v c => { c with maxReconciles := v },
      .of "minimize_latency" .always flag fun v c => { c with minimizeLatency := v },
      .of "metrics_address" .always (optional address) fun v c => { c with metricsAddress := v }]
    .standard

def member (exact : Bool) : Json → Except ReadFault MemberSettings :=
  Slot.record exact
    [.of "name" .never text fun v c => { c with name := v },
      .of "kube_context" .named (optional text) fun v c => { c with context := v },
      .of "kubeconfig" .always (optional text) fun v c => { c with kubeconfig := v }]
    ⟨"", none, none⟩

def kind (exact : Bool) : Json → Except ReadFault Kind :=
  Slot.record exact
    [.of "group" .never text fun v c => { c with group := v },
      .of "version" .never text fun v c => { c with version := v },
      .of "kind" .never text fun v c => { c with kind := v }]
    ⟨"", "", ""⟩

/-- Types are namespaced if nothing else is said. -/
def federatedType (exact : Bool) : Json → Except ReadFault FederatedType :=
  Slot.record exact
    [.of "namespaced" .always flag fun v c => { c with namespaced := v },
      .of "federated" .never (kind exact) fun v c => { c with federated := v },
      .of "target" .never (kind exact) fun v c => { c with target := v },
      .of "status" .always (optional (kind exact)) fun v c => { c with status := v }]
    ⟨true, ⟨"", "", ""⟩, ⟨"", "", ""⟩, none⟩

def external (exact : Bool) : Json → Except ReadFault ClusterAccess :=
  Slot.record exact
    [.of "kube_context" .named (optional text) fun v c =>
        match c with
        | .external _ k => .external v k
        | .incluster => .external v none,
      .of "kubeconfig" .always (optional text) fun v c =>
        match c with
        | .external x _ => .external x v
        | .incluster => .external none v]
    (.external none none)

/-- A variant without content is a text, one with content a map of which the first member
counts. -/
def access (exact : Bool) (j : Json) : Except ReadFault ClusterAccess :=
  match j with
  | .string "incluster" => .ok .incluster
  | .string "external" => .error (.here .type)
  | .string other => .error (.here (.unknownVariant other))
  | .object (("incluster", content) :: _) =>
    match content with
    | .null => .ok .incluster
    | _ => within "incluster" (.error (.here .type))
  | .object (("external", content) :: _) => within "external" (external exact content)
  | .object ((other, _) :: _) => .error (.here (.unknownVariant other))
  | _ => .error (.here .type)

def settings (exact : Bool) : Json → Except ReadFault Settings :=
  Slot.record exact
    [.of "log_level" .named (optional text) fun v c => { c with logLevel := v },
      .of "kubernetes" .never (access exact) fun v c => { c with access := v },
      .of "controller" .always (controller exact) fun v c => { c with controller := v },
      .of "clusters" .always (list (member exact)) fun v c => { c with clusters := v },
      .of "types" .always (list (federatedType exact)) fun v c => { c with types := v }]
    .standard

end Settings.Reader

end FedTrack
