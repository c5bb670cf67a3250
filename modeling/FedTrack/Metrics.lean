import FedTrack.Json.Value

namespace FedTrack

/-- A metric's name and its labels in the order of their names. -/
abbrev MetricKey := String × List (String × String)

structure Metrics where
  counters : Table MetricKey Nat
  /-- Measured spans in milliseconds, oldest first. -/
  histograms : Table MetricKey (List Nat)

namespace Metrics

def empty : Metrics := ⟨.empty, .empty⟩

instance : Inhabited Metrics := ⟨empty⟩

def add (m : Metrics) (key : MetricKey) (n : Nat) : Metrics :=
  { m with counters := m.counters.insert key ((m.counters.find? key).getD 0 + n) }

def record (m : Metrics) (key : MetricKey) (ms : Nat) : Metrics :=
  { m with histograms := m.histograms.insert key ((m.histograms.find? key).getD [] ++ [ms]) }

def counter (m : Metrics) (key : MetricKey) : Nat := (m.counters.find? key).getD 0

/-- Calls made to store version records. -/
def writeAttempts (recordType targetKind : String) : MetricKey :=
  ("version_write_attempt_total", [("record_type", recordType), ("target_kind", targetKind)])

/-- Version records given up on. -/
def writeFailures (recordType targetKind : String) : MetricKey :=
  ("version_write_failure_total", [("record_type", recordType), ("target_kind", targetKind)])

def reconciles (controller outcome : String) : MetricKey :=
  ("reconcile_total", [("controller", controller), ("outcome", outcome)])

def reconcileDuration (controller : String) : MetricKey :=
  ("reconcile_duration_seconds", [("controller", controller)])

/-- All that has been counted or measured, by names and labels; what is zero or empty is left
out. -/
def entries (m : Metrics) : Table MetricKey Json :=
  let counters := (m.counters.entries.filter (·.2 != 0)).map fun (k, n) => (k, Json.ofNat n)
  let histograms := (m.histograms.entries.filter (!·.2.isEmpty)).map fun (k, l) =>
    (k, Json.array (l.map .ofNat))
  (counters ++ histograms).foldl (fun t (k, j) => t.insert k j) .empty

def toJson (m : Metrics) : Json :=
  .array <| m.entries.entries.map fun ((name, labels), value) =>
    .ofMembers [("name", .string name), ("value", value),
      ("labels", .ofMembers (labels.map fun (k, v) => (k, .string v)))]

end Metrics

end FedTrack
