import FedTrack.Proofs.Object.Timestamp
import FedTrack.Proofs.Version.Status
import FedTrack.Status.Aggregated

namespace FedTrack

open Json

namespace ClusterStatus

theorem ofJson?_toJson (c : ClusterStatus) : ofJson? c.toJson = some c := by
  obtain ⟨cluster, status⟩ := c
  cases status <;> rfl

theorem member?_status (c : ClusterStatus) : c.toJson.member? "status" = c.status.map .object := by
  obtain ⟨cluster, status⟩ := c
  cases status <;> rfl

theorem status_eq_none_iff {m : Members} {c : ClusterStatus} (h : ofJson? (.object m) = some c) :
    c.status = none ↔ Lacks m "status" := by
  simp only [ofJson?, record, Option.bind_eq_bind, Option.bind_some, Option.bind_eq_some_iff] at h
  obtain ⟨cluster, -, status, hstatus, h⟩ := h
  cases h
  rw [← optionalMember_eq_none_iff members?, hstatus, Option.some.injEq]

end ClusterStatus

namespace StatusCondition

/-- The last transition, if there was one, took place at a moment of the calendar in whole
seconds. -/
def Valid (c : StatusCondition) : Prop := ∀ t, c.lastTransition = some t → t.Valid

/-- The condition with the second in which its last transition took place. -/
def whole (c : StatusCondition) : StatusCondition :=
  { c with lastTransition := c.lastTransition.map Timestamp.whole }

variable {c : StatusCondition}

/-- A fraction of a second is not written. -/
theorem toJson_whole (c : StatusCondition) : c.whole.toJson = c.toJson := by
  obtain ⟨type, status, reason, message, lastTransition⟩ := c
  cases lastTransition <;> rfl

theorem whole_eq_iff : c.whole = c ↔ ∀ t, c.lastTransition = some t → t.nanosecond = 0 := by
  obtain ⟨type, status, reason, message, lastTransition⟩ := c
  cases lastTransition with
  | none => simp [whole]
  | some t =>
    simp only [whole, Option.map_some, StatusCondition.mk.injEq, Option.some.injEq, true_and,
      forall_eq']
    exact ⟨fun h => congrArg Timestamp.nanosecond h.symm, Timestamp.whole_eq_of_nanosecond⟩

theorem ofJson?_toJson (h : c.Valid) : ofJson? c.toJson = some c := by
  obtain ⟨type, status, reason, message, lastTransition⟩ := c
  have hreason : Json.optional string? (orNull .string reason) = some reason := by
    cases reason <;> rfl
  have hmessage : Json.optional string? (orNull .string message) = some message := by
    cases message <;> rfl
  have htime : Json.optional timestamp? (orNull (fun t => .string t.text) lastTransition) =
      some lastTransition := by
    cases lastTransition with
    | none => rfl
    | some t => simp [orNull, Json.optional, timestamp?_text (h t rfl)]
  have hread : ofJson? (toJson ⟨type, status, reason, message, lastTransition⟩) =
      (Json.optional string? (orNull .string reason)).bind fun reason =>
      (Json.optional string? (orNull .string message)).bind fun message =>
      (Json.optional timestamp? (orNull (fun t => .string t.text) lastTransition)).bind fun time =>
        some ⟨type, status, reason, message, time⟩ := rfl
  rw [hread, hreason, hmessage, htime]
  rfl

theorem valid_of_ofJson? {j : Json} (h : ofJson? j = some c) : c.whole.Valid := by
  simp only [ofJson?, Option.bind_eq_bind, Option.bind_eq_some_iff] at h
  obtain ⟨m, -, h⟩ := h
  split at h
  · simp only [Option.bind_eq_some_iff] at h
    obtain ⟨type, -, status, -, reason, -, message, -, lastTransition, hread, h⟩ := h
    cases h
    intro t ht
    obtain ⟨u, rfl, rfl⟩ := Option.map_eq_some_iff.mp ht
    obtain ⟨j, hj⟩ := optionalMember_eq_some hread
    exact (inCalendar_of_timestamp? hj).whole
  · cases h

theorem eq_none_iff {m : Members} (h : ofJson? (.object m) = some c) :
    (c.reason = none ↔ Lacks m "reason") ∧ (c.message = none ↔ Lacks m "message") ∧
      (c.lastTransition = none ↔ Lacks m "lastTransitionTime") := by
  simp only [ofJson?, record, isComplete, if_true, Option.bind_eq_bind, Option.bind_some,
    Option.bind_eq_some_iff] at h
  obtain ⟨type, -, status, -, reason, hreason, message, hmessage, time, htime, h⟩ := h
  cases h
  rw [← optionalMember_eq_none_iff string?, hreason,
    ← optionalMember_eq_none_iff string?, hmessage,
    ← optionalMember_eq_none_iff timestamp?, htime]
  simp only [Option.some.injEq, true_and]

end StatusCondition

namespace AggregatedStatus

/-- The generation has 64 bits, and the conditions are valid. -/
structure Valid (s : AggregatedStatus) : Prop where
  generation : minInt64 ≤ s.generation ∧ s.generation ≤ maxInt64
  conditions : ∀ c ∈ s.conditions, c.Valid

/-- The status with its times in whole seconds. -/
def whole (s : AggregatedStatus) : AggregatedStatus :=
  { s with conditions := s.conditions.map StatusCondition.whole }

variable {s : AggregatedStatus}

theorem toJson_whole (s : AggregatedStatus) : s.whole.toJson = s.toJson := by
  have hconditions : (s.conditions.map StatusCondition.whole).map (·.toJson) =
      s.conditions.map (·.toJson) := by
    rw [List.map_map]
    exact List.map_congr_left fun c _ => c.toJson_whole
  simp only [toJson, whole, clustersJson, List.isEmpty_map, hconditions]

theorem whole_eq_iff : s.whole = s ↔
    ∀ c ∈ s.conditions, ∀ t, c.lastTransition = some t → t.nanosecond = 0 := by
  have hmap : s.conditions.map StatusCondition.whole = s.conditions ↔
      ∀ c ∈ s.conditions, c.whole = c := by
    simpa only [List.map_id, id] using List.map_eq_map_iff (l := s.conditions) (g := id)
  simp only [← StatusCondition.whole_eq_iff, ← hmap]
  exact ⟨congrArg AggregatedStatus.conditions, fun h => by rw [whole, h]⟩

theorem ofJson?_toJson (h : s.Valid) : ofJson? s.toJson = some s := by
  obtain ⟨generation, conditions, clusters⟩ := s
  have hgeneration : int64? (ofInt generation) = some generation :=
    int64?_eq_some.mpr ⟨rfl, h.generation⟩
  have hconditions : listOf StatusCondition.ofJson? (.array (conditions.map (·.toJson))) =
      some conditions :=
    listOf_map fun c hc => StatusCondition.ofJson?_toJson (h.conditions c hc)
  have hclusters : listOf ClusterStatus.ofJson? (.array (clusters.map (·.toJson))) =
      some clusters :=
    listOf_map fun c _ => c.ofJson?_toJson
  -- conditions are left out if there are none
  cases conditions with
  | nil =>
    have hread : ofJson? (toJson ⟨generation, [], clusters⟩) =
        (int64? (ofInt generation)).bind fun generation =>
        (listOf ClusterStatus.ofJson? (.array (clusters.map (·.toJson)))).bind fun clusters =>
          some ⟨generation, [], clusters⟩ := rfl
    rw [hread, hgeneration, hclusters]
    rfl
  | cons c rest =>
    have hread : ofJson? (toJson ⟨generation, c :: rest, clusters⟩) =
        (int64? (ofInt generation)).bind fun generation =>
        (listOf StatusCondition.ofJson? (.array ((c :: rest).map (·.toJson)))).bind
          fun conditions =>
        (listOf ClusterStatus.ofJson? (.array (clusters.map (·.toJson)))).bind fun clusters =>
          some ⟨generation, conditions, clusters⟩ := rfl
    rw [hread, hgeneration, hconditions, hclusters]
    rfl

theorem valid_of_ofJson? {j : Json} (h : ofJson? j = some s) : s.whole.Valid := by
  simp only [ofJson?, Option.bind_eq_bind, Option.bind_eq_some_iff] at h
  obtain ⟨m, -, generation, hgeneration, conditions, hconditions, clusters, -, h⟩ := h
  cases h
  constructor
  · rcases memberOr_eq_some hgeneration with ⟨-, rfl⟩ | ⟨j, hj⟩
    · exact (by decide : minInt64 ≤ 0 ∧ 0 ≤ maxInt64)
    · exact (int64?_eq_some.mp hj).2
  · intro c hc
    obtain ⟨d, hd, rfl⟩ := List.mem_map.mp hc
    rcases memberOr_eq_some hconditions with ⟨-, rfl⟩ | ⟨j, hj⟩
    · cases hd
    · obtain ⟨item, hitem⟩ := exists_of_listOf hj hd
      exact StatusCondition.valid_of_ofJson? hitem

/-- What was read is written without fractions of seconds, and read back so. -/
theorem ofJson?_toJson_of_read {j : Json} (h : ofJson? j = some s) :
    ofJson? s.toJson = some s.whole := by
  rw [← s.toJson_whole]
  exact ofJson?_toJson (valid_of_ofJson? h)

theorem valid_of_read_back (h : ofJson? s.toJson = some s) : s.Valid := by
  have hwhole : s.whole = s :=
    Option.some.inj ((ofJson?_toJson_of_read h).symm.trans h)
  exact hwhole ▸ valid_of_ofJson? h

theorem member?_conditions_eq_none_iff :
    s.toJson.member? "conditions" = none ↔ s.conditions = [] := by
  obtain ⟨generation, conditions, clusters⟩ := s
  cases conditions <;> simp [toJson, member?, Assoc.find?]

theorem conditions_eq_nil {m : Members} (h : ofJson? (.object m) = some s)
    (hnone : Assoc.find? m "conditions" = none) : s.conditions = [] := by
  simp only [ofJson?, record, Option.bind_eq_bind, Option.bind_some, Option.bind_eq_some_iff] at h
  obtain ⟨generation, -, conditions, hconditions, clusters, -, h⟩ := h
  cases h
  rw [memberOr, hnone] at hconditions
  exact (Option.some.inj hconditions).symm

end AggregatedStatus

end FedTrack
