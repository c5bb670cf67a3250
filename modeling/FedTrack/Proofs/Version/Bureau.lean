import FedTrack.Proofs.Version.Errand
import Mathlib.Logic.Function.Basic

namespace FedTrack

open MemoryStore

/-- Managers over one store. Each client works with one of them and has one call at a time. -/
structure Bureau (ι κ : Type) where
  now : Time
  store : MemoryStore
  managers : κ → VersionManager
  errands : ι → Option Errand
  /-- What the calls of a client have come to, the latest first. -/
  replies : ι → List Reply

namespace Bureau

variable {ι κ : Type}

/-- What can happen next, in any order. A held write is a call that takes no step for as long as
it is held. -/
inductive Event (ι : Type)
  | pass (span : Span)
  /-- A client without a call begins one. -/
  | ask (i : ι) (d : Demand)
  | go (i : ι)

def new (now : Time) (store : MemoryStore) (managers : κ → VersionManager) : Bureau ι κ :=
  ⟨now, store, managers, fun _ => none, fun _ => []⟩

def site (b : Bureau ι κ) (k : κ) : Site := ⟨b.managers k, b.store⟩

variable [DecidableEq ι] [DecidableEq κ]

def setSite (b : Bureau ι κ) (k : κ) (x : Site) : Bureau ι κ :=
  { b with store := x.store, managers := Function.update b.managers k x.manager }

/-- The call of a client goes on or ends. -/
def settle (b : Bureau ι κ) (i : ι) : Errand ⊕ Reply → Bureau ι κ
  | .inl e => { b with errands := Function.update b.errands i (some e) }
  | .inr r =>
    { b with
      errands := Function.update b.errands i none
      replies := Function.update b.replies i (r :: b.replies i) }

section
variable (b : Bureau ι κ) (i j : ι) (k l : κ) (x : Site) (outcome : Errand ⊕ Reply)

omit [DecidableEq κ]

@[simp] theorem now_settle : (b.settle i outcome).now = b.now := by
  cases outcome <;> rfl

@[simp] theorem store_settle : (b.settle i outcome).store = b.store := by
  cases outcome <;> rfl

@[simp] theorem managers_settle : (b.settle i outcome).managers = b.managers := by
  cases outcome <;> rfl

theorem errands_settle : (b.settle i outcome).errands j =
    if j = i then outcome.getLeft? else b.errands j := by
  cases outcome <;> simp [settle, Function.update_apply]

theorem replies_settle : (b.settle i outcome).replies j =
    if j = i then outcome.getRight?.toList ++ b.replies i else b.replies j := by
  cases outcome with
  | inl e => by_cases h : j = i <;> simp [settle, h]
  | inr r => by_cases h : j = i <;> simp [settle, h]

end

omit [DecidableEq ι] in
theorem managers_setSite (b : Bureau ι κ) (k l : κ) (x : Site) : (b.setSite k x).managers l =
    if l = k then x.manager else b.managers l := by
  simp [setSite, Function.update_apply]

variable (host : ι → κ)

def step (b : Bureau ι κ) : Event ι → Bureau ι κ
  | .pass span => { b with now := b.now + span }
  | .ask i d =>
    match b.errands i with
    | some _ => b
    | none => b.settle i (.inl d.errand)
  | .go i =>
    match b.errands i with
    | none => b
    | some e =>
      if e.ready b.now then
        let (x, outcome) := e.step b.now (b.site (host i))
        (b.setSite (host i) x).settle i outcome
      else b

def run (b : Bureau ι κ) (events : List (Event ι)) : Bureau ι κ := events.foldl (step host) b

variable {host}

theorem step_ask_some {b : Bureau ι κ} {i : ι} {e : Errand} (h : b.errands i = some e)
    (d : Demand) : b.step host (.ask i d) = b := by
  simp only [step, h]

theorem step_ask_none {b : Bureau ι κ} {i : ι} (h : b.errands i = none) (d : Demand) :
    b.step host (.ask i d) = b.settle i (.inl d.errand) := by
  simp only [step, h]

theorem step_go_none {b : Bureau ι κ} {i : ι} (h : b.errands i = none) :
    b.step host (.go i) = b := by
  simp only [step, h]

theorem step_go_some {b : Bureau ι κ} {i : ι} {e : Errand} (h : b.errands i = some e) :
    b.step host (.go i) =
      if e.ready b.now then
        (b.setSite (host i) (e.step b.now (b.site (host i))).1).settle i
          (e.step b.now (b.site (host i))).2
      else b := by
  simp only [step, h]

/-- What an event does to the bureau, if it does anything. -/
inductive Stepped (host : ι → κ) (b : Bureau ι κ) : Event ι → Bureau ι κ → Prop
  | idle (e : Event ι) : Stepped host b e b
  | passed (span : Span) : Stepped host b (.pass span) { b with now := b.now + span }
  | began {i : ι} (d : Demand) (h : b.errands i = none) :
      Stepped host b (.ask i d) (b.settle i (.inl d.errand))
  | went {i : ι} {e : Errand} (h : b.errands i = some e) (hready : e.ready b.now = true) :
      Stepped host b (.go i) ((b.setSite (host i) (e.step b.now (b.site (host i))).1).settle i
        (e.step b.now (b.site (host i))).2)

theorem stepped (host : ι → κ) (b : Bureau ι κ) (e : Event ι) : Stepped host b e (b.step host e) := by
  cases e with
  | pass span => exact .passed span
  | ask i d =>
    simp only [step]
    split
    · exact .idle _
    · rename_i h
      exact .began d h
  | go i =>
    simp only [step]
    split
    · exact .idle _
    · rename_i h
      split
      · rename_i hready
        exact .went h hready
      · exact .idle _

/-- The names with the property `N`, or all others. -/
def side (N : Name → Prop) (own : Bool) (name : Name) : Prop := N name ↔ own = true

theorem side_true (N : Name → Prop) : side N true = N := by
  funext name
  simp [side]

theorem side_false (N : Name → Prop) : side N false = fun name => ¬ N name := by
  funext name
  simp [side]

theorem side_unique {N : Name → Prop} {own own' : Bool} {name : Name} (h : side N own name)
    (h' : side N own' name) : own = own' :=
  Bool.eq_iff_iff.mpr (h.symm.trans h')

/-- Clients that are `mine` only use names with the property `N`, and the others only use others. -/
structure Tidy (host : ι → κ) (N : Name → Prop) (mine : ι → Bool) (b : Bureau ι κ) : Prop where
  sound : b.store.Sound
  shelved : ∀ k own, (b.managers k).Shelved (side N own)
  within : ∀ i e, b.errands i = some e → e.Within (side N (mine i)) (b.managers (host i))

namespace Event

/-- Time passes for all; anything else only concerns clients that are `mine`. -/
def concerns (mine : ι → Bool) : Event ι → Bool
  | .pass _ => true
  | .ask i _ | .go i => mine i

/-- What a client begins with this event only uses names of its side. -/
def Fair (host : ι → κ) (N : Name → Prop) (mine : ι → Bool) (m : κ → VersionManager) :
    Event ι → Prop
  | .ask i d => d.errand.Within (side N (mine i)) (m (host i))
  | _ => True

omit [DecidableEq ι] [DecidableEq κ] in
theorem fair_congr {N : Name → Prop} {mine : ι → Bool} {m m' : κ → VersionManager}
    (h : ∀ k, (m' k).setup = (m k).setup) (e : Event ι) :
    e.Fair host N mine m' ↔ e.Fair host N mine m := by
  cases e with
  | ask i d => exact Errand.within_congr (h (host i)) _
  | pass span => exact Iff.rfl
  | go i => exact Iff.rfl

end Event

variable {N : Name → Prop} {mine : ι → Bool} {b c : Bureau ι κ}

namespace Tidy

omit [DecidableEq ι] [DecidableEq κ] in
theorem confined (h : Tidy host N mine b) {i : ι} {e : Errand} (he : b.errands i = some e)
    (now : Time) :
    Site.Confined (side N (mine i)) (b.site (host i)) (e.step now (b.site (host i))).1 ∧
      ∀ e', (e.step now (b.site (host i))).2 = .inl e' →
        e'.Within (side N (mine i)) (b.managers (host i)) :=
  e.confined_step now h.sound (h.shelved (host i) (mine i)) (h.within i e he)

omit [DecidableEq ι] in
/-- A manager's setup is for good. -/
theorem setup_setSite {k : κ} {x : Site} (hx : x.manager.setup = (b.managers k).setup) (l : κ) :
    ((b.setSite k x).managers l).setup = (b.managers l).setup := by
  rw [managers_setSite]
  split
  · rename_i h
    rw [h]
    exact hx
  · rfl

omit [DecidableEq ι] in
theorem setSite (h : Tidy host N mine b) {k : κ} {own : Bool} {x : Site}
    (hx : Site.Confined (side N own) (b.site k) x) : Tidy host N mine (b.setSite k x) := by
  refine ⟨hx.sound, ?_, ?_⟩
  · intro l own'
    rw [managers_setSite]
    split
    · by_cases hown : own' = own
      · subst hown
        exact hx.shelved
      · -- the other records are as they were
        refine (h.shelved k own').congr ?_
        intro key hkey
        exact hx.records key fun hi => hown (side_unique hkey hi)
    · exact h.shelved l own'
  · intro i e he
    rw [Errand.within_congr (setup_setSite hx.setup (host i))]
    exact h.within i e he

omit [DecidableEq κ] in
theorem settle (h : Tidy host N mine b) {i : ι} {outcome : Errand ⊕ Reply}
    (ho : ∀ e, outcome = .inl e → e.Within (side N (mine i)) (b.managers (host i))) :
    Tidy host N mine (b.settle i outcome) := by
  refine ⟨?_, ?_, ?_⟩
  · rw [store_settle]
    exact h.sound
  · rw [managers_settle]
    exact h.shelved
  · intro j e he
    rw [managers_settle]
    rw [errands_settle] at he
    split at he
    · rename_i hj
      subst hj
      exact ho e (Sum.getLeft?_eq_some_iff.mp he)
    · exact h.within j e he

theorem step (h : Tidy host N mine b) {e : Event ι} (hfair : e.Fair host N mine b.managers) :
    Tidy host N mine (b.step host e) := by
  have hs := b.stepped host e
  generalize b.step host e = b' at hs
  cases hs with
  | idle => exact h
  | passed span => exact ⟨h.sound, h.shelved, h.within⟩
  | @began i d hnone =>
    refine h.settle ?_
    intro e he
    cases he
    exact hfair
  | @went i e he hready =>
    obtain ⟨hx, ho⟩ := h.confined he b.now
    refine (h.setSite hx).settle ?_
    intro e' he'
    rw [Errand.within_congr (setup_setSite hx.setup (host i))]
    exact ho e' he'

/-- What does not concern the clients that are `mine` leaves their names alone. -/
theorem elsewhere (h : Tidy host N mine b) {e : Event ι} (he : e.concerns mine = false) :
    (∀ kind name, N name → (b.step host e).store.find? kind name = b.store.find? kind name) ∧
    (∀ k key, N key →
      ((b.step host e).managers k).records.find? key = (b.managers k).records.find? key) ∧
    b.store.nextVersion ≤ (b.step host e).store.nextVersion := by
  have hs := b.stepped host e
  generalize b.step host e = b' at hs
  cases hs with
  | idle => exact ⟨fun _ _ _ => rfl, fun _ _ _ => rfl, Nat.le_refl _⟩
  | passed span => cases he
  | began d hnone => exact ⟨fun _ _ _ => rfl, fun _ _ _ => rfl, Nat.le_refl _⟩
  | @went i e' hi hready =>
    have hmine : mine i = false := he
    obtain ⟨hx, -⟩ := h.confined hi b.now
    have hout {name : Name} (hn : N name) : ¬ side N (mine i) name := by
      rw [hmine, side_false]
      exact fun hnot => hnot hn
    refine ⟨?_, ?_, ?_⟩
    · intro kind name hn
      rw [store_settle]
      exact hx.objects kind name (hout hn)
    · intro k key hk
      rw [managers_settle, managers_setSite]
      split
      · rename_i hkey
        rw [hkey]
        exact hx.records key (hout hk)
      · rfl
    · rw [store_settle]
      exact hx.onward

theorem faultless (h : Tidy host N mine b) (hf : b.store.faults = []) (e : Event ι) :
    (b.step host e).store.faults = [] := by
  have hs := b.stepped host e
  generalize b.step host e = b' at hs
  cases hs with
  | idle => exact hf
  | passed span => exact hf
  | began d hnone => exact hf
  | went hi hready =>
    obtain ⟨hx, -⟩ := h.confined hi b.now
    rw [store_settle]
    exact hx.faultless hf

theorem setup (h : Tidy host N mine b) (e : Event ι) (k : κ) :
    ((b.step host e).managers k).setup = (b.managers k).setup := by
  have hs := b.stepped host e
  generalize b.step host e = b' at hs
  cases hs with
  | idle => rfl
  | passed span => rfl
  | began d hnone => rfl
  | went hi hready =>
    obtain ⟨hx, -⟩ := h.confined hi b.now
    rw [managers_settle]
    exact setup_setSite hx.setup k

theorem run (h : Tidy host N mine b) {events : List (Event ι)}
    (hfair : ∀ e ∈ events, e.Fair host N mine b.managers) :
    Tidy host N mine (b.run host events) ∧
      ∀ k, ((b.run host events).managers k).setup = (b.managers k).setup := by
  induction events generalizing b with
  | nil => exact ⟨h, fun _ => rfl⟩
  | cons e rest ih =>
    have hsetup := h.setup e
    obtain ⟨htidy, hrest⟩ := ih (h.step (hfair e List.mem_cons_self)) fun e' hm =>
      (Event.fair_congr hsetup e').mpr (hfair e' (List.mem_cons_of_mem _ hm))
    exact ⟨htidy, fun k => (hrest k).trans (hsetup k)⟩

end Tidy

/-! Another client's event is nothing to the clients that are `mine`. -/

theorem now_step {e : Event ι} (he : e.concerns mine = false) : (b.step host e).now = b.now := by
  have hs := b.stepped host e
  generalize b.step host e = b' at hs
  cases hs with
  | idle => rfl
  | passed span => cases he
  | began d hnone => rfl
  | went hi hready => rw [now_settle, setSite]

theorem errands_step {e : Event ι} (he : e.concerns mine = false) {i : ι} (hi : mine i = true) :
    (b.step host e).errands i = b.errands i := by
  have hs := b.stepped host e
  generalize b.step host e = b' at hs
  have hne {j : ι} (hj : mine j = false) : i ≠ j := by
    rintro rfl
    rw [hi] at hj
    cases hj
  cases hs with
  | idle => rfl
  | passed span => rfl
  | began d hnone => rw [errands_settle, if_neg (hne he)]
  | went hj hready =>
    rw [errands_settle, if_neg (hne he)]
    rfl

theorem replies_step {e : Event ι} (he : e.concerns mine = false) {i : ι} (hi : mine i = true) :
    (b.step host e).replies i = b.replies i := by
  have hs := b.stepped host e
  generalize b.step host e = b' at hs
  have hne {j : ι} (hj : mine j = false) : i ≠ j := by
    rintro rfl
    rw [hi] at hj
    cases hj
  cases hs with
  | idle => rfl
  | passed span => rfl
  | began d hnone => rw [replies_settle, if_neg (hne he)]
  | went hj hready =>
    rw [replies_settle, if_neg (hne he)]
    rfl

/-- Two bureaus that the clients that are `mine` cannot tell apart. -/
structure Twin (host : ι → κ) (N : Name → Prop) (mine : ι → Bool) (b c : Bureau ι κ) : Prop where
  now : c.now = b.now
  tidy : Tidy host N mine b
  store : MemoryStore.Twin N b.store c.store
  managers : ∀ k, VersionManager.Twin N b.store c.store (b.managers k) (c.managers k)
  errands : ∀ i, mine i = true →
    Option.Rel (Errand.Twin N b.store c.store) (b.errands i) (c.errands i)
  replies : ∀ i, mine i = true → c.replies i = b.replies i

namespace Twin

/-- The other clients do something that the second bureau knows nothing of. -/
theorem step_other (h : Twin host N mine b c) {e : Event ι} (hfair : e.Fair host N mine b.managers)
    (he : e.concerns mine = false) : Twin host N mine (b.step host e) c := by
  obtain ⟨hobjects, hrecords, honward⟩ := h.tidy.elsewhere he
  have htidy := h.tidy.step hfair
  have ha : MemoryStore.Abreast N b.store c.store (b.step host e).store c.store :=
    abreast_of_elsewhere honward hobjects
  refine ⟨?_, htidy, ?_, ?_, ?_, ?_⟩
  · rw [now_step he]
    exact h.now
  · exact ha.twin h.store ⟨htidy.sound, h.store.sound.2⟩
      ⟨h.tidy.faultless h.store.faultless.1 e, h.store.faultless.2⟩
  · intro k
    have hk := (h.managers k).onward ha
    refine ⟨hk.setup.trans (h.tidy.setup e k).symm, ?_⟩
    intro key hkey
    rw [hrecords k key hkey]
    exact hk.alike key hkey
  · intro i hi
    rw [errands_step he hi]
    exact rel_imp (h.errands i hi) fun _ _ hef => hef.onward ha
  · intro i hi
    rw [replies_step he hi]
    exact h.replies i hi

omit [DecidableEq ι] in
theorem setSite (h : Twin host N mine b c) {k : κ} {x y : Site}
    (htidy : Tidy host N mine (b.setSite k x))
    (ha : Site.Abreast N (b.site k) (c.site k) x y) :
    Twin host N mine (b.setSite k x) (c.setSite k y) := by
  refine ⟨h.now, htidy, ha.twin.store, ?_, ?_, h.replies⟩
  · intro l
    rw [managers_setSite, managers_setSite]
    split
    · exact ha.twin.manager
    · exact (h.managers l).onward ha.stores
  · intro i hi
    exact rel_imp (h.errands i hi) fun _ _ hef => hef.onward ha.stores

omit [DecidableEq κ] in
theorem settle (h : Twin host N mine b c) {i : ι} (hi : mine i = true)
    {outcome outcome' : Errand ⊕ Reply} (htidy : Tidy host N mine (b.settle i outcome))
    (ho : Errand.Together N b.store c.store outcome outcome') :
    Twin host N mine (b.settle i outcome) (c.settle i outcome') := by
  refine ⟨?_, htidy, ?_, ?_, ?_, ?_⟩
  · rw [now_settle, now_settle]
    exact h.now
  · rw [store_settle, store_settle]
    exact h.store
  · rw [store_settle, store_settle, managers_settle, managers_settle]
    exact h.managers
  · intro j hj
    rw [store_settle, store_settle, errands_settle, errands_settle]
    split
    · cases ho with
      | going hef => exact .some hef
      | ended r => exact .none
    · exact h.errands j hj
  · intro j hj
    rw [replies_settle, replies_settle, h.replies i hi, h.replies j hj]
    cases ho with
    | going hef => rfl
    | ended r => rfl

/-- What concerns the clients that are `mine` happens in both bureaus. -/
theorem step_own (h : Twin host N mine b c) {e : Event ι} (hfair : e.Fair host N mine b.managers)
    (he : e.concerns mine = true) : Twin host N mine (b.step host e) (c.step host e) := by
  have htidy := h.tidy.step hfair
  cases e with
  | pass span =>
    refine ⟨?_, htidy, h.store, h.managers, h.errands, h.replies⟩
    exact congrArg (· + span) h.now
  | ask i d =>
    rcases rel_cases (h.errands i he) with ⟨hb, hc⟩ | ⟨f, g, hb, hc, -⟩
    · rw [step_ask_none hb] at htidy ⊢
      rw [step_ask_none hc]
      refine h.settle he htidy (.going ?_)
      cases d with
      | sync => exact .syncing _
      | update r => exact .updating (.preparing r)
      | get resource => exact .getting resource
      | delete resource => exact .deleting resource
    · rw [step_ask_some hb, step_ask_some hc]
      exact h
  | go i =>
    rcases rel_cases (h.errands i he) with ⟨hb, hc⟩ | ⟨f, g, hb, hc, hfg⟩
    · rw [step_go_none hb, step_go_none hc]
      exact h
    · rw [step_go_some hb] at htidy
      rw [step_go_some hb, step_go_some hc, h.now, hfg.ready]
      by_cases hready : f.ready b.now = true
      · rw [if_pos hready] at htidy
        rw [if_pos hready, if_pos hready]
        have hin : f.Within N (b.managers (host i)) := by
          have hw := h.tidy.within i f hb
          rw [show mine i = true from he, side_true] at hw
          exact hw
        have hsite : Site.Twin N (b.site (host i)) (c.site (host i)) :=
          ⟨h.store, h.managers (host i)⟩
        obtain ⟨ha, ho⟩ := Errand.step_abreast b.now hsite hfg hin
        obtain ⟨hx, -⟩ := h.tidy.confined hb b.now
        exact (h.setSite (h.tidy.setSite hx) ha).settle he htidy ho
      · rw [if_neg hready, if_neg hready]
        exact h

/-- However the calls of all clients interleave, the clients that are `mine` see what they see when
nobody else calls. -/
theorem run {events : List (Event ι)} (h : Twin host N mine b c)
    (hfair : ∀ e ∈ events, e.Fair host N mine b.managers) :
    Twin host N mine (b.run host events) (c.run host (events.filter (·.concerns mine))) := by
  induction events generalizing b c with
  | nil => exact h
  | cons e rest ih =>
    have he := hfair e List.mem_cons_self
    have hrest : ∀ e' ∈ rest, e'.Fair host N mine (b.step host e).managers := by
      intro e' hm
      exact (Event.fair_congr (h.tidy.setup e) e').mpr (hfair e' (List.mem_cons_of_mem _ hm))
    cases hc : e.concerns mine with
    | true =>
      rw [List.filter_cons_of_pos hc]
      exact ih (h.step_own he hc) hrest
    | false =>
      rw [List.filter_cons_of_neg (by simp [hc])]
      exact ih (h.step_other he hc) hrest

omit [DecidableEq ι] [DecidableEq κ] in
/-- A bureau that nobody has called yet, with versions in all caches that the store has handed
out. -/
theorem new (now : Time) {store : MemoryStore} {managers : κ → VersionManager}
    (hs : store.Sound) (hf : store.faults = [])
    (hshelved : ∀ k own, (managers k).Shelved (side N own))
    (hissued : ∀ k key o, (managers k).records.find? key = some o →
      ∀ v, o.metadata.resourceVersion = some v → store.Issued v) :
    Twin host N mine (Bureau.new now store managers) (Bureau.new now store managers) where
  now := rfl
  tidy := ⟨hs, hshelved, fun _ _ he => by cases he⟩
  store := .refl hs hf N
  managers k := by
    refine ⟨rfl, ?_⟩
    intro key _
    change Option.Rel (Alike N store store) ((managers k).records.find? key)
      ((managers k).records.find? key)
    cases ho : (managers k).records.find? key with
    | none => exact .none
    | some o => exact .some ⟨rfl, .refl N (hissued k key o ho)⟩
  errands _ _ := .none
  replies _ _ := rfl

end Twin

end Bureau

end FedTrack
