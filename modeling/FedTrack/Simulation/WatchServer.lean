import FedTrack.Object.Wire
import FedTrack.Watch.Cache

namespace FedTrack.Simulation

inductive WatchLine
  | event (e : WatchEvent)
  /-- Keeps the connection's revision up to date. -/
  | bookmark
  | failure

/-- An open watch: lines not yet read, and whether anybody reads them. -/
structure Connection where
  lines : List WatchLine
  hasReader : Bool

/-- An api server of one kind of objects. Each change gets the next revision. -/
structure WatchServer where
  objects : Table Name Object
  revision : Nat
  failLists : Nat
  failWatches : Nat
  lists : Nat
  connections : Table Nat Connection
  nextConnection : Nat
  healthy : Bool
  discoverable : Bool

inductive ServerCommand
  | put (object : Object) (silent : Bool)
  | delete (name : Name) (silent : Bool)
  | bookmark
  | gone
  | garbage
  | closeWatches
  | failLists (times : Nat)
  | failWatches (times : Nat)
  | healthy (value : Bool)
  | discoverable (value : Bool)

inductive ServerReply
  | done
  | revision (n : Nat)
  | deleted (b : Bool)
  | closed (n : Nat)

namespace WatchServer

def new : WatchServer := ⟨.empty, 100, 0, 0, 0, .empty, 0, true, true⟩

instance : Inhabited WatchServer := ⟨new⟩

/-- Sends a line to all watches; those without reader are dropped. -/
def broadcast (s : WatchServer) (line : WatchLine) : WatchServer :=
  let readers := s.connections.entries.filter fun e => e.2.hasReader
  { s with connections := Table.ofList (readers.map fun e => (e.1, { e.2 with lines := e.2.lines ++ [line] })) }

def tell (s : WatchServer) (silent : Bool) (e : WatchEvent) : WatchServer :=
  if silent then s else s.broadcast (.event e)

/-- The object as readers see it: what went over the wire at a revision. -/
def seen (o : Object) (revision : Nat) : Object :=
  let o := o.setResourceVersion (some (toString revision))
  (o.toWire?.bind Object.ofWire?).getD o

def run (c : ServerCommand) (s : WatchServer) : WatchServer × ServerReply :=
  match c with
  | .put o silent =>
    let revision := s.revision + 1
    let o := seen o revision
    let s := { s with revision := revision, objects := s.objects.insert o.name o }
    (s.tell silent (.applied o), .revision revision)
  | .delete name silent =>
    match s.objects.find? name with
    | none => (s, .deleted false)
    | some o =>
      let revision := s.revision + 1
      let s := { s with revision := revision, objects := s.objects.erase name }
      (s.tell silent (.deleted (seen o revision)), .deleted true)
  | .bookmark => ({ s with revision := s.revision + 1 }.broadcast .bookmark, .done)
  | .gone | .garbage => (s.broadcast .failure, .done)
  | .closeWatches => ({ s with connections := .empty }, .closed s.connections.size)
  | .failLists times => ({ s with failLists := times }, .done)
  | .failWatches times => ({ s with failWatches := times }, .done)
  | .healthy value => ({ s with healthy := value }, .done)
  | .discoverable value => ({ s with discoverable := value }, .done)

def list (s : WatchServer) (scope : Option String) : WatchServer × Option (List Object) :=
  let s := { s with lists := s.lists + 1 }
  if s.failLists = 0 then
    let all := s.objects.values
    (s, some (match scope with
      | some ns => if ns = "" then all else all.filter fun o => o.name.scope == ns
      | none => all))
  else ({ s with failLists := s.failLists - 1 }, none)

def watch (s : WatchServer) : WatchServer × Option Nat :=
  if s.failWatches = 0 then
    ({ s with
      connections := s.connections.insert s.nextConnection ⟨[], true⟩
      nextConnection := s.nextConnection + 1 }, some s.nextConnection)
  else ({ s with failWatches := s.failWatches - 1 }, none)

def abandon (s : WatchServer) (connection : Nat) : WatchServer :=
  match s.connections.find? connection with
  | none => s
  | some c => { s with connections := s.connections.insert connection { c with hasReader := false } }

def readLine (s : WatchServer) (connection : Nat) : WatchServer × Option WatchLine :=
  match s.connections.find? connection with
  | some ⟨line :: rest, r⟩ =>
    ({ s with connections := s.connections.insert connection ⟨rest, r⟩ }, some line)
  | _ => (s, none)

end WatchServer

/-- Where a cache that follows a server stands. -/
inductive FollowStage
  | listing
  | connecting
  | watching (connection : Nat)
  | pausing (wake : Time)

namespace FollowStage

def ready (now : Time) (s : WatchServer) : FollowStage → Bool
  | .listing | .connecting => true
  | .watching c =>
    match s.connections.find? c with
    | some connection => !connection.lines.isEmpty
    | none => true
  | .pausing wake => wake ≤ now

def alarm : FollowStage → Option Time
  | .pausing wake => some wake
  | _ => none

def leave (s : WatchServer) : FollowStage → WatchServer
  | .watching c => s.abandon c
  | _ => s

/-- One step: the new stage and the names published. A failure of any kind ends the run; the
next one follows after a pause. -/
def step (now : Time) (scope : Option String) (s : WatchServer) (c : WatchedCache) :
    FollowStage → WatchServer × WatchedCache × FollowStage × List Name
  | .listing =>
    match s.list scope with
    | (s, none) => (s, c.restart, .pausing (now + WatchedCache.retryDelay), [])
    | (s, some objects) =>
      let (c, names) := c.handleAll (WatchedCache.listingEvents objects)
      (s, c, .connecting, names)
  | .connecting =>
    match s.watch with
    | (s, none) => (s, c.restart, .pausing (now + WatchedCache.retryDelay), [])
    | (s, some connection) => (s, c, .watching connection, [])
  | .watching connection =>
    if s.connections.contains connection then
      match s.readLine connection with
      | (s, none) => (s, c, .watching connection, [])
      | (s, some (.event e)) =>
        let (c, names) := c.handle e
        (s, c, .watching connection, names)
      | (s, some .bookmark) => (s, c, .watching connection, [])
      | (s, some .failure) =>
        (s.abandon connection, c.restart, .pausing (now + WatchedCache.retryDelay), [])
    else (s, c, .connecting, [])
  | .pausing _ => (s, c, .listing, [])

end FollowStage

end FedTrack.Simulation
