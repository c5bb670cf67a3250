import FedTrack.Access.Uri
import FedTrack.Settings.Reader
import FedTrack.Store.Error
import FedTrack.Yaml.Reader

namespace FedTrack

structure KubeContext where
  cluster : String
  user : Option String
  deriving DecidableEq, Repr

/-- An entry of a list; its content may be missing. -/
structure Named (α : Type) where
  name : String
  content : Option α
  deriving DecidableEq, Repr

structure Kubeconfig where
  apiVersion : Option String
  kind : Option String
  clusters : List (Named (Option String))
  users : List (Named Unit)
  contexts : List (Named KubeContext)
  deriving DecidableEq, Repr

namespace Kubeconfig

def empty : Kubeconfig := ⟨none, none, [], [], []⟩

instance : Inhabited Kubeconfig := ⟨empty⟩

/-! Reading -/

open Settings.Reader

/-- A field of which nothing is kept. -/
def unkept {α β : Type} (name : String) (read : Json → Except ReadFault β) : Slot α :=
  .of name .named (optional read) fun _ a => a

def cluster : Json → Except ReadFault (Option String) :=
  Slot.record true
    [.of "server" .named (optional text) fun v _ => v,
      unkept "insecure-skip-tls-verify" flag,
      unkept "certificate-authority" text,
      unkept "certificate-authority-data" text,
      unkept "proxy-url" text,
      unkept "tls-server-name" text]
    none

def user : Json → Except ReadFault Unit :=
  Slot.record true
    [unkept "username" text,
      unkept "password" text,
      unkept "token" text,
      unkept "tokenFile" text,
      unkept "client-certificate" text,
      unkept "client-certificate-data" text,
      unkept "client-key" text,
      unkept "client-key-data" text,
      unkept "as" text,
      unkept "as-groups" (list text)]
    ()

def context : Json → Except ReadFault KubeContext :=
  Slot.record true
    [.of "cluster" .never text fun v c => { c with cluster := v },
      .of "user" .named (optional text) fun v c => { c with user := v },
      unkept "namespace" text]
    ⟨"", none⟩

def named {α : Type} (what : String) (read : Json → Except ReadFault α) :
    Json → Except ReadFault (Named α) :=
  Slot.record true
    [.of "name" .never text fun v n => { n with name := v },
      .of what .named (optional read) fun v n => { n with content := v }]
    ⟨"", none⟩

def entries {α : Type} (what : String) (read : Json → Except ReadFault α) (j : Json) :
    Except ReadFault (List (Named α)) :=
  (optional (list (named what read)) j).map (·.getD [])

def document : Json → Except ReadFault Kubeconfig :=
  Slot.record true
    [.of "clusters" .always (entries "cluster" cluster) fun v k => { k with clusters := v },
      .of "users" .always (entries "user" user) fun v k => { k with users := v },
      .of "contexts" .always (entries "context" context) fun v k => { k with contexts := v },
      unkept "current-context" text,
      .of "kind" .named (optional text) fun v k => { k with kind := v },
      .of "apiVersion" .named (optional text) fun v k => { k with apiVersion := v }]
    empty

def agree (a b : Option String) : Bool := a.isNone || b.isNone || a == b

/-- Several documents make one; what comes first counts. -/
def merge? (a b : Kubeconfig) : Option Kubeconfig :=
  if agree a.kind b.kind && agree a.apiVersion b.apiVersion then
    some ⟨a.apiVersion <|> b.apiVersion, a.kind <|> b.kind, a.clusters ++ b.clusters,
      a.users ++ b.users, a.contexts ++ b.contexts⟩
  else none

/-- Reads a file. A key may stand once in each of its maps. -/
def ofText? (s : String) : Option Kubeconfig := do
  let nodes ← Yaml.nodes? s
  let documents ← nodes.mapM fun n =>
    if n.hasUniqueKeys then (document n.toJson).toOption else none
  documents.foldlM merge? empty

/-! Looking up -/

def content? {α : Type} (l : List (Named α)) (name : String) : Option α :=
  (l.find? (·.name == name)).bind (·.content)

/-- The server that a context leads to, if all that the context names is there. -/
def server? (k : Kubeconfig) (name : String) : Option String := do
  let c ← content? k.contexts name
  let server ← (← content? k.clusters c.cluster)
  if c.user.all fun u => (content? k.users u).isSome then
    if Uri.isUri server then some server else none
  else none

end Kubeconfig

namespace ClusterAccess

def defaultContext : String := "default"

/-- The server that is accessed, if there is one. `file` gives the kubeconfig file at a path,
or the usual one. No cluster is around the program itself. -/
def server (a : ClusterAccess) (file : Option String → Option Kubeconfig) :
    Except StoreError String :=
  match a with
  | .incluster => .error .configuration
  | .external context kubeconfig =>
    match (file kubeconfig).bind (·.server? (context.getD defaultContext)) with
    | some s => .ok s
    | none => .error .configuration

end ClusterAccess

end FedTrack
