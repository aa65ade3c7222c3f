import Eggwork.Artifact.Store
import Eggwork.Server.Config

/-! From a path to what is authorized, and to what is acted on.

`operation_for` reads the path to select a route, and `resource_for_path` reads it
again for the authorizer. That both find the same identifier is a fact about the two
of them (`authorized_resource`). -/
namespace Eggwork.Server.Routes
open Config (Operation)
open Artifact (ArtifactId)

inductive ResourceId where
  | execution (id : ExecutionId)
  | blob (digest : BlobDigest)
  | workspace (id : String)
  | artifact (id : ArtifactId)
deriving DecidableEq

structure OperationRequest where
  operation : Operation
  resource : Option ResourceId

inductive Route where
  | capabilities | status | telemetry | execute
  | observe (id : ExecutionId)
  | cancel (id : ExecutionId)
  | renew (id : ExecutionId)
  | events (id : ExecutionId)
  | blobMissing | blobPrepare
  | blobUpload (digest : BlobDigest)
  | blobDownload (digest : BlobDigest)
  | blobInvalidDigest | workspaceCreate | workspaceDerive
  | artifactList (id : ExecutionId)
  | artifactDownload (id : ArtifactId)
deriving DecidableEq

def parseDigest (value : String) : Option BlobDigest :=
  if h : (decide (value.utf8ByteSize = 64) && value.toList.all lowerHex) = true then some ⟨value, h⟩ else none

def executionId (value : String) : Option ExecutionId := (IdType.new "execution id" value).toOption

def artifactId (value : String) : Option ArtifactId := (IdType.new "artifact id" value).toOption

/-- `path.split('/')`. -/
def parts (path : String) : List String := (path.toList.splitOn '/').map String.ofList

def executionAction (id : ExecutionId) : String → String → Option (Operation × Route)
  | "POST", "cancel" => some (.cancel, .cancel id)
  | "POST", "renew" => some (.renew, .renew id)
  | "GET", "events" => some (.events, .events id)
  | "GET", "artifacts" => some (.artifactRead, .artifactList id)
  | _, _ => none

def blobRoute (value : String) : String → Option (Operation × Route)
  | "PUT" => some (.blobWrite, (parseDigest value).elim .blobInvalidDigest .blobUpload)
  | "GET" => some (.blobRead, (parseDigest value).elim .blobInvalidDigest .blobDownload)
  | _ => none

def operationForParts (method : String) : List String → Option (Operation × Route)
  | ["", "v1", "artifacts", value] => do
    let artifact ← artifactId value
    if method = "GET" then some (.artifactRead, .artifactDownload artifact) else none
  | ["", "v1", "executions", value] => do
    let id ← executionId value
    if method = "GET" then some (.observe, .observe id) else none
  | ["", "v1", "executions", value, action] => do
    let id ← executionId value
    executionAction id method action
  | ["", "v1", "blobs", value] => blobRoute value method
  | _ => none

def operationFor (method path : String) : Option (Operation × Route) :=
  match method, path with
  | "GET", "/v1/capabilities" => some (.capabilities, .capabilities)
  | "GET", "/v1/status" => some (.status, .status)
  | "GET", "/v1/node/telemetry" => some (.telemetry, .telemetry)
  | "POST", "/v1/executions" => some (.execute, .execute)
  | "POST", "/v1/blobs/missing" => some (.blobRead, .blobMissing)
  | "POST", "/v1/blobs/prepare" => some (.blobWrite, .blobPrepare)
  | "POST", "/v1/workspaces" => some (.workspaceCreate, .workspaceCreate)
  | "POST", "/v1/workspaces/derive" => some (.workspaceCreate, .workspaceDerive)
  | _, _ => operationForParts method (parts path)

def resourceForParts (operation : Operation) (parts : List String) : Option ResourceId :=
  match operation with
  | .observe | .cancel | .renew | .events => (parts[3]?.bind executionId).map .execution
  | .blobRead | .blobWrite => (parts[3]?.bind parseDigest).map .blob
  | .artifactRead =>
    if parts[2]? = some "artifacts" then (parts[3]?.bind artifactId).map .artifact
    else (parts[3]?.bind executionId).map .execution
  | _ => none

def resourceForPath (operation : Operation) (path : String) : Option ResourceId := resourceForParts operation (parts path)

inductive Dispatched (P : Type) where
  | notFound | unauthenticated | forbidden
  /-- The handler of the route, with the identifier the route carries. -/
  | handled (principal : P) (route : Route)

def dispatch {P : Type} (authorize : P → OperationRequest → Bool) (principal : Option P) (method path : String) :
    Dispatched P :=
  match operationFor method path, principal with
  | none, _ => .notFound
  | some _, none => .unauthenticated
  | some (operation, route), some principal =>
    if authorize principal ⟨operation, resourceForPath operation path⟩ then .handled principal route else .forbidden

/-! ### One resource -/

/-- The identifier a handler is given. -/
def Route.resource : Route → Option ResourceId
  | .observe id | .cancel id | .renew id | .events id | .artifactList id => some (.execution id)
  | .blobUpload digest | .blobDownload digest => some (.blob digest)
  | .artifactDownload id => some (.artifact id)
  | _ => none

variable {method : String} {operation : Operation} {route : Route}

theorem executionAction_resource {id : ExecutionId} {value action : String} (hid : executionId value = some id)
    (h : executionAction id method action = some (operation, route)) :
    resourceForParts operation ["", "v1", "executions", value, action] = route.resource := by
  unfold executionAction at h
  split at h <;> cases h <;> simp [resourceForParts, hid, Route.resource]

theorem blobRoute_resource {value : String} (h : blobRoute value method = some (operation, route)) :
    resourceForParts operation ["", "v1", "blobs", value] = route.resource := by
  unfold blobRoute at h
  split at h <;> cases h <;> cases hd : parseDigest value <;> simp [resourceForParts, hd, Route.resource]

theorem operationForParts_resource {parts : List String} (h : operationForParts method parts = some (operation, route)) :
    resourceForParts operation parts = route.resource := by
  unfold operationForParts at h
  split at h
  · obtain ⟨artifact, hid, h⟩ := Option.bind_eq_some_iff.mp h
    obtain ⟨_, ⟨⟩⟩ := Option.ite_none_right_eq_some.mp h
    simp [resourceForParts, hid, Route.resource]
  · obtain ⟨id, hid, h⟩ := Option.bind_eq_some_iff.mp h
    obtain ⟨_, ⟨⟩⟩ := Option.ite_none_right_eq_some.mp h
    simp [resourceForParts, hid, Route.resource]
  · obtain ⟨id, hid, h⟩ := Option.bind_eq_some_iff.mp h
    exact executionAction_resource hid h
  · exact blobRoute_resource h
  · cases h

/-- The names of the two fixed routes under `blobs` are no digests. -/
theorem operationFor_resource {path : String} (h : operationFor method path = some (operation, route)) :
    resourceForPath operation path = route.resource := by
  unfold operationFor at h
  split at h
  case h_9 => exact operationForParts_resource h
  all_goals cases h; decide

/-- The authorizer is asked about the identifier the handler is given. -/
theorem authorized_resource {path : String} (h : operationFor method path = some (operation, route)) :
    resourceForPath operation path = route.resource ∧ ∀ {P : Type} (authorize : P → OperationRequest → Bool) (principal : P),
      dispatch authorize (some principal) method path =
        if authorize principal ⟨operation, route.resource⟩ then .handled principal route else .forbidden := by
  have hresource := operationFor_resource h
  refine ⟨hresource, fun authorize principal => ?_⟩
  unfold dispatch
  simp only [h, hresource]

theorem authorized_resource_listing : ∃ id : ExecutionId,
    resourceForPath .artifactRead "/v1/executions/artifacts/artifacts" = some (.execution id) :=
  ⟨⟨"artifacts", by decide⟩, (authorized_resource (show operationFor "GET" "/v1/executions/artifacts/artifacts" =
    some (.artifactRead, .artifactList ⟨"artifacts", by decide⟩) by decide)).1⟩

end Eggwork.Server.Routes
