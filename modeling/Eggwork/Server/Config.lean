import Eggwork.Core.Manifest
import Eggwork.Lib.Resolution
import Mathlib.Data.List.Find

/-! The operator's configuration: what is accepted, and what is made of it.

Parsers of the standard library and of other crates, and the TLS files, are
parameters of the `Environment`; the file system is a tree that paths are resolved
in. -/
namespace Eggwork.Server.Config
open Lib List Table

variable {s : List String}

inductive OperationsError where
  | config | io | data | bounds | notFound
deriving DecidableEq, Repr

inductive Operation where
  | capabilities | status | telemetry | execute | observe | cancel | renew | events
  | blobRead | blobWrite | workspaceCreate | artifactRead
deriving DecidableEq, Repr

def operation : String → Option Operation
  | "capabilities" => some .capabilities
  | "status" => some .status
  | "telemetry" => some .telemetry
  | "execute" => some .execute
  | "observe" => some .observe
  | "cancel" => some .cancel
  | "renew" => some .renew
  | "events" => some .events
  | "blob-read" => some .blobRead
  | "blob-write" => some .blobWrite
  | "workspace-create" => some .workspaceCreate
  | "artifact-read" => some .artifactRead
  | _ => none

structure HostTelemetrySettings where
  endpoint : String
  refreshIntervalSeconds : UInt64
  freshnessSeconds : UInt64
deriving DecidableEq, Repr

structure TlsFiles where
  certificateChain : HostPath
  privateKey : HostPath
  clientCa : HostPath
deriving DecidableEq, Repr

structure ClientGrant where
  principalId : String
  certificateSha256 : String
  operations : List String
deriving DecidableEq, Repr

structure OperatorConfig where
  schemaVersion : UInt16
  nodeId : String
  bind : String
  executionRoot : HostPath
  databasePath : HostPath
  blobRoot : HostPath
  blobQuotaBytes : UInt64
  workspaceRoot : HostPath
  workspaceQuotaBytes : UInt64
  maxActiveExecutions : UInt32
  leaseTtlSeconds : UInt64
  sandboxHelper : Option HostPath
  tls : TlsFiles
  clients : List ClientGrant
  hostTelemetry : Option HostTelemetrySettings
deriving DecidableEq, Repr

/-- What the configuration is judged in. -/
structure Environment where
  isSocketAddr : String → Bool
  tlsConfig : TlsFiles → Except OperationsError Unit
  isEndpoint : String → Bool
  tree : HostTree
  cwd : FsPath
  cwd_directory : tree.isDirectory cwd = true
  euid : Nat

/-! ### Paths relative to the configuration file -/

def isHexDigit (c : Char) : Bool := c.isDigit || (decide ('a' ≤ c) && decide (c ≤ 'f')) || (decide ('A' ≤ c) && decide (c ≤ 'F'))

/-- One grant; the fingerprints before it are in lower case. -/
def checkGrant (fingerprints : List String) (grant : ClientGrant) : Except OperationsError (List String) :=
  if !validId grant.principalId || grant.certificateSha256.utf8ByteSize != 64 ||
      !grant.certificateSha256.toList.all isHexDigit || fingerprints.contains (asciiLower grant.certificateSha256) ||
      grant.operations.isEmpty || grant.operations.any fun name => (operation name).isNone then .error .config
  else .ok (asciiLower grant.certificateSha256 :: fingerprints)

def checkClients (clients : List ClientGrant) : Except OperationsError (List String) := clients.foldlM checkGrant []

/-- `HostTelemetryConfig::new`. -/
def HostTelemetrySettings.config (env : Environment) (settings : HostTelemetrySettings) : Except OperationsError Unit :=
  let refresh := settings.refreshIntervalSeconds.toNat
  let freshness := settings.freshnessSeconds.toNat
  if refresh < 1 ∨ 3600 < refresh ∨ freshness < 1 ∨ 3600 < freshness ∨ freshness < refresh ∨
      env.isEndpoint settings.endpoint = false then .error .config
  else .ok ()

section
variable (env : Environment)

/-- A directory of the user's own, for no one else. -/
def trustedDirectory : HostNode → Bool
  | .directory owner mode => decide (owner = env.euid) && decide (mode % 0o1000 = 0o700)
  | _ => false

def ownedWritableFile : HostNode → Bool
  | .file owner mode => decide (owner = env.euid) && mode.testBit 7
  | _ => false

def checkRoot (path : HostPath) : Except OperationsError Unit :=
  if (env.tree.lstat env.cwd path).any (trustedDirectory env) then .ok () else .error .config

/-- Equal, or one inside the other, by their components. -/
def overlaps (path other : HostPath) : Bool :=
  path.components == other.components || path.startsWith other || other.startsWith path

/-- The directory of the database, if its path names one. -/
def checkParent : Option HostPath → Except OperationsError Unit
  | some parent =>
    if !(env.tree.stat env.cwd parent).any HostNode.isDirectory ||
        (env.tree.lstat env.cwd parent).any fun node => !trustedDirectory env node then throw .config
    else pure ()
  | none => pure ()

def checkDatabase (path : HostPath) : Except OperationsError Unit := do
  checkParent env path.parent
  if (env.tree.lstat env.cwd path).any fun node => !ownedWritableFile env node then throw .config

def checkTelemetry : Option HostTelemetrySettings → Except OperationsError Unit
  | some settings => settings.config env
  | none => pure ()

def OperatorConfig.validate (c : OperatorConfig) : Except OperationsError Unit := do
  if c.schemaVersion ≠ 1 ∨ validId c.nodeId = false ∨ env.isSocketAddr c.bind = false ∨ c.maxActiveExecutions = 0 ∨
      c.maxActiveExecutions > 65536 ∨ c.leaseTtlSeconds = 0 ∨ c.leaseTtlSeconds > 86400 ∨ c.blobQuotaBytes = 0 ∨
      c.workspaceQuotaBytes = 0 ∨ c.clients = [] ∨ c.clients.length > 1024 then throw .config
  let _ ← checkClients c.clients
  env.tlsConfig c.tls
  checkTelemetry env c.hostTelemetry
  [c.executionRoot, c.blobRoot, c.workspaceRoot].forM (checkRoot env)
  if overlaps c.executionRoot c.blobRoot || overlaps c.executionRoot c.workspaceRoot ||
      overlaps c.blobRoot c.workspaceRoot then throw .config
  checkDatabase env c.databasePath

end

/-! ### Principals -/

structure FingerprintPrincipalResolver where
  principals : Table String PrincipalId

def FingerprintPrincipalResolver.new (entries : List (String × PrincipalId)) : FingerprintPrincipalResolver :=
  ⟨Table.collect Prod.fst Prod.snd entries⟩

/-- The fingerprint of a leaf certificate is the hexadecimal digest of its bytes. -/
def FingerprintPrincipalResolver.resolveVerifiedLeaf (r : FingerprintPrincipalResolver) (fingerprint : List UInt8 → String)
    (leaf : List UInt8) : Option PrincipalId := r.principals.get? (fingerprint leaf)

structure GrantAuthorizer where
  grants : Table PrincipalId (List Operation)

def GrantAuthorizer.authorize (a : GrantAuthorizer) (principal : PrincipalId) (o : Operation) : Bool :=
  (a.grants.get? principal).any fun allowed => allowed.contains o

def ClientGrant.principal (client : ClientGrant) : Except OperationsError PrincipalId :=
  match IdType.new "principal id" client.principalId with
  | .ok id => .ok id
  | .error _ => .error .config

/-- One round of the loop over the clients. -/
def register (built : List (String × PrincipalId) × Table PrincipalId (List Operation)) (client : ClientGrant) :
    Except OperationsError (List (String × PrincipalId) × Table PrincipalId (List Operation)) := do
  let id ← client.principal
  return (built.1 ++ [(asciiLower client.certificateSha256, id)], built.2.put id (client.operations.filterMap operation))

def OperatorConfig.principals (c : OperatorConfig) : Except OperationsError (FingerprintPrincipalResolver × GrantAuthorizer) := do
  let (identities, grants) ← c.clients.foldlM register ([], Table.empty)
  return (.new identities, ⟨grants⟩)

variable {c : OperatorConfig}

/-- What a certificate may do: its principal, then the principal's operations. -/
def authorized (fingerprint : List UInt8 → String) (built : FingerprintPrincipalResolver × GrantAuthorizer)
    (leaf : List UInt8) (o : Operation) : Bool :=
  (built.1.resolveVerifiedLeaf fingerprint leaf).any fun principal => built.2.authorize principal o

/-! ### Authority -/

def ClientGrant.grants (client : ClientGrant) (o : Operation) : Prop := ∃ name ∈ client.operations, operation name = some o

/-- The operation is listed in a grant that carries the fingerprint. -/
def Listed (clients : List ClientGrant) (fingerprint : String) (o : Operation) : Prop :=
  ∃ client ∈ clients, asciiLower client.certificateSha256 = fingerprint ∧ client.grants o

def lastGrant (clients : List ClientGrant) (principalId : String) : Option ClientGrant :=
  clients.reverse.find? fun client => client.principalId == principalId

theorem principal_ok {client : ClientGrant} (h : validId client.principalId = true) :
    ∃ id : PrincipalId, client.principal = .ok id ∧ id.value = client.principalId := by
  refine ⟨⟨client.principalId, h⟩, ?_, rfl⟩
  have hp := h
  simp only [validId, Bool.and_eq_true, Bool.not_eq_true', decide_eq_true_eq] at hp
  simp only [ClientGrant.principal, IdType.new, hp.1.1, Nat.not_lt.mpr hp.1.2, h]
  simp

/-- What the loop over the grants asks of each. -/
structure ClientGrant.Accepted (client : ClientGrant) : Prop where
  principal : validId client.principalId = true
  length : client.certificateSha256.utf8ByteSize = 64
  hexadecimal : client.certificateSha256.toList.all isHexDigit = true
  nonempty : client.operations ≠ []
  known : ∀ name ∈ client.operations, (operation name).isNone = false

variable {clients : List ClientGrant}

def fingerprints (clients : List ClientGrant) : List String := clients.map fun client => asciiLower client.certificateSha256

/-- The grants accepted together: each on its own, and no fingerprint twice. -/
structure GrantsAccepted (clients : List ClientGrant) : Prop where
  each : ∀ client ∈ clients, client.Accepted
  distinct : (fingerprints clients).Nodup

theorem checkGrant_ok {seen : List String} {client : ClientGrant} : checkGrant seen client = .ok s ↔
      (client.Accepted ∧ asciiLower client.certificateSha256 ∉ seen) ∧ s = asciiLower client.certificateSha256 :: seen := by
  unfold checkGrant
  constructor
  · intro h
    split at h
    · cases h
    rename_i hc
    cases h
    simp only [Bool.or_eq_true, not_or, Bool.not_eq_true, Bool.not_eq_false', bne_eq_false_iff_eq, contains_eq_mem,
      decide_eq_false_iff_not, isEmpty_eq_false_iff, any_eq_false] at hc
    obtain ⟨⟨⟨⟨⟨hp, hlen⟩, hhex⟩, hf⟩, hn⟩, hk⟩ := hc
    exact ⟨⟨⟨hp, hlen, hhex, hn, hk⟩, hf⟩, rfl⟩
  · rintro ⟨⟨ha, hf⟩, rfl⟩
    rw [if_neg]
    simp only [Bool.or_eq_true, not_or, Bool.not_eq_true, Bool.not_eq_false', bne_eq_false_iff_eq, contains_eq_mem,
      decide_eq_false_iff_not, isEmpty_eq_false_iff, any_eq_false]
    exact ⟨⟨⟨⟨⟨ha.principal, ha.length⟩, ha.hexadecimal⟩, hf⟩, ha.nonempty⟩, ha.known⟩

theorem checkClients_ok : checkClients clients = .ok s ↔ GrantsAccepted clients ∧ s = (fingerprints clients).reverse := by
  have hstep : ∀ {seen client s}, GrantsAccepted seen → (checkGrant (fingerprints seen).reverse client = .ok s ↔
      GrantsAccepted (seen ++ [client]) ∧ s = (fingerprints (seen ++ [client])).reverse) := by
    intro seen client s hseen
    rw [checkGrant_ok, fingerprints, fingerprints, map_append, map_singleton, reverse_append,
      reverse_singleton, singleton_append, mem_reverse]
    refine and_congr_left fun _ => ?_
    constructor
    · rintro ⟨haccept, hf⟩
      refine ⟨?_, ?_⟩
      · intro c hc
        rcases mem_append.mp hc with hold | hnew
        · exact hseen.each c hold
        · rw [mem_singleton.mp hnew]
          exact haccept
      · rw [fingerprints, map_append, map_singleton]
        exact nodup_append.mpr ⟨hseen.distinct, nodup_singleton _, by
          intro a ha b hb he
          exact hf (mem_singleton.mp hb ▸ he ▸ ha)⟩
    · intro h
      refine ⟨h.each client (mem_append_right _ (mem_singleton_self _)), fun hm => ?_⟩
      have hd := h.distinct
      rw [fingerprints, map_append, map_singleton] at hd
      exact (nodup_append.mp hd).2.2 _ hm _ (mem_singleton_self _) rfl
  have hinit : ∀ {seen rest}, GrantsAccepted (seen ++ rest) → GrantsAccepted seen := by
    intro seen rest h
    refine ⟨fun c hc => h.each c (mem_append_left _ hc), ?_⟩
    have hd := h.distinct
    rw [fingerprints, map_append] at hd
    exact (nodup_append.mp hd).1
  have hn : GrantsAccepted [] := ⟨nofun, nodup_nil⟩
  exact foldlM_eq_ok (fun seen => (fingerprints seen).reverse) GrantsAccepted hstep hinit hn

theorem register_ok (h : ∀ client ∈ clients, validId client.principalId = true) :
    ∃ named : List (PrincipalId × ClientGrant), named.map Prod.snd = clients ∧ (∀ n ∈ named, n.1.value = n.2.principalId) ∧
      clients.foldlM register ([], empty) = .ok (named.map fun n => (asciiLower n.2.certificateSha256, n.1),
        collect Prod.fst (fun n => n.2.operations.filterMap operation) named) := by
  induction clients using List.reverseRecOn with
  | nil => exact ⟨[], rfl, nofun, rfl⟩
  | append_singleton clients client ih =>
    obtain ⟨named, hnamed, hv, hloop⟩ := ih fun c hc => h c (mem_append_left _ hc)
    obtain ⟨id, hid, hvalue⟩ := principal_ok (h client (mem_append_right _ (mem_singleton_self _)))
    refine ⟨named ++ [(id, client)], by rw [map_append, hnamed]; rfl, fun n hn => ?_, ?_⟩
    · rcases mem_append.mp hn with hold | hnew
      · exact hv n hold
      · rw [mem_singleton.mp hnew]
        exact hvalue
    · rw [foldlM_append, hloop]
      show (register _ client >>= fun s => pure s) = _
      rw [register, hid, collect_append, map_append]
      rfl

theorem mem_filterMap_operation {client : ClientGrant} {o : Operation} :
    (client.operations.filterMap operation).contains o = true ↔ client.grants o := by
  rw [contains_iff_mem, mem_filterMap, ClientGrant.grants]

theorem lastGrant_named {named : List (PrincipalId × ClientGrant)} (hv : ∀ n ∈ named, n.1.value = n.2.principalId)
    (id : PrincipalId) :
    (named.reverse.find? fun n => n.1 == id).map Prod.snd = lastGrant (named.map Prod.snd) id.value := by
  have hsame : named.reverse.find? (fun n => n.1 == id) = named.reverse.find? fun n => n.2.principalId == id.value := by
    refine List.find?_congr fun n hn => ?_
    rw [← hv n (mem_reverse.mp hn), Bool.eq_iff_iff, beq_iff_eq, beq_iff_eq]
    exact ⟨congrArg IdType.value, IdType.eq_of_value⟩
  rw [lastGrant, hsame, ← map_reverse, List.find?_map]
  rfl

theorem authorized_iff (ha : GrantsAccepted c.clients) (fingerprint : List UInt8 → String)
    {built : FingerprintPrincipalResolver × GrantAuthorizer} (hb : c.principals = .ok built) (leaf : List UInt8)
    (o : Operation) : authorized fingerprint built leaf o = true ↔
      ∃ client ∈ c.clients, asciiLower client.certificateSha256 = fingerprint leaf ∧
        ∃ last, lastGrant c.clients client.principalId = some last ∧ last.grants o := by
  obtain ⟨named, hnamed, hv, hloop⟩ := register_ok fun client hc => (ha.each client hc).principal
  rw [OperatorConfig.principals, hloop] at hb
  cases hb
  have hkeys : ((named.map fun n => (asciiLower n.2.certificateSha256, n.1)).map Prod.fst).Nodup := by
    have hd := ha.distinct
    rw [fingerprints, ← hnamed, map_map] at hd
    rw [map_map]
    exact hd
  have hg (id : PrincipalId) : (GrantAuthorizer.authorize ⟨collect Prod.fst (fun n => n.2.operations.filterMap operation) named⟩ id o = true) ↔
      ∃ last, lastGrant c.clients id.value = some last ∧ last.grants o := by
    rw [GrantAuthorizer.authorize, get?_collect, ← hnamed, ← lastGrant_named hv]
    cases named.reverse.find? fun n => n.1 == id with
    | none => simp
    | some n => simpa using mem_filterMap_operation
  constructor
  · intro h
    obtain ⟨id, hid, hop⟩ := (Option.any_eq_true _ _).mp h
    obtain ⟨e, he, rfl, hp⟩ := (collect_eq_some _ _ hkeys).mp hid
    obtain ⟨n, hn, rfl⟩ := mem_map.mp he
    refine ⟨n.2, hnamed ▸ mem_map_of_mem hn, hp, ?_⟩
    rw [← hv n hn]
    exact (hg n.1).mp hop
  · rintro ⟨client, hc, hp, hlast⟩
    rw [← hnamed] at hc
    obtain ⟨n, hn, rfl⟩ := mem_map.mp hc
    have hid := (collect_eq_some Prod.fst Prod.snd hkeys).mpr ⟨_, mem_map_of_mem hn, rfl, hp⟩
    rw [← hv n hn] at hlast
    exact (Option.any_eq_true _ _).mpr ⟨n.1, hid, (hg n.1).mpr hlast⟩

theorem principals_ok (h : GrantsAccepted c.clients) : ∃ built, c.principals = .ok built := by
  obtain ⟨_, _, _, hloop⟩ := register_ok fun client hc => (h.each client hc).principal
  rw [OperatorConfig.principals, hloop]
  exact ⟨_, rfl⟩

/-- The grants that carry a fingerprint list the operations of their principal's last grant. -/
def SharesAlike (clients : List ClientGrant) (fingerprint : String) : Prop :=
  ∀ client ∈ clients, asciiLower client.certificateSha256 = fingerprint →
    ∀ last, lastGrant clients client.principalId = some last → ∀ o, client.grants o ↔ last.grants o

theorem GrantsAccepted.unique (h : GrantsAccepted clients) {a b : ClientGrant} (ha : a ∈ clients) (hb : b ∈ clients)
    (he : asciiLower a.certificateSha256 = asciiLower b.certificateSha256) : a = b :=
  inj_on_of_nodup_map h.distinct ha hb he

theorem lastGrant_exists {client : ClientGrant} (h : client ∈ clients) :
    ∃ last, lastGrant clients client.principalId = some last :=
  Option.isSome_iff_exists.mp (List.find?_isSome.mpr ⟨client, mem_reverse.mpr h, beq_self_eq_true _⟩)

/-- A certificate may do what the grant with its fingerprint lists, exactly if the last
grant of the same principal lists the same. -/
theorem authority_matches_grant {c : OperatorConfig} {seen : List String} (haccepted : checkClients c.clients = .ok seen)
    (fingerprint : List UInt8 → String) (leaf : List UInt8) : ∃ built, c.principals = .ok built ∧
      ((∀ o, authorized fingerprint built leaf o = true ↔ Listed c.clients (fingerprint leaf) o) ↔
        SharesAlike c.clients (fingerprint leaf)) := by
  have hgrants := (checkClients_ok.mp haccepted).1
  obtain ⟨built, hbuilt⟩ := principals_ok hgrants
  refine ⟨built, hbuilt, ?_⟩
  have hauthorized := authorized_iff hgrants fingerprint hbuilt leaf
  constructor
  · intro h client hclient hfingerprint last hlast o
    constructor
    · intro hop
      obtain ⟨other, hother, hsame, last', hlast', hop'⟩ := (hauthorized o).mp ((h o).mpr ⟨client, hclient, hfingerprint, hop⟩)
      rw [hgrants.unique hother hclient (hsame.trans hfingerprint.symm), hlast] at hlast'
      cases hlast'
      exact hop'
    · intro hop
      obtain ⟨other, hother, hsame, hop'⟩ := (h o).mp ((hauthorized o).mpr ⟨client, hclient, hfingerprint, last, hlast, hop⟩)
      rw [hgrants.unique hother hclient (hsame.trans hfingerprint.symm)] at hop'
      exact hop'
  · intro h o
    rw [hauthorized]
    constructor
    · rintro ⟨client, hclient, hfingerprint, last, hlast, hop⟩
      exact ⟨client, hclient, hfingerprint, (h client hclient hfingerprint last hlast o).mpr hop⟩
    rintro ⟨client, hclient, hfingerprint, hop⟩
    obtain ⟨last, hlast⟩ := lastGrant_exists hclient
    exact ⟨client, hclient, hfingerprint, last, hlast, (h client hclient hfingerprint last hlast o).mp hop⟩

namespace Example

def hex (c : Char) : String := "".pushn c 64

def controller : ClientGrant := ⟨"controller", hex 'a', ["status", "execute"]⟩
/-- The same principal with another certificate. -/
def viewer : ClientGrant := ⟨"controller", hex 'b', ["status"]⟩

def path (text : String) : HostPath := .ofString text

def config (clients : List ClientGrant) : OperatorConfig where
  schemaVersion := 1
  nodeId := "node"
  bind := "127.0.0.1:7443"
  executionRoot := path "/srv/run"
  databasePath := path "/srv/db/node.sqlite"
  blobRoot := path "/srv/blobs"
  blobQuotaBytes := 1
  workspaceRoot := path "/srv/ws"
  workspaceQuotaBytes := 1
  maxActiveExecutions := 1
  leaseTtlSeconds := 60
  sandboxHelper := none
  tls := ⟨path "/tls/chain", path "/tls/key", path "/tls/ca"⟩
  clients
  hostTelemetry := none

/-- A digest that is all the same digit. -/
def digest (leaf : List UInt8) : String := hex (if leaf = [] then 'a' else 'b')

end Example

open Example

theorem authority_matches_controller : ∃ built, (config [viewer, controller]).principals = .ok built ∧
      ∀ o, authorized digest built [] o = true ↔ Listed [viewer, controller] (digest []) o := by
  have hchecked : checkClients (config [viewer, controller]).clients = .ok [hex 'a', hex 'b'] := by
    decide
  obtain ⟨built, hbuilt, hmatches⟩ := authority_matches_grant hchecked digest []
  refine ⟨built, hbuilt, hmatches.mpr fun client hclient hfingerprint last hlast o => ?_⟩
  have hlist : client = viewer ∨ client = controller := mem_pair.mp hclient
  rcases hlist with rfl | rfl
  · exact absurd hfingerprint (by decide)
  have hself : lastGrant [viewer, controller] controller.principalId = some controller := by
    decide
  cases hself.symm.trans hlast
  exact Iff.rfl

/-- Whether a certificate may do something, once the tables are built. -/
def may (clients : List ClientGrant) (leaf : List UInt8) (o : Operation) : Bool :=
  match (config clients).principals with
  | .ok built => authorized digest built leaf o
  | .error _ => false

/-- The viewer's certificate may execute: a later grant of the same principal lists it. -/
theorem shared_principal_gains_operation : (checkClients [viewer, controller]).isOk = true ∧
      may [viewer, controller] [1] .execute = true ∧ ¬ Listed [viewer, controller] (digest [1]) .execute := by
  refine ⟨by decide, by decide, ?_⟩
  rintro ⟨client, hclient, hfingerprint, name, hname, hop⟩
  rcases mem_pair.mp hclient with rfl | rfl
  · cases mem_singleton.mp hname
    cases hop
  · exact absurd hfingerprint (by decide)

end Eggwork.Server.Config
