import Eggwork.Runner.Request

/-! The launch specification the runner writes for the sandbox helper, and the
helper's check of it.

Between the two checks the runner puts its baseline variables in front of the
request's and the provenance behind them, and the helper refuses a name that comes
twice or too many names. What the two agree on is proved part by part; what is left
is a condition on the names of the request (`RunnerRequest.Launchable`). -/
namespace Eggwork.Runner
open Lib List Nat Prod

variable {kv : String × String}

/-- A name, in capitals, that is one of the denied or starts with one. -/
def deniedBy (denied : List String) (key : String) : Bool :=
  denied.any fun name => key.toList.map Char.toUpper == name.toList || name.toList.isPrefixOf (key.toList.map Char.toUpper)

/-- The names the runner does not pass on. -/
def deniedEnvironmentKey : String → Bool :=
  deniedBy ["LD_", "DYLD_", "PATH", "IFS", "SHELLOPTS", "CDPATH", "BASH_ENV", "ENV", "PYTHONPATH", "PYTHONHOME",
    "NODE_OPTIONS", "RUBYOPT", "PERL5OPT", "GIT_ASKPASS", "SSH_ASKPASS", "GIT_CONFIG", "GIT_CONFIG_", "AWS_", "AZURE_",
    "GOOGLE_", "SSH_AUTH_SOCK"]

def Requirement.isRequested {α : Type} : Requirement α → Bool
  | .notRequested => false
  | _ => true

def Requirement.value? {α : Type} : Requirement α → Option α
  | .notRequested => none
  | .bestEffort value | .required value => some value

def ResourceSetupRequest.isRequested (r : ResourceSetupRequest) : Bool :=
  Requirement.isRequested r.memoryBytes || Requirement.isRequested r.cpuMillis || Requirement.isRequested r.pids

def ResourceSetupRequest.hasRequired (r : ResourceSetupRequest) : Bool :=
  r.memoryBytes.isRequired || r.cpuMillis.isRequired || r.pids.isRequired

structure SandboxLaunchSpec where
  schemaVersion : UInt16
  profile : Option String
  root : String
  cwd : String
  argv : List String
  environment : List (String × String)
  resourceMemoryBytes : Option UInt64
  resourceCpuMillis : Option UInt64
  resourcePids : Option UInt32
deriving DecidableEq, Repr

/-! ### What the runner writes -/

def baselineEnvironment : List (String × String) :=
  [("PATH", "/usr/bin:/bin"), ("LANG", "C.UTF-8"), ("LC_ALL", "C.UTF-8"), ("CI", "1"), ("NO_COLOR", "1"),
    ("TERM", "dumb"), ("GIT_TERMINAL_PROMPT", "0"), ("PAGER", "cat")]

def ExecutionProvenance.environment (p : ExecutionProvenance) : List (String × String) :=
  (p.executionId.map fun id => ("EGGWORK_EXECUTION_ID", id.value)).toList ++
    (p.generation.map fun generation => ("EGGWORK_EXECUTION_GENERATION", toString generation.get.toNat)).toList

/-- The variables of the request that are passed on. -/
def RunnerRequest.kept (r : RunnerRequest) : List (String × String) :=
  r.environment.filter fun kv => !deniedEnvironmentKey kv.1

def launchProfile (r : RunnerRequest) : Except RunnerError (Option String) :=
  match r.sandbox with
  | .bestEffort profile | .required profile =>
    if profile = "workspace_rw" then .ok (some profile) else .error (.setup "unsupported sandbox profile")
  | .none => if r.resources.isRequested then .ok none else .error (.setup "unsupported sandbox profile")

/-- The specification `SandboxChannel::new` writes; `root` and `cwd` are resolved. -/
def launchSpec (r : RunnerRequest) (root cwd : String) (resourcesApplied : Bool) : Except RunnerError SandboxLaunchSpec := do
  let profile ← launchProfile r
  return {
    schemaVersion := 1
    profile
    root
    cwd
    argv := r.argv
    environment := baselineEnvironment ++ r.kept ++ r.provenance.environment
    resourceMemoryBytes := if resourcesApplied then Requirement.value? r.resources.memoryBytes else none
    resourceCpuMillis := if resourcesApplied then Requirement.value? r.resources.cpuMillis else none
    resourcePids := if resourcesApplied then Requirement.value? r.resources.pids else none }

/-! ### What the helper accepts -/

namespace Helper

/-- The helper's own list. -/
def deniedEnvironmentKey : String → Bool :=
  deniedBy ["LD_", "DYLD_", "PATH", "IFS", "SHELLOPTS", "CDPATH", "BASH_ENV", "ENV", "PYTHONPATH", "PYTHONHOME",
    "NODE_OPTIONS", "RUBYOPT", "PERL5OPT", "GIT_ASKPASS", "SSH_ASKPASS", "GIT_CONFIG", "GIT_CONFIG_", "AWS_", "AZURE_",
    "GOOGLE_", "SSH_AUTH_SOCK"]

def badArgument (arg : String) : Bool := arg.isEmpty || decide (arg.utf8ByteSize > 32 * 1024) || containsNul arg

def badVariable (kv : String × String) : Bool :=
  kv.1.isEmpty || decide (kv.1.utf8ByteSize > 256) || decide (kv.2.utf8ByteSize > 16 * 1024) ||
    kv.1.toList.contains '=' || containsNul kv.1 || containsNul kv.2 ||
    (deniedEnvironmentKey kv.1 && kv.1 != "PATH") || (kv.1 == "PATH" && kv.2 != "/usr/bin:/bin")

/-- The checks of `read_spec` on version, profile, argv and environment; 12 is the status it reports. -/
def checkSpec (spec : SandboxLaunchSpec) : Except UInt8 Unit :=
  if spec.schemaVersion ≠ 1 ∨ spec.profile.any (· != "workspace_rw") ∨ spec.argv.isEmpty ∨ spec.argv.length > 256 ∨
      spec.argv.any badArgument ∨ spec.environment.length > 256 ∨ spec.environment.any badVariable ∨
      (spec.environment.map Prod.fst).dedup.length ≠ spec.environment.length then
    throw 12
  else pure ()

end Helper

/-! ### Agreement -/

/-- What is left to ask of a valid request: its names, as far as they are passed on, are
distinct, none is one the runner sets itself, and there is room for those. -/
structure RunnerRequest.Launchable (r : RunnerRequest) : Prop where
  distinct : (r.kept.map Prod.fst).Nodup
  unreserved : ∀ kv ∈ r.kept,
    kv.1 ∉ baselineEnvironment.map Prod.fst ∧ kv.1 ∉ r.provenance.environment.map Prod.fst
  room : baselineEnvironment.length + r.kept.length + r.provenance.environment.length ≤ 256

variable {r : RunnerRequest}

theorem length_dedup_eq {l : List String} : l.dedup.length = l.length ↔ l.Nodup := by
  constructor
  · intro h
    exact dedup_eq_self.mp ((dedup_sublist l).eq_of_length h)
  · intro h
    rw [h.dedup]

theorem Helper.checkSpec_ok {spec : SandboxLaunchSpec} :
    Helper.checkSpec spec = .ok () ↔ spec.schemaVersion = 1 ∧ (∀ profile, spec.profile = some profile → profile = "workspace_rw") ∧
      spec.argv ≠ [] ∧ spec.argv.length ≤ 256 ∧ (∀ a ∈ spec.argv, Helper.badArgument a = false) ∧
      spec.environment.length ≤ 256 ∧ (∀ kv ∈ spec.environment, Helper.badVariable kv = false) ∧
      (spec.environment.map fst).Nodup := by
  unfold Helper.checkSpec
  simp only [throwing_eq_ok, pure_eq_ok, and_true, not_or, ne_eq, Decidable.not_not, Option.any_eq_true, bne_iff_ne,
    not_exists, not_and, List.isEmpty_iff, gt_iff_lt, not_lt, Bool.not_eq_true, List.any_eq_false]
  have hlen : (spec.environment.map fst).length = spec.environment.length := List.length_map _
  rw [← hlen, length_dedup_eq]

/-- What the runner passes on, the helper accepts one by one. -/
theorem Helper.badVariable_of_kept (h : r.Valid) (hkv : kv ∈ r.kept) : Helper.badVariable kv = false := by
  obtain ⟨hm, hall⟩ := mem_filter.mp hkv
  have hrun := h.environment kv hm
  have hd : Helper.deniedEnvironmentKey kv.1 = false := Bool.not_eq_true' _ ▸ hall
  have hpath : (kv.1 == "PATH") = false := by
    by_contra hpath
    have hk : kv.1 = "PATH" := by simpa using hpath
    rw [hk] at hd
    exact absurd hd (by decide)
  simp only [Runner.badVariable, Bool.or_eq_false_iff] at hrun
  obtain ⟨⟨⟨⟨⟨he, hk⟩, hvalue⟩, hn⟩, hequal⟩, hv⟩ := hrun
  simp only [Helper.badVariable, he, hequal, hn, hv, hd, hpath, Bool.false_and, Bool.or_false]
  exact Bool.or_eq_false_iff.mpr ⟨Bool.or_eq_false_iff.mpr ⟨rfl, hk⟩, hvalue⟩

theorem utf8ByteSize_le (chars : List Char) : (String.ofList chars).utf8ByteSize ≤ 4 * chars.length := by
  induction chars with
  | nil => exact le_refl _
  | cons c chars ih =>
    have hsize := Char.utf8Size_le_four c
    rw [String.ofList_cons, String.utf8ByteSize_append, String.utf8ByteSize_singleton, length_cons]
    omega

/-- Under a name of the runner's own, only the value is left to check. -/
theorem Helper.badVariable_value {key v : String} (hk : Helper.badVariable (key, "") = false) (hpath : key ≠ "PATH")
    (hlen : v.utf8ByteSize ≤ 16 * 1024) (hn : Char.ofNat 0 ∉ v.toList) : Helper.badVariable (key, v) = false := by
  have hname : (key == "PATH") = false := by simpa using hpath
  have hv : containsNul v = false := by simpa [containsNul] using hn
  simp only [Helper.badVariable, hname, hv, Bool.false_and, Bool.or_false, Bool.or_eq_false_iff,
    decide_eq_false_iff_not, not_lt] at hk ⊢
  obtain ⟨⟨⟨⟨⟨hw, _⟩, he⟩, hkey⟩, _⟩, hd⟩ := hk
  exact ⟨⟨⟨⟨hw, hlen⟩, he⟩, hkey⟩, hd⟩

theorem nul_not_mem_toDigits (n : Nat) : Char.ofNat 0 ∉ toDigits 10 n := by
  intro hm
  exact absurd (isDigit_of_mem_toDigits (by decide) (by decide) hm) (by decide)

theorem Helper.badVariable_of_provenance {p : ExecutionProvenance} (hkv : kv ∈ p.environment) :
    Helper.badVariable kv = false := by
  rcases mem_append.mp hkv with hid | hg
  · obtain ⟨id, _, rfl⟩ := Option.map_eq_some_iff.mp (Option.mem_toList.mp hid)
    have hv := id.valid
    simp only [validId, Bool.and_eq_true, decide_eq_true_eq, all_eq_true] at hv
    refine Helper.badVariable_value (by decide) (by decide) ?_ fun hm => ?_
    · exact le_trans hv.1.2 (by decide)
    · exact absurd (hv.2 _ hm) (by decide)
  · obtain ⟨gen, _, rfl⟩ := Option.map_eq_some_iff.mp (Option.mem_toList.mp hg)
    have hd : (toDigits 10 gen.get.toNat).length ≤ 20 :=
      (length_toDigits_le_iff (by decide) (by decide)).mpr
        (lt_of_lt_of_le gen.get.toNat_lt (by decide))
    refine Helper.badVariable_value (by decide) (by decide) ?_ ?_
    · rw [toString_eq_ofList_toDigits]
      exact le_trans (utf8ByteSize_le _) (by omega)
    · rw [toString_eq_ofList_toDigits, String.toList_ofList]
      exact nul_not_mem_toDigits _

theorem Helper.badVariable_of_baseline (hkv : kv ∈ baselineEnvironment) : Helper.badVariable kv = false := by
  have hall : ∀ kv ∈ baselineEnvironment, Helper.badVariable kv = false := by decide
  exact hall kv hkv

theorem launchProfile_named {name p : String} {e : RunnerError}
    (h : (if name = "workspace_rw" then .ok (some name) else .error e) = Except.ok (some p)) : p = "workspace_rw" := by
  split at h
  · cases h
    assumption
  · cases h

theorem launchProfile_known {profile : Option String} (h : launchProfile r = .ok profile) :
    ∀ p, profile = some p → p = "workspace_rw" := by
  unfold launchProfile at h
  rintro p rfl
  split at h
  · exact launchProfile_named h
  · exact launchProfile_named h
  · split at h <;> cases h

theorem provenance_names (p : ExecutionProvenance) :
    (p.environment.map fst).Sublist ["EGGWORK_EXECUTION_ID", "EGGWORK_EXECUTION_GENERATION"] := by
  obtain ⟨id, gen⟩ := p
  cases id <;> cases gen <;> simp [ExecutionProvenance.environment]

/-- The names of a launch are distinct exactly if the request's are and stay clear of the others. -/
theorem launch_names_nodup : ((baselineEnvironment ++ r.kept ++ r.provenance.environment).map fst).Nodup ↔
      (r.kept.map fst).Nodup ∧ ∀ kv ∈ r.kept,
        kv.1 ∉ baselineEnvironment.map fst ∧ kv.1 ∉ r.provenance.environment.map fst := by
  have hbase : (baselineEnvironment.map fst).Nodup := by decide
  have hown := provenance_names r.provenance
  have hclean : ∀ name ∈ r.provenance.environment.map fst, name ∉ baselineEnvironment.map fst := by
    have hall : ∀ name ∈ ["EGGWORK_EXECUTION_ID", "EGGWORK_EXECUTION_GENERATION"],
        name ∉ baselineEnvironment.map fst := by decide
    exact fun name hname => hall name (hown.subset hname)
  rw [map_append, map_append, append_assoc, nodup_append', nodup_append']
  constructor
  · rintro ⟨_, ⟨hkept, _, hp⟩, hb⟩
    refine ⟨hkept, fun kv hkv => ⟨fun hm => ?_, fun hm => ?_⟩⟩
    · exact hb hm (mem_append_left _ (mem_map_of_mem hkv))
    · exact hp (mem_map_of_mem hkv) hm
  rintro ⟨hkept, hc⟩
  refine ⟨hbase, ⟨hkept, hown.nodup (by decide), fun name hname hm => ?_⟩, fun name hname hm => ?_⟩
  · obtain ⟨kv, hkv, rfl⟩ := mem_map.mp hname
    exact (hc kv hkv).2 hm
  rcases mem_append.mp hm with hm | hm
  · obtain ⟨kv, hkv, rfl⟩ := mem_map.mp hm
    exact (hc kv hkv).1 hname
  · exact hclean name hm hname

/-- The helper accepts what the runner writes for a request it accepted exactly if the
names of the request stay clear of each other and of the runner's own, and fit. -/
theorem launch_accepted (r : RunnerRequest) (root cwd : String) (resourcesApplied : Bool) (spec : SandboxLaunchSpec)
    (hvalid : r.validateFields = .ok ()) (hspec : launchSpec r root cwd resourcesApplied = .ok spec) :
    Helper.checkSpec spec = .ok () ↔ r.Launchable := by
  have hr := RunnerRequest.validateFields_ok.mp hvalid
  obtain ⟨profile, hprofile, hspec⟩ := bind_eq_ok.mp hspec
  cases hspec
  have hknown : ∀ p, profile = some p → p = "workspace_rw" := launchProfile_known hprofile
  have hvariables : ∀ kv ∈ baselineEnvironment ++ r.kept ++ r.provenance.environment, Helper.badVariable kv = false := by
    intro kv hkv
    rcases mem_append.mp hkv with hkv | hkv
    · rcases mem_append.mp hkv with hkv | hkv
      · exact Helper.badVariable_of_baseline hkv
      · exact Helper.badVariable_of_kept hr hkv
    · exact Helper.badVariable_of_provenance hkv
  rw [Helper.checkSpec_ok, launch_names_nodup]
  constructor
  · rintro ⟨_, _, _, _, _, hroom, _, hdistinct, hunreserved⟩
    exact ⟨hdistinct, hunreserved, by simpa [Nat.add_assoc] using hroom⟩
  · rintro ⟨hdistinct, hunreserved, hroom⟩
    exact ⟨rfl, hknown, hr.argv, hr.argvCount, hr.argument, by simpa [Nat.add_assoc] using hroom, hvariables, hdistinct, hunreserved⟩

namespace Example

/-- A sandboxed request with the given variables. -/
def sandboxed (environment : List (String × String)) : RunnerRequest where
  argv := ["make"]
  root := "/work"
  cwd := none
  environment
  stdin := .null
  timeoutNanos := 1000000000
  captureLimit := 1024
  eventChunkBytes := 16
  overflow := .truncate
  provenance := ⟨some ⟨"make", by decide⟩, some ⟨1⟩⟩
  sandbox := .bestEffort "workspace_rw"
  resources := ⟨.notRequested, .notRequested, .notRequested⟩

end Example

open Example in
theorem launch_accepted_target : (sandboxed [("CARGO_TERM", "1"), ("LD_PRELOAD", "x")]).validateFields = .ok () ∧
      ∃ spec, launchSpec (sandboxed [("CARGO_TERM", "1"), ("LD_PRELOAD", "x")]) "/work" "/work" false = .ok spec ∧
        Helper.checkSpec spec = .ok () := by
  have hvalid : (sandboxed [("CARGO_TERM", "1"), ("LD_PRELOAD", "x")]).validateFields = .ok () := by decide
  refine ⟨hvalid, _, rfl, (launch_accepted _ "/work" "/work" false _ hvalid rfl).mpr ⟨?_, ?_, ?_⟩⟩
  · decide
  · decide
  · decide

open Example in
/-- A locale of the request's own comes second to the runner's, and the helper refuses both. -/
theorem locale_refused : (sandboxed [("LANG", "C")]).validateFields = .ok () ∧
      ((launchSpec (sandboxed [("LANG", "C")]) "/work" "/work" false).toOption.map Helper.checkSpec) = some (.error 12) := by
  decide

end Eggwork.Runner
