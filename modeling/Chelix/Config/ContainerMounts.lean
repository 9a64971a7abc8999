import Chelix.Library.Paths
import Chelix.Library.Text
import Mathlib.Data.List.Sigma

/-!
# Sandbox mounts

A sandbox gets the data directory, a home that persists, and the mounts that are configured.  The
config directory may hold credentials, so no mount but the data directory, whose exposure is
reported, may show any part of it; and what is mounted does not cover the managed places in the
sandbox.

* **`mount_plan_confined`**: the config directory is not in the plan, and the managed places are
  not covered.

Host paths are compared as the file system resolves them; `canonicalize` stands for it.
-/

namespace Chelix.Config

open Chelix.Library Path List

/-! ## Configuration -/

def sandboxHomeDir : Path := "/home/sandbox".toList

inductive MountMode where
  | ro
  | rw
  deriving DecidableEq

structure SandboxMount where
  host : Path
  guest : Path
  mode : MountMode
  deriving DecidableEq

inductive HomePersistenceConfig where
  | off
  | session
  | shared
  deriving DecidableEq

structure SandboxConfig where
  hostDataDir : Option String
  homePersistence : HomePersistenceConfig
  sharedHomeDir : Option String
  mounts : List SandboxMount

inductive MountViolationKind where
  | host
  | guest
  | mode
  deriving DecidableEq

inductive MountViolationReason where
  | relativeHost
  | relativeGuest
  | duplicateDataMount
  | invalidDataMapping
  | configExposure
  | managedHomeConflict
  deriving DecidableEq

structure MountViolation where
  kind : MountViolationKind
  reason : MountViolationReason
  message : String
  deriving DecidableEq

structure RejectedSandboxMount where
  index : ℕ
  violation : MountViolation

structure SandboxMountValidation where
  dataMountExposesConfig : Bool
  sharedHomeExposesConfig : Bool
  managedGuestMountsConflict : Bool
  rejectedCustomMounts : List RejectedSandboxMount

structure SandboxMountAnalysis where
  mounts : List SandboxMount
  validation : SandboxMountValidation

structure MountPlanContext where
  guestDataDir : Path
  hostDataDir : Path
  configDir : Path

/-! ## Directories -/

/-- A configured directory, if it is not blank. -/
def configuredDir (configured : Option String) : Option Path :=
  ((configured.map trim).filter fun path => !path.isEmpty).map String.toList

def configuredHostDataDir (cfg : SandboxConfig) (guestDataDir : Path) : Option Path :=
  (configuredDir cfg.hostDataDir).map fun configured =>
    normalizePath (if configured.isAbsolute then configured else join guestDataDir configured)

def effectiveHostDataDir (cfg : SandboxConfig) (guestDataDir : Path) : Path :=
  (configuredHostDataDir cfg guestDataDir).getD (normalizePath guestDataDir)

/-- The context of the running program. -/
def MountPlanContext.active (cfg : SandboxConfig) (dataDir configDir : Path) :
    MountPlanContext where
  guestDataDir := normalizePath dataDir
  hostDataDir := effectiveHostDataDir cfg (normalizePath dataDir)
  configDir := normalizePath configDir

def translateDataPathToHost (path : Path) (context : MountPlanContext) : Path :=
  match (normalizePath path).stripPrefix context.guestDataDir with
  | none => normalizePath path
  | some relative =>
    if relative = [] then context.hostDataDir else join context.hostDataDir relative

def sharedHomeHostPath (cfg : SandboxConfig) (context : MountPlanContext) : Path :=
  let guestPath :=
    match configuredDir cfg.sharedHomeDir with
    | some path => if path.isAbsolute then path else join context.guestDataDir path
    | none =>
      join (join (join context.guestDataDir "sandbox".toList) "home".toList) "shared".toList
  translateDataPathToHost guestPath context

/-! ## Overlaps -/

def pathsOverlap (first second : Path) : Bool :=
  (normalizePath first).startsWith (normalizePath second) ||
    (normalizePath second).startsWith (normalizePath first)

section Analysis

variable (canonicalize : Path → Option Path)

def comparableHostPath (path : Path) : Path :=
  match canonicalize (normalizePath path) with
  | some canonical => normalizePath canonical
  | none => normalizePath path

def hostPathsOverlap (first second : Path) : Bool :=
  (comparableHostPath canonicalize first).startsWith (comparableHostPath canonicalize second) ||
    (comparableHostPath canonicalize second).startsWith (comparableHostPath canonicalize first)

def dataMountExposesConfig (context : MountPlanContext) : Bool :=
  pathsOverlap context.guestDataDir context.configDir ||
    hostPathsOverlap canonicalize context.hostDataDir context.configDir

def sharedHomeExposesConfig (cfg : SandboxConfig) (context : MountPlanContext) : Bool :=
  cfg.homePersistence = .shared &&
    hostPathsOverlap canonicalize (sharedHomeHostPath cfg context) context.configDir

def managedGuestMountsConflict (cfg : SandboxConfig) (context : MountPlanContext) : Bool :=
  cfg.homePersistence ≠ .off && pathsOverlap context.guestDataDir sandboxHomeDir

/-! ## The plan -/

/-- The text of a path in a message. -/
def display (path : Path) : String := String.ofList path

/-- The violation of a mount that overlaps the data directory. -/
def dataMappingViolation (mount : SandboxMount) (context : MountPlanContext)
    (dataHostOverlap : Bool) : MountViolation :=
  let sameHost := (normalizePath mount.host).components = context.hostDataDir.components
  let sameGuest := (normalizePath mount.guest).components = context.guestDataDir.components
  if sameHost ∧ sameGuest ∧ mount.mode = .rw then
    { kind := .guest
      reason := .duplicateDataMount
      message := "sandbox data_dir mount is built in and must not be duplicated" }
  else
    { kind := if sameHost ∧ sameGuest then .mode else if dataHostOverlap then .guest else .host
      reason := .invalidDataMapping
      message := "sandbox data_dir must map only from '" ++ display context.hostDataDir ++
        "' to the identical agent path '" ++ display context.guestDataDir ++ "' in rw mode" }

/-- Why a configured mount is rejected. -/
def customMountViolation (cfg : SandboxConfig) (mount : SandboxMount)
    (context : MountPlanContext) : Option MountViolation :=
  if !mount.host.isAbsolute then
    some
      { kind := .host
        reason := .relativeHost
        message := "sandbox mount host path must be absolute (got '" ++ display mount.host ++ "')" }
  else if !mount.guest.isAbsolute then
    some
      { kind := .guest
        reason := .relativeGuest
        message :=
          "sandbox mount guest path must be absolute (got '" ++ display mount.guest ++ "')" }
  else if hostPathsOverlap canonicalize (normalizePath mount.host) context.hostDataDir ||
      pathsOverlap (normalizePath mount.guest) context.guestDataDir then
    some (dataMappingViolation mount context
      (hostPathsOverlap canonicalize (normalizePath mount.host) context.hostDataDir))
  else if hostPathsOverlap canonicalize (normalizePath mount.host) context.configDir then
    some
      { kind := .host
        reason := .configExposure
        message := "sandbox mount source '" ++ display mount.host ++
          "' exposes the config directory '" ++ display context.configDir ++
          "', which may contain credentials" }
  else if cfg.homePersistence ≠ .off && pathsOverlap (normalizePath mount.guest) sandboxHomeDir then
    some
      { kind := .guest
        reason := .managedHomeConflict
        message := "sandbox mount guest '" ++ display mount.guest ++
          "' conflicts with the managed home-persistence mount" }
  else none

/-- The mount of the home that persists. -/
def homeMount (cfg : SandboxConfig) (context : MountPlanContext) : List SandboxMount :=
  match cfg.homePersistence with
  | .off => []
  | .session =>
    if managedGuestMountsConflict cfg context then []
    else
      [{ host := join (join (join context.hostDataDir "sandbox".toList) "home".toList)
          "session".toList
         guest := sandboxHomeDir
         mode := .rw }]
  | .shared =>
    if managedGuestMountsConflict cfg context || sharedHomeExposesConfig canonicalize cfg context
    then []
    else [{ host := sharedHomeHostPath cfg context, guest := sandboxHomeDir, mode := .rw }]

/-- The mounts of the loop over the configured ones, and those it rejects. -/
def customMounts (cfg : SandboxConfig) (context : MountPlanContext) :
    List SandboxMount × List RejectedSandboxMount :=
  cfg.mounts.zipIdx.foldl (fun planned entry =>
    match customMountViolation canonicalize cfg entry.1 context with
    | some violation => (planned.1, planned.2 ++ [⟨entry.2, violation⟩])
    | none => (planned.1 ++ [entry.1], planned.2)) ([], [])

def sandboxMountAnalysis (cfg : SandboxConfig) (context : MountPlanContext) :
    SandboxMountAnalysis where
  mounts := { host := context.hostDataDir, guest := context.guestDataDir, mode := .rw } ::
    homeMount canonicalize cfg context ++ (customMounts canonicalize cfg context).1
  validation :=
    { dataMountExposesConfig := dataMountExposesConfig canonicalize context
      sharedHomeExposesConfig := sharedHomeExposesConfig canonicalize cfg context
      managedGuestMountsConflict := managedGuestMountsConflict cfg context
      rejectedCustomMounts := (customMounts canonicalize cfg context).2 }

/-! ## What the plan shows -/

/-- Without symbolic links, the file system resolves a path as its text reads. -/
def NoSymlinks : Prop :=
  ∀ path canonical, path.isAbsolute = true → canonicalize path = some canonical →
    resolve canonical = resolve path

variable {canonicalize}

theorem pathsOverlap_iff {first second : Path} :
    pathsOverlap first second = true ↔ Overlaps first second := by
  rw [pathsOverlap, Bool.or_eq_true, startsWith_normalizePath, startsWith_normalizePath]
  exact or_comm

theorem components_comparableHostPath (hfs : NoSymlinks canonicalize) {path : Path}
    (h : path.isAbsolute = true) :
    components (comparableHostPath canonicalize path) = resolve path := by
  rw [comparableHostPath]
  split
  · rename_i canonical hcanonical
    rw [components_normalizePath, hfs _ _ (isAbsolute_normalizePath h) hcanonical,
      resolve_normalizePath]
  · exact components_normalizePath path

theorem hostPathsOverlap_iff (hfs : NoSymlinks canonicalize) {first second : Path}
    (hfirst : first.isAbsolute = true) (hsecond : second.isAbsolute = true) :
    hostPathsOverlap canonicalize first second = true ↔ Overlaps first second := by
  rw [hostPathsOverlap, Bool.or_eq_true, startsWith, startsWith,
    components_comparableHostPath hfs hfirst, components_comparableHostPath hfs hsecond,
    isPrefixOf_iff_prefix, isPrefixOf_iff_prefix]
  exact or_comm

variable {context : MountPlanContext}

theorem isAbsolute_translateDataPathToHost {path : Path} (hpath : path.isAbsolute = true)
    (hhost : context.hostDataDir.isAbsolute = true) :
    (translateDataPathToHost path context).isAbsolute = true := by
  rw [translateDataPathToHost]
  split
  · exact isAbsolute_normalizePath hpath
  · split
    · exact hhost
    · exact isAbsolute_join hhost _

theorem isAbsolute_sharedHomeHostPath (cfg : SandboxConfig)
    (hguest : context.guestDataDir.isAbsolute = true)
    (hhost : context.hostDataDir.isAbsolute = true) :
    (sharedHomeHostPath cfg context).isAbsolute = true := by
  refine isAbsolute_translateDataPathToHost ?_ hhost
  split
  · split
    · assumption
    · exact isAbsolute_join hguest _
  · exact isAbsolute_join (isAbsolute_join (isAbsolute_join hguest _) _) _

variable {cfg : SandboxConfig} {mount : SandboxMount}

theorem of_customMountViolation_eq_none (hfs : NoSymlinks canonicalize)
    (hconfig : context.configDir.isAbsolute = true)
    (h : customMountViolation canonicalize cfg mount context = none) :
    ¬Overlaps mount.host context.configDir ∧ ¬Overlaps mount.guest context.guestDataDir ∧
      (cfg.homePersistence ≠ .off → ¬Overlaps mount.guest sandboxHomeDir) := by
  rw [customMountViolation] at h
  split at h
  · exact nomatch h
  rename_i hhost
  split at h
  · exact nomatch h
  split at h
  · exact nomatch h
  rename_i hdata
  split at h
  · exact nomatch h
  rename_i hexposes
  split at h
  · exact nomatch h
  rename_i hhome
  have habsolute : mount.host.isAbsolute = true := by simpa using hhost
  have hguest : ∀ other, Overlaps mount.guest other →
      pathsOverlap (normalizePath mount.guest) other = true := by
    intro other hoverlap
    rw [pathsOverlap_iff, Overlaps, resolve_normalizePath]
    exact hoverlap
  refine ⟨fun hoverlap => hexposes ?_, fun hoverlap => hdata ?_, fun hon hoverlap => hhome ?_⟩
  · rw [hostPathsOverlap_iff hfs (isAbsolute_normalizePath habsolute) hconfig, Overlaps,
      resolve_normalizePath]
    exact hoverlap
  · rw [hguest _ hoverlap, Bool.or_true]
  · rw [hguest _ hoverlap, Bool.and_true]
    exact decide_eq_true hon

theorem of_mem_homeMount (hfs : NoSymlinks canonicalize)
    (hguest : context.guestDataDir.isAbsolute = true)
    (hhost : context.hostDataDir.isAbsolute = true) (hconfig : context.configDir.isAbsolute = true)
    (hdata : ¬Overlaps context.hostDataDir context.configDir)
    (hmem : mount ∈ homeMount canonicalize cfg context) :
    ¬Overlaps mount.host context.configDir := by
  rw [homeMount] at hmem
  split at hmem
  · exact nomatch hmem
  · split at hmem
    · exact nomatch hmem
    · rw [mem_singleton.mp hmem]
      show ¬Overlaps (join (join (join context.hostDataDir "sandbox".toList) "home".toList)
        "session".toList) context.configDir
      refine not_overlaps_join (not_overlaps_join (not_overlaps_join hdata ?_) ?_) ?_
      all_goals exact ⟨by decide, by decide⟩
  · rename_i hshared
    split at hmem
    · exact nomatch hmem
    · rename_i hfree
      rw [mem_singleton.mp hmem]
      intro hoverlap
      refine hfree ?_
      rw [Bool.or_eq_true]
      refine .inr ?_
      rw [sharedHomeExposesConfig, hshared, (hostPathsOverlap_iff hfs
        (isAbsolute_sharedHomeHostPath cfg hguest hhost) hconfig).mpr hoverlap]
      rfl

theorem guest_of_mem_homeMount (hmem : mount ∈ homeMount canonicalize cfg context) :
    mount.guest = sandboxHomeDir ∧ ¬Overlaps mount.guest context.guestDataDir := by
  have hfree : ∀ {other : SandboxMount}, other.guest = sandboxHomeDir →
      cfg.homePersistence ≠ .off → managedGuestMountsConflict cfg context ≠ true →
      other.guest = sandboxHomeDir ∧ ¬Overlaps other.guest context.guestDataDir := by
    intro other hother hon hconflict
    refine ⟨hother, fun hoverlap => hconflict ?_⟩
    rw [managedGuestMountsConflict, Bool.and_eq_true]
    refine ⟨decide_eq_true hon, pathsOverlap_iff.mpr ?_⟩
    rw [hother] at hoverlap
    exact hoverlap.symm
  rw [homeMount] at hmem
  split at hmem
  · exact nomatch hmem
  · rename_i hsession
    split at hmem
    · exact nomatch hmem
    · rename_i hconflict
      rw [mem_singleton.mp hmem]
      exact hfree rfl (by rw [hsession]; nofun) hconflict
  · rename_i hshared
    split at hmem
    · exact nomatch hmem
    · rename_i hconflict
      rw [mem_singleton.mp hmem]
      refine hfree rfl (by rw [hshared]; nofun) fun htrue => hconflict ?_
      rw [htrue, Bool.true_or]

/-- The loop keeps the mounts without a violation and reports the others. -/
theorem customMounts_eq (cfg : SandboxConfig) (context : MountPlanContext) :
    customMounts canonicalize cfg context =
      ((cfg.mounts.zipIdx.filter fun entry =>
          (customMountViolation canonicalize cfg entry.1 context).isNone).map Prod.fst,
        cfg.mounts.zipIdx.filterMap fun entry =>
          (customMountViolation canonicalize cfg entry.1 context).map (⟨entry.2, ·⟩)) := by
  have hgo : ∀ (entries : List (SandboxMount × ℕ))
      (planned : List SandboxMount × List RejectedSandboxMount),
      entries.foldl (fun planned entry =>
        match customMountViolation canonicalize cfg entry.1 context with
        | some violation => (planned.1, planned.2 ++ [⟨entry.2, violation⟩])
        | none => (planned.1 ++ [entry.1], planned.2)) planned =
      (planned.1 ++ (entries.filter fun entry =>
          (customMountViolation canonicalize cfg entry.1 context).isNone).map Prod.fst,
        planned.2 ++ entries.filterMap fun entry =>
          (customMountViolation canonicalize cfg entry.1 context).map (⟨entry.2, ·⟩)) := by
    intro entries
    induction entries with
    | nil =>
      intro planned
      rw [filter_nil, filterMap_nil, map_nil, append_nil, append_nil]
      rfl
    | cons entry entries ih =>
      intro planned
      rw [foldl_cons, ih, filter_cons, filterMap_cons]
      cases customMountViolation canonicalize cfg entry.1 context with
      | none =>
        rw [Option.isNone_none, if_pos rfl, map_cons, append_assoc]
        rfl
      | some violation =>
        rw [Option.isNone_some, if_neg Bool.false_ne_true, append_assoc]
        rfl
  exact (hgo _ _).trans rfl

theorem index_mem_rejected {entry : SandboxMount × ℕ} (hentry : entry ∈ cfg.mounts.zipIdx) :
    entry.2 ∈ (customMounts canonicalize cfg context).2.map RejectedSandboxMount.index ↔
      (customMountViolation canonicalize cfg entry.1 context).isSome = true := by
  rw [customMounts_eq, mem_map]
  constructor
  · rintro ⟨rejected, hrejected, hindex⟩
    obtain ⟨other, hother, hviolation⟩ := mem_filterMap.mp hrejected
    obtain ⟨violation, hsome, rfl⟩ := Option.map_eq_some_iff.mp hviolation
    obtain rfl : other = entry :=
      inj_on_of_nodup_map (nodup_zipIdx_map_snd cfg.mounts) hother hentry hindex
    rw [hsome]
    rfl
  · intro hsome
    obtain ⟨violation, hviolation⟩ := Option.isSome_iff_exists.mp hsome
    refine ⟨⟨entry.2, violation⟩, mem_filterMap.mpr ⟨entry, hentry, ?_⟩, rfl⟩
    rw [hviolation]
    rfl

/-- The configured mounts that are not reported as rejected, in order. -/
def acceptedMounts (cfg : SandboxConfig) (rejected : List RejectedSandboxMount) :
    List SandboxMount :=
  (cfg.mounts.zipIdx.filter fun entry =>
    entry.2 ∉ rejected.map RejectedSandboxMount.index).map Prod.fst

theorem fst_customMounts (cfg : SandboxConfig) (context : MountPlanContext) :
    (customMounts canonicalize cfg context).1 =
      acceptedMounts cfg (customMounts canonicalize cfg context).2 := by
  have hsame : ∀ entry ∈ cfg.mounts.zipIdx,
      (customMountViolation canonicalize cfg entry.1 context).isNone =
        decide (entry.2 ∉ (customMounts canonicalize cfg context).2.map
          RejectedSandboxMount.index) := by
    intro entry hentry
    rw [Bool.eq_iff_iff, decide_eq_true_iff, index_mem_rejected hentry,
      Option.isNone_iff_eq_none, Option.isSome_iff_ne_none, not_not]
  rw [acceptedMounts, ← filter_congr hsame, customMounts_eq]

/-- **The mount plan is confined**: it starts with the data directory; unless that is reported to
expose the config directory, no host path of the plan leads to it or into it; nothing is mounted
over the data directory or the managed home; and the configured mounts that are not rejected follow
as they are. -/
theorem mount_plan_confined (hfs : NoSymlinks canonicalize) (cfg : SandboxConfig)
    {context : MountPlanContext} (hguest : context.guestDataDir.isAbsolute = true)
    (hhost : context.hostDataDir.isAbsolute = true)
    (hconfig : context.configDir.isAbsolute = true) :
    ∃ home custom,
      (sandboxMountAnalysis canonicalize cfg context).mounts =
        ⟨context.hostDataDir, context.guestDataDir, .rw⟩ :: home ++ custom ∧
      (∀ mount ∈ home, mount.guest = sandboxHomeDir) ∧
      custom = acceptedMounts cfg
        (sandboxMountAnalysis canonicalize cfg context).validation.rejectedCustomMounts ∧
      ((sandboxMountAnalysis canonicalize cfg context).validation.dataMountExposesConfig = false →
        ∀ mount ∈ (sandboxMountAnalysis canonicalize cfg context).mounts,
          ¬Overlaps mount.host context.configDir) ∧
      (∀ mount ∈ home ++ custom, ¬Overlaps mount.guest context.guestDataDir) ∧
      (cfg.homePersistence ≠ .off → ∀ mount ∈ custom, ¬Overlaps mount.guest sandboxHomeDir) := by
  have hcustom : ∀ mount ∈ (customMounts canonicalize cfg context).1,
      ¬Overlaps mount.host context.configDir ∧ ¬Overlaps mount.guest context.guestDataDir ∧
        (cfg.homePersistence ≠ .off → ¬Overlaps mount.guest sandboxHomeDir) := by
    intro mount hmem
    rw [customMounts_eq, List.mem_map] at hmem
    obtain ⟨entry, hentry, rfl⟩ := hmem
    have hnone := (List.mem_filter.mp hentry).2
    exact of_customMountViolation_eq_none hfs hconfig (Option.isNone_iff_eq_none.mp hnone)
  refine ⟨homeMount canonicalize cfg context, (customMounts canonicalize cfg context).1, rfl,
    fun mount hmem => (guest_of_mem_homeMount hmem).1, fst_customMounts cfg context,
    fun hfree mount hmem => ?_, fun mount hmem => ?_, fun hon mount hmem => ?_⟩
  · have hdata : ¬Overlaps context.hostDataDir context.configDir := by
      intro hoverlap
      have hexposes : dataMountExposesConfig canonicalize context = true := by
        rw [dataMountExposesConfig, (hostPathsOverlap_iff hfs hhost hconfig).mpr hoverlap,
          Bool.or_true]
      exact nomatch hexposes.symm.trans hfree
    rcases List.mem_append.mp hmem with hmanaged | hconfigured
    · rcases List.mem_cons.mp hmanaged with rfl | hhome
      · exact hdata
      · exact of_mem_homeMount hfs hguest hhost hconfig hdata hhome
    · exact (hcustom mount hconfigured).1
  · rcases List.mem_append.mp hmem with hhome | hconfigured
    · exact (guest_of_mem_homeMount hhome).2
    · exact (hcustom mount hconfigured).2.1
  · exact (hcustom mount hmem).2.2 hon

end Analysis

/-- A plan with a shared home and one configured mount, next to one that shows the config
directory. -/
theorem mount_plan_confined_rejected :
    ∃ cfg context, (sandboxMountAnalysis (fun _ => none) cfg context).mounts.length = 3 ∧
      (customMounts (fun _ => none) cfg context).2.length = 1 ∧
      ∀ mount ∈ (sandboxMountAnalysis (fun _ => none) cfg context).mounts,
        ¬Overlaps mount.host context.configDir := by
  have hplan : ∀ cfg context, context = ⟨"/data".toList, "/srv/data".toList, "/etc/chelix".toList⟩ →
      (sandboxMountAnalysis (fun _ => none) cfg context).validation.dataMountExposesConfig = false →
      ∀ mount ∈ (sandboxMountAnalysis (fun _ => none) cfg context).mounts,
        ¬Overlaps mount.host context.configDir := by
    rintro cfg context rfl hfree
    obtain ⟨-, -, -, -, -, hconfined, -⟩ := @mount_plan_confined (fun _ => none)
      (fun _ _ _ hnone => nomatch hnone) cfg
      ⟨"/data".toList, "/srv/data".toList, "/etc/chelix".toList⟩ rfl rfl rfl
    exact hconfined hfree
  refine ⟨⟨none, .shared, none, [⟨"/srv/models".toList, "/models".toList, .ro⟩,
    ⟨"/srv/../etc".toList, "/settings".toList, .ro⟩]⟩,
    ⟨"/data".toList, "/srv/data".toList, "/etc/chelix".toList⟩, ?_, ?_, hplan _ _ rfl ?_⟩
  all_goals decide

end Chelix.Config
