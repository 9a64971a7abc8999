import Chelix.Library.Run
import Chelix.Tools.Sandbox

/-!
# Sandboxes of different owners

Every name of a sandbox is the owner key with the characters that a container name may not have
replaced by dashes, so owners whose keys differ only in such characters share their sandbox.

* **`sandboxes_separate`**: two owners are separate exactly when their keys are not blurred and,
  where each session has a home, no key is a dot, two dots, or the name that stands for no name.
-/

namespace Chelix.Tools

open Function

open Chelix.Library Path List Config

/-! ## Names -/

/-- A character that becomes a dash. -/
def Dashed (c : Char) : Prop := isKept c = false ∨ c = '-'

/-- Keys that differ only in characters that become dashes. -/
def Blurred (first second : String) : Prop :=
  List.Forall₂ (fun c d => c = d ∨ Dashed c ∧ Dashed d) first.toList second.toList

theorem sanitizeChar_eq_iff {c d : Char} :
    sanitizeChar c = sanitizeChar d ↔ c = d ∨ Dashed c ∧ Dashed d := by
  have hdash : isKept '-' = true := rfl
  rw [sanitizeChar, sanitizeChar, Dashed, Dashed]
  constructor
  · intro h
    split at h <;> split at h
    · exact .inl h
    · rename_i hd
      exact .inr ⟨.inr h, .inl (Bool.not_eq_true _ ▸ hd)⟩
    · rename_i hc _
      exact .inr ⟨.inl (Bool.not_eq_true _ ▸ hc), .inr h.symm⟩
    · rename_i hc hd
      exact .inr ⟨.inl (Bool.not_eq_true _ ▸ hc), .inl (Bool.not_eq_true _ ▸ hd)⟩
  · rintro (rfl | ⟨hc, hd⟩)
    · rfl
    · have hto : ∀ {e : Char}, isKept e = false ∨ e = '-' → (if isKept e then e else '-') = '-' := by
        rintro e (he | rfl)
        · rw [he, if_neg Bool.false_ne_true]
        · rw [hdash, if_pos rfl]
      rw [hto hc, hto hd]

variable {first second : String}

theorem sanitize_eq_iff : sanitize first = sanitize second ↔ Blurred first second := by
  rw [sanitize, sanitize, String.ofList_inj, Blurred, ← forall₂_eq_eq_eq,
    forall₂_map_left_iff, forall₂_map_right_iff]
  simp only [sanitizeChar_eq_iff]

theorem isKept_sanitizeChar (c : Char) : isKept (sanitizeChar c) = true := by
  rw [sanitizeChar]
  split
  · assumption
  · rfl

theorem sanitize_sanitize (input : String) : sanitize (sanitize input) = sanitize input := by
  rw [sanitize_eq_iff, Blurred, sanitize, String.toList_ofList, forall₂_map_left_iff]
  refine forall₂_same.mpr fun c _ => sanitizeChar_eq_iff.mp ?_
  rw [sanitizeChar, if_pos (isKept_sanitizeChar c)]

/-- Only the name itself becomes a name without dashes. -/
theorem eq_of_sanitize_eq {input name : String} (hname : '-' ∉ name.toList)
    (h : sanitize input = name) : input = name := by
  subst h
  apply String.toList_injective
  rw [sanitize, String.toList_ofList] at hname ⊢
  have hsame : input.toList.map sanitizeChar = input.toList.map id := by
    refine map_congr_left fun c hc => ?_
    have hne : sanitizeChar c ≠ '-' := fun hdash =>
      hname (hdash ▸ mem_map_of_mem hc)
    rw [sanitizeChar] at hne ⊢
    split at hne
    · rename_i hkept
      rw [if_pos hkept, id]
    · exact absurd rfl hne
  rw [hsame, map_id]

theorem sandboxIdFor_eq_iff {cfg : SandboxConfig} :
    sandboxIdFor cfg first = sandboxIdFor cfg second ↔ Blurred first second := by
  rw [sandboxIdFor, sandboxIdFor, SandboxId.mk.injEq, sanitize_eq_iff]
  exact and_iff_right rfl

theorem containerName_eq_iff {cfg : SandboxConfig} :
    containerName cfg (sandboxIdFor cfg first) = containerName cfg (sandboxIdFor cfg second) ↔
      Blurred first second := by
  rw [containerName, containerName, String.append_right_inj, ← sanitize_eq_iff]
  exact Iff.rfl

/-! ## Home components -/

/-- The directory of an owner among the homes. -/
def homeComponent (ownerKey : String) : String := sanitizePathComponent (sanitize ownerKey)

theorem homeComponent_eq (ownerKey : String) :
    homeComponent ownerKey = if ownerKey = "" then "default" else sanitize ownerKey := by
  have hempty : (sanitize ownerKey).isEmpty = true ↔ ownerKey = "" := by
    rw [String.isEmpty_iff]
    exact ⟨fun h => eq_of_sanitize_eq (by decide) h, by rintro rfl; rfl⟩
  rw [homeComponent, sanitizePathComponent, sanitize_sanitize]
  simp only [hempty]

/-- Keys that are no directory of their own, or one and the same. -/
def HomeClash (first second : String) : Prop :=
  first ∈ [".", ".."] ∨ second ∈ [".", ".."] ∨ first = "" ∧ second = "default" ∨
    first = "default" ∧ second = ""

theorem slash_notMem_sanitize (ownerKey : String) : '/' ∉ (sanitize ownerKey).toList := by
  rw [sanitize, String.toList_ofList]
  intro hmem
  obtain ⟨c, -, hc⟩ := mem_map.mp hmem
  exact absurd (hc ▸ isKept_sanitizeChar c) (by decide)

theorem segment_homeComponent {ownerKey : String} (h : ownerKey ∉ [".", ".."]) :
    Segment (homeComponent ownerKey).toList := by
  rw [homeComponent_eq]
  split
  · exact ⟨by decide, by decide⟩
  · rename_i hne
    refine ⟨slash_notMem_sanitize ownerKey, ?_⟩
    have hdots : ∀ name : String, '-' ∉ name.toList → ownerKey ≠ name →
        (sanitize ownerKey).toList ≠ name.toList := by
      intro name hname hother heq
      exact hother (eq_of_sanitize_eq hname (String.toList_injective heq))
    rw [mem_cons, mem_singleton, not_or] at h
    rw [segmentComponent, if_neg, if_neg]
    · exact hdots ".." (by decide) h.2
    · rintro (hnil | hdot)
      · exact hdots "" (by decide) hne hnil
      · exact hdots "." (by decide) h.1 hdot

theorem homeComponent_ne (hblurred : ¬Blurred first second) (hclash : ¬HomeClash first second) :
    homeComponent first ≠ homeComponent second := by
  rw [← sanitize_eq_iff] at hblurred
  have hdefault : ∀ {name : String}, "default" = sanitize name → name = "default" := fun h =>
    eq_of_sanitize_eq (by decide) h.symm
  rw [homeComponent_eq, homeComponent_eq]
  split <;> split
  · rename_i hfirst hsecond
    rw [hfirst, hsecond] at hblurred
    exact absurd rfl hblurred
  · rename_i hfirst _
    exact fun heq => hclash (.inr (.inr (.inl ⟨hfirst, hdefault heq⟩)))
  · rename_i _ hsecond
    exact fun heq => hclash (.inr (.inr (.inr ⟨hdefault heq.symm, hsecond⟩)))
  · exact hblurred

/-! ## The home of a session -/

section Homes

variable {cfg : SandboxConfig} {host : Host}

/-- The homes of the sessions are mounted. -/
def HomesMounted (cfg : SandboxConfig) (host : Host) : Prop :=
  cfg.declared.homePersistence = .session ∧
    Config.managedGuestMountsConflict (mountPlanConfig cfg) (mountPlanContext cfg host) = false

/-- The directory of all homes. -/
def homeBase (cfg : SandboxConfig) (host : Host) : Path :=
  join (join (join (mountPlanContext cfg host).hostDataDir "sandbox".toList) "home".toList)
    "session".toList

def homeMount (cfg : SandboxConfig) (host : Host) : Config.SandboxMount where
  host := homeBase cfg host
  guest := Config.sandboxHomeDir
  mode := .rw

theorem segment_session : Segment "session".toList := ⟨by decide, by decide⟩

theorem components_homeBase :
    (homeBase cfg host).components = (mountPlanContext cfg host).hostDataDir.components ++
      [.normal "sandbox".toList, .normal "home".toList, .normal "session".toList] := by
  rw [homeBase, components_join _ segment_session, components_join _ ⟨by decide, by decide⟩,
    components_join _ ⟨by decide, by decide⟩, append_assoc, append_assoc]
  rfl

theorem homeBase_ne_nil : homeBase cfg host ≠ [] := by
  intro hnil
  have hlength := congrArg List.length (@components_homeBase cfg host)
  have hempty : (components []).length = 0 := rfl
  rw [hnil, hempty, length_append] at hlength
  exact absurd hlength.symm (Nat.succ_ne_zero _)

theorem homeMount_mem (hmounted : HomesMounted cfg host) :
    homeMount cfg host ∈ sandboxMountPlan cfg host := by
  have hsession : (mountPlanConfig cfg).homePersistence = .session := hmounted.1
  have hhome : Config.homeMount host.canonicalize (mountPlanConfig cfg)
      (mountPlanContext cfg host) = [homeMount cfg host] := by
    rw [Config.homeMount, hsession]
    show (if Config.managedGuestMountsConflict (mountPlanConfig cfg) (mountPlanContext cfg host)
      then _ else _) = _
    rw [hmounted.2, if_neg Bool.false_ne_true]
    rfl
  rw [sandboxMountPlan, Config.sandboxMountAnalysis, hhome]
  exact mem_append_left _ (mem_cons_of_mem _ mem_cons_self)

theorem isHome_homeMount : isHome (homeMount cfg host) = true := decide_eq_true rfl

theorem homePersistence_ne_off (hmounted : HomesMounted cfg host) :
    (mountPlanConfig cfg).homePersistence ≠ .off := by
  show cfg.declared.homePersistence ≠ .off
  rw [hmounted.1]
  nofun

theorem resolve_dataDir_ne (hmounted : HomesMounted cfg host) :
    resolve host.dataDir ≠ resolve sandboxHomeDir := by
  intro heq
  have hconflict := hmounted.2
  rw [managedGuestMountsConflict, decide_eq_true (homePersistence_ne_off hmounted),
    Bool.true_and] at hconflict
  have hoverlap : pathsOverlap (mountPlanContext cfg host).guestDataDir
      sandboxHomeDir = true := by
    rw [pathsOverlap_iff, Overlaps]
    show resolve (normalizePath host.dataDir) <+: _ ∨ _
    rw [resolve_normalizePath, heq]
    exact .inl (prefix_refl _)
  exact Bool.false_ne_true (hconflict.symm.trans hoverlap)

theorem guest_of_mem_customMounts {canonicalize : Path → Option Path} {plan : Config.SandboxConfig}
    {context : Config.MountPlanContext} (hon : plan.homePersistence ≠ .off)
    {mount : Config.SandboxMount} (hmem : mount ∈ (customMounts canonicalize plan context).1) :
    ¬Overlaps mount.guest sandboxHomeDir := by
  rw [customMounts_eq, mem_map] at hmem
  obtain ⟨entry, hentry, rfl⟩ := hmem
  have hnone := Option.isNone_iff_eq_none.mp (mem_filter.mp hentry).2
  rw [customMountViolation] at hnone
  intro hoverlap
  have hhome : pathsOverlap (normalizePath entry.1.guest) sandboxHomeDir = true := by
    rw [pathsOverlap_iff, Overlaps, resolve_normalizePath]
    exact hoverlap
  rw [decide_eq_true hon, hhome, Bool.and_true, if_pos rfl] at hnone
  split at hnone
  · cases hnone
  split at hnone
  · cases hnone
  split at hnone
  · cases hnone
  split at hnone
  · cases hnone
  · cases hnone

theorem eq_homeMount (hmounted : HomesMounted cfg host) {mount : Config.SandboxMount}
    (hmem : mount ∈ sandboxMountPlan cfg host) (hhome : isHome mount = true) :
    mount = homeMount cfg host := by
  have hsession : (mountPlanConfig cfg).homePersistence = .session := hmounted.1
  have hguest : resolve mount.guest = resolve Config.sandboxHomeDir := by
    rw [resolve, resolve, of_decide_eq_true hhome]
  rw [sandboxMountPlan, Config.sandboxMountAnalysis, cons_append, mem_cons,
    mem_append] at hmem
  rcases hmem with rfl | hmanaged | hcustom
  · refine absurd ?_ (resolve_dataDir_ne hmounted)
    rw [← hguest]
    exact (resolve_normalizePath host.dataDir).symm
  · rw [Config.homeMount, hsession] at hmanaged
    dsimp only at hmanaged
    rw [hmounted.2, if_neg Bool.false_ne_true] at hmanaged
    exact mem_singleton.mp hmanaged
  · refine absurd (.inl ?_) (guest_of_mem_customMounts (homePersistence_ne_off hmounted) hcustom)
    rw [hguest]

/-- The home of an owner, as the program itself sees it. -/
def guestVisibleHome (cfg : SandboxConfig) (host : Host) (ownerKey : String) : Path :=
  join (homeBase cfg host) (homeComponent ownerKey).toList

/-- The home of an owner, as the container runtime sees it. -/
def hostVisibleHome (cfg : SandboxConfig) (host : Host) (ownerKey : String) : Path :=
  hostVisibleMountPath cfg host
    { host := guestVisibleHome cfg host ownerKey, guest := Config.sandboxHomeDir, mode := .rw }

theorem sessionMount_homeMount (hmounted : HomesMounted cfg host) (ownerKey : String) :
    sessionMount cfg (sandboxIdFor cfg ownerKey) (homeMount cfg host) =
      ⟨guestVisibleHome cfg host ownerKey, sandboxHomeDir, .rw⟩ := by
  rw [sessionMount, if_pos ⟨hmounted.1, isHome_homeMount⟩]
  rfl

theorem mem_homeDirs (hmounted : HomesMounted cfg host) (ownerKey : String)
    {dir : List Component} :
    dir ∈ homeDirs cfg host (sandboxIdFor cfg ownerKey) ↔
      dir = (hostVisibleHome cfg host ownerKey).components := by
  have hguest : ∀ mount : Config.SandboxMount, isHome (hostVisibleMount cfg host
      (sessionMount cfg (sandboxIdFor cfg ownerKey) mount)) = isHome mount := by
    intro mount
    rw [sessionMount]
    split <;> rfl
  rw [homeDirs, resolvedSandboxMountPlan, mem_map]
  constructor
  · rintro ⟨resolved, hresolved, rfl⟩
    obtain ⟨hmem, hhome⟩ := mem_filter.mp hresolved
    obtain ⟨mount, hmount, rfl⟩ := mem_map.mp hmem
    rw [hguest] at hhome
    rw [eq_homeMount hmounted hmount hhome, sessionMount_homeMount hmounted]
    rfl
  · rintro rfl
    refine ⟨_, mem_filter.mpr ⟨mem_map_of_mem (homeMount_mem hmounted), ?_⟩, ?_⟩
    · rw [hguest, isHome_homeMount]
    · rw [sessionMount_homeMount hmounted]
      rfl

/-! ## Homes of two owners -/

theorem not_overlaps_guestVisibleHome (hblurred : ¬Blurred first second)
    (hclash : ¬HomeClash first second) :
    ¬Overlaps (guestVisibleHome cfg host first) (guestVisibleHome cfg host second) := by
  have hfirst : first ∉ [".", ".."] := fun h => hclash (.inl h)
  have hsecond : second ∉ [".", ".."] := fun h => hclash (.inr (.inl h))
  have hne : (homeComponent first).toList ≠ (homeComponent second).toList := fun heq =>
    homeComponent_ne hblurred hclash (String.toList_injective heq)
  have hsame : ∀ {one other : List Char},
      resolve (homeBase cfg host) ++ [Component.normal one] <+:
        resolve (homeBase cfg host) ++ [Component.normal other] → one = other := by
    intro one other hpre
    rw [prefix_append_right_inj, cons_prefix_cons] at hpre
    exact Component.normal.inj hpre.1
  rw [Overlaps, guestVisibleHome, guestVisibleHome, resolve_join _ (segment_homeComponent hfirst),
    resolve_join _ (segment_homeComponent hsecond)]
  rintro (hpre | hpre)
  · exact hne (hsame hpre)
  · exact hne (hsame hpre).symm

variable {segment : List Char}

/-- Where the data directory of the program is the home of no owner, a home keeps its name on the
host. -/
theorem getLast?_hostVisiblePath {base : Path} (hsegment : Segment segment)
    (hdata : host.dataDir.components ≠ base.components ++ [.normal segment]) :
    (hostVisiblePath cfg host (join base segment)).components.getLast? =
      some (.normal segment) := by
  have hcomponents := components_join base hsegment
  rw [hostVisiblePath]
  cases hstrip : (join base segment).stripPrefix host.dataDir with
  | none =>
    show (join base segment).components.getLast? = _
    rw [hcomponents, List.getLast?_concat]
  | some relative =>
    rw [Path.stripPrefix] at hstrip
    split at hstrip
    · rename_i hstarts
      rw [startsWith, hcomponents, isPrefixOf_iff_prefix] at hstarts
      obtain ⟨rest, hrest⟩ := hstarts
      rcases eq_nil_or_concat' rest with rfl | ⟨front, last, rfl⟩
      · rw [append_nil] at hrest
        exact absurd hrest hdata
      · rw [← append_assoc] at hrest
        obtain ⟨-, hlast⟩ := append_inj' hrest rfl
        have hfront : host.dataDir.components ++ front = base.components :=
          (append_inj' hrest rfl).1
        obtain rfl := singleton_inj.mp hlast
        have hrelative : relative = join (render front) segment := by
          rw [hcomponents, ← hfront, append_assoc, drop_left, render_concat] at hstrip
          exact (Option.some.inj hstrip).symm
        have hne : relative ≠ [] := by
          intro hnil
          have hlength := congrArg List.length (components_join (render front) hsegment)
          rw [← hrelative, hnil, length_append] at hlength
          have hempty : (components []).length = 0 := rfl
          rw [hempty] at hlength
          exact absurd hlength.symm (Nat.succ_ne_zero _)
        show (if relative = [] then _ else join _ relative).components.getLast? = _
        rw [if_neg hne, hrelative, join_join _ _ hsegment, components_join _ hsegment,
          List.getLast?_concat]
    · cases hstrip

/-- Where it is the home of an owner, the other homes stay, and that one is the data directory. -/
theorem hostVisiblePath_of_dataDir {base : Path} (hsegment : Segment segment)
    (hdata : host.dataDir.components = base.components ++ [.normal segment]) :
    hostVisiblePath cfg host (join base segment) = hostVisibleDataDir cfg host ∧
      ∀ other, Segment other → other ≠ segment →
        hostVisiblePath cfg host (join base other) = join base other := by
  have hcomponents := components_join base hsegment
  constructor
  · have hstrip : (join base segment).stripPrefix host.dataDir = some [] := by
      rw [Path.stripPrefix, startsWith, hcomponents, hdata, if_pos, drop_length]
      · rfl
      · exact isPrefixOf_iff_prefix.mpr (prefix_refl _)
    rw [hostVisiblePath, hstrip]
    rfl
  · intro other hother hne
    have hstrip : (join base other).stripPrefix host.dataDir = none := by
      rw [Path.stripPrefix, startsWith, components_join base hother, hdata, if_neg]
      rw [List.isPrefixOf_iff_prefix, prefix_append_right_inj, cons_prefix_cons]
      exact fun h => hne (Component.normal.inj h.1).symm
    rw [hostVisiblePath, hstrip]

theorem components_ne_resolve (path : Path) (h : Segment segment) :
    path.components ≠ resolve path ++
      [.normal "sandbox".toList, .normal "home".toList, .normal "session".toList] ++
        [.normal segment] := by
  intro heq
  have hclean : Clean path.components := by
    have hfront : Clean (resolve path ++ [.normal "sandbox".toList] ++ [.normal "home".toList] ++
        [.normal "session".toList] ++ [.normal segment]) :=
      ((((clean_resolve path).concat ⟨by decide, by decide⟩).concat ⟨by decide, by decide⟩).concat
        segment_session).concat h
    rw [heq]
    simpa only [append_assoc, cons_append, nil_append] using hfront
  have hself : resolve path = path.components := foldl_resolveStep hclean
  have hlength := congrArg List.length heq
  rw [hself, length_append, length_append] at hlength
  simp only [length_cons, length_nil] at hlength
  omega

theorem configuredDir_display (configured : Option String) :
    configuredDir ((configuredDir configured).map display) =
      configuredDir configured := by
  cases configured with
  | none => rfl
  | some text =>
    have hdir : ∀ text, configuredDir (some text) =
        if (!(trim text).isEmpty) = true then some (trim text).toList else none := by
      intro text
      rw [configuredDir, Option.map_some, Option.filter_some]
      split <;> rfl
    rw [hdir]
    split
    · rename_i hkeep
      rw [Option.map_some, display, String.ofList_toList, hdir, trim_trim, if_pos hkeep]
    · rfl

theorem components_hostDataDir :
    (mountPlanContext cfg host).hostDataDir.components =
      match cfg.hostDataDir with
      | none => resolve host.dataDir
      | some path =>
        if path.isAbsolute then resolve path
        else resolve (join (normalizePath host.dataDir) path) := by
  show (Config.effectiveHostDataDir (mountPlanConfig cfg)
    (normalizePath host.dataDir)).components = _
  have hconfigured : Config.configuredDir (mountPlanConfig cfg).hostDataDir = cfg.hostDataDir :=
    configuredDir_display cfg.declared.hostDataDir
  rw [Config.effectiveHostDataDir, Config.configuredHostDataDir, hconfigured]
  cases cfg.hostDataDir with
  | none =>
    show (normalizePath (normalizePath host.dataDir)).components = _
    rw [components_normalizePath, resolve_normalizePath]
  | some path =>
    show (normalizePath (if path.isAbsolute = true then path
      else join (normalizePath host.dataDir) path)).components = _
    rw [components_normalizePath]
    dsimp only
    split <;> rfl

theorem hostVisibleDataDir_ne {one other : List Char} (hone : Segment one) (hother : Segment other)
    (hne : one ≠ other)
    (hdata : host.dataDir.components = (homeBase cfg host).components ++ [.normal one]) :
    (hostVisibleDataDir cfg host).components ≠
      (homeBase cfg host).components ++ [.normal other] := by
  have hbase := @components_homeBase cfg host
  rw [components_hostDataDir] at hbase
  rw [hostVisibleDataDir, configuredHostDataDir]
  cases hconfigured : cfg.hostDataDir with
  | none =>
    rw [hconfigured] at hbase
    rw [hbase] at hdata
    exact absurd hdata (components_ne_resolve _ hone)
  | some path =>
    rw [hconfigured] at hbase
    dsimp only at hbase
    rw [Option.map_some, Option.getD_some]
    by_cases habsolute : path.isAbsolute = true
    · rw [if_pos habsolute] at hbase ⊢
      rw [hbase]
      exact components_ne_resolve _ hother
    · have hnonempty : host.dataDir ≠ [] := by
        intro hnil
        have hlength := congrArg List.length hdata
        have hempty : (components []).length = 0 := rfl
        rw [hnil, hempty, length_append] at hlength
        exact absurd hlength.symm (Nat.succ_ne_zero _)
      rw [if_neg habsolute, components_join_relative hnonempty (Bool.not_eq_true _ ▸ habsolute),
        hdata, append_assoc]
      intro heq
      have hcons := append_cancel_left heq
      exact hne (Component.normal.inj (cons_eq_cons.mp hcons).1)

theorem hostVisibleHome_cases (hmounted : HomesMounted cfg host) (ownerKey : String) :
    hostVisibleHome cfg host ownerKey = guestVisibleHome cfg host ownerKey ∨
      hostVisibleHome cfg host ownerKey =
        hostVisiblePath cfg host (guestVisibleHome cfg host ownerKey) := by
  have hguest : sandboxHomeDir.components ≠ host.dataDir.components := fun heq =>
    resolve_dataDir_ne hmounted (by rw [resolve, resolve, heq])
  rw [hostVisibleHome, hostVisibleMountPath, if_neg hguest]
  by_cases hstarts : (configuredHostDataDir cfg host).any
      (guestVisibleHome cfg host ownerKey).startsWith = true
  · refine Or.inl ?_
    rw [if_pos hstarts]
  · refine Or.inr ?_
    rw [if_neg hstarts]

theorem hostVisibleHome_ne (hmounted : HomesMounted cfg host) (hblurred : ¬Blurred first second)
    (hclash : ¬HomeClash first second) :
    (hostVisibleHome cfg host first).components ≠ (hostVisibleHome cfg host second).components := by
  have hfirst := segment_homeComponent fun h => hclash (.inl h)
  have hsecond := segment_homeComponent fun h => hclash (.inr (.inl h))
  have hne : (homeComponent first).toList ≠ (homeComponent second).toList := fun heq =>
    homeComponent_ne hblurred hclash (String.toList_injective heq)
  -- a home that is the data directory is no other home
  have hself : ∀ {one other : String}, Segment (homeComponent one).toList →
      Segment (homeComponent other).toList →
      (homeComponent one).toList ≠ (homeComponent other).toList →
      host.dataDir.components =
        (homeBase cfg host).components ++ [.normal (homeComponent one).toList] →
      (hostVisibleHome cfg host one).components ≠ (hostVisibleHome cfg host other).components := by
    intro one other hone hother hdiffer hdata
    have htranslated := @hostVisiblePath_of_dataDir cfg _ _ _ hone hdata
    have hstays : (hostVisibleHome cfg host other).components =
        (homeBase cfg host).components ++ [.normal (homeComponent other).toList] := by
      have hpath : hostVisibleHome cfg host other = guestVisibleHome cfg host other := by
        rcases hostVisibleHome_cases hmounted other with hsame | hpath
        · exact hsame
        · rw [hpath]
          exact htranslated.2 _ hother hdiffer.symm
      rw [hpath]
      exact components_join _ hother
    rw [hstays]
    rcases hostVisibleHome_cases hmounted one with hsame | hpath
    · rw [hsame, guestVisibleHome, components_join _ hone]
      intro heq
      have hcons := append_cancel_left heq
      exact hdiffer (Component.normal.inj (cons_eq_cons.mp hcons).1)
    · rw [hpath, guestVisibleHome, htranslated.1]
      exact hostVisibleDataDir_ne hone hother hdiffer hdata
  by_cases hdata : host.dataDir.components =
      (homeBase cfg host).components ++ [.normal (homeComponent first).toList]
  · exact hself hfirst hsecond hne hdata
  by_cases hdata' : host.dataDir.components =
      (homeBase cfg host).components ++ [.normal (homeComponent second).toList]
  · exact (hself hsecond hfirst hne.symm hdata').symm
  have hlast : ∀ {ownerKey : String}, Segment (homeComponent ownerKey).toList →
      host.dataDir.components ≠
        (homeBase cfg host).components ++ [.normal (homeComponent ownerKey).toList] →
      (hostVisibleHome cfg host ownerKey).components.getLast? =
        some (.normal (homeComponent ownerKey).toList) := by
    intro ownerKey hsegment hother
    rcases hostVisibleHome_cases hmounted ownerKey with hsame | hpath
    · rw [hsame, guestVisibleHome, components_join _ hsegment, List.getLast?_concat]
    · rw [hpath]
      exact getLast?_hostVisiblePath hsegment hother
  intro heq
  have hsame := hlast hfirst hdata
  rw [heq, hlast hsecond hdata'] at hsame
  exact hne (Component.normal.inj (Option.some.inj hsame)).symm

end Homes

/-! ## What an operation changes -/

/-- The changes of an operation, whatever its result is, are in a relation. -/
def Within (R : SandboxState → SandboxState → Prop) {α : Type} (operation : SandboxM α) : Prop :=
  ∀ s, R s (operation s).2

/-- The relations for which it is enough to look at the parts of an operation. -/
structure Closed (R : SandboxState → SandboxState → Prop) : Prop where
  refl : ∀ s, R s s
  trans : ∀ {s t u}, R s t → R t u → R s u

namespace Within

variable {R : SandboxState → SandboxState → Prop} {α β : Type}

theorem pure (hR : Closed R) (value : α) : Within R (pure value) := fun s => hR.refl s

theorem throw (hR : Closed R) (message : String) : Within R (throw message : SandboxM α) :=
  fun s => hR.refl s

theorem bind (hR : Closed R) {first : SandboxM α} {next : α → SandboxM β}
    (hfirst : Within R first) (hnext : ∀ value, Within R (next value)) :
    Within R (first >>= next) := by
  intro s
  have hs := hfirst s
  show R s (ExceptT.bindCont next (first s).1 (first s).2).2
  cases (first s).1 with
  | ok value => exact hR.trans hs (hnext value (first s).2)
  | error message => exact hs

theorem get_bind {next : SandboxState → SandboxM β} (hnext : ∀ s, Within R (next s)) :
    Within R (get >>= next) := fun s => hnext s s

theorem tryCatch (hR : Closed R) {first : SandboxM α} {handler : String → SandboxM α}
    (hfirst : Within R first) (hhandler : ∀ message, Within R (handler message)) :
    Within R (tryCatch first handler) := by
  intro s
  have hs := hfirst s
  rcases hresult : first s with ⟨message | value, t⟩
  · have hrun : MonadExcept.tryCatch first handler s = handler message t := by
      simp only [MonadExcept.tryCatch, tryCatchThe, MonadExceptOf.tryCatch, ExceptT.tryCatch,
        ExceptT.mk, Bind.bind, StateT.bind, hresult]
    rw [hresult] at hs
    rw [hrun]
    exact hR.trans hs (hhandler message t)
  · have hrun : MonadExcept.tryCatch first handler s = (.ok value, t) := by
      simp only [MonadExcept.tryCatch, tryCatchThe, MonadExceptOf.tryCatch, ExceptT.tryCatch,
        ExceptT.mk, Bind.bind, StateT.bind, hresult]
      rfl
    rw [hresult] at hs
    rw [hrun]
    exact hs

theorem ite {p : Prop} [Decidable p] {first second : SandboxM α} (hfirst : Within R first)
    (hsecond : Within R second) : Within R (if p then first else second) := by
  split
  · exact hfirst
  · exact hsecond

theorem require (hR : Closed R) (ok : Bool) (message : String) :
    Within R (Tools.require ok message) :=
  ite (pure hR ()) (throw hR message)

theorem modifyState {change : SandboxState → SandboxState} (h : ∀ s, R s (change s)) :
    Within R (Tools.modifyState change) := h

end Within

section Operations

variable {R : SandboxState → SandboxState → Prop} {cfg : SandboxConfig} {host : Host}
  {resolver : String → Except String String} (answer : Outcomes) (id : SandboxId)

/-- A relation that every change under a name and an owner key is in. -/
structure Admits (R : SandboxState → SandboxState → Prop) (name : String)
    (dirs : List (List Component)) (ownerKey : String) : Prop extends Closed R where
  containers : ∀ s container,
    R s { s with containers := Function.update s.containers name container }
  homes : ∀ s, R s { s with homes := fun dir => s.homes dir || decide (dir ∈ dirs) }
  provisioned : ∀ s value,
    R s { s with provisioned := Function.update s.provisioned name value }
  noGate : ∀ s, R s { s with startupGates := Function.update s.startupGates name none }
  newGate : ∀ s, R s
    { s with startupGates := Function.update s.startupGates name (some s.nextGate)
             nextGate := s.nextGate + 1 }
  toolsEndpoints : ∀ s value,
    R s { s with toolsEndpoints := Function.update s.toolsEndpoints name value }
  preparedSessions : ∀ s value,
    R s { s with preparedSessions := Function.update s.preparedSessions ownerKey value }

variable {ownerKey : String}
  (hR : Admits R (containerName cfg id) (homeDirs cfg host id) ownerKey)

include hR

theorem within_createContainer : Within R (createContainer cfg host answer id) := by
  rw [createContainer]
  cases answer.image with
  | error message => exact .throw hR.toClosed message
  | ok prebuilt =>
    refine .bind hR.toClosed (.require hR.toClosed _ _) fun _ => ?_
    refine .bind hR.toClosed (.modifyState hR.homes) fun _ => ?_
    refine .bind hR.toClosed (.require hR.toClosed _ _) fun _ => ?_
    exact .bind hR.toClosed (.modifyState fun s => hR.containers s _) fun _ => .pure hR.toClosed _

theorem within_ensureContainer : Within R (ensureContainer cfg host answer id) := by
  rw [ensureContainer]
  refine .bind hR.toClosed (.require hR.toClosed _ _) fun _ => .get_bind fun s => ?_
  cases s.containers (containerName cfg id) with
  | some container =>
    refine .bind hR.toClosed (.require hR.toClosed _ _) fun _ => .ite ?_ ?_
    · exact .get_bind fun s => .pure hR.toClosed _
    · refine .bind hR.toClosed (.require hR.toClosed _ _) fun _ => ?_
      exact .bind hR.toClosed (.modifyState fun s => hR.containers s _) fun _ =>
        .pure hR.toClosed _
  | none =>
    refine .bind hR.toClosed (.modifyState fun s => hR.provisioned s _) fun _ => ?_
    refine .bind hR.toClosed (.modifyState fun s => hR.toolsEndpoints s _) fun _ => ?_
    exact .bind hR.toClosed (within_createContainer answer id hR) fun _ => .pure hR.toClosed _

omit hR in
theorem within_discover (hR : Closed R) (name : String) (health : Option ToolsHealthStatus) :
    Within R (discoverToolsServiceEndpoint name health) := by
  cases health with
  | some status => exact .pure hR status
  | none => exact .throw hR _

omit hR in
theorem within_updateToolsService (hR : Closed R) (name : String) :
    Within R (updateToolsService answer name) := by
  rw [updateToolsService]
  refine .bind hR (.require hR _ _) fun _ => ?_
  exact .bind hR (within_discover hR _ _) fun _ => .require hR _ _

theorem within_provisionPackages :
    Within R (provisionPackages answer (containerName cfg id)) := by
  rw [provisionPackages]
  refine .get_bind fun s => .ite ?_ (.pure hR.toClosed ())
  refine .bind hR.toClosed (.modifyState fun s => hR.provisioned s _) fun _ => ?_
  refine .ite ?_ (.pure hR.toClosed ())
  exact .bind hR.toClosed (.modifyState fun s => hR.provisioned s _) fun _ => .throw hR.toClosed _

theorem within_ensureReadyLocked : Within R (ensureReadyLocked cfg host answer id) := by
  rw [ensureReadyLocked]
  refine .bind hR.toClosed (within_ensureContainer answer id hR) fun ready => ?_
  refine .ite (.pure hR.toClosed ()) ?_
  refine .bind hR.toClosed (within_discover hR.toClosed _ _) fun status => ?_
  have hrest : Within R (do
      setToolsEndpoint (containerName cfg id) true
      if (!ready.1.prebuilt) = true then provisionPackages answer (containerName cfg id)) := by
    refine .bind hR.toClosed (.modifyState fun s => hR.toolsEndpoints s _) fun _ => ?_
    exact .ite (within_provisionPackages answer id hR) (.pure hR.toClosed ())
  exact .ite (.bind hR.toClosed (within_updateToolsService answer hR.toClosed _) fun _ => hrest)
    hrest

theorem within_startupGateFor : Within R (startupGateFor (containerName cfg id)) := by
  intro s
  unfold startupGateFor
  rw [ExceptT.mk]
  split
  · exact hR.refl s
  · exact hR.newGate s

theorem within_ensureReady : Within R (ensureReady cfg host answer id) := by
  rw [ensureReady]
  refine .bind hR.toClosed (within_startupGateFor id hR) fun _ => ?_
  refine .tryCatch hR.toClosed (within_ensureReadyLocked answer id hR) fun message => ?_
  refine .ite ?_ (.throw hR.toClosed message)
  exact .bind hR.toClosed (.modifyState hR.noGate) fun _ => .throw hR.toClosed message

theorem within_stopSandbox : Within R (stopSandbox cfg answer id) := by
  rw [stopSandbox]
  have hrest : Within R (setToolsEndpoint (containerName cfg id) false) :=
    .modifyState fun s => hR.toolsEndpoints s _
  exact .ite (.bind hR.toClosed (.modifyState fun s => hR.containers s _) fun _ => hrest) hrest

theorem within_removeDiscarded : Within R (removeDiscarded cfg answer id) := by
  rw [removeDiscarded]
  refine .bind hR.toClosed (.modifyState fun s => hR.provisioned s _) fun _ => ?_
  refine .bind hR.toClosed (.modifyState hR.noGate) fun _ => ?_
  refine .bind hR.toClosed (.modifyState fun s => hR.toolsEndpoints s _) fun _ => ?_
  exact .ite (.modifyState fun s => hR.containers s _) (.pure hR.toClosed ())

theorem within_cleanup : Within R (cleanup cfg answer id) := by
  rw [cleanup]
  refine .bind hR.toClosed (.require hR.toClosed _ _) fun _ => ?_
  refine .bind hR.toClosed (.modifyState fun s => hR.containers s _) fun _ => ?_
  refine .bind hR.toClosed (.modifyState fun s => hR.provisioned s _) fun _ => ?_
  refine .bind hR.toClosed (.modifyState hR.noGate) fun _ => ?_
  exact .modifyState fun s => hR.toolsEndpoints s _

omit hR

/-- What an operation changes is under the names of its owner. -/
theorem within_execute (operation : SandboxOp)
    (hR : ∀ ownerKey, operation.owner cfg resolver = .ok ownerKey →
      Admits R (containerName cfg (sandboxIdFor cfg ownerKey))
        (homeDirs cfg host (sandboxIdFor cfg ownerKey)) ownerKey)
    (hclosed : Closed R) : Within R (operation.execute cfg host resolver answer) := by
  cases operation with
  | prepareCommandSession sessionKey =>
    refine .bind hclosed ?_ fun _ => .pure hclosed ()
    rw [prepareCommandSession]
    cases howner : resolveOwnerKey cfg resolver sessionKey with
    | error message => exact .throw hclosed message
    | ok ownerKey =>
      have hown := hR ownerKey howner
      refine .get_bind fun s => ?_
      refine .bind hclosed (.modifyState fun s => hown.preparedSessions s _) fun _ => ?_
      refine .bind hclosed ?_ fun _ => .pure hclosed _
      refine .tryCatch hclosed (within_ensureReady answer _ hown) fun message => ?_
      refine .ite ?_ (.throw hclosed message)
      exact .bind hclosed (.modifyState fun s => hown.preparedSessions s _) fun _ =>
        .throw hclosed message
  | cleanupSession sessionKey =>
    show Within R (cleanupSession cfg resolver answer sessionKey)
    rw [cleanupSession]
    cases howner : resolveOwnerKey cfg resolver sessionKey with
    | error message => exact .throw hclosed message
    | ok ownerKey =>
      have hown := hR ownerKey howner
      refine .ite (.pure hclosed ()) ?_
      exact .bind hclosed (within_cleanup answer _ hown) fun _ =>
        .modifyState fun s => hown.preparedSessions s _
  | cleanupOwnerSandbox ownerKey =>
    have hown := hR ownerKey rfl
    exact .bind hclosed (within_cleanup answer _ hown) fun _ =>
      .modifyState fun s => hown.preparedSessions s _
  | stopOwnedSandboxBackground ownerKey => exact within_stopSandbox answer _ (hR ownerKey rfl)
  | removeOwnedSandboxBackground ownerKey =>
    have hown := hR ownerKey rfl
    exact .bind hclosed (.modifyState fun s => hown.preparedSessions s _) fun _ =>
      within_removeDiscarded answer _ hown

end Operations

/-! ## Startup gates -/

/-- No two containers have one gate. -/
structure GatesSound (s : SandboxState) : Prop where
  old : ∀ name gate, s.startupGates name = some gate → gate < s.nextGate
  unique : ∀ first second gate, s.startupGates first = some gate →
    s.startupGates second = some gate → first = second

theorem admits_gatesSound (name : String) (dirs : List (List Component)) (ownerKey : String) :
    Admits (fun s t => GatesSound s → GatesSound t) name dirs ownerKey where
  refl _ h := h
  trans h h' hs := h' (h hs)
  containers _ _ h := ⟨h.old, h.unique⟩
  homes _ h := ⟨h.old, h.unique⟩
  provisioned _ _ h := ⟨h.old, h.unique⟩
  toolsEndpoints _ _ h := ⟨h.old, h.unique⟩
  preparedSessions _ _ h := ⟨h.old, h.unique⟩
  noGate s h := by
    have hold : ∀ {other gate}, Function.update s.startupGates name none other = some gate →
        s.startupGates other = some gate := by
      intro other gate hgate
      rw [update_apply] at hgate
      split at hgate
      · exact nomatch hgate
      · exact hgate
    exact ⟨fun other gate hgate => h.old other gate (hold hgate),
      fun first second gate hfirst hsecond => h.unique first second gate (hold hfirst)
        (hold hsecond)⟩
  newGate s h := by
    have hold : ∀ {other gate},
        Function.update s.startupGates name (some s.nextGate) other = some gate →
        other = name ∧ gate = s.nextGate ∨ s.startupGates other = some gate := by
      intro other gate hgate
      rw [update_apply] at hgate
      split at hgate
      · rename_i hname
        exact .inl ⟨hname, (Option.some.inj hgate).symm⟩
      · exact .inr hgate
    refine ⟨fun other gate hgate => ?_, fun first second gate hfirst hsecond => ?_⟩
    · show gate < s.nextGate + 1
      rcases hold hgate with ⟨-, rfl⟩ | hgate
      · exact Nat.lt_succ_self _
      · exact Nat.lt_succ_of_lt (h.old other gate hgate)
    · rcases hold hfirst with ⟨hname, hnew⟩ | hfirst' <;>
        rcases hold hsecond with ⟨hname', hnew'⟩ | hsecond'
      · rw [hname, hname']
      · exact absurd (hnew ▸ h.old second gate hsecond') (Nat.lt_irrefl _)
      · exact absurd (hnew' ▸ h.old first gate hfirst') (Nat.lt_irrefl _)
      · exact h.unique first second gate hfirst' hsecond'

/-! ## Separate owners -/

section Owners

variable (cfg : SandboxConfig) (host : Host) (resolver : String → Except String String)

/-- What belongs to an owner is as it was. -/
structure Untouched (ownerKey : String) (s t : SandboxState) : Prop where
  container : t.containers (containerName cfg (sandboxIdFor cfg ownerKey)) =
    s.containers (containerName cfg (sandboxIdFor cfg ownerKey))
  home : HomesMounted cfg host → ∀ dir ∈ homeDirs cfg host (sandboxIdFor cfg ownerKey),
    t.homes dir = s.homes dir
  provisioned : t.provisioned (containerName cfg (sandboxIdFor cfg ownerKey)) =
    s.provisioned (containerName cfg (sandboxIdFor cfg ownerKey))
  startupGate : t.startupGates (containerName cfg (sandboxIdFor cfg ownerKey)) =
    s.startupGates (containerName cfg (sandboxIdFor cfg ownerKey))
  toolsEndpoint : t.toolsEndpoints (containerName cfg (sandboxIdFor cfg ownerKey)) =
    s.toolsEndpoints (containerName cfg (sandboxIdFor cfg ownerKey))
  prepared : t.preparedSessions ownerKey = s.preparedSessions ownerKey

/-- The sandboxes of two owners have nothing in common. -/
structure Separate (first second : String) : Prop where
  id : sandboxIdFor cfg first ≠ sandboxIdFor cfg second
  container : containerName cfg (sandboxIdFor cfg first) ≠
    containerName cfg (sandboxIdFor cfg second)
  /-- The homes are different host paths, and no home lies in the other. -/
  home : HomesMounted cfg host →
    (∀ dir ∈ homeDirs cfg host (sandboxIdFor cfg first),
      dir ∉ homeDirs cfg host (sandboxIdFor cfg second)) ∧
      ¬Overlaps (guestVisibleHome cfg host first) (guestVisibleHome cfg host second)
  /-- In every state that the program reaches, the startup gates are different. -/
  gate : ∀ containers homes events s,
    Run (SandboxStep cfg host resolver) (.new containers homes) events s →
    ∀ gate ∈ s.startupGates (containerName cfg (sandboxIdFor cfg first)),
      gate ∉ s.startupGates (containerName cfg (sandboxIdFor cfg second))
  /-- An operation for one owner, in any state, leaves what is the other's. -/
  acts : ∀ operation answer s t, SandboxStep cfg host resolver s (operation, answer) t →
    (operation.owner cfg resolver = .ok first → Untouched cfg host second s t) ∧
      (operation.owner cfg resolver = .ok second → Untouched cfg host first s t)

variable {cfg host resolver}

theorem admits_untouched (hne : first ≠ second)
    (hcontainer : containerName cfg (sandboxIdFor cfg first) ≠
      containerName cfg (sandboxIdFor cfg second))
    (hhome : HomesMounted cfg host → ∀ dir ∈ homeDirs cfg host (sandboxIdFor cfg first),
      dir ∉ homeDirs cfg host (sandboxIdFor cfg second)) :
    Admits (Untouched cfg host second) (containerName cfg (sandboxIdFor cfg first))
      (homeDirs cfg host (sandboxIdFor cfg first)) first where
  refl _ := ⟨rfl, fun _ _ _ => rfl, rfl, rfl, rfl, rfl⟩
  trans h h' := ⟨h'.container.trans h.container,
    fun hmounted dir hdir => (h'.home hmounted dir hdir).trans (h.home hmounted dir hdir),
    h'.provisioned.trans h.provisioned, h'.startupGate.trans h.startupGate,
    h'.toolsEndpoint.trans h.toolsEndpoint, h'.prepared.trans h.prepared⟩
  containers _ _ := ⟨update_of_ne hcontainer.symm _ _, fun _ _ _ => rfl, rfl, rfl, rfl, rfl⟩
  homes s := by
    refine ⟨rfl, fun hmounted dir hdir => ?_, rfl, rfl, rfl, rfl⟩
    have hother : dir ∉ homeDirs cfg host (sandboxIdFor cfg first) := fun hmem =>
      hhome hmounted dir hmem hdir
    show (s.homes dir || decide (dir ∈ homeDirs cfg host (sandboxIdFor cfg first))) = s.homes dir
    rw [decide_eq_false hother, Bool.or_false]
  provisioned _ _ :=
    ⟨rfl, fun _ _ _ => rfl, update_of_ne hcontainer.symm _ _, rfl, rfl, rfl⟩
  noGate _ := ⟨rfl, fun _ _ _ => rfl, rfl, update_of_ne hcontainer.symm _ _, rfl, rfl⟩
  newGate _ := ⟨rfl, fun _ _ _ => rfl, rfl, update_of_ne hcontainer.symm _ _, rfl, rfl⟩
  toolsEndpoints _ _ :=
    ⟨rfl, fun _ _ _ => rfl, rfl, rfl, update_of_ne hcontainer.symm _ _, rfl⟩
  preparedSessions _ _ :=
    ⟨rfl, fun _ _ _ => rfl, rfl, rfl, rfl, update_of_ne hne.symm _ _⟩

theorem gatesSound {containers : String → Option Container} {homes : List Component → Bool}
    {events : List (SandboxOp × Outcomes)} {s : SandboxState}
    (hrun : Run (SandboxStep cfg host resolver) (.new containers homes) events s) :
    GatesSound s := by
  refine hrun.invariant (P := GatesSound) (fun s event t hs hstep => ?_)
    ⟨(fun _ _ h => nomatch h), (fun _ _ _ h => nomatch h)⟩
  rw [hstep]
  have hwithin : Within (fun s t => GatesSound s → GatesSound t)
      (event.1.execute cfg host resolver event.2) :=
    within_execute event.2 event.1 (fun ownerKey _ => admits_gatesSound _ _ ownerKey)
      (admits_gatesSound "" [] "").toClosed
  exact hwithin s hs

theorem untouched_of_step (hne : first ≠ second) (hblurred : ¬Blurred first second)
    (hhome : HomesMounted cfg host → ∀ dir ∈ homeDirs cfg host (sandboxIdFor cfg first),
      dir ∉ homeDirs cfg host (sandboxIdFor cfg second)) {operation : SandboxOp} {answer : Outcomes}
    {s t : SandboxState} (hstep : SandboxStep cfg host resolver s (operation, answer) t)
    (howner : operation.owner cfg resolver = .ok first) : Untouched cfg host second s t := by
  have hadmits := admits_untouched hne (mt containerName_eq_iff.mp hblurred) hhome
  rw [hstep]
  refine within_execute answer operation (fun ownerKey hother => ?_) hadmits.toClosed s
  obtain rfl := Except.ok.inj (howner.symm.trans hother)
  exact hadmits

theorem Blurred.symm (h : Blurred first second) : Blurred second first :=
  sanitize_eq_iff.mp (sanitize_eq_iff.mpr h).symm

theorem resolve_dots {ownerKey : String} (h : ownerKey ∈ [".", ".."]) :
    resolve (guestVisibleHome cfg host ownerKey) <+: resolve (homeBase cfg host) := by
  rw [mem_cons, mem_singleton] at h
  rcases h with rfl | rfl
  · have hdot : (homeComponent ".").toList = ['.'] := by decide
    have hnone : (['.'].splitOn '/').filterMap segmentComponent = [] := by decide
    rw [guestVisibleHome, hdot, resolve, components_join_relative homeBase_ne_nil rfl, hnone,
      append_nil]
    exact prefix_refl _
  · have hdots : (homeComponent "..").toList = ['.', '.'] := by decide
    rw [guestVisibleHome, hdots, resolve, components_join_relative homeBase_ne_nil rfl,
      foldl_append]
    show resolveStep (resolve (homeBase cfg host)) .parentDir <+: _
    rw [resolveStep]
    split
    · exact prefix_refl _
    · exact dropLast_prefix _

theorem overlaps_of_clash (h : HomeClash first second) :
    Overlaps (guestVisibleHome cfg host first) (guestVisibleHome cfg host second) := by
  have hdots : ∀ {one other : String}, one ∈ [".", ".."] →
      Overlaps (guestVisibleHome cfg host one) (guestVisibleHome cfg host other) := by
    intro one other hone
    by_cases hother : other ∈ [".", ".."]
    · exact prefix_or_prefix_of_prefix (resolve_dots hone) (resolve_dots hother)
    · refine .inl ((resolve_dots hone).trans ?_)
      rw [guestVisibleHome, resolve_join _ (segment_homeComponent hother)]
      exact prefix_append _ _
  have hdefault : homeComponent "" = homeComponent "default" := by decide
  rcases h with hfirst | hsecond | ⟨rfl, rfl⟩ | ⟨rfl, rfl⟩
  · exact hdots hfirst
  · exact (hdots hsecond).symm
  · refine .inl ?_
    rw [guestVisibleHome, guestVisibleHome, hdefault]
  · refine .inl ?_
    rw [guestVisibleHome, guestVisibleHome, hdefault]

/-- **Sandboxes of different owners**: the sandboxes of two owners have nothing in common exactly
when the owner keys are different names and, where the homes of sessions are mounted, no key is a
dot, two dots, or the name that stands for the empty one next to it. -/
theorem sandboxes_separate {first second : String} (hne : first ≠ second) :
    Separate cfg host resolver first second ↔
      ¬Blurred first second ∧ (HomesMounted cfg host → ¬HomeClash first second) := by
  constructor
  · intro h
    exact ⟨fun hblurred => h.id (sandboxIdFor_eq_iff.mpr hblurred),
      fun hmounted hclash => (h.home hmounted).2 (overlaps_of_clash hclash)⟩
  · rintro ⟨hblurred, hclash⟩
    have hhome : HomesMounted cfg host → ∀ dir ∈ homeDirs cfg host (sandboxIdFor cfg first),
        dir ∉ homeDirs cfg host (sandboxIdFor cfg second) := by
      intro hmounted dir hdir hdir'
      rw [mem_homeDirs hmounted] at hdir hdir'
      exact hostVisibleHome_ne hmounted hblurred (hclash hmounted) (hdir.symm.trans hdir')
    refine ⟨mt sandboxIdFor_eq_iff.mp hblurred, mt containerName_eq_iff.mp hblurred,
      fun hmounted => ⟨hhome hmounted, not_overlaps_guestVisibleHome hblurred (hclash hmounted)⟩,
      fun containers homes events s hrun gate hgate hgate' => ?_,
      fun operation answer s t hstep => ⟨untouched_of_step hne hblurred hhome hstep, ?_⟩⟩
    · have hname := (gatesSound hrun).unique _ _ gate hgate hgate'
      exact hblurred (containerName_eq_iff.mp hname)
    · refine untouched_of_step hne.symm (fun h => hblurred h.symm) ?_ hstep
      exact fun hmounted dir hdir hdir' => hhome hmounted dir hdir' hdir

end Owners

def dockerConfig : SandboxConfig where
  mode := .on
  scope := .session
  containerPrefix := none
  declared := ⟨none, .session, none, []⟩

def linuxHost : Host where
  dataDir := "/home/user/.chelix".toList
  configDir := "/home/user/.config/chelix".toList
  detectHostDataDir := none
  canonicalize _ := none

theorem sandboxes_separate_sessions :
    Separate dockerConfig linuxHost .ok "session:1" "cron:1" := by
  refine (sandboxes_separate (by decide)).mpr ⟨?_, fun _ => ?_⟩
  · rw [← sanitize_eq_iff]
    decide
  · rw [HomeClash]
    decide

/-- Pull requests of two repositories: cleaning up after one removes the container of the other. -/
theorem same_sandbox :
    ¬∀ (cfg : SandboxConfig) (host : Host) (resolver : String → Except String String)
      (session session' first second : String), cfg.mode = .on → resolver session = .ok first →
      resolver session' = .ok second → first ≠ second →
      ∀ s t, SandboxStep cfg host resolver s (.cleanupSession session, {}) t →
        t.containers (containerName cfg (sandboxIdFor cfg second)) =
          s.containers (containerName cfg (sandboxIdFor cfg second)) := by
  intro hall
  have hremoved := hall dockerConfig linuxHost .ok
    "webhook:w1:github:acme/app-ui:pr:7" "webhook:w1:github:acme-app/ui:pr:7"
    "webhook:w1:github:acme/app-ui:pr:7" "webhook:w1:github:acme-app/ui:pr:7" rfl rfl rfl
    (by decide) (.new (fun _ => some ⟨true, true, true, []⟩) fun _ => false) _ rfl
  exact absurd hremoved (by decide +kernel)

end Chelix.Tools
