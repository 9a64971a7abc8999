import Mathlib.Data.List.Infix

/-!
# Paths

A path is a text; the library of the source language reads it as components, separated by slashes.
Empty components and dots mean nothing, except a dot at the start.  Joining, comparing and taking
prefixes go by components.
-/

namespace Chelix.Library

open List

abbrev Path := List Char

namespace Path

/-! ## Components -/

inductive Component where
  | rootDir
  | curDir
  | parentDir
  | normal (segment : List Char)
  deriving DecidableEq

def isAbsolute (path : Path) : Bool := path.head? = some '/'

def segmentComponent (segment : List Char) : Option Component :=
  if segment = [] ∨ segment = ['.'] then none
  else if segment = ['.', '.'] then some .parentDir
  else some (.normal segment)

/-- The component before the segments: the root, or a dot that starts a relative path. -/
def leading (path : Path) : List Component :=
  if path.isAbsolute then [.rootDir]
  else if (path.splitOn '/').head? = some ['.'] then [.curDir]
  else []

def components (path : Path) : List Component :=
  leading path ++ (path.splitOn '/').filterMap segmentComponent

/-- `join`, and `push`: an absolute path replaces the base. -/
def join (base path : Path) : Path :=
  if path.isAbsolute then path
  else if base.getLast?.all (· = '/') then base ++ path
  else base ++ '/' :: path

/-- The text of components, as pushing them one after another gives it. -/
def render (path : List Component) : Path :=
  path.foldl (fun text component =>
    match component with
    | .rootDir => join text ['/']
    | .curDir => join text ['.']
    | .parentDir => join text ['.', '.']
    | .normal segment => join text segment) []

def startsWith (path base : Path) : Bool := base.components.isPrefixOf path.components

/-- What follows a leading path. -/
def stripPrefix (path base : Path) : Option Path :=
  if path.startsWith base then some (render (path.components.drop base.components.length))
  else none

/-- `pop`: the last component goes, unless it is the root. -/
def pop (path : Path) : Path :=
  match path.components.getLast? with
  | some .rootDir => path
  | some _ => render path.components.dropLast
  | none => path

/-! ## Resolution -/

/-- The components after one more. -/
def resolveStep (stack : List Component) : Component → List Component
  | .rootDir => [.rootDir]
  | .curDir => stack
  | .parentDir => if stack.getLast? = some .rootDir then stack else stack.dropLast
  | .normal segment => stack ++ [.normal segment]

/-- The components of a path without `.` and `..`. -/
def resolve (path : Path) : List Component := path.components.foldl resolveStep []

/-- The text of a path without `.` and `..`, as it is built up. -/
def normalizePath (path : Path) : Path :=
  path.components.foldl (fun normalized component =>
    match component with
    | .rootDir => join normalized ['/']
    | .curDir => normalized
    | .parentDir => pop normalized
    | .normal segment => join normalized segment) []

/-- One of the paths leads to the other, or both are one. -/
def Overlaps (first second : Path) : Prop :=
  resolve first <+: resolve second ∨ resolve second <+: resolve first

/-! ## Segments -/

/-- A segment that is a component of its own. -/
structure Segment (segment : List Char) : Prop where
  noSlash : '/' ∉ segment
  component : segmentComponent segment = some (.normal segment)

variable {segment : List Char}

theorem Segment.isAbsolute (h : Segment segment) : isAbsolute segment = false := by
  refine decide_eq_false fun hhead => h.noSlash ?_
  exact mem_of_mem_head? hhead

theorem splitOn_append_cons (base path : Path) :
    (base ++ '/' :: path).splitOn '/' = base.splitOn '/' ++ path.splitOn '/' :=
  splitOnP_append_cons base path (beq_self_eq_true '/')

variable {path : Path}

theorem notMem_of_mem_splitOn {segment : Path} (h : segment ∈ path.splitOn '/') :
    '/' ∉ segment := by
  induction path generalizing segment with
  | nil =>
    rw [splitOn_nil, mem_singleton] at h
    rw [h]
    exact not_mem_nil
  | cons c path ih =>
    rw [splitOn_cons_eq_if_modifyHead] at h
    by_cases hc : (c == '/') = true
    · rw [if_pos hc, mem_cons] at h
      rcases h with rfl | hrest
      · exact not_mem_nil
      · exact ih hrest
    · rw [if_neg hc] at h
      cases hsplit : path.splitOn '/' with
      | nil => exact absurd hsplit (splitOn_ne_nil '/' path)
      | cons first rest =>
        rw [hsplit] at h ih
        rcases mem_cons.mp h with rfl | hrest
        · rw [mem_cons, not_or]
          refine ⟨fun heq => hc (beq_iff_eq.mpr heq.symm), ih mem_cons_self⟩
        · exact ih (mem_cons_of_mem _ hrest)

variable {component : Component}

theorem segmentComponent_eq_some (h : segmentComponent segment = some component) :
    component = .parentDir ∨ component = .normal segment := by
  rw [segmentComponent] at h
  split at h
  · exact nomatch h
  · split at h
    · exact .inl (Option.some.inj h).symm
    · exact .inr (Option.some.inj h).symm

theorem segment_of_mem_filterMap (h : component ∈ (path.splitOn '/').filterMap segmentComponent) :
    component = .parentDir ∨ ∃ segment, component = .normal segment ∧ Segment segment := by
  obtain ⟨segment, hmem, hcomponent⟩ := mem_filterMap.mp h
  refine (segmentComponent_eq_some hcomponent).imp_right fun heq => ?_
  subst heq
  exact ⟨segment, rfl, notMem_of_mem_splitOn hmem, hcomponent⟩

/-! ## Joining a segment -/

variable {base : Path}

theorem isAbsolute_append (path : Path) (h : base ≠ []) :
    isAbsolute (base ++ path) = isAbsolute base := by
  rw [isAbsolute, isAbsolute, List.head?_append_of_ne_nil _ h]

theorem components_append_cons (base path : Path) :
    components (base ++ '/' :: path) =
      components (base ++ ['/']) ++ (path.splitOn '/').filterMap segmentComponent := by
  have hhead : isAbsolute (base ++ '/' :: path) = isAbsolute (base ++ ['/']) := by
    rw [isAbsolute, isAbsolute]
    cases base <;> rfl
  have hleading : leading (base ++ '/' :: path) = leading (base ++ ['/']) := by
    rw [leading, leading, hhead, splitOn_append_cons, splitOn_append_cons,
      List.head?_append_of_ne_nil _ (splitOn_ne_nil '/' base),
      List.head?_append_of_ne_nil _ (splitOn_ne_nil '/' base)]
  have hnil : (([] : Path).splitOn '/').filterMap segmentComponent = [] := by
    rw [splitOn_nil]
    rfl
  rw [components, components, hleading, splitOn_append_cons, splitOn_append_cons,
    filterMap_append, filterMap_append, hnil, append_nil, append_assoc]

theorem components_append_slash (hbase : base ≠ []) :
    components (base ++ ['/']) = components base := by
  have hleading : leading (base ++ ['/']) = leading base := by
    rw [leading, leading, isAbsolute_append _ hbase, splitOn_append_cons,
      List.head?_append_of_ne_nil _ (splitOn_ne_nil '/' base)]
  have hnil : (([] : Path).splitOn '/').filterMap segmentComponent = [] := by
    rw [splitOn_nil]
    rfl
  rw [components, components, hleading, splitOn_append_cons, filterMap_append, hnil,
    append_nil]

theorem components_join (base : Path) (h : Segment segment) :
    components (join base segment) = components base ++ [.normal segment] := by
  have hsegment : (segment.splitOn '/').filterMap segmentComponent = [.normal segment] := by
    rw [splitOn_eq_singleton h.noSlash, filterMap_cons, h.component]
    rfl
  rw [join, h.isAbsolute, if_neg Bool.false_ne_true]
  rcases eq_nil_or_concat' base with rfl | ⟨front, last, rfl⟩
  · have hleading : leading segment = [] := by
      rw [leading, h.isAbsolute, splitOn_eq_singleton h.noSlash, if_neg Bool.false_ne_true,
        if_neg]
      intro hdot
      obtain rfl := Option.some.inj hdot
      exact nomatch h.component
    rw [if_pos (by rfl), nil_append, components, hleading, hsegment]
    rfl
  · rw [List.getLast?_concat]
    by_cases hlast : last = '/'
    · subst hlast
      rw [if_pos (by rfl), append_assoc]
      show components (front ++ '/' :: segment) = _
      rw [components_append_cons, hsegment]
    · rw [if_neg (by simpa using hlast), components_append_cons, hsegment,
        components_append_slash (by simp)]

theorem join_join (base path : Path) (h : Segment segment) :
    join base (join path segment) = join (join base path) segment := by
  have hsegment := h.isAbsolute
  rcases eq_or_ne path [] with rfl | hpath
  · have hempty : join [] segment = segment := by
      rw [join, hsegment, if_neg Bool.false_ne_true]
      rfl
    have hnil : isAbsolute [] = false := rfl
    rw [hempty]
    by_cases hbase : base.getLast?.all (· = '/') = true
    · simp only [join, hsegment, hnil, hbase, Bool.false_eq_true, if_true, if_false,
        append_nil]
    · have hslash : (base ++ ['/']).getLast?.all (· = '/') = true := by
        rw [List.getLast?_concat]
        rfl
      simp only [join, hsegment, hnil, hbase, hslash, Bool.false_eq_true, if_true, if_false,
        append_assoc, singleton_append]
  · have hinner : isAbsolute (join path segment) = isAbsolute path := by
      rw [join, hsegment, if_neg Bool.false_ne_true]
      split <;> exact isAbsolute_append _ hpath
    have hlast : ∀ front : Path, (front ++ path).getLast? = path.getLast? := fun front =>
      List.getLast?_append_of_ne_nil front hpath
    have hcons : ∀ front : Path, (front ++ '/' :: path).getLast? = path.getLast? := by
      intro front
      rw [append_cons, hlast]
    rw [join, hinner]
    by_cases habsolute : isAbsolute path = true
    · rw [if_pos habsolute, join.eq_1 base path, if_pos habsolute]
    · rw [if_neg habsolute, join.eq_1 base path, if_neg habsolute]
      by_cases hend : path.getLast?.all (· = '/') = true <;>
        by_cases hbase : base.getLast?.all (· = '/') = true <;>
        simp only [join, hsegment, hend, hbase, hlast, hcons, Bool.false_eq_true, if_true,
          if_false, append_assoc, cons_append]

theorem components_join_relative (hbase : base ≠ []) (h : isAbsolute path = false) :
    components (join base path) =
      components base ++ (path.splitOn '/').filterMap segmentComponent := by
  rw [join, h, if_neg Bool.false_ne_true]
  rcases eq_nil_or_concat' base with rfl | ⟨front, last, rfl⟩
  · exact absurd rfl hbase
  · rw [List.getLast?_concat]
    by_cases hlast : last = '/'
    · subst hlast
      rw [if_pos (by rfl), append_assoc]
      exact components_append_cons front path
    · rw [if_neg (by simpa using hlast), components_append_cons, components_append_slash hbase]

/-! ## Resolved paths -/

/-- The components of a path without `.` and `..`: the root, if it is absolute, and segments. -/
def Clean : List Component → Prop
  | [] => True
  | first :: rest => (first = .rootDir ∨ ∃ segment, first = .normal segment ∧ Segment segment) ∧
      ∀ component ∈ rest, ∃ segment, component = .normal segment ∧ Segment segment

theorem render_concat (path : List Component) (segment : List Char) :
    render (path ++ [.normal segment]) = join (render path) segment := by
  rw [render, render, foldl_append]
  rfl

variable {stack : List Component}

theorem Clean.concat (h : Clean stack) (hsegment : Segment segment) :
    Clean (stack ++ [.normal segment]) := by
  cases stack with
  | nil => exact ⟨.inr ⟨segment, rfl, hsegment⟩, fun _ hmem => nomatch hmem⟩
  | cons first rest =>
    refine ⟨h.1, fun component hmem => ?_⟩
    rcases mem_append.mp hmem with hold | hnew
    · exact h.2 component hold
    · exact ⟨segment, mem_singleton.mp hnew, hsegment⟩

theorem Clean.cases (h : Clean stack) :
    stack = [] ∨ stack = [.rootDir] ∨
      ∃ front segment, stack = front ++ [.normal segment] ∧ Segment segment ∧ Clean front := by
  rcases eq_nil_or_concat' stack with rfl | ⟨front, last, rfl⟩
  · exact .inl rfl
  · refine .inr ?_
    cases front with
    | nil =>
      rcases h.1 with rfl | ⟨segment, rfl, hsegment⟩
      · exact .inl rfl
      · exact .inr ⟨[], segment, rfl, hsegment, trivial⟩
    | cons first rest =>
      obtain ⟨segment, rfl, hsegment⟩ := h.2 last (mem_append_right _ mem_cons_self)
      exact .inr ⟨first :: rest, segment, rfl, hsegment, h.1,
        fun component hmem => h.2 component (mem_append_left _ hmem)⟩

theorem components_render (h : Clean stack) : components (render stack) = stack := by
  induction stack using List.reverseRecOn with
  | nil => rfl
  | append_singleton front last ih =>
    rcases h.cases with hnil | hroot | ⟨front', segment, heq, hsegment, hfront⟩
    · exact absurd hnil (by simp)
    · rw [hroot]
      rfl
    · obtain ⟨rfl, hlast⟩ := append_inj' heq rfl
      obtain rfl := singleton_inj.mp hlast
      rw [render_concat, components_join _ hsegment, ih hfront]

theorem clean_resolveStep (h : Clean stack)
    (hcomponent : ∀ segment, component = .normal segment → Segment segment) :
    Clean (resolveStep stack component) := by
  cases component with
  | rootDir => exact ⟨.inl rfl, fun _ hmem => nomatch hmem⟩
  | curDir => exact h
  | parentDir =>
    rw [resolveStep]
    rcases h.cases with rfl | rfl | ⟨front, segment, rfl, -, hfront⟩
    · exact trivial
    · exact h
    · rw [List.getLast?_concat, if_neg (by simp), dropLast_concat]
      exact hfront
  | normal segment => exact h.concat (hcomponent segment rfl)

theorem segment_of_mem_components (h : Component.normal segment ∈ components path) :
    Segment segment := by
  rcases mem_append.mp h with hleading | hrest
  · rw [leading] at hleading
    split at hleading
    · exact nomatch mem_singleton.mp hleading
    · split at hleading
      · exact nomatch mem_singleton.mp hleading
      · exact nomatch hleading
  · rcases segment_of_mem_filterMap hrest with hparent | ⟨segment', heq, hsegment⟩
    · exact nomatch hparent
    · obtain rfl := Component.normal.inj heq
      exact hsegment

theorem normalizePath_step (h : Clean stack) (component : Component) :
    (match component with
      | .rootDir => join (render stack) ['/']
      | .curDir => render stack
      | .parentDir => pop (render stack)
      | .normal segment => join (render stack) segment) = render (resolveStep stack component) := by
  cases component with
  | rootDir | curDir => rfl
  | parentDir =>
    rw [resolveStep]
    dsimp only
    rw [pop, components_render h]
    rcases h.cases with rfl | rfl | ⟨front, segment, rfl, -, -⟩
    · rfl
    · rfl
    · rw [List.getLast?_concat, if_neg (by simp)]
  | normal segment => exact (render_concat stack segment).symm

theorem clean_foldl (h : Clean stack) {path : List Component}
    (hpath : ∀ segment, Component.normal segment ∈ path → Segment segment) :
    Clean (path.foldl resolveStep stack) := by
  induction path generalizing stack with
  | nil => exact h
  | cons component path ih =>
    refine ih (clean_resolveStep h fun segment heq => hpath segment ?_) fun segment hmem =>
      hpath segment (mem_cons_of_mem _ hmem)
    exact heq ▸ mem_cons_self

theorem clean_resolve (path : Path) : Clean (resolve path) := by
  have hempty : Clean [] := trivial
  exact clean_foldl hempty fun _ hmem => segment_of_mem_components hmem

theorem normalizePath_eq (path : Path) : normalizePath path = render (resolve path) := by
  have hgo : ∀ (rest stack : List Component), Clean stack →
      (∀ segment, Component.normal segment ∈ rest → Segment segment) →
      rest.foldl (fun normalized component =>
        match component with
        | .rootDir => join normalized ['/']
        | .curDir => normalized
        | .parentDir => pop normalized
        | .normal segment => join normalized segment) (render stack) =
      render (rest.foldl resolveStep stack) := by
    intro rest
    induction rest with
    | nil => exact fun stack _ _ => rfl
    | cons component rest ih =>
      intro stack hstack hrest
      rw [foldl_cons, foldl_cons, normalizePath_step hstack]
      refine ih _ (clean_resolveStep hstack fun segment heq => ?_) fun segment hmem => ?_
      · exact hrest segment (heq ▸ mem_cons_self)
      · exact hrest segment (mem_cons_of_mem _ hmem)
  exact hgo _ [] trivial fun _ hmem => segment_of_mem_components hmem

@[simp] theorem components_normalizePath (path : Path) :
    components (normalizePath path) = resolve path := by
  rw [normalizePath_eq, components_render (clean_resolve path)]

theorem resolve_join (base : Path) (h : Segment segment) :
    resolve (join base segment) = resolve base ++ [.normal segment] := by
  rw [resolve, components_join base h, foldl_append]
  rfl

theorem foldl_resolveStep (h : Clean stack) : stack.foldl resolveStep [] = stack := by
  induction stack using List.reverseRecOn with
  | nil => rfl
  | append_singleton front last ih =>
    rcases h.cases with hnil | hroot | ⟨front', segment, heq, -, hfront⟩
    · exact absurd hnil (by simp)
    · rw [hroot]
      rfl
    · obtain ⟨rfl, hlast⟩ := append_inj' heq rfl
      obtain rfl := singleton_inj.mp hlast
      rw [foldl_append, ih hfront]
      rfl

@[simp] theorem resolve_normalizePath (path : Path) :
    resolve (normalizePath path) = resolve path := by
  rw [resolve, components_normalizePath, foldl_resolveStep (clean_resolve path)]

/-! ## Absolute paths -/

theorem isAbsolute_join (h : isAbsolute base = true) (path : Path) :
    isAbsolute (join base path) = true := by
  have hne : base ≠ [] := by
    rintro rfl
    exact nomatch h
  rw [join]
  split
  · assumption
  · split
    · rwa [isAbsolute_append path hne]
    · rwa [isAbsolute_append _ hne]

theorem isAbsolute_render (h : Clean stack) (hroot : stack.head? = some .rootDir) :
    isAbsolute (render stack) = true := by
  induction stack using List.reverseRecOn with
  | nil => exact nomatch hroot
  | append_singleton front last ih =>
    rcases h.cases with hnil | hsingle | ⟨front', segment, heq, -, hfront⟩
    · exact absurd hnil (by simp)
    · rw [hsingle]
      rfl
    · obtain ⟨rfl, hlast⟩ := append_inj' heq rfl
      obtain rfl := singleton_inj.mp hlast
      rw [render_concat]
      cases front with
      | nil => exact nomatch hroot
      | cons first rest => exact isAbsolute_join (ih hfront hroot) segment

theorem head?_foldl_resolveStep {path : List Component} (hstack : stack.head? = some .rootDir) :
    (path.foldl resolveStep stack).head? = some .rootDir := by
  induction path generalizing stack with
  | nil => exact hstack
  | cons component path ih =>
    refine ih ?_
    cases component with
    | rootDir => rfl
    | curDir => exact hstack
    | parentDir =>
      rw [resolveStep]
      split
      · exact hstack
      · rename_i hlast
        match stack, hstack, hlast with
        | [first], hstack, hlast => exact absurd hstack hlast
        | _ :: _ :: _, hstack, _ => exact hstack
    | normal segment =>
      cases stack with
      | nil => exact nomatch hstack
      | cons first rest => exact hstack

theorem isAbsolute_normalizePath (h : isAbsolute path = true) :
    isAbsolute (normalizePath path) = true := by
  rw [normalizePath_eq]
  refine isAbsolute_render (clean_resolve path) ?_
  have hcomponents : components path =
      .rootDir :: (path.splitOn '/').filterMap segmentComponent := by
    rw [components, leading, if_pos h]
    rfl
  rw [resolve, hcomponents, foldl_cons]
  exact head?_foldl_resolveStep rfl

/-! ## Overlaps -/

theorem startsWith_normalizePath (path base : Path) :
    startsWith (normalizePath path) (normalizePath base) = true ↔
      resolve base <+: resolve path := by
  rw [startsWith, components_normalizePath, components_normalizePath, isPrefixOf_iff_prefix]

theorem not_overlaps_join {other : Path} (h : ¬Overlaps base other) (hsegment : Segment segment) :
    ¬Overlaps (join base segment) other := by
  have hbase : resolve base <+: resolve (join base segment) := by
    rw [resolve_join base hsegment]
    exact prefix_append _ _
  rintro (hinside | houtside)
  · exact h (.inl (hbase.trans hinside))
  · exact h (List.prefix_or_prefix_of_prefix hbase houtside)

end Path

end Chelix.Library
