import Chelix.Library.Paths

/-!
# Files and directories

What is stored at a place, the resolved components of a path.  There are no links, and what `..`
follows is taken to be a directory.
-/

namespace Chelix.Library

open Chelix.Library.Path (Component resolve)

inductive Entry where
  | dir
  | file (content : List Char)
  deriving DecidableEq

inductive DiskError where
  | notFound
  | notADirectory
  | isADirectory
  | notEmpty
  deriving DecidableEq

/-- The entries of a file system by their places. -/
abbrev Disk := List Component → Option Entry

namespace Disk

def isDir (disk : Disk) (place : List Component) : Bool := place = [] || disk place = some .dir

def isFile (disk : Disk) (place : List Component) : Bool :=
  match disk place with
  | some (.file _) => true
  | _ => false

/-- Whether the directories above a place exist. -/
def reachable (disk : Disk) (place : List Component) : Bool :=
  place.dropLast.inits.all disk.isDir

def lookup (disk : Disk) (path : Path) : Option Entry :=
  if disk.reachable (resolve path) then disk (resolve path) else none

def createDirAll (disk : Disk) (path : Path) : Except DiskError Disk :=
  if (resolve path).inits.any disk.isFile then .error .notADirectory
  else .ok fun place =>
    if place <+: resolve path ∧ place ≠ [] then some .dir else disk place

def write (disk : Disk) (path : Path) (content : List Char) : Except DiskError Disk :=
  if !disk.reachable (resolve path) then .error .notFound
  else if disk.isDir (resolve path) then .error .isADirectory
  else .ok fun place => if place = resolve path then some (.file content) else disk place

/-- Whether a path ends with the name of what it leads to. -/
def named (path : Path) : Bool :=
  match path.components.getLast? with
  | some (.normal _) => true
  | _ => false

/-- What is in a directory goes, and then the directory, which must be named. -/
def removeDirAll (disk : Disk) (path : Path) : Except DiskError Unit × Disk :=
  match disk.lookup path with
  | none => (.error .notFound, disk)
  | some (.file _) => (.error .notADirectory, disk)
  | some .dir =>
    if named path then
      (.ok (), fun place => if resolve path <+: place then none else disk place)
    else
      (.error .notEmpty, fun place =>
        if resolve path <+: place ∧ place ≠ resolve path then none else disk place)

/-! ## What is stored -/

variable {disk disk' : Disk} {path : Path}

theorem get_createDirAll (h : disk.createDirAll path = .ok disk') (place : List Component) :
    disk' place = if place <+: resolve path ∧ place ≠ [] then some .dir else disk place := by
  unfold createDirAll at h
  split at h
  · cases h
  · obtain rfl := Except.ok.inj h
    rfl

variable {place : List Component}

theorem isDir_createDirAll (h : disk.createDirAll path = .ok disk')
    (hplace : place <+: resolve path) : disk'.isDir place = true := by
  unfold isDir
  by_cases hnil : place = []
  · rw [decide_eq_true hnil, Bool.true_or]
  · rw [get_createDirAll h, if_pos ⟨hplace, hnil⟩, decide_eq_true rfl, Bool.or_true]

theorem reachable_concat (component : Component)
    (h : ∀ above, above <+: place → disk.isDir above = true) :
    disk.reachable (place ++ [component]) = true := by
  unfold reachable
  rw [List.dropLast_concat, List.all_eq_true]
  intro above habove
  exact h above ((List.mem_inits _ _).mp habove)

theorem isDir_mono (h : ∀ place, disk place = some .dir → disk' place = some .dir)
    (hdir : disk.isDir place = true) : disk'.isDir place = true := by
  unfold isDir at hdir ⊢
  rw [Bool.or_eq_true, decide_eq_true_eq, decide_eq_true_eq] at hdir ⊢
  exact hdir.imp_right (h place)

theorem lookup_of_reachable (h : disk.reachable (resolve path) = true) :
    disk.lookup path = disk (resolve path) := if_pos h

theorem get_write {content : List Char} (h : disk.write path content = .ok disk')
    (place : List Component) :
    disk' place = if place = resolve path then some (.file content) else disk place := by
  unfold write at h
  split at h
  · cases h
  · split at h
    · cases h
    · obtain rfl := Except.ok.inj h
      rfl

/-! ## Grounded disks -/

/-- What is stored is below directories that exist. -/
def Grounded (disk : Disk) : Prop :=
  ∀ place entry, disk place = some entry → disk.reachable place = true

theorem Grounded.lookup (h : disk.Grounded) (path : Path) :
    disk.lookup path = disk (resolve path) := by
  unfold Disk.lookup
  cases hentry : disk (resolve path) with
  | none => rw [ite_self]
  | some entry => rw [if_pos (h _ _ hentry)]

theorem reachable_mono (h : ∀ place, disk place = some .dir → disk' place = some .dir)
    (hreachable : disk.reachable place = true) : disk'.reachable place = true := by
  unfold reachable at hreachable ⊢
  rw [List.all_eq_true] at hreachable ⊢
  exact fun above habove => isDir_mono h (hreachable above habove)

theorem Grounded.createDirAll (h : disk.Grounded) (hcreate : disk.createDirAll path = .ok disk') :
    disk'.Grounded := by
  intro place entry hentry
  rw [get_createDirAll hcreate] at hentry
  split at hentry
  · next hprefix =>
    unfold reachable
    rw [List.all_eq_true]
    intro above habove
    refine isDir_createDirAll hcreate (((List.mem_inits _ _).mp habove).trans ?_)
    exact (List.dropLast_prefix place).trans hprefix.1
  · refine reachable_mono (fun above hdir => ?_) (h place entry hentry)
    rw [get_createDirAll hcreate, hdir, ite_self]

theorem Grounded.write (h : disk.Grounded) {content : List Char}
    (hwrite : disk.write path content = .ok disk') : disk'.Grounded := by
  have hchecked : disk.reachable (resolve path) = true ∧ disk.isDir (resolve path) = false := by
    unfold Disk.write at hwrite
    split at hwrite
    · cases hwrite
    · next hreachable =>
      split at hwrite
      · cases hwrite
      · next hdir =>
        exact ⟨by simpa using hreachable, Bool.eq_false_iff.mpr hdir⟩
  intro place entry hentry
  have hdirs : ∀ above, disk above = some .dir → disk' above = some .dir := by
    intro above hdir
    rw [get_write hwrite, if_neg, hdir]
    rintro rfl
    have hnot := hchecked.2
    unfold isDir at hnot
    rw [hdir, decide_eq_true rfl, Bool.or_true] at hnot
    cases hnot
  rw [get_write hwrite] at hentry
  split at hentry
  · next heq =>
    rw [heq]
    exact reachable_mono hdirs hchecked.1
  · exact reachable_mono hdirs (h place entry hentry)

/-! ## Removals -/

theorem get_removeDirAll (h : ¬resolve path <+: place) :
    (disk.removeDirAll path).2 place = disk place := by
  unfold removeDirAll
  split
  · rfl
  · rfl
  · split
    · exact if_neg h
    · exact if_neg fun hbelow => h hbelow.1

end Disk

end Chelix.Library
