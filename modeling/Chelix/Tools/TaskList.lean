import Chelix.Library.Disk
import Chelix.Library.OrderedMap
import Chelix.Providers.Usage

/-!
# The shared task list

Lists of tasks are held in memory, each with a file.  A call loads its list, changes it, and
writes it, each under the lock of the lists; between these steps other calls take theirs.
-/

namespace Chelix.Tools

open Chelix.Library

inductive TaskStatus where
  | pending
  | inProgress
  | completed
  deriving DecidableEq

def TaskStatus.asStr : TaskStatus → String
  | .pending => "pending"
  | .inProgress => "in_progress"
  | .completed => "completed"

structure Task where
  id : String
  subject : String
  description : String
  status : TaskStatus
  owner : Option String
  blockedBy : List String
  createdAt : ℕ
  updatedAt : ℕ
  listId : String
  deriving DecidableEq

structure TaskList where
  nextId : ℕ
  tasks : OrderedMap String Task

def TaskList.default : TaskList where
  nextId := 1
  tasks := ∅

/-- The writer and the reader of the JSON of a list. -/
structure TaskListCodec where
  toStringPretty : TaskList → List Char
  fromStr : List Char → Option TaskList

inductive TaskError where
  | read (listId : String)
  | parse (listId : String)
  | createDir
  | write (listId : String)
  | readDir
  | missingList (listId : String)
  | notFound (taskId : String)
  | notPending (taskId : String) (status : TaskStatus)
  | blocked (taskId : String) (ids : List String)
  deriving DecidableEq

/-- The text of an error, with that of its cause. -/
def TaskError.message (cause : String) : TaskError → String
  | .read listId => "failed to read task list '" ++ listId ++ "': " ++ cause
  | .parse listId => "failed to parse task list '" ++ listId ++ "' JSON: " ++ cause
  | .createDir => "failed to create task dir: " ++ cause
  | .write listId => "failed to write task list '" ++ listId ++ "': " ++ cause
  | .readDir => "failed to read task dir: " ++ cause
  | .missingList listId => "missing task list: " ++ listId
  | .notFound taskId => "task not found: " ++ taskId
  | .notPending taskId status =>
    "task " ++ taskId ++ " cannot be claimed: current status is " ++ status.asStr
  | .blocked taskId ids =>
    "task " ++ taskId ++ " is blocked by incomplete tasks: " ++ ", ".intercalate ids

/-! ## The lists on disk -/

abbrev TaskLists := OrderedMap String TaskList

/-- What goes wrong with a write: the file cannot be opened, or not all is written. -/
inductive WriteFault where
  | none
  | unopened
  | cut (written : List Char)
  deriving DecidableEq

structure TaskStore where
  dataDir : Path

namespace TaskStore

def new (baseDir : Path) : TaskStore := ⟨Path.join baseDir "tasks".toList⟩

def filePath (store : TaskStore) (listId : String) : Path :=
  Path.join store.dataDir (listId ++ ".json").toList

variable (codec : TaskListCodec) (store : TaskStore)

/-- The list in a file, or a new one if there is no file. -/
def load (disk : Disk) (readFails : Bool) (listId : String) : Except TaskError TaskList :=
  match disk.lookup (store.filePath listId) with
  | none => .ok .default
  | some .dir => .error (.read listId)
  | some (.file data) =>
    if readFails then .error (.read listId)
    else match codec.fromStr data with
      | some list => .ok list
      | none => .error (.parse listId)

def ensureList (disk : Disk) (readFails : Bool) (lists : TaskLists) (listId : String) :
    Except TaskError TaskLists :=
  if lists.contains listId then .ok lists
  else do
    let list ← store.load codec disk readFails listId
    return lists.insert listId list

/-- The disk after a write, which may fail with part of the text written. -/
def persist (disk : Disk) (fault : WriteFault) (lists : TaskLists) (listId : String) :
    Except TaskError Unit × Disk :=
  match lists[listId]? with
  | none => (.ok (), disk)
  | some list =>
    match disk.createDirAll store.dataDir with
    | .error _ => (.error .createDir, disk)
    | .ok disk =>
      let write content := disk.write (store.filePath listId) content
      match fault with
      | .unopened => (.error (.write listId), disk)
      | .cut written =>
        match write written with
        | .error _ => (.error (.write listId), disk)
        | .ok disk => (.error (.write listId), disk)
      | .none =>
        match write (codec.toStringPretty list) with
        | .error _ => (.error (.write listId), disk)
        | .ok disk => (.ok (), disk)

end TaskStore

/-! ## Changes of a list -/

structure TaskUpdate where
  status : Option TaskStatus
  subject : Option String
  description : Option String
  owner : Option String
  blockedBy : Option (List String)

def TaskList.setTask (list : TaskList) (taskId : String) (task : Task) : TaskList :=
  { list with tasks := list.tasks.insert taskId task }

section Changes

variable (now : ℕ) (listId : String) (list : TaskList)

/-- A new task, and the list with it. -/
def TaskList.create (subject description : String) : Task × TaskList :=
  let id := toString list.nextId
  let task : Task :=
    { id, subject, description, status := .pending, owner := none, blockedBy := [],
      createdAt := now, updatedAt := now, listId }
  (task, { list.setTask id task with nextId := min (list.nextId + 1) (2 ^ 64 - 1) })

def TaskList.update (taskId : String) (change : TaskUpdate) :
    Except TaskError (Task × TaskList) :=
  match list.tasks[taskId]? with
  | none => .error (.notFound taskId)
  | some task =>
    let task :=
      { task with
        status := change.status.getD task.status
        subject := change.subject.getD task.subject
        description := change.description.getD task.description
        owner := change.owner.or task.owner
        blockedBy := change.blockedBy.getD task.blockedBy
        updatedAt := now }
    .ok (task, list.setTask taskId task)

/-- The tasks that block a task. -/
def TaskList.incomplete (task : Task) : List String :=
  task.blockedBy.filter fun depId =>
    list.tasks[depId]?.any fun dep => dep.status ≠ .completed

def TaskList.claim (taskId owner : String) : Except TaskError (Task × TaskList) :=
  match list.tasks[taskId]? with
  | none => .error (.notFound taskId)
  | some task =>
    if task.status ≠ .pending then .error (.notPending taskId task.status)
    else if list.incomplete task ≠ [] then .error (.blocked taskId (list.incomplete task))
    else
      let task := { task with owner := some owner, status := .inProgress, updatedAt := now }
      .ok (task, list.setTask taskId task)

end Changes

/-! ## Lookups -/

def taskNumber (task : Task) : ℕ := (Providers.parseU64 task.id).getD 0

/-- The tasks of a list with a status, or all of them. -/
def TaskList.selected (list : TaskList) (filter : Option TaskStatus) : List Task :=
  (list.tasks.toList.map Prod.snd).filter fun task => filter.all (· = task.status)

/-- The lists that have a file or tasks. -/
def TaskStore.listIds (store : TaskStore) (disk : Disk) (lists : TaskLists) : List String :=
  (lists.toList.filter fun entry =>
    (disk.lookup (store.filePath entry.1)).isSome || !entry.2.tasks.isEmpty).map Prod.fst

/-- The tasks of several lists, in the order of the lists and of their numbers. -/
def listAll (lists : TaskLists) (ids : List String) (filter : Option TaskStatus) : List Task :=
  let all := ids.flatMap fun id =>
    ((lists[id]?.map (·.selected filter)).getD []).map fun task => { task with listId := id }
  sortByKey (fun task => toLex (task.listId, taskNumber task)) all

/-! ## Calls -/

inductive TaskOperation where
  | create (listId subject description : String)
  | update (listId taskId : String) (change : TaskUpdate)
  | claim (listId taskId owner : String)
  | get (listId taskId : String)
  | list (listId : String) (filter : Option TaskStatus)

def TaskOperation.listId : TaskOperation → String
  | .create listId _ _ => listId
  | .update listId _ _ => listId
  | .claim listId _ _ => listId
  | .get listId _ => listId
  | .list listId _ => listId

/-- Where a call is: it has lists to load, then to act, and then to write or to collect. -/
inductive Phase where
  | scanning
  | loading (rest : List String)
  | writing (task : Task)
  | collecting (ids : List String)
  | returned

structure TaskCall where
  operation : TaskOperation
  phase : Phase

structure TaskState where
  disk : Disk
  lists : TaskLists
  calls : ℕ → Option TaskCall

inductive TaskReply where
  | task (task : Task)
  | found (task : Option Task)
  | tasks (tasks : List Task)

/-- The name of a directory entry. -/
abbrev FileName := {name : List Char // '/' ∉ name}

/-- A step of a call, with what the system answers to it. -/
inductive TaskAction where
  | start (operation : TaskOperation)
  /-- The names in the directory, unless it cannot be read. -/
  | scan (names : Option (List FileName))
  | load (readFails : Bool)
  | act (now : ℕ)
  | write (fault : WriteFault)
  | collect

structure TaskEvent where
  call : ℕ
  action : TaskAction
  outcome : Option (Except TaskError TaskReply)

/-- The list id that a file name stands for. -/
def stemOf (name : FileName) : Option String :=
  if ".json".toList <:+ name.1 ∧ name.1 ≠ ".json".toList then
    some (String.ofList (name.1.take (name.1.length - 5)))
  else none

namespace TaskState

def setCall (s : TaskState) (n : ℕ) (operation : TaskOperation) (phase : Phase) : TaskState :=
  { s with calls := fun m => if m = n then some ⟨operation, phase⟩ else s.calls m }

def finish (s : TaskState) (n : ℕ) (operation : TaskOperation)
    (outcome : Except TaskError TaskReply) :
    Option (Except TaskError TaskReply) × TaskState :=
  (some outcome, s.setCall n operation .returned)

variable (codec : TaskListCodec) (store : TaskStore)

/-- A change of the list of a call, which is written next. -/
def change (s : TaskState) (n : ℕ) (operation : TaskOperation)
    (result : TaskList → Except TaskError (Task × TaskList)) :
    Option (Except TaskError TaskReply) × TaskState :=
  match s.lists[operation.listId]? with
  | none => s.finish n operation (.error (.missingList operation.listId))
  | some list =>
    match result list with
    | .error e => s.finish n operation (.error e)
    | .ok (task, list) =>
      (none, { s with lists := s.lists.insert operation.listId list }.setCall n operation
        (.writing task))

/-- What a call does when its lists are loaded. -/
def act (s : TaskState) (n now : ℕ) (operation : TaskOperation) :
    Option (Except TaskError TaskReply) × TaskState :=
  match operation with
  | .create listId subject description =>
    s.change n operation fun list => .ok (list.create now listId subject description)
  | .update _ taskId change => s.change n operation fun list => list.update now taskId change
  | .claim _ taskId owner => s.change n operation fun list => list.claim now taskId owner
  | .get listId taskId =>
    match s.lists[listId]? with
    | none => s.finish n operation (.error (.missingList listId))
    | some list => s.finish n operation (.ok (.found list.tasks[taskId]?))
  | .list listId filter =>
    if listId = "*" then
      (none, s.setCall n operation (.collecting (store.listIds s.disk s.lists)))
    else match s.lists[listId]? with
      | none => s.finish n operation (.error (.missingList listId))
      | some list =>
        s.finish n operation (.ok (.tasks (sortByKey taskNumber (list.selected filter))))

/-- The phase in which a call begins. -/
def firstPhase : TaskOperation → Phase
  | .list listId _ => if listId = "*" then .scanning else .loading [listId]
  | operation => .loading [operation.listId]

/-- One step of a call, if the call can take it. -/
def step (s : TaskState) (n : ℕ) (action : TaskAction) :
    Option (Option (Except TaskError TaskReply) × TaskState) :=
  match action, s.calls n with
  | .start operation, none => some (none, s.setCall n operation (firstPhase operation))
  | .scan names, some ⟨operation, .scanning⟩ =>
    match names with
    | none => some (s.finish n operation (.error .readDir))
    | some names => some (none, s.setCall n operation (.loading (names.filterMap stemOf)))
  | .load readFails, some ⟨operation, .loading (listId :: rest)⟩ =>
    match store.ensureList codec s.disk readFails s.lists listId with
    | .error e => some (s.finish n operation (.error e))
    | .ok lists => some (none, { s with lists }.setCall n operation (.loading rest))
  | .act now, some ⟨operation, .loading []⟩ => some (s.act store n now operation)
  | .write fault, some ⟨operation, .writing task⟩ =>
    match store.persist codec s.disk fault s.lists operation.listId with
    | (.error e, disk) => some ({ s with disk }.finish n operation (.error e))
    | (.ok _, disk) => some ({ s with disk }.finish n operation (.ok (.task task)))
  | .collect, some ⟨.list listId filter, .collecting ids⟩ =>
    some (s.finish n (.list listId filter) (.ok (.tasks (listAll s.lists ids filter))))
  | _, _ => none

end TaskState

def TaskStep (codec : TaskListCodec) (store : TaskStore) (s : TaskState) (event : TaskEvent)
    (t : TaskState) : Prop :=
  s.step codec store event.call event.action = some (event.outcome, t)

end Chelix.Tools
