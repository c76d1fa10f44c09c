import CompilationBridge.Counters
import CompilationBridge.Event
import CompilationBridge.LogRecord
import CompilationBridge.Message.Reader
import CompilationBridge.Message.Options
import CompilationBridge.Outages
import CompilationBridge.Text.LowerCase

/-!
Host messages applied to the project graph. Every change of the graph is carried over to the
workspace by calls, which may fail; a failed call is logged and has no effect on the workspace. What
editors and listeners are to be told comes back as a list of notices, in order.
-/

namespace CompilationBridge.Graph

/-- Counts of what the reconciler has met. -/
structure ReconcilerTally where
  messages : Table String Nat := .empty
  decodeErrors : Nat := 0
  unknownMessages : Nat := 0
  workspaceErrors : Nat := 0
deriving DecidableEq, Repr, Inhabited

def ReconcilerTally.counters (t : ReconcilerTally) : Counters :=
  Counters.tagged "graph.messages" "type" t.messages ++ [
    ("graph.decode_errors", t.decodeErrors), ("graph.unknown_messages", t.unknownMessages),
    ("graph.workspace_errors", t.workspaceErrors)]

/-- What is to be announced after a message. -/
inductive Notice where
  | log (record : LogRecord)
  | showError (text : String)
  | emit (event : Event)
  | added (project : ProjectRef)
  | unresolved (project : ProjectRef)
  | loaded (project : ProjectRef)
deriving Repr

/-- The record that an announcement failed. -/
def Notice.failure (n : Notice) (fault : Fault) : Option LogRecord :=
  match n with
  | .showError _ => some (.warn "forwarding host error to editors" [] (some fault))
  | .emit event => some (.warn "emitting event" [("event", .str event.type)] (some fault))
  | _ => none

/-- The tables of a variant whose entries stand for something that the workspace was given. -/
inductive Slot where
  | file
  | raw
  | document
deriving DecidableEq, Repr

namespace Slot

def table : Slot → Variant → Table String Handle
  | .file, v => v.fileRefs
  | .raw, v => v.rawRefs
  | .document, v => v.documents

def update (slot : Slot) (f : Table String Handle → Table String Handle) (v : Variant) : Variant :=
  match slot with
  | .file => { v with fileRefs := f v.fileRefs }
  | .raw => { v with rawRefs := f v.rawRefs }
  | .document => { v with documents := f v.documents }

/-- What a message lists for a table: a path or name, and the bytes of a raw reference. -/
structure Item where
  key : String
  bytes : Option Text.Bytes := none

def plain (keys : List String) : List Item :=
  keys.map fun key => { key := key }

def withBytes (raws : Table String (Option Text.Bytes)) : List Item :=
  raws.entries.map fun raw => { key := raw.1, bytes := raw.2 }

/-- How a failed call for a new entry is logged. -/
def addition : Slot → String
  | .file => "adding file reference"
  | .raw => "adding raw reference"
  | .document => "adding document"

/-- How a failed call for a dropped entry is logged. -/
def removal : Slot → String
  | .file => "removing metadata reference"
  | .raw => "removing metadata reference"
  | .document => "removing document"

def addCall (slot : Slot) (h ref : Handle) (item : Item) : Workspace.Call :=
  match slot with
  | .file => .addMetadataReference h { handle := ref, path := item.key }
  | .raw => .addMetadataReference h { handle := ref, name := item.key, bytes := item.bytes }
  | .document => .addDocument h ref item.key

def removeCall (slot : Slot) (h ref : Handle) : Workspace.Call :=
  match slot with
  | .file => .removeMetadataReference h ref
  | .raw => .removeMetadataReference h ref
  | .document => .removeDocument h ref

end Slot

/-- An order in which variants are visited. -/
structure Visiting where
  order : List Handle → List Handle := id
  perm : ∀ handles, (order handles).Perm handles := by exact fun _ => .refl _

instance : Inhabited Visiting := ⟨{}⟩

structure Reconciler where
  /-- The ending of source files, in lower case. -/
  sourceExtension : String := ""
  /-- The order in which a message about a project visits the variants that it leaves out. No order is
  part of a message, so it may be another one for each. -/
  visiting : Visiting := {}
  store : Store := {}
  workspace : Workspace := {}
  outages : Outages Workspace.Method := {}
  /-- Handles from here on have not been given out. -/
  nextHandle : Nat := 1
  /-- The workspace calls made so far, with the fault of those that failed. -/
  calls : List (Workspace.Call × Option Fault) := []
  logs : List LogRecord := []
  tally : ReconcilerTally := {}
deriving Inhabited

namespace Reconciler

def new (sourceExtension : String) : Reconciler :=
  { sourceExtension := Text.lower sourceExtension }

def fresh (r : Reconciler) : Reconciler × Handle :=
  ({ r with nextHandle := r.nextHandle + 1 }, ⟨r.nextHandle⟩)

def modifyVariant (r : Reconciler) (h : Handle) (f : Variant → Variant) : Reconciler :=
  { r with store := r.store.modifyVariant h f }

/-- Makes a workspace call. A call that is due to fail does not reach the workspace. -/
def perform (r : Reconciler) (call : Workspace.Call) : Reconciler × Option Fault :=
  let (failing, outages) := r.outages.draw call.method
  if failing then
    ({ r with outages := outages, calls := r.calls ++ [(call, some injectedFault)] },
      some injectedFault)
  else match r.workspace.perform call with
    | .ok workspace =>
      ({ r with
        outages := outages
        workspace := workspace
        calls := r.calls ++ [(call, none)] }, none)
    | .error fault =>
      ({ r with outages := outages, calls := r.calls ++ [(call, some fault)] }, some fault)

/-- Logs that a workspace call for a variant of a project failed. -/
def logFailure (r : Reconciler) (action : String) (id : Nat) (h : Handle) (fault : Fault) :
    Reconciler :=
  let path := ((r.store.project? id).map (·.path)).getD ""
  let framework := ((r.store.variant? h).map (·.framework.name)).getD ""
  let record := LogRecord.warn "workspace update failed"
    [("action", .str action), ("project", .str path), ("framework", .str framework)] (some fault)
  { r with
    logs := r.logs ++ [record]
    tally := { r.tally with workspaceErrors := r.tally.workspaceErrors + 1 } }

/-- Makes a workspace call for a variant and logs its failure; tells whether it succeeded. -/
def attempt (r : Reconciler) (action : String) (id : Nat) (h : Handle) (call : Workspace.Call) :
    Reconciler × Bool :=
  match r.perform call with
  | (r, none) => (r, true)
  | (r, some fault) => (r.logFailure action id h fault, false)

/-- The same where nothing depends on the outcome. -/
def carryOut (r : Reconciler) (action : String) (id : Nat) (h : Handle) (call : Workspace.Call) :
    Reconciler :=
  (r.attempt action id h call).1

/-- The variant of a project for a framework, created without registration if there is none. -/
def variantFor (r : Reconciler) (id : Nat) (framework : Framework) : Reconciler × Handle :=
  match (r.store.project? id).bind (·.variant? framework.name) with
  | some v => (r, v.handle)
  | none =>
    let (r, h) := r.fresh
    let v : Variant := { framework := framework, handle := h }
    ({ r with store := r.store.addVariant id v }, h)

/-- Sets the options that a variant has stored. -/
def sendOptions (r : Reconciler) (id : Nat) (v : Variant) : Reconciler :=
  let r := match v.compilation with
    | some o => r.carryOut "setting compilation options" id v.handle
        (.setCompilationOptions v.handle o)
    | none => r
  match v.parse with
  | some o => r.carryOut "setting parse options" id v.handle (.setParseOptions v.handle o)
  | none => r

/-- Adds a variant to the workspace unless it is there, sets its options and resolves the references
that waited for it. -/
def register (r : Reconciler) (id : Nat) (h : Handle) : Reconciler :=
  match r.store.project? id, r.store.variant? h with
  | some p, some v =>
    if v.registered then r
    else
      match r.attempt "adding project" id h
        (.addProject (v.framework.projectInfo h p.name p.path)) with
      | (r, false) => r
      | (r, true) =>
        let r := r.modifyVariant h fun v => { v with registered := true }
        let r := r.sendOptions id v
        let r := v.pending.foldl (fun r referrer =>
          r.carryOut "resolving pending reference" id h (.addProjectReference referrer h)) r
        r.modifyVariant h fun v => { v with pending := [] }
  | _, _ => r

/-- Withdraws what a reference of a variant left at its target: the pending entry, and the edge back
unless another variant of the project has the same target. -/
def withdrawEdge (path : String) (p : Project) (v : Handle) (s : Store) (target : Handle) : Store :=
  s.modifyVariant target fun t =>
    let t := t.removePending v
    if p.references target (some v) then t else { t with dependees := t.dependees.erase path }

/-- Removes a framework that its project no longer targets. The edges that it made are withdrawn; the
edges that point at it wait for the framework to come back, and without any it is forgotten. -/
def teardown (r : Reconciler) (id : Nat) (h : Handle) : Reconciler :=
  match r.store.project? id, r.store.variant? h with
  | some p, some v =>
    let r := { r with store := v.projectRefs.values.foldl (withdrawEdge p.path p h) r.store }
    let r := r.carryOut "removing project" id h (.removeProject h)
    let r := r.modifyVariant h fun v => { v with
      registered := false
      loaded := false
      fileRefs := .empty
      rawRefs := .empty
      projectRefs := .empty
      documents := .empty
      compilation := none
      parse := none }
    let referrers := (r.store.variants.filter (·.projectRefs.get? p.path = some h)).map (·.handle)
    let r := r.modifyVariant h fun v => referrers.foldl Variant.addPending v
    match r.store.variant? h with
    | some v =>
      if v.dependees.isEmpty && v.pending.isEmpty then
        { r with store := r.store.removeVariant h }
      else r
    | none => r
  | _, _ => r

/-- The variant that a message of the project itself is about, registered if it was not. -/
def ownVariant (r : Reconciler) (id : Nat) (framework : Framework) : Reconciler × Handle :=
  let (r, h) := r.variantFor id framework
  (r.register id h, h)

/-- The registered variants that a list of frameworks leaves out. -/
def omitted (p : Project) (frameworks : List Framework) : List Handle :=
  (p.variants.filter fun v =>
    v.registered && !(frameworks.any (·.name = v.framework.name))).map (·.handle)

/-- Brings a listed framework up to date. -/
def listFramework (id : Nat) (r : Reconciler) (framework : Framework) : Reconciler :=
  let (r, h) := r.variantFor id framework
  (r.modifyVariant h fun v => { v with framework := framework }).register id h

/-- What a project is known as after a message about it. -/
def describe (info : ProjectInformation) (p : Project) : Project :=
  { p with
    name := info.name
    configurations := info.configurations.getD []
    commands := info.commands.getD .empty
    searchPaths := info.searchPaths.getD []
    globalSettingsPath :=
      if info.globalSettingsPath = "" then p.globalSettingsPath else info.globalSettingsPath }

theorem path_describe (info : ProjectInformation) (p : Project) : (describe info p).path = p.path :=
  rfl

/-- The graph with what a message says about a project. -/
def describeIn (s : Store) (id : Nat) (info : ProjectInformation) : Store :=
  s.modifyProject id (describe info) (path_describe info)

def applyProjectInformation (r : Reconciler) (id : Nat) (info : ProjectInformation) : Reconciler :=
  let r := { r with store := describeIn r.store id info }
  let frameworks := info.frameworks.getD []
  let gone := ((r.store.project? id).map (omitted · frameworks)).getD []
  let r := (r.visiting.order gone).foldl (·.teardown id ·) r
  frameworks.foldl (listFramework id) r

/-- Drops an entry of a table, also from the workspace. -/
def dropEntry (slot : Slot) (id : Nat) (h : Handle) (r : Reconciler) (entry : String × Handle) :
    Reconciler :=
  (r.carryOut slot.removal id h (slot.removeCall h entry.2)).modifyVariant h
    (slot.update (·.erase entry.1))

/-- Adds an entry for an item whose key the table does not have. The entry is recorded only if the
workspace takes it. -/
def addEntry (slot : Slot) (id : Nat) (h : Handle) (r : Reconciler) (item : Slot.Item) : Reconciler :=
  match r.store.variant? h with
  | none => r
  | some v =>
    if (slot.table v).contains item.key then r
    else
      let (r, ref) := r.fresh
      match r.attempt slot.addition id h (slot.addCall h ref item) with
      | (r, true) => r.modifyVariant h (slot.update (·.put item.key ref))
      | (r, false) => r

/-- Brings a table of a variant to a list of items: entries that are not listed are dropped, then items
without an entry are added. -/
def setEntries (slot : Slot) (id : Nat) (h : Handle) (r : Reconciler) (items : List Slot.Item) :
    Reconciler :=
  let old := ((r.store.variant? h).map fun v => (slot.table v).entries).getD []
  let r := (old.filter fun e => !items.any (·.key = e.1)).foldl (dropEntry slot id h) r
  items.foldl (addEntry slot id h) r

/-- Drops a reference to another project. -/
def dropProject (id : Nat) (h : Handle) (r : Reconciler) (edge : String × Handle) : Reconciler :=
  let r := r.modifyVariant h fun v => { v with projectRefs := v.projectRefs.erase edge.1 }
  match r.store.project? id, r.store.variant? edge.2 with
  | some p, some target =>
    let r :=
      if target.registered then
        r.carryOut "removing project reference" id h (.removeProjectReference h edge.2)
      else r.modifyVariant edge.2 (·.removePending h)
    if p.references edge.2 none then r
    else r.modifyVariant edge.2 fun t => { t with dependees := t.dependees.erase p.path }
  | _, _ => r

/-- Records a reference to a variant of another project at both ends. It waits for a target that is not
registered. -/
def link (id : Nat) (h : Handle) (r : Reconciler) (p : Project) (path : String) (target : Handle) :
    Reconciler :=
  let r := r.modifyVariant target fun t => { t with dependees := t.dependees.put p.path id }
  let r := r.modifyVariant h fun v => { v with projectRefs := v.projectRefs.put path target }
  let waiting := ((r.store.variant? target).map (!·.registered)).getD false
  if waiting then r.modifyVariant target (·.addPending h)
  else r.carryOut "adding project reference" id h (.addProjectReference h target)

/-- Adds a reference to another project, which is tracked from now on; gives the projects that are
new. -/
def addProject (id : Nat) (h : Handle) (state : Reconciler × List ProjectRef)
    (edge : String × Framework) : Reconciler × List ProjectRef :=
  let (r, added) := state
  match r.store.project? id, r.store.variant? h with
  | some p, some v =>
    if v.projectRefs.contains edge.1 then (r, added)
    else
      let (store, ref, isNew) := r.store.track edge.1
      let (r, target) := { r with store := store }.variantFor ref.contextId edge.2
      (link id h r p edge.1 target, if isNew then added ++ [ref] else added)
  | _, _ => (r, added)

/-- The target framework of each referenced path; of several references the last counts. -/
def targets (refs : References) : Table String Framework :=
  .ofList ((refs.projects.getD []).map fun p => (Path.clean p.path, p.framework))

/-- Brings the references of a variant to other projects to the wanted ones; gives the projects that are
new. -/
def setProjects (id : Nat) (h : Handle) (r : Reconciler) (wanted : Table String Framework) :
    Reconciler × List ProjectRef :=
  let old := ((r.store.variant? h).map (·.projectRefs.entries)).getD []
  let r := (old.filter (!wanted.contains ·.1)).foldl (dropProject id h) r
  wanted.entries.foldl (addProject id h) (r, [])

/-- Brings the references of a variant to those of a message; gives the projects that are new. -/
def setReferences (id : Nat) (h : Handle) (r : Reconciler) (refs : References) :
    Reconciler × List ProjectRef :=
  let r := setEntries .file id h r (Slot.plain (refs.files.getD []))
  let r := setEntries .raw id h r (Slot.withBytes (refs.raws.getD .empty))
  setProjects id h r (targets refs)

def applyReferences (r : Reconciler) (id : Nat) (refs : References) :
    Reconciler × List ProjectRef :=
  let (r, h) := r.ownVariant id refs.framework
  setReferences id h r refs

/-- Stores the options of a variant and sets them if it is registered. -/
def setOptions (id : Nat) (h : Handle) (r : Reconciler) (options : CompilerOptions) : Reconciler :=
  let r := r.modifyVariant h fun v => { v with
    compilation := some options.compilation
    parse := some options.parse }
  match r.store.variant? h with
  | some v => if v.registered then r.sendOptions id v else r
  | none => r

def applyCompilerOptions (r : Reconciler) (id : Nat) (options : CompilerOptions) : Reconciler :=
  let (r, h) := r.ownVariant id options.framework
  setOptions id h r options

/-- Whether a file is a source file. -/
def isSource (r : Reconciler) (file : String) : Bool :=
  r.sourceExtension.toList.isSuffixOf (Text.lower file).toList

/-- Brings the documents of a variant to the source files of a message. -/
def setSources (id : Nat) (h : Handle) (r : Reconciler) (sources : Sources) : Reconciler :=
  let r := setEntries .document id h r (Slot.plain ((sources.files.getD []).filter r.isSource))
  r.modifyVariant h fun v => { v with loaded := true }

def applySources (r : Reconciler) (id : Nat) (sources : Sources) : Reconciler :=
  let (r, h) := r.ownVariant id sources.framework
  setSources id h r sources

/-- A host error as editors are shown it: with its place, or else with the project's path. -/
def hostErrorText (path : String) (e : HostError) : String :=
  let file := if e.path = "" then path else e.path
  if e.line > 0 then
    file ++ "(" ++ toString e.line ++ "," ++ toString e.column ++ "): " ++ e.message
  else file ++ ": " ++ e.message

def hostErrorNotices (path : String) (e : HostError) : List Notice := [
  .log (.error "compilation host reported an error" [
    ("project", .str path), ("message", .str e.message), ("path", .str e.path),
    ("line", .int e.line), ("column", .int e.column)] none),
  .showError (hostErrorText path e)]

/-- The event that a project changed, as it is now. -/
def changedNotice (r : Reconciler) (id : Nat) : List Notice :=
  match r.store.project? id with
  | some p => [.emit (.projectChanged (p.snapshot id))]
  | none => []

/-- The end of every announcement: that all variants of the project have their sources. -/
def loadedNotice (r : Reconciler) (ref : ProjectRef) : List Notice :=
  match r.store.project? ref.contextId with
  | some p => if p.allLoaded then [.loaded ref] else []
  | none => []

/-- Applies the payload of a message for a tracked project. -/
def applyPayload (r : Reconciler) (ref : ProjectRef) (payload : Payload) :
    Reconciler × List Notice :=
  let id := ref.contextId
  match payload with
  | .projectInformation info =>
    let r := r.applyProjectInformation id info
    (r, r.changedNotice id ++ r.loadedNotice ref)
  | .references refs =>
    let (r, added) := r.applyReferences id refs
    (r, added.map .added ++ r.loadedNotice ref)
  | .dependencies deps =>
    let (r, _) := r.ownVariant id deps.framework
    let missing := deps.unresolved
    let notices := if missing.isEmpty then []
      else [.emit (.unresolvedDependencies ref.path missing), .unresolved ref]
    (r, notices ++ r.loadedNotice ref)
  | .compilerOptions options =>
    let r := r.applyCompilerOptions id options
    (r, r.loadedNotice ref)
  | .sources sources =>
    let r := r.applySources id sources
    (r, r.changedNotice id ++ r.loadedNotice ref)
  | .hostError e => (r, hostErrorNotices ref.path e ++ r.loadedNotice ref)
  | .unknown _ _ => (r, [])

def log (r : Reconciler) (record : LogRecord) : Reconciler :=
  { r with logs := r.logs ++ [record] }

/-- Counts a message by its type. -/
def countMessage (r : Reconciler) (type : String) : Reconciler :=
  let seen := (r.tally.messages.get? type).getD 0
  { r with tally := { r.tally with messages := r.tally.messages.put type (seen + 1) } }

/-- Applies one message from the host. A message that cannot be decoded, is of unknown type or names
no tracked project is logged and dropped. -/
def apply (r : Reconciler) (m : Message) : Reconciler × List Notice :=
  let r := r.countMessage m.type
  match m.decode with
  | .error fault =>
    let r := { r with tally := { r.tally with decodeErrors := r.tally.decodeErrors + 1 } }
    (r.log (.warn "dropping host message" [("contextId", .int m.contextId)] (some fault)), [])
  | .ok (.unknown type _) =>
    let r := { r with tally := { r.tally with unknownMessages := r.tally.unknownMessages + 1 } }
    (r.log (.warn "ignoring host message" [("contextId", .int m.contextId)]
      (some (.unknownMessageType type))), [])
  | .ok payload =>
    match r.store.project? m.contextId with
    | none =>
      (r.log (.warn "dropping host message" [("type", .str m.type)]
        (some (.projectNotFound m.contextId ""))), [])
    | some p => r.applyPayload ⟨m.contextId.toNat, p.path⟩ payload

def track (r : Reconciler) (path : String) : Reconciler × ProjectRef × Bool :=
  let (store, ref, isNew) := r.store.track path
  ({ r with store := store }, ref, isNew)

end Reconciler

end CompilationBridge.Graph
