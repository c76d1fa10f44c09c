import CompilationBridge.Proofs.Graph.Payloads
import Mathlib.Data.List.DropRight

/-! Incremental reconciliation equals replaying the latest messages. The history of a run lists the
messages that were applied to tracked projects, each with the graph that it met. The epoch of a project
and a framework name begins after the last message that took the framework from the project; what a
variant has recorded is what the latest message of each kind in its epoch says. -/

namespace CompilationBridge.Graph

open Store

namespace Reconciler

variable {r : Reconciler} {id : Nat} {h : Handle} {v : Variant}

/-! ### Histories -/

namespace Delivery

/-- The message takes a framework from a project: it is about the project, leaves the framework out, and
the variant was registered. -/
def closes (d : Delivery) (i : Nat) (f : String) : Bool :=
  match d.payload with
  | .projectInformation info =>
    d.id == i && !(info.frameworks.getD []).any (·.name = f) &&
      ((d.before.project? i).bind (·.variant? f)).any (·.registered)
  | _ => false

/-- The references that the message gives for a variant. -/
def references? (d : Delivery) (i : Nat) (f : String) : Option References :=
  match d.payload with
  | .references refs => if d.id = i ∧ refs.framework.name = f then some refs else none
  | _ => none

/-- The options that the message gives for a variant. -/
def options? (d : Delivery) (i : Nat) (f : String) : Option CompilerOptions :=
  match d.payload with
  | .compilerOptions options => if d.id = i ∧ options.framework.name = f then some options else none
  | _ => none

/-- The source files that the message gives for a variant. -/
def sources? (d : Delivery) (i : Nat) (f : String) : Option Sources :=
  match d.payload with
  | .sources sources => if d.id = i ∧ sources.framework.name = f then some sources else none
  | _ => none

end Delivery

/-- What a step brings to a tracked project. -/
def Step.delivery? (r : Reconciler) : Step → Option Delivery
  | .track _ => none
  | .visit _ => none
  | .apply m => r.delivery? m

/-- The messages that a run applies, in order. -/
def history (r : Reconciler) : List Step → List Delivery
  | [] => []
  | s :: rest => (s.delivery? r).toList ++ (r.step s).history rest

theorem history_append (r : Reconciler) (steps : List Step) (s : Step) :
    r.history (steps ++ [s]) = r.history steps ++ (s.delivery? (r.run steps)).toList := by
  induction steps generalizing r with
  | nil =>
      rw [List.nil_append, history, history]
      exact List.append_nil _
  | cons first rest ih =>
      rw [List.cons_append, history, ih, history, List.append_assoc]
      rfl

/-- The messages since the last one that took a framework from a project. -/
def epoch (past : List Delivery) (i : Nat) (f : String) : List Delivery :=
  past.rtakeWhile fun d => !d.closes i f

/-- The latest messages about a variant in its epoch. -/
def latestOf (past : List Delivery) (i : Nat) (f : String) : Latest where
  references := ((epoch past i f).filterMap (·.references? i f)).getLast?
  options := ((epoch past i f).filterMap (·.options? i f)).getLast?
  sources := ((epoch past i f).filterMap (·.sources? i f)).getLast?

theorem getLast?_filterMap_append {α β : Type} (l : List α) (a : α) (f : α → Option β) :
    ((l ++ [a]).filterMap f).getLast? = (f a).or (l.filterMap f).getLast? := by
  rw [List.filterMap_append, List.getLast?_append]
  cases hf : f a with
  | none => simp [hf]
  | some b => simp [hf]

/-- The latest messages after one more. -/
theorem latestOf_append (past : List Delivery) (d : Delivery) (i : Nat) (f : String) :
    latestOf (past ++ [d]) i f =
      if d.closes i f then {}
      else {
        references := (d.references? i f).or (latestOf past i f).references
        options := (d.options? i f).or (latestOf past i f).options
        sources := (d.sources? i f).or (latestOf past i f).sources } := by
  cases hc : d.closes i f with
  | true =>
      have hepoch : epoch (past ++ [d]) i f = [] := List.rtakeWhile_concat_neg _ _ _ (by simp [hc])
      simp only [latestOf, hepoch]
      rfl
  | false =>
      have hepoch : epoch (past ++ [d]) i f = epoch past i f ++ [d] :=
        List.rtakeWhile_concat_pos _ _ _ (by simp [hc])
      simp only [latestOf, hepoch, getLast?_filterMap_append]
      rfl

section

variable {past : List Delivery} {d : Delivery}

/-- A message that says nothing about any variant. -/
theorem latestOf_other (hc : ∀ i f, d.closes i f = false) (hr : ∀ i f, d.references? i f = none)
    (ho : ∀ i f, d.options? i f = none) (hs : ∀ i f, d.sources? i f = none) :
    latestOf (past ++ [d]) = latestOf past := by
  funext i f
  rw [latestOf_append, hc, hr, ho, hs]
  rfl

/-- A message about one variant alone. -/
theorem latestOf_about (name : String) (hc : ∀ i f, d.closes i f = false)
    (hother : ∀ i f, ¬(d.id = i ∧ name = f) →
      d.references? i f = none ∧ d.options? i f = none ∧ d.sources? i f = none) :
    latestOf (past ++ [d]) = revise (latestOf past) d.id name {
      references := (d.references? d.id name).or (latestOf past d.id name).references
      options := (d.options? d.id name).or (latestOf past d.id name).options
      sources := (d.sources? d.id name).or (latestOf past d.id name).sources } := by
  funext i f
  rw [latestOf_append, hc, if_neg Bool.false_ne_true, revise]
  by_cases hself : i = d.id ∧ f = name
  · rw [if_pos hself, hself.1, hself.2]
  · obtain ⟨hr, ho, hs⟩ := hother i f fun h => hself ⟨h.1.symm, h.2.symm⟩
    rw [if_neg hself, hr, ho, hs]
    rfl

theorem latestOf_references {refs : References} (hd : d.payload = .references refs) :
    latestOf (past ++ [d]) = revise (latestOf past) d.id refs.framework.name
      { latestOf past d.id refs.framework.name with references := some refs } := by
  rw [latestOf_about refs.framework.name]
  · simp [Delivery.references?, Delivery.options?, Delivery.sources?, hd]
  · simp [Delivery.closes, hd]
  · intro i f hother
    simp [Delivery.references?, Delivery.options?, Delivery.sources?, hd, hother]

theorem latestOf_options {options : CompilerOptions} (hd : d.payload = .compilerOptions options) :
    latestOf (past ++ [d]) = revise (latestOf past) d.id options.framework.name
      { latestOf past d.id options.framework.name with options := some options } := by
  rw [latestOf_about options.framework.name]
  · simp [Delivery.references?, Delivery.options?, Delivery.sources?, hd]
  · simp [Delivery.closes, hd]
  · intro i f hother
    simp [Delivery.references?, Delivery.options?, Delivery.sources?, hd, hother]

theorem latestOf_sources {sources : Sources} (hd : d.payload = .sources sources) :
    latestOf (past ++ [d]) = revise (latestOf past) d.id sources.framework.name
      { latestOf past d.id sources.framework.name with sources := some sources } := by
  rw [latestOf_about sources.framework.name]
  · simp [Delivery.references?, Delivery.options?, Delivery.sources?, hd]
  · simp [Delivery.closes, hd]
  · intro i f hother
    simp [Delivery.references?, Delivery.options?, Delivery.sources?, hd, hother]

/-- The names of the variants that a message takes from its project. -/
theorem closes_iff {next : Nat} (hs : d.before.Sound next) {p : Project}
    (hp : d.before.project? d.id = some p) {info : ProjectInformation}
    (hd : d.payload = .projectInformation info) (f : String) :
    d.closes d.id f = true ↔
      f ∈ (omitted (describe info p) (info.frameworks.getD [])).map (nameOf d.before) := by
  have hcloses : d.closes d.id f = true ↔
      (¬∃ g ∈ info.frameworks.getD [], g.name = f) ∧ ∃ v, p.variant? f = some v ∧ v.registered = true := by
    simp only [Delivery.closes, hd, hp, Option.bind_some, beq_self_eq_true, Bool.true_and, Bool.and_eq_true,
      Bool.not_eq_true']
    refine and_congr ?_ ?_
    · rw [← Bool.not_eq_true, List.any_eq_true]
      simp only [decide_eq_true_eq]
    · cases p.variant? f <;> simp
  rw [hcloses, List.mem_map]
  constructor
  · rintro ⟨hnot, v, hfind, hreg⟩
    have hv : v ∈ p.variants := List.mem_of_find?_eq_some hfind
    have hname : v.framework.name = f := by simpa using List.find?_some hfind
    refine ⟨v.handle, mem_omitted.2 ⟨v, hv, hreg, hname ▸ hnot, rfl⟩, ?_⟩
    rw [nameOf_eq hs ⟨p, hp, hv⟩, hname]
  · rintro ⟨h, hmem, rfl⟩
    obtain ⟨v, hv, hreg, hnot, rfl⟩ := mem_omitted.1 hmem
    have hv : v ∈ p.variants := hv
    rw [nameOf_eq hs ⟨p, hp, hv⟩]
    exact ⟨hnot, v, variant?_of_mem hs hp hv, hreg⟩

theorem latestOf_projectInformation {next : Nat} (hs : d.before.Sound next) {p : Project}
    (hp : d.before.project? d.id = some p) {info : ProjectInformation}
    (hd : d.payload = .projectInformation info) :
    latestOf (past ++ [d]) = forget (latestOf past) d.id
      ((omitted (describe info p) (info.frameworks.getD [])).map (nameOf d.before)) := by
  funext i f
  rw [latestOf_append, forget]
  by_cases hi : i = d.id
  · subst hi
    rw [if_congr (closes_iff hs hp hd f) rfl rfl, if_congr (and_iff_right rfl) rfl rfl]
    simp only [Delivery.references?, Delivery.options?, Delivery.sources?, hd]
    rfl
  · have hother : d.closes i f = false := by
      simp [Delivery.closes, hd, Ne.symm hi]
    rw [hother, if_neg Bool.false_ne_true, if_neg fun h => hi h.1]
    simp only [Delivery.references?, Delivery.options?, Delivery.sources?, hd]
    rfl

end

/-! ### Every run -/

section

variable {ending : String} {past : List Delivery} {known : Latest → Part → Prop}

theorem records_payload (hknown : Informative known) (hm : r.Mirrored) (hext : r.sourceExtension = ending)
    (hr : Records (expected known ending (latestOf past)) (unmentioned (latestOf past)) r.store) {p : Project}
    (hp : r.store.project? id = some p) {path : String} (payload : Payload) :
    let past' := past ++ [⟨r.store, id, payload⟩]
    Records (expected known ending (latestOf past')) (unmentioned (latestOf past'))
      (r.applyPayload ⟨id, path⟩ payload).1.store := by
  intro past'
  have hid : r.store.path? id = some p.path := by rw [path?, hp, Option.map_some]
  cases payload with
  | projectInformation info =>
      rw [show latestOf past' = _ from latestOf_projectInformation hm.sound hp rfl]
      exact records_projectInformation (expectations known ending) hm hr hp info
  | references refs =>
      rw [show latestOf past' = _ from latestOf_references rfl]
      exact records_references hknown hm hr hid refs
  | dependencies deps =>
      rw [show latestOf past' = latestOf past from
        latestOf_other (fun _ _ => rfl) (fun _ _ => rfl) (fun _ _ => rfl) fun _ _ => rfl]
      exact records_dependencies (expectations known ending) hm hr hid deps.framework
  | compilerOptions options =>
      rw [show latestOf past' = _ from latestOf_options rfl]
      exact records_compilerOptions hknown hm hr hid options
  | sources sources =>
      rw [show latestOf past' = _ from latestOf_sources rfl]
      exact records_sources hknown hm hext hr hid sources
  | hostError e =>
      rw [show latestOf past' = latestOf past from
        latestOf_other (fun _ _ => rfl) (fun _ _ => rfl) (fun _ _ => rfl) fun _ _ => rfl]
      exact hr
  | unknown type raw =>
      rw [show latestOf past' = latestOf past from
        latestOf_other (fun _ _ => rfl) (fun _ _ => rfl) (fun _ _ => rfl) fun _ _ => rfl]
      exact hr

theorem records_step (hknown : Informative known) (hm : r.Mirrored) (hext : r.sourceExtension = ending)
    (hr : Records (expected known ending (latestOf past)) (unmentioned (latestOf past)) r.store) (s : Step) :
    let past' := past ++ (s.delivery? r).toList
    Records (expected known ending (latestOf past')) (unmentioned (latestOf past')) (r.step s).store := by
  cases s with
  | track path =>
      rw [Step.delivery?, Option.toList_none, List.append_nil]
      exact hr.of_has has_track
  | visit order =>
      rw [Step.delivery?, Option.toList_none, List.append_nil]
      exact hr
  | apply m =>
      cases hd : r.delivery? m with
      | none =>
          obtain ⟨tally, logs, heq⟩ := apply_of_dropped hd
          rw [Step.delivery?, hd, Option.toList_none, List.append_nil, step, heq]
          exact hr
      | some d =>
          obtain ⟨hbefore, p, hp, heq⟩ := apply_of_delivered hd
          rw [Step.delivery?, hd, Option.toList_some, step, heq]
          obtain ⟨before, id, payload⟩ := d
          obtain rfl : before = r.store := hbefore
          have hm₁ : (r.countMessage m.type).Mirrored := mirrored_maintained.quiet _ r.logs hm
          exact records_payload hknown hm₁ hext hr hp payload

theorem records_steps (hknown : Informative known) (hm : r.Mirrored) (hext : r.sourceExtension = ending)
    (hr : Records (expected known ending (latestOf past)) (unmentioned (latestOf past)) r.store)
    (steps : List Step) :
    let past' := past ++ r.history steps
    Records (expected known ending (latestOf past')) (unmentioned (latestOf past')) (r.run steps).store := by
  induction steps using List.reverseRecOn with
  | nil =>
      rw [history, List.append_nil]
      exact hr
  | append_singleton steps s ih =>
      have hend := ((extension_maintained ending).run ⟨hm.toWellFormed, hext⟩ steps).2
      simp only [history_append, run_append, ← List.append_assoc]
      exact records_step hknown (mirrored_maintained.run hm steps) hend ih s

theorem records_run (extension : String) (steps : List Step) :
    let r := (new extension).run steps
    let latest := latestOf ((new extension).history steps)
    Records (expected (fun _ _ => True) (Text.lower extension) latest) (unmentioned latest) r.store := by
  have hknown : Informative fun _ _ => True :=
    ⟨fun _ _ => trivial, fun _ _ => trivial, fun _ _ => trivial⟩
  have hnone : ∀ {i v}, ¬(new extension).store.Has i v := not_has_empty
  have hstart : Records (expected (fun _ _ => True) (Text.lower extension) (latestOf []))
      (unmentioned (latestOf [])) (new extension).store :=
    ⟨fun hv => absurd hv hnone, fun _ _ _ => rfl⟩
  exact records_steps hknown (mirrored_new extension) rfl hstart steps

end

/-- **A variant is what its latest messages say.** After every run, the tables, options and load state of
a variant are those of the latest messages for its project and framework name, counted from the last
message that took the framework from the project. Earlier messages, and messages for other projects or
frameworks, leave no trace; and where there are such messages, the variant is there and registered. -/
theorem variant_replays_latest (extension : String) (steps : List Step) (id : Nat) (f : String) :
    let r := (new extension).run steps
    let messages := epoch ((new extension).history steps) id f
    let references := (messages.filterMap (·.references? id f)).getLast?
    let options := (messages.filterMap (·.options? id f)).getLast?
    let sources := (messages.filterMap (·.sources? id f)).getLast?
    (∀ v, r.store.Has id v → v.framework.name = f →
      (∀ path, v.fileRefs.contains path = true ↔ ∃ m ∈ references, path ∈ m.files.getD []) ∧
      (∀ name, v.rawRefs.contains name = true ↔ ∃ m ∈ references, name ∈ (m.raws.getD .empty).keys) ∧
      (∀ path, v.projectRefs.contains path = true ↔
        ∃ m ∈ references, ∃ p ∈ m.projects.getD [], Path.clean p.path = path) ∧
      (∀ path, v.documents.contains path = true ↔
        ∃ m ∈ sources, path ∈ m.files.getD [] ∧
          (Text.lower extension).toList <:+ (Text.lower path).toList) ∧
      v.compilation = options.map (·.compilation) ∧ v.parse = options.map (·.parse) ∧
      (v.loaded = true ↔ ∃ d ∈ messages, (d.sources? id f).isSome = true)) ∧
    (references ≠ none ∨ options ≠ none ∨ sources ≠ none →
      ∃ v, r.store.Has id v ∧ v.framework.name = f ∧ v.registered = true) := by
  intro r messages references options sources
  have hl : latestOf ((new extension).history steps) id f = ⟨references, options, sources⟩ := rfl
  refine ⟨fun v hv hn => ?_, fun hsome => ?_⟩
  · have hshown := (records_run extension steps).variant hv
    rw [expected, hn, hl] at hshown
    have hloaded : v.loaded = sources.isSome := hshown .loaded trivial
    refine ⟨fun path => (hshown (.entries .file) trivial path).trans (Latest.listed_file _ _ path),
      fun name => (hshown (.entries .raw) trivial name).trans (Latest.listed_raw _ _ name), fun path => ?_,
      fun path => (hshown (.entries .document) trivial path).trans (Latest.listed_document _ _ path),
      (hshown .options trivial).1, (hshown .options trivial).2, ?_⟩
    · rw [hshown .projects trivial path]
      exact Latest.contains_wanted _ path
    · rw [hloaded, List.getLast?_isSome, ← List.length_pos_iff, List.length_pos_iff_exists_mem]
      simp only [List.mem_filterMap, Option.isSome_iff_exists]
      constructor
      · rintro ⟨m, d, hd, hm⟩
        exact ⟨d, hd, m, hm⟩
      · rintro ⟨d, hd, m, hm⟩
        exact ⟨m, d, hd, hm⟩
  · by_contra hno
    have hnone : latestOf ((new extension).history steps) id f = {} := by
      refine (records_run extension steps).quiet id f fun {v} hv hn => ?_
      rw [← Bool.not_eq_true]
      exact fun hreg => hno ⟨v, hv, hn, hreg⟩
    rw [hl, Latest.mk.injEq] at hnone
    obtain ⟨hreferences, hoptions, hsources⟩ := hnone
    exact hsome.elim (· hreferences) (·.elim (· hoptions) (· hsources))

/-- Steps after which a framework has come back: its source files are listed, the project leaves it out,
and its source files are listed anew. -/
def comeback : List Step := [
  .track "/app/project.json",
  .apply {
    type := "Sources"
    contextId := 1
    payload := some "\x7b\"Framework\":\x7b\"FrameworkName\":\"net\"\x7d,\"Files\":[\"old.cs\"]\x7d" },
  .apply { type := "ProjectInformation", contextId := 1, payload := some "\x7b\x7d" },
  .apply {
    type := "Sources"
    contextId := 1
    payload := some
      "\x7b\"Framework\":\x7b\"FrameworkName\":\"net\"\x7d,\"Files\":[\"new.CS\",\"new.txt\"]\x7d" }]

theorem comeback_replays_latest :
    ∃ v, ((new ".cs").run comeback).store.Has 1 v ∧ v.framework.name = "net" ∧ v.loaded = true ∧
      ∀ path, v.documents.contains path = true ↔
        path ∈ ["new.CS", "new.txt"] ∧ (Text.lower ".cs").toList <:+ (Text.lower path).toList := by
  let v : Variant := {
    framework := { name := "net" }
    handle := ⟨3⟩
    registered := true
    loaded := true
    documents := ⟨[("new.CS", ⟨4⟩)]⟩ }
  have hvariants : (((new ".cs").run comeback).store.project? 1).map (·.variants) = some [v] := by
    decide +kernel
  obtain ⟨p, hp, hpv⟩ := Option.map_eq_some_iff.1 hvariants
  have hv : ((new ".cs").run comeback).store.Has 1 v := ⟨p, hp, hpv ▸ List.mem_singleton_self v⟩
  have hlatest : ((epoch ((new ".cs").history comeback) 1 "net").filterMap (·.sources? 1 "net")).getLast? =
      some { framework := { name := "net" }, files := some ["new.CS", "new.txt"] } := by
    decide +kernel
  obtain ⟨-, -, -, hdocuments, -⟩ := (variant_replays_latest ".cs" comeback 1 "net").1 v hv rfl
  refine ⟨v, hv, rfl, rfl, fun path => (hdocuments path).trans ?_⟩
  rw [hlatest]
  simp

end Reconciler

end CompilationBridge.Graph
