import CompilationBridge.Proofs.Graph.Frame
import CompilationBridge.Proofs.Graph.Relisting
import CompilationBridge.Proofs.Graph.Revisions

/-! Messages that bring a difference, and messages that bring none. In any state that can be reached, a message
about references or sources of which no call fails makes the calls for its difference to what is there, and no
others. When it comes again at once, or a message about a project does, there is no difference: it makes no
call, changes nothing of the graph and announces no project. -/

namespace CompilationBridge.Graph.Reconciler

open Store

variable {r r' : Reconciler} {id : Nat} {m : Message}

/-- A message makes no call, leaves the graph as it is and announces no new project. -/
structure Silent (r : Reconciler) (m : Message) : Prop where
  calls : (r.apply m).1.calls = r.calls
  store : (r.apply m).1.store = r.store
  announced : addedRefs (r.apply m).2 = []

/-- A message that was delivered to a project is delivered to it again. -/
theorem delivery?_again {d : Delivery} (hm : r.delivery? m = some d) :
    (r.apply m).1.delivery? m = some { d with before := (r.apply m).1.store } := by
  unfold delivery? at hm ⊢
  split at hm
  · cases hm
  · cases hm
  · rename_i payload hunknown hdecode
    obtain ⟨p, hp, rfl⟩ := Option.map_eq_some_iff.1 hm
    have hpos := ((project?_isSome_iff r.store m.contextId).1 (by rw [hp]; rfl)).1
    have hnat : ((m.contextId.toNat : Nat) : Int) = m.contextId := Int.toNat_of_nonneg (by omega)
    have hid : r.store.path? m.contextId.toNat = some p.path := by rw [path?, hnat, hp, Option.map_some]
    obtain ⟨p', hp', -⟩ := Option.map_eq_some_iff.1 ((gains_apply r m).path hid)
    rw [hnat] at hp'
    rw [hp']
    rfl

/-- A message is silent if applying its payload neither makes calls nor changes the graph. -/
theorem silent_of_payload {d : Delivery} (hm : r.delivery? m = some d)
    (hquiet : ∀ ref : ProjectRef, ref.contextId = d.id →
      ((r.countMessage m.type).applyPayload ref d.payload).1.calls = r.calls ∧
        ((r.countMessage m.type).applyPayload ref d.payload).1.store = r.store) : Silent r m := by
  obtain ⟨-, p, -, heq⟩ := apply_of_delivered hm
  obtain ⟨hcalls, hstore⟩ := hquiet ⟨d.id, p.path⟩ rfl
  rw [← heq] at hcalls hstore
  refine ⟨hcalls, hstore, ?_⟩
  -- a message announces the projects that it tracks, and none is new
  have hrefs := (gains_apply r m).refs
  rw [hstore] at hrefs
  exact List.self_eq_append_right.1 hrefs

/-! ### References -/

theorem Referenced.registered {p : Project} {refs : References} {u w : Variant}
    (h : Referenced id p refs u w r r') : w.registered = true ∧ w.framework = u.framework := by
  rw [Variant.eq_of_content h.content]
  exact ⟨rfl, rfl⟩

theorem silent_of_referenced {p : Project} {refs : References} {before : Store} {u w : Variant}
    (hm : r'.delivery? m = some ⟨before, id, .references refs⟩) (h : Referenced id p refs u w r r')
    (hn : u.framework.name = refs.framework.name) : Silent r' m := by
  obtain ⟨hreg, hframework⟩ := h.registered
  refine silent_of_payload hm fun ref href => ?_
  have hcount : (r'.countMessage m.type).WellFormed := h.wellFormed.of_eq rfl rfl
  have hagain : (r'.countMessage m.type).applyReferences id refs = (r'.countMessage m.type, []) :=
    applyReferences_again hcount h.has hreg (hframework ▸ hn) h.files.keys h.raws.keys h.projects.keys
  obtain rfl : ref.contextId = id := href
  simp only [applyPayload, hagain]
  exact ⟨rfl, rfl⟩

/-- What a message about references does, and that it does nothing the second time. -/
theorem referenced_of_smooth (hr : r.WellFormed) {refs : References}
    (hm : r.delivery? m = some ⟨r.store, id, .references refs⟩) (hsmooth : Smooth r (r.apply m).1) :
    (∃ p w, r.store.project? id = some p ∧
      Referenced id p refs (r.ownOf p refs.framework) w r (r.apply m).1) ∧ Silent (r.apply m).1 m := by
  obtain ⟨-, p, hp, heq⟩ := apply_of_delivered hm
  have hcount : (r.countMessage m.type).WellFormed := hr.of_eq rfl rfl
  have hafter : (r.apply m).1 = ((r.countMessage m.type).applyReferences id refs).1 := heq
  have hagain := delivery?_again hm
  rw [hafter] at hsmooth hagain ⊢
  obtain ⟨w, h⟩ := applyReferences_of_smooth hcount (p := p) hp hsmooth
  have h : Referenced id p refs (r.ownOf p refs.framework) w r _ :=
    ⟨h.wellFormed, h.has, h.content, h.files, h.raws, h.projects, h.calls, h.waits⟩
  exact ⟨⟨p, w, hp, h⟩, silent_of_referenced hagain h (variantFor_eq hr hp refs.framework).2.1⟩

/-! ### Sources -/

theorem Resourced.registered {p : Project} {files : List String} {u w : Variant}
    (h : Resourced id p files u w r r') :
    w.registered = true ∧ w.loaded = true ∧ w.framework = u.framework := by
  rw [h.content]
  exact ⟨rfl, rfl, rfl⟩

theorem silent_of_resourced {p : Project} {sources : Sources} {before : Store} {u w : Variant}
    (hm : r'.delivery? m = some ⟨before, id, .sources sources⟩)
    (h : Resourced id p ((sources.files.getD []).filter r'.isSource) u w r r')
    (hn : u.framework.name = sources.framework.name) : Silent r' m := by
  obtain ⟨hreg, hloaded, hframework⟩ := h.registered
  refine silent_of_payload hm fun ref href => ?_
  have hcount : (r'.countMessage m.type).WellFormed := h.wellFormed.of_eq rfl rfl
  obtain rfl : ref.contextId = id := href
  exact (applySources_again hcount h.has hreg (hframework ▸ hn) hloaded h.documents.keys).symm

theorem isSource_apply (hr : r.WellFormed) (m : Message) : (r.apply m).1.isSource = r.isSource := by
  have hending := ((extension_maintained r.sourceExtension).apply ⟨hr, rfl⟩ m).2
  funext file
  rw [isSource, isSource, hending]

/-- What a message about sources does, and that it does nothing the second time. -/
theorem resourced_of_smooth (hr : r.WellFormed) {sources : Sources}
    (hm : r.delivery? m = some ⟨r.store, id, .sources sources⟩) (hsmooth : Smooth r (r.apply m).1) :
    (∃ p w, r.store.project? id = some p ∧ Resourced id p ((sources.files.getD []).filter r.isSource)
      (r.ownOf p sources.framework) w r (r.apply m).1) ∧ Silent (r.apply m).1 m := by
  obtain ⟨-, p, hp, heq⟩ := apply_of_delivered hm
  have hcount : (r.countMessage m.type).WellFormed := hr.of_eq rfl rfl
  have hafter : (r.apply m).1 = (r.countMessage m.type).applySources id sources := heq
  have hagain := delivery?_again hm
  have hending := isSource_apply hr m
  rw [hafter] at hsmooth hagain hending ⊢
  obtain ⟨w, h⟩ := applySources_of_smooth hcount (p := p) hp hsmooth
  have h : Resourced id p ((sources.files.getD []).filter r.isSource) (r.ownOf p sources.framework) w r _ :=
    ⟨h.wellFormed, h.has, h.content, h.documents, h.calls⟩
  exact ⟨⟨p, w, hp, h⟩, silent_of_resourced hagain (hending ▸ h) (variantFor_eq hr hp sources.framework).2.1⟩

/-! ### Messages about a project -/

theorem silent_of_described (hr : r.WellFormed) {info : ProjectInformation}
    (hm : r.delivery? m = some ⟨r.store, id, .projectInformation info⟩) (hsmooth : Smooth r (r.apply m).1) :
    Silent (r.apply m).1 m := by
  obtain ⟨-, p, hp, heq⟩ := apply_of_delivered hm
  have hid : r.store.path? id = some p.path := by rw [path?, hp, Option.map_some]
  have hcount : (r.countMessage m.type).WellFormed := hr.of_eq rfl rfl
  have hafter : (r.apply m).1 = (r.countMessage m.type).applyProjectInformation id info := heq
  have hagain := delivery?_again hm
  have hid' := (gains_apply r m).path hid
  rw [hafter] at hsmooth hagain hid' ⊢
  have h := described_of_smooth hcount hid hsmooth
  refine silent_of_payload hagain fun ref href => ?_
  obtain rfl : ref.contextId = id := href
  refine Described.again (q := p.path) ⟨⟨?_, h.listed.there, h.listed.registered, h.listed.current⟩,
    h.exclusive, h.described⟩ hid'
  exact h.listed.wellFormed.of_eq rfl rfl

/-! ### Reachable states -/

/-- **Updates are exact, and their repetition is silent.** In every state that a run can reach, whichever
workspace calls failed on the way, let a message come of which no call fails.

If it is about the references of a variant, its calls are those that register the variant, if it was not
registered, and then for its files, its raw references and its references to other projects one removal for
each key that is no longer listed and one addition for each listed key that was not there. The tables have
exactly the listed keys in the end, each once, the paths of other projects cleaned; a key that was there and
is listed has the handle that it had. A reference whose target is not registered takes no call: the variant
waits for its target, exactly as long as the reference is there. If the message is about sources, the same
holds of the documents and the listed source files.

If the same message comes again at once, or a message about a project does, it makes no call, leaves the graph
as it is and announces no project. -/
theorem updates_exact (extension : String) (outages : Outages Workspace.Method) (ops : List Operation)
    (m : Message)
    (hsmooth : Smooth ((facing extension outages).operateAll ops)
      (((facing extension outages).operateAll ops).apply m).1) :
    let r := (facing extension outages).operateAll ops
    let r' := (r.apply m).1
    (∀ id refs, r.delivery? m = some ⟨r.store, id, .references refs⟩ →
      (∃ p w, r.store.project? id = some p ∧ Referenced id p refs (r.ownOf p refs.framework) w r r') ∧
        Silent r' m) ∧
    (∀ id sources, r.delivery? m = some ⟨r.store, id, .sources sources⟩ →
      (∃ p w, r.store.project? id = some p ∧ Resourced id p ((sources.files.getD []).filter r.isSource)
        (r.ownOf p sources.framework) w r r') ∧ Silent r' m) ∧
    ∀ id info, r.delivery? m = some ⟨r.store, id, .projectInformation info⟩ → Silent r' m := by
  intro r r'
  have hr : r.WellFormed := wellFormed_operateAll extension outages ops
  exact ⟨fun _ _ hm => referenced_of_smooth hr hm hsmooth, fun _ _ hm => resourced_of_smooth hr hm hsmooth,
    fun _ _ hm => silent_of_described hr hm hsmooth⟩

/-- A message about the files and the other projects that the first project references. -/
def referencesMessage (files projects : String) : Message where
  type := "References"
  contextId := 1
  payload := some ("\x7b\"FileReferences\":[" ++ files ++ "],\"ProjectReferences\":[" ++ projects ++ "]\x7d")

/-- One file goes, one comes, one stays although it is listed twice, and another project comes under an
unclean path: its variant is not registered, so there is no call for it, neither now nor the second time. -/
theorem updates_exact_swap :
    let r := (facing ".cs" {}).operateAll [.track "/app", .apply (referencesMessage "\"a\",\"b\"" "")]
    let m := referencesMessage "\"b\",\"c\",\"b\"" "\x7b\"Path\":\"/lib/.\"\x7d"
    Asks r (r.apply m).1
        [.removeMetadataReference ⟨1⟩ ⟨2⟩, .addMetadataReference ⟨1⟩ { handle := ⟨4⟩, path := "c" }] ∧
      (∃ w, (r.apply m).1.store.Has 1 w ∧ w.fileRefs.get? "b" = some ⟨3⟩) ∧ Silent (r.apply m).1 m := by
  intro r m
  have hasks : Asks r (r.apply m).1
      [.removeMetadataReference ⟨1⟩ ⟨2⟩, .addMetadataReference ⟨1⟩ { handle := ⟨4⟩, path := "c" }] := by
    apply asks_of_clean <;> decide +kernel
  have hm : r.delivery? m = some ⟨r.store, 1, .references
      { files := some ["b", "c", "b"], projects := some [{ path := "/lib/." }] }⟩ := by
    decide +kernel
  have hold : (r.store.project? (1 : Nat)).map (fun p => (r.ownOf p {}).fileRefs.get? "b") = some (some ⟨3⟩) := by
    decide +kernel
  obtain ⟨hreferences, -⟩ := updates_exact ".cs" {} _ m ⟨_, hasks⟩
  obtain ⟨⟨p, w, hp, h⟩, hsilent⟩ := hreferences 1 _ hm
  have hp : r.store.project? (1 : Nat) = some p := hp
  rw [hp, Option.map_some, Option.some.injEq] at hold
  refine ⟨hasks, ⟨w, h.has, ?_⟩, hsilent⟩
  exact (h.files.kept "b" (by decide) ((Table.contains_iff _ _).2 ⟨_, hold⟩)).trans hold

end CompilationBridge.Graph.Reconciler
