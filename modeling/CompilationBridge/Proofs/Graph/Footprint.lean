import CompilationBridge.Proofs.Graph.Tracking
import CompilationBridge.Proofs.Workspace

/-! The footprint of a message. A message about one project writes into the records of others at three
places: the edge back at a target of its references, the list of variants that wait for such a target,
and the references of the variants that wait for one of its own. Each of these entries is about the
project of the message, so other projects are the same before and after, apart from such entries and from
new projects and variants of which nothing is known yet. -/

namespace CompilationBridge

theorem filter_filter_ne {own : List Handle} {t : Handle} (ht : t ∈ own) (l : List Handle) :
    (l.filter (· ≠ t)).filter (· ∉ own) = l.filter (· ∉ own) := by
  rw [List.filter_filter]
  refine List.filter_congr fun k _ => ?_
  by_cases hk : k ∈ own
  · simp [hk]
  · have hne : k ≠ t := fun h => hk (h ▸ ht)
    simp [hk, hne]

theorem filter_append_member {own : List Handle} {t : Handle} (ht : t ∈ own) (l : List Handle) :
    (l ++ [t]).filter (· ∉ own) = l.filter (· ∉ own) := by
  simp [List.filter_append, ht]

theorem filter_erase_member {own : List Handle} {t : Handle} (ht : t ∈ own) (l : List Handle) :
    (l.erase t).filter (· ∉ own) = l.filter (· ∉ own) := by
  induction l with
  | nil => rfl
  | cons a rest ih =>
      by_cases ha : a = t
      · subst ha
        simp [ht]
      · rw [List.erase_cons_tail (by simpa using ha), List.filter_cons, List.filter_cons, ih]

/-! ### The workspace -/

namespace Workspace

variable {own : List Handle} {w w' w'' : Workspace}

/-- A project of the workspace without its references to some others. -/
def Entry.beyond (own : List Handle) (e : Entry) : Entry :=
  { e with references := e.references.filter (· ∉ own) }

/-- Two workspaces are the same apart from some projects and the references to them. -/
def Spares (own : List Handle) (w w' : Workspace) : Prop :=
  ∀ k, k ∉ own →
    (w'.projects.get? k).map (Entry.beyond own) = (w.projects.get? k).map (Entry.beyond own)

theorem Spares.refl (own : List Handle) (w : Workspace) : w.Spares own w :=
  fun _ _ => rfl

theorem Spares.trans (h : w.Spares own w') (h' : w'.Spares own w'') : w.Spares own w'' :=
  fun k hk => (h' k hk).trans (h k hk)

/-- A call is about one of some projects, or about a reference to one of them. -/
def Call.Concerns (own : List Handle) : Call → Prop
  | .addProjectReference project target => project ∈ own ∨ target ∈ own
  | .removeProjectReference project target => project ∈ own ∨ target ∈ own
  | call => call.project ∈ own

/-- What such a call makes of another project. -/
theorem effect_beyond {call : Call} (hcall : call.Concerns own) {k : Handle} (hk : k ∉ own)
    (old : Option Entry) :
    (call.effect k old).map (Entry.beyond own) = old.map (Entry.beyond own) := by
  have hne : ∀ {h}, h ∈ own → k ≠ h := fun hh heq => hk (heq ▸ hh)
  have hsame : ∀ {f : Entry → Entry}, (∀ e, (f e).beyond own = e.beyond own) →
      (old.map f).map (Entry.beyond own) = old.map (Entry.beyond own) := by
    intro f hf
    rw [Option.map_map]
    exact congrArg (Option.map · old) (funext hf)
  have hreference : ∀ {project target} {f : Entry → Entry}, project ∈ own ∨ target ∈ own →
      (target ∈ own → ∀ e, (f e).beyond own = e.beyond own) →
      (if k = project then old.map f else old).map (Entry.beyond own) = old.map (Entry.beyond own) := by
    intro project target f hor hf
    by_cases hproject : k = project
    · have htarget : target ∈ own := hor.resolve_left fun h => hne h hproject
      rw [if_pos hproject]
      exact hsame (hf htarget)
    · rw [if_neg hproject]
  cases call with
  | addProject info =>
      have hother : k ≠ info.handle := hne hcall
      rw [Call.effect, if_neg hother]
  | removeProject project =>
      have hown : project ∈ own := hcall
      rw [Call.effect, if_neg (hne hown)]
      refine hsame fun e => ?_
      simp only [Entry.beyond, filter_filter_ne hown]
  | addProjectReference project target =>
      refine hreference hcall fun htarget e => ?_
      simp only [Call.edit, Entry.beyond]
      split
      · rfl
      · rw [filter_append_member htarget]
  | removeProjectReference project target =>
      refine hreference hcall fun htarget e => ?_
      simp only [Call.edit, Entry.beyond, filter_filter_ne htarget]
  | _ => exact congrArg (Option.map (Entry.beyond own)) (if_neg (hne hcall))

theorem spares_perform {call : Call} (hcall : call.Concerns own) (hw : w.perform call = .ok w') :
    w.Spares own w' := by
  intro k hk
  rw [get?_perform hw]
  exact effect_beyond hcall hk _

end Workspace

namespace Graph

/-! ### Variants and projects -/

/-- A variant without what it records about a project: the edge back to it and its waiting variants. -/
def Variant.beyond (own : List Handle) (path : String) (v : Variant) : Variant :=
  { v with dependees := v.dependees.erase path, pending := v.pending.filter (· ∉ own) }

section

variable {own : List Handle} {path : String} {h : Handle}

theorem Variant.beyond_removePending (hh : h ∈ own) (v : Variant) :
    (v.removePending h).beyond own path = v.beyond own path := by
  simp only [removePending, beyond, filter_erase_member hh]

theorem Variant.beyond_addPending (hh : h ∈ own) (v : Variant) :
    (v.addPending h).beyond own path = v.beyond own path := by
  unfold addPending
  split
  · rfl
  · simp only [beyond, filter_append_member hh]

theorem Variant.beyond_cut (v : Variant) :
    Variant.beyond own path { v with dependees := v.dependees.erase path } = v.beyond own path := by
  simp only [beyond, Table.erase_erase_self]

theorem Variant.beyond_withBack (id : Nat) (v : Variant) :
    (v.withBack path id).beyond own path = v.beyond own path := by
  simp only [withBack, beyond, Table.erase_put_self]

/-- A variant that nothing is known of. -/
def Variant.Blank (v : Variant) : Prop :=
  v = { framework := v.framework, handle := v.handle }

/-- A project is the same as before, apart from what its variants record about another project and from
new variants that nothing else is known of. -/
structure Project.GrowsTo (own : List Handle) (path : String) (p p' : Project) : Prop where
  heading : p'.heading = p.heading
  variants : ∃ new, p'.variants.map (Variant.beyond own path) =
    p.variants.map (Variant.beyond own path) ++ new ∧ ∀ v ∈ new, v.Blank

theorem Project.GrowsTo.of_variants {p p' : Project} (hheading : p'.heading = p.heading)
    (h : p'.variants.map (Variant.beyond own path) = p.variants.map (Variant.beyond own path)) :
    p.GrowsTo own path p' :=
  ⟨hheading, [], by rw [h, List.append_nil], fun _ hv => nomatch hv⟩

theorem Project.GrowsTo.refl (p : Project) : p.GrowsTo own path p :=
  .of_variants rfl rfl

theorem Project.GrowsTo.trans {p p' p'' : Project} (h : p.GrowsTo own path p')
    (h' : p'.GrowsTo own path p'') : p.GrowsTo own path p'' := by
  obtain ⟨new, heq, hnew⟩ := h.variants
  obtain ⟨new', heq', hnew'⟩ := h'.variants
  refine ⟨h'.heading.trans h.heading, new ++ new', ?_, ?_⟩
  · rw [heq', heq, List.append_assoc]
  · intro v hv
    exact (List.mem_append.1 hv).elim (hnew v) (hnew' v)

end

/-! ### The graph -/

namespace Store

variable {c : Nat} {own : List Handle} {path : String} {s s' s'' : Store} {h : Handle}

/-- Every project but one is the same in two stores, apart from what its variants record about that one;
new projects and variants may have come. -/
structure Spares (c : Nat) (own : List Handle) (path : String) (s s' : Store) : Prop where
  kept : ∀ {j : Nat} {p}, j ≠ c → s.project? j = some p →
    ∃ p', s'.project? j = some p' ∧ p.GrowsTo own path p'
  fresh : ∀ {j : Nat} {p'}, j ≠ c → s.project? j = none → s'.project? j = some p' →
    Project.GrowsTo own path { path := p'.path } p'

theorem Spares.trans (h : Spares c own path s s') (h' : Spares c own path s' s'') :
    Spares c own path s s'' where
  kept hj hp := by
    obtain ⟨p', hp', hgrows⟩ := h.kept hj hp
    obtain ⟨p'', hp'', hgrows'⟩ := h'.kept hj hp'
    exact ⟨p'', hp'', hgrows.trans hgrows'⟩
  fresh {j p''} hj hnone hp'' := by
    cases hmid : s'.project? j with
    | none => exact h'.fresh hj hmid hp''
    | some p' =>
        obtain ⟨q, hq, hgrows⟩ := h'.kept hj hmid
        obtain rfl : q = p'' := Option.some.inj (hq.symm.trans hp'')
        have hpath : q.heading.path = p'.heading.path := congrArg Project.path hgrows.heading
        change Project.GrowsTo own path { path := q.heading.path } q
        rw [hpath]
        exact (h.fresh hj hnone hmid).trans hgrows

theorem Spares.has (h : Spares c own path s s') {j : Nat} {v : Variant} (hj : j ≠ c) (hv : s.Has j v) :
    ∃ v', s'.Has j v' ∧ v'.beyond own path = v.beyond own path := by
  obtain ⟨p, hp, hmem⟩ := hv
  obtain ⟨p', hp', hgrows⟩ := h.kept hj hp
  obtain ⟨new, heq, -⟩ := hgrows.variants
  have hin : v.beyond own path ∈ p'.variants.map (Variant.beyond own path) := by
    rw [heq]
    exact List.mem_append_left new (List.mem_map.2 ⟨v, hmem, rfl⟩)
  obtain ⟨v', hv', hbeyond⟩ := List.mem_map.1 hin
  exact ⟨v', ⟨p', hp', hv'⟩, hbeyond⟩

/-- A change of each project by itself. -/
theorem spares_of_project? (f : Project → Project)
    (hf : ∀ p : Project, p.GrowsTo own path (f p))
    (hs : ∀ j : Nat, j ≠ c → s'.project? j = s.project? j ∨ s'.project? j = (s.project? j).map f) :
    Spares c own path s s' where
  kept {j p} hj hp := by
    rcases hs j hj with h | h
    · exact ⟨p, h.trans hp, .refl p⟩
    · exact ⟨f p, by rw [h, hp, Option.map_some], hf p⟩
  fresh {j p'} hj hnone hp' := by
    rcases hs j hj with h | h
    · rw [h, hnone] at hp'
      cases hp'
    · rw [h, hnone] at hp'
      cases hp'

theorem spares_of_eq (hs : ∀ j : Nat, j ≠ c → s'.project? j = s.project? j) : Spares c own path s s' :=
  spares_of_project? id (fun p => .refl p) fun j hj => Or.inl (hs j hj)

theorem Spares.refl (c : Nat) (own : List Handle) (path : String) (s : Store) : Spares c own path s s :=
  spares_of_eq fun _ _ => rfl

/-- A change of a variant in what it records about the project. -/
theorem spares_modify_beyond (t : Handle) {f : Variant → Variant}
    (hf : ∀ v, (f v).beyond own path = v.beyond own path) :
    Spares c own path s (s.modifyVariant t f) := by
  refine spares_of_project? (fun p => { p with variants := p.variants.map (changed t f) }) (fun p => ?_)
    fun j _ => Or.inr (project?_modifyVariant s t f j)
  refine .of_variants rfl ?_
  rw [List.map_map]
  refine List.map_congr_left fun v _ => ?_
  rw [Function.comp_apply, changed]
  split
  · exact hf v
  · rfl

/-- Only one project has a variant of a handle. -/
def Confines (s : Store) (c : Nat) (h : Handle) : Prop :=
  ∀ j v, s.Has j v → v.handle = h → j = c

theorem Sound.confines {next : Nat} (hs : s.Sound next) (ho : s.Owns c h) : s.Confines c h := by
  obtain ⟨v, hv, hh⟩ := ho
  intro j w hw hwh
  exact (hs.handle_inj hw hv (hwh.trans hh.symm)).1

theorem Confines.modify (hc : s.Confines c h) (t : Handle) {f : Variant → Variant}
    (hf : ∀ v, (f v).handle = v.handle) : (s.modifyVariant t f).Confines c h := by
  intro j w hw hwh
  obtain ⟨v, hv, rfl⟩ := has_modifyVariant.1 hw
  refine hc j v hv ?_
  unfold changed at hwh
  split at hwh
  · rwa [hf] at hwh
  · exact hwh

/-- A change of a variant of the project itself. -/
theorem Confines.spares_modify (hc : s.Confines c h) (f : Variant → Variant) :
    Spares c own path s (s.modifyVariant h f) := by
  refine spares_of_eq fun j hj => ?_
  rw [project?_modifyVariant]
  cases hp : s.project? j with
  | none => rfl
  | some p =>
      have hsame : p.variants.map (changed h f) = p.variants := by
        have hne : ∀ v ∈ p.variants, changed h f v = v := fun v hv =>
          changed_of_ne fun hh => hj (hc j v ⟨p, hp, hv⟩ hh)
        rw [List.map_congr_left hne, List.map_id']
      rw [Option.map_some, hsame]

theorem Confines.spares_remove (hc : s.Confines c h) : Spares c own path s (s.removeVariant h) := by
  refine spares_of_eq fun j hj => ?_
  rw [project?_removeVariant]
  cases hp : s.project? j with
  | none => rfl
  | some p =>
      have hsame : p.variants.filter (·.handle ≠ h) = p.variants := by
        refine List.filter_eq_self.2 fun v hv => ?_
        rw [decide_eq_true_eq]
        exact fun hh => hj (hc j v ⟨p, hp, hv⟩ hh)
      rw [Option.map_some, hsame]

theorem spares_modifyProject (f : Project → Project) (hf : ∀ p, (f p).path = p.path) :
    Spares c own path s (s.modifyProject c f hf) := by
  refine spares_of_eq fun j hj => ?_
  rw [project?_modifyProject, if_neg hj]

theorem spares_addVariant (j : Nat) {v : Variant} (hv : v.Blank) :
    Spares c own path s (s.addVariant j v) := by
  refine spares_of_project? (fun p => { p with variants := p.variants ++ [v] }) (fun p => ?_) fun i _ => ?_
  · refine ⟨rfl, [v], ?_, ?_⟩
    · rw [List.map_append, List.map_singleton, hv]
      rfl
    · intro w hw
      rw [List.mem_singleton.1 hw]
      exact hv
  · rw [addVariant, project?_modifyProject]
    split
    · exact Or.inr rfl
    · exact Or.inl rfl

theorem spares_track (q : String) : Spares c own path s (s.track q).1 := by
  refine ⟨fun {j p} hj hp => ⟨p, ?_, .refl p⟩, fun {j p'} hj hnone hp' => ?_⟩
  · have hlt : j ≠ s.nextId := by
      rintro rfl
      rw [project?_nextId] at hp
      cases hp
    rw [project?_track, if_neg fun h => hlt h.2, hp]
  · rw [project?_track] at hp'
    split at hp'
    · obtain rfl := Option.some.inj hp'
      exact .refl _
    · rw [hnone] at hp'
      cases hp'

end Store

/-! ### Operations on one project -/

namespace Reconciler

open Store

variable {r r' r'' : Reconciler} {c : Nat} {own : List Handle} {path : String} {h : Handle} {v : Variant}

/-- An operation on one project leaves alone what is beyond the project, in the graph and in the
workspace. -/
structure Spares (c : Nat) (own : List Handle) (path : String) (r r' : Reconciler) : Prop where
  store : r.store.Spares c own path r'.store
  workspace : r.workspace.Spares own r'.workspace

theorem Spares.refl (c : Nat) (own : List Handle) (path : String) (r : Reconciler) :
    Spares c own path r r :=
  ⟨Store.Spares.refl c own path r.store, Workspace.Spares.refl own r.workspace⟩

theorem Spares.trans (h : Spares c own path r r') (h' : Spares c own path r' r'') :
    Spares c own path r r'' :=
  ⟨h.store.trans h'.store, h.workspace.trans h'.workspace⟩

theorem Spares.withStore (h : Spares c own path r r') {s : Store} (hs : r'.store.Spares c own path s) :
    Spares c own path r { r' with store := s } :=
  ⟨h.store.trans hs, h.workspace⟩

theorem spares_store {s : Store} (hs : r.store.Spares c own path s) :
    Spares c own path r { r with store := s } :=
  (Spares.refl c own path r).withStore hs

theorem spares_attempt (r : Reconciler) (action : String) (id : Nat) (k : Handle) {call : Workspace.Call}
    (hcall : call.Concerns own) : Spares c own path r (r.attempt action id k call).1 where
  store := by
    rw [(r.attempt_untouched action id k call).store]
    exact Store.Spares.refl c own path r.store
  workspace := by
    rcases r.attempt_workspace action id k call with ⟨-, hw⟩ | ⟨-, hw⟩
    · exact Workspace.spares_perform hcall hw
    · rw [hw]
      exact Workspace.Spares.refl own r.workspace

theorem spares_carryOut (r : Reconciler) (action : String) (id : Nat) (k : Handle) {call : Workspace.Call}
    (hcall : call.Concerns own) : Spares c own path r (r.carryOut action id k call) :=
  spares_attempt r action id k hcall

theorem spares_carryOutAll (r : Reconciler) (action : String) (id : Nat) (k : Handle)
    {calls : List Workspace.Call} (hcalls : ∀ call ∈ calls, call.Concerns own) :
    Spares c own path r (r.carryOutAll action id k calls) := by
  induction calls generalizing r with
  | nil => exact Spares.refl c own path r
  | cons call rest ih =>
      exact (spares_carryOut r action id k (hcalls call List.mem_cons_self)).trans
        (ih _ fun c hc => hcalls c (List.mem_cons_of_mem call hc))

theorem spares_sendOptions (r : Reconciler) (id : Nat) (hown : v.handle ∈ own) :
    Spares c own path r (r.sendOptions id v) := by
  have hcompilation : ∀ o, (Workspace.Call.setCompilationOptions v.handle o).Concerns own := fun _ => hown
  have hparse : ∀ o, (Workspace.Call.setParseOptions v.handle o).Concerns own := fun _ => hown
  unfold sendOptions
  cases v.compilation with
  | none =>
      cases v.parse with
      | none => exact Spares.refl c own path r
      | some o => exact spares_carryOut r _ id v.handle (hparse o)
  | some o =>
      have hsent : Spares c own path r _ :=
        spares_carryOut r "setting compilation options" id v.handle (hcompilation o)
      cases v.parse with
      | none => exact hsent
      | some o' => exact hsent.trans (spares_carryOut _ _ id v.handle (hparse o'))

/-- Registering a variant of the project: those that waited for it get a reference to it. -/
theorem spares_register (hs : r.store.Sound r.nextHandle) (hv : r.store.Has c v) (hown : v.handle ∈ own) :
    Spares c own path r (r.register c v.handle) := by
  cases hreg : v.registered with
  | true =>
      rw [register_of_registered hs hv hreg]
      exact Spares.refl c own path r
  | false =>
      have hc : r.store.Confines c v.handle := hs.confines ⟨v, hv, rfl⟩
      obtain ⟨p, hp, hmem⟩ := hv
      have hcall : (addingCall p v).Concerns own := hown
      have hadd : Spares c own path r _ := spares_attempt r "adding project" c v.handle hcall
      have hsame := (r.attempt_untouched "adding project" c v.handle (addingCall p v)).store
      obtain ⟨⟨r₁, taken⟩, ha⟩ : ∃ result, r.attempt "adding project" c v.handle (addingCall p v) = result :=
        ⟨_, rfl⟩
      rw [ha] at hadd hsame
      cases taken with
      | false =>
          rw [register_of_refused hs hp hmem hreg ha]
          exact hadd
      | true =>
          rw [register_of_taken hs hp hmem hreg ha]
          have hc₁ : r₁.store.Confines c v.handle := by
            rw [hsame]
            exact hc
          have hc₂ := hc₁.modify v.handle (f := fun v => { v with registered := true }) fun _ => rfl
          refine (((hadd.withStore (hc₁.spares_modify _)).trans (spares_sendOptions _ c hown)).trans
            (spares_carryOutAll _ _ c v.handle ?_)).withStore (Confines.spares_modify ?_ _)
          · intro call hcall
            obtain ⟨k, -, rfl⟩ := List.mem_map.1 hcall
            exact Or.inr hown
          · rw [carryOutAll_store, sendOptions_store]
            exact hc₂

theorem confines_foldl_withdrawEdge {s : Store} (hc : s.Confines c h) (q : String) (p : Project) (k : Handle)
    (targets : List Handle) : (targets.foldl (withdrawEdge q p k) s).Confines c h :=
  List.foldlRecOn targets (withdrawEdge q p k) (motive := fun t => t.Confines c h) hc
    fun t ht target _ => ht.modify target fun w => by
      dsimp only
      split <;> rfl

theorem spares_foldl_withdrawEdge (s : Store) (p : Project) (hown : h ∈ own) (targets : List Handle) :
    s.Spares c own p.path (targets.foldl (withdrawEdge p.path p h) s) := by
  refine List.foldlRecOn targets (withdrawEdge p.path p h) (motive := fun t => s.Spares c own p.path t)
    (Store.Spares.refl c own p.path s) fun t ht target _ => ht.trans (spares_modify_beyond target fun w => ?_)
  dsimp only
  split
  · exact Variant.beyond_removePending hown w
  · rw [Variant.beyond_cut]
    exact Variant.beyond_removePending hown w

/-- Tearing a variant of the project down: its edges are withdrawn where they led. -/
theorem spares_teardown (hr : r.WellFormed) (hpath : r.store.path? c = some path) (hv : r.store.Has c v)
    (hreg : v.registered = true) (hown : v.handle ∈ own) :
    Spares c own path r (r.teardown c v.handle) := by
  have hc : r.store.Confines c v.handle := hr.sound.confines ⟨v, hv, rfl⟩
  obtain ⟨p, hp, hmem⟩ := hv
  have hv : r.store.Has c v := ⟨p, hp, hmem⟩
  obtain rfl : p.path = path := by
    rw [path?, hp] at hpath
    exact Option.some.inj hpath
  have hcall : (Workspace.Call.removeProject v.handle).Concerns own := hown
  have hleft := spares_foldl_withdrawEdge (c := c) r.store p hown v.projectRefs.values
  have hc₁ := confines_foldl_withdrawEdge hc p.path p v.handle v.projectRefs.values
  have hc₂ : (emptied r.store p v).Confines c v.handle := hc₁.modify v.handle fun _ => rfl
  have hc₃ : (tornDown r.store p v).Confines c v.handle :=
    hc₂.modify v.handle fun w => Variant.handle_of_content (addPending_foldl _ w).1
  have htorn : r.store.Spares c own p.path (tornDown r.store p v) :=
    (hleft.trans (hc₁.spares_modify _)).trans (hc₂.spares_modify _)
  have hremoved : Spares c own p.path
      { r with store := v.projectRefs.values.foldl (withdrawEdge p.path p v.handle) r.store } _ :=
    spares_carryOut _ "removing project" c v.handle hcall
  have hafter : Spares c own p.path r (r.afterTeardown c p v) := ⟨htorn, hremoved.workspace⟩
  rcases teardown_effect hr.sound hr.linked hp hv hreg with he | ⟨he, -, -⟩ <;> rw [he]
  · exact hafter
  · exact hafter.withStore hc₃.spares_remove

/-- Dropping a reference of a variant of the project. -/
theorem spares_dropProject (hc : r.store.Confines c h) (hown : h ∈ own) (hpath : r.store.path? c = some path)
    (edge : String × Handle) : Spares c own path r (dropProject c h r edge) := by
  have hdropped : Spares c own path r (r.modifyVariant h (Variant.withoutRef edge.1)) :=
    spares_store (hc.spares_modify _)
  have hcall : (Workspace.Call.removeProjectReference h edge.2).Concerns own := Or.inl hown
  have hpath' : ∀ {p}, (r.store.modifyVariant h (Variant.withoutRef edge.1)).project? c = some p →
      p.path = path := by
    intro p hp
    have hsame := path?_modifyVariant r.store h (Variant.withoutRef edge.1) c
    rw [hpath, Store.path?, hp] at hsame
    exact Option.some.inj hsame
  unfold dropProject
  dsimp only
  split
  · rename_i p target hp ht
    obtain rfl := hpath' hp
    have hwithdrawn : Spares c own p.path r (if target.registered then
        (r.modifyVariant h (Variant.withoutRef edge.1)).carryOut "removing project reference" c h
          (.removeProjectReference h edge.2)
      else (r.modifyVariant h (Variant.withoutRef edge.1)).modifyVariant edge.2 (·.removePending h)) := by
      split
      · exact hdropped.trans (spares_carryOut _ _ c h hcall)
      · exact hdropped.withStore (spares_modify_beyond edge.2 (Variant.beyond_removePending hown))
    split
    · exact hwithdrawn
    · exact hwithdrawn.withStore (spares_modify_beyond edge.2 Variant.beyond_cut)
  · exact hdropped

/-- Recording a reference of a variant of the project. -/
theorem spares_link (hc : r.store.Confines c h) (hown : h ∈ own) (p : Project) (q : String) (target : Handle) :
    Spares c own p.path r (link c h r p q target) := by
  have hback : r.store.Spares c own p.path (r.store.modifyVariant target (Variant.withBack p.path c)) :=
    spares_modify_beyond target (Variant.beyond_withBack c)
  have hc₁ : (r.store.modifyVariant target (Variant.withBack p.path c)).Confines c h :=
    hc.modify target fun _ => rfl
  have hlinked : Spares c own p.path r ((r.modifyVariant target (Variant.withBack p.path c)).modifyVariant h
      (Variant.withRef q target)) :=
    (spares_store hback).withStore (hc₁.spares_modify _)
  have hcall : (Workspace.Call.addProjectReference h target).Concerns own := Or.inl hown
  unfold link
  dsimp only
  split
  · exact hlinked.withStore (spares_modify_beyond target (Variant.beyond_addPending hown))
  · exact hlinked.trans (spares_carryOut _ _ c h hcall)

theorem spares_dropEntry (slot : Slot) (hc : r.store.Confines c h) (hown : h ∈ own)
    (entry : String × Handle) : Spares c own path r (dropEntry slot c h r entry) := by
  have hcall : (slot.removeCall h entry.2).Concerns own := by
    cases slot <;> exact hown
  refine (spares_carryOut r slot.removal c h hcall).withStore (Confines.spares_modify ?_ _)
  rw [carryOut_store]
  exact hc

theorem spares_addEntry (slot : Slot) (hr : r.WellFormed) (hv : r.store.Has c v) (hown : v.handle ∈ own)
    (item : Slot.Item) : Spares c own path r (addEntry slot c v.handle r item) := by
  have hc : r.store.Confines c v.handle := hr.sound.confines ⟨v, hv, rfl⟩
  have hcall : (slot.addCall v.handle ⟨r.nextHandle⟩ item).Concerns own := by
    cases slot <;> exact hown
  have hissued : Spares c own path r r.issued :=
    ⟨Store.Spares.refl c own path r.store, Workspace.Spares.refl own r.workspace⟩
  have hoffered : Spares c own path r (offered slot c v.handle r item).1 :=
    hissued.trans (spares_attempt r.issued slot.addition c v.handle hcall)
  rw [addEntry_eq hr.sound hv]
  split
  · exact Spares.refl c own path r
  · split
    · refine hoffered.withStore (Confines.spares_modify ?_ _)
      rw [offered_store]
      exact hc
    · exact hoffered

theorem spares_setOptions (hc : r.store.Confines c h) (hown : h ∈ own) (options : CompilerOptions) :
    Spares c own path r (setOptions c h r options) := by
  have hstored : Spares c own path r (r.modifyVariant h fun v => { v with
      compilation := some options.compilation
      parse := some options.parse }) := spares_store (hc.spares_modify _)
  unfold setOptions
  dsimp only
  split
  · rename_i v hv
    have hh := (has_of_variant? hv).1
    split
    · exact hstored.trans (spares_sendOptions _ c (hh ▸ hown))
    · exact hstored
  · exact hstored

theorem spares_variantFor (r : Reconciler) {j : Nat} {q : String} (hj : r.store.path? j = some q)
    (framework : Framework) : Spares c own path r (r.variantFor j framework).1 := by
  rcases r.variantFor_cases hj framework with ⟨v, -, -, he⟩ | ⟨-, he⟩ <;> rw [he]
  · exact Spares.refl c own path r
  · exact ⟨spares_addVariant j rfl, Workspace.Spares.refl own r.workspace⟩

end Reconciler

end Graph

end CompilationBridge
