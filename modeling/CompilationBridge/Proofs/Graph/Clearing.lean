import CompilationBridge.Proofs.Graph.MirrorRuns

/-! Several variants of a project torn down one after the other. What is left of a variant when some are
down does not depend on the order in which they went. The order decides one thing only: a variant that
is down is forgotten at its turn, and only if all that refer to it are down by then. -/

namespace CompilationBridge

/-- Nothing goes with a key that is not there. -/
theorem Table.erase_of_get?_none {κ α : Type} [DecidableEq κ] {t : Table κ α} {k : κ}
    (h : t.get? k = none) : t.erase k = t := by
  obtain ⟨entries⟩ := t
  have hnone : ∀ e ∈ entries, e.1 ≠ k := by
    intro e he hk
    have hmem : k ∈ (Table.mk entries).keys := List.mem_map.2 ⟨e, he, hk⟩
    obtain ⟨x, hx⟩ := (mem_keys _ _).1 hmem
    rw [h] at hx
    cases hx
  rw [erase, List.filter_eq_self.2 fun e he => by simpa using hnone e he]

namespace Graph

namespace Store

/-! ### All variants at once -/

/-- The store with every variant changed by a function. -/
def mapVariants (s : Store) (g : Variant → Variant) : Store :=
  s.change (fun _ p => { p with variants := p.variants.map g }) fun _ _ => rfl

/-- The store without the variants of some handles. -/
def without (s : Store) (gone : List Handle) : Store :=
  s.change (fun _ p => { p with variants := p.variants.filter (·.handle ∉ gone) }) fun _ _ => rfl

variable {s : Store} {g g' : Variant → Variant} {gone gone' : List Handle}

theorem mapVariants_mapVariants (s : Store) (g g' : Variant → Variant) :
    (s.mapVariants g).mapVariants g' = s.mapVariants fun v => g' (g v) := by
  rw [mapVariants, mapVariants, change_change]
  simp only [List.map_map, Function.comp_def, mapVariants]

theorem mapVariants_id (s : Store) : (s.mapVariants fun v => v) = s :=
  change_of_same fun {_ p} _ => by rw [List.map_id']

theorem mapVariants_without (hg : ∀ v, (g v).handle = v.handle) (gone : List Handle) :
    (s.without gone).mapVariants g = (s.mapVariants g).without gone := by
  rw [mapVariants, without, mapVariants, without, change_change, change_change]
  refine change_congr fun {_ p} _ => ?_
  simp only [List.filter_map]
  congr 2
  refine List.filter_congr fun v _ => ?_
  simp [hg]

theorem without_without (s : Store) (gone gone' : List Handle) :
    (s.without gone).without gone' = s.without (gone ++ gone') := by
  rw [without, without, change_change]
  refine change_congr fun {_ p} _ => ?_
  simp only [List.filter_filter]
  congr 1
  refine List.filter_congr fun v _ => ?_
  simp [Bool.and_comm]

theorem removeVariant_eq (s : Store) (h : Handle) : s.removeVariant h = s.without [h] := by
  refine change_congr fun {_ p} _ => ?_
  simp only [List.mem_singleton, ne_eq]

theorem without_nil (s : Store) : s.without [] = s := by
  refine change_of_same fun {_ p} _ => ?_
  simp

theorem without_congr (s : Store) (h : ∀ k, k ∈ gone ↔ k ∈ gone') : s.without gone = s.without gone' := by
  refine change_congr fun {_ p} _ => ?_
  simp only [h]

theorem mem_of_has {i : Nat} {p : Project} {v : Variant} (hp : s.project? i = some p) (hv : s.Has i v) :
    v ∈ p.variants := by
  obtain ⟨p', hp', hv⟩ := hv
  rw [hp, Option.some.injEq] at hp'
  exact hp' ▸ hv

/-- Changes that agree on the variants that stay. -/
theorem mapVariants_congr (hg : ∀ v, (g v).handle = v.handle) (hg' : ∀ v, (g' v).handle = v.handle)
    (h : ∀ {i v}, s.Has i v → v.handle ∉ gone → g v = g' v) :
    (s.mapVariants g).without gone = (s.mapVariants g').without gone := by
  rw [mapVariants, without, mapVariants, without, change_change, change_change]
  refine change_congr fun {_ p} hproject => ?_
  simp only [List.filter_map, hg, hg', Function.comp_def]
  congr 1
  refine List.map_congr_left fun v hv => ?_
  obtain ⟨hv, hstays⟩ := List.mem_filter.1 hv
  exact h ⟨p, hproject, hv⟩ (by simpa using hstays)

theorem project?_mapVariants (s : Store) (g : Variant → Variant) (id : Int) :
    (s.mapVariants g).project? id =
      (s.project? id).map fun p => { p with variants := p.variants.map g } :=
  project?_change s _ _ id

theorem project?_without (s : Store) (gone : List Handle) (id : Int) :
    (s.without gone).project? id =
      (s.project? id).map fun p => { p with variants := p.variants.filter (·.handle ∉ gone) } :=
  project?_change s _ _ id

theorem has_mapVariants {i : Nat} {w : Variant} :
    (s.mapVariants g).Has i w ↔ ∃ v, s.Has i v ∧ w = g v := by
  simp only [Has, project?_mapVariants, Option.map_eq_some_iff]
  constructor
  · rintro ⟨q, ⟨p, hp, rfl⟩, hw⟩
    obtain ⟨v, hv, rfl⟩ := List.mem_map.1 hw
    exact ⟨v, ⟨p, hp, hv⟩, rfl⟩
  · rintro ⟨v, ⟨p, hp, hv⟩, rfl⟩
    exact ⟨_, ⟨p, hp, rfl⟩, List.mem_map.2 ⟨v, hv, rfl⟩⟩

theorem has_without {i : Nat} {v : Variant} : (s.without gone).Has i v ↔ s.Has i v ∧ v.handle ∉ gone := by
  simp only [Has, project?_without, Option.map_eq_some_iff]
  constructor
  · rintro ⟨q, ⟨p, hp, rfl⟩, hv⟩
    obtain ⟨hv, hne⟩ := List.mem_filter.1 hv
    exact ⟨⟨p, hp, hv⟩, by simpa using hne⟩
  · rintro ⟨⟨p, hp, hv⟩, hne⟩
    exact ⟨_, ⟨p, hp, rfl⟩, List.mem_filter.2 ⟨hv, by simpa using hne⟩⟩

theorem variants_mapVariants (s : Store) (g : Variant → Variant) :
    (s.mapVariants g).variants = s.variants.map g := by
  rw [variants, mapVariants, values_change, List.flatMap_map]
  simp only [variants, Table.values, List.flatMap_map, List.map_flatMap]

theorem variants_without (s : Store) (gone : List Handle) :
    (s.without gone).variants = s.variants.filter (·.handle ∉ gone) := by
  rw [variants, without, values_change, List.flatMap_map]
  simp only [variants, Table.values, List.flatMap_map, List.filter_flatMap]

/-- Changes of several variants, each by a function of its own. -/
theorem foldl_modify_eq (s : Store) (f : Handle → Variant → Variant)
    (hf : ∀ t v, (f t v).handle = v.handle) {targets : List Handle} (hn : targets.Nodup) :
    targets.foldl (fun s t => s.modifyVariant t (f t)) s =
      s.mapVariants fun v => if v.handle ∈ targets then f v.handle v else v := by
  induction targets generalizing s with
  | nil => simp [mapVariants_id]
  | cons t rest ih =>
      rw [List.nodup_cons] at hn
      rw [List.foldl_cons, ih _ hn.2]
      refine (mapVariants_mapVariants s _ _).trans (congrArg s.mapVariants (funext fun v => ?_))
      by_cases hv : v.handle = t
      · simp [hv, hf, hn.1]
      · simp [hv]

/-- No two variants share a handle. -/
theorem Sound.handles_nodup {next : Nat} (hs : s.Sound next) : (s.variants.map (·.handle)).Nodup := by
  rw [variants, List.map_flatMap, List.nodup_flatMap]
  have hproject : ∀ {n p}, s.projects.values[n]? = some p → s.project? ((n + 1 : Nat) : Int) = some p := by
    intro n p hn
    rw [project?_succ, hn]
  refine ⟨fun p hp => ?_, ?_⟩
  · obtain ⟨n, hn⟩ := List.mem_iff_getElem?.1 hp
    have hunique := hs.unique (n + 1)
    rwa [handles, hproject hn] at hunique
  · rw [List.pairwise_iff_getElem]
    intro i j hi hj hij
    refine List.disjoint_iff_ne.2 ?_
    rintro _ ha _ hb rfl
    obtain ⟨u, hu, hua⟩ := List.mem_map.1 ha
    obtain ⟨w, hw, hwa⟩ := List.mem_map.1 hb
    have hsame := (hs.handle_inj ⟨_, hproject (List.getElem?_eq_getElem hi), hu⟩
      ⟨_, hproject (List.getElem?_eq_getElem hj), hw⟩ (hua.trans hwa.symm)).1
    omega

end Store

/-! ### What is left when some variants are down -/

theorem Variant.ext_content {a b : Variant} (hc : a.content = b.content) (hd : a.dependees = b.dependees)
    (hp : a.pending = b.pending) : a = b := by
  rw [eq_of_content hc, hd, hp]

theorem addPending_foldl_eq {waiting : List Handle} (hn : waiting.Nodup) {w : Variant}
    (hnew : ∀ k ∈ waiting, k ∉ w.pending) :
    (waiting.foldl Variant.addPending w).pending = w.pending ++ waiting := by
  induction waiting generalizing w with
  | nil => simp
  | cons h rest ih =>
      rw [List.nodup_cons] at hn
      have hself : (w.addPending h).pending = w.pending ++ [h] := by
        rw [Variant.addPending_pending, if_neg (hnew h List.mem_cons_self)]
      rw [List.foldl_cons, ih hn.2, hself, List.append_assoc, List.singleton_append]
      intro k hk
      rw [hself, List.mem_append, List.mem_singleton, not_or]
      exact ⟨hnew k (List.mem_cons_of_mem h hk), fun heq => hn.1 (heq ▸ hk)⟩

/-- One more handle taken from a list. -/
theorem filter_erase {l done : List Handle} (hn : l.Nodup) (h : Handle) :
    (l.filter (· ∉ done)).erase h = l.filter (· ∉ done ++ [h]) := by
  rw [(hn.filter _).erase_eq_filter, List.filter_filter]
  refine List.filter_congr fun k _ => ?_
  rw [Bool.eq_iff_iff]
  simp [and_comm]

namespace Reconciler

open Store

/-- Whether a variant of a project that is not down references a target. -/
def holdsOn (p : Project) (gone : List Handle) (target : Handle) : Bool :=
  p.variants.any fun u => decide (u.handle ∉ gone) && u.projectRefs.values.contains target

/-- What is left of a variant when the variants of some handles are down. -/
def leftover (s : Store) (p : Project) (gone : List Handle) (w : Variant) : Variant :=
  { (if w.handle ∈ gone then w.reset else w) with
    dependees := if holdsOn p gone w.handle then w.dependees else w.dependees.erase p.path
    pending := (if w.handle ∈ gone then referrers s p.path w.handle else w.pending).filter (· ∉ gone) }

/-- The handles that are forgotten when variants are torn down in an order: those whose referrers all
are down when their turn has come. -/
def forgotten (s : Store) (path : String) (order : List Handle) : List Handle :=
  order.filter fun h => (referrers s path h).all fun k => order.idxOf k ≤ order.idxOf h

/-- The store when variants have been torn down in an order. -/
def cleared (s : Store) (p : Project) (order : List Handle) : Store :=
  (s.mapVariants (leftover s p order)).without (forgotten s p.path order)

section

variable {s : Store} {next : Nat} {id : Nat} {p : Project} {done : List Handle} {v w : Variant}

theorem leftover_content (s : Store) (p : Project) (gone : List Handle) (w : Variant) :
    (leftover s p gone w).content = (if w.handle ∈ gone then w.reset else w).content :=
  rfl

@[simp] theorem leftover_handle (s : Store) (p : Project) (gone : List Handle) (w : Variant) :
    (leftover s p gone w).handle = w.handle := by
  rw [Variant.handle_of_content (leftover_content s p gone w)]
  split <;> rfl

theorem leftover_projectRefs (s : Store) (p : Project) (gone : List Handle) (w : Variant) :
    (leftover s p gone w).projectRefs = if w.handle ∈ gone then .empty else w.projectRefs := by
  rw [Variant.projectRefs_of_content (leftover_content s p gone w)]
  split <;> rfl

theorem leftover_pending (s : Store) (p : Project) (gone : List Handle) (w : Variant) :
    (leftover s p gone w).pending =
      (if w.handle ∈ gone then referrers s p.path w.handle else w.pending).filter (· ∉ gone) :=
  rfl

theorem holdsOn_iff (hs : s.Sound next) (hp : s.project? id = some p) {gone : List Handle} {t : Handle} :
    holdsOn p gone t = true ↔ ∃ u, s.Has id u ∧ u.handle ∉ gone ∧ u.RefersTo t := by
  simp only [holdsOn, List.any_eq_true, Bool.and_eq_true, decide_eq_true_eq, List.contains_iff_mem]
  constructor
  · rintro ⟨u, hu, hgone, hr⟩
    exact ⟨u, ⟨p, hp, hu⟩, hgone, (hs.mem_values ⟨p, hp, hu⟩ t).1 hr⟩
  · rintro ⟨u, hu, hgone, hr⟩
    exact ⟨u, mem_of_has hp hu, hgone, (hs.mem_values hu t).2 hr⟩

theorem referrers_nodup (hs : s.Sound next) (path : String) (h : Handle) : (referrers s path h).Nodup :=
  List.Nodup.sublist (List.filter_sublist.map _) hs.handles_nodup

theorem forgotten_subset (s : Store) (path : String) (order : List Handle) :
    ∀ h ∈ forgotten s path order, h ∈ order :=
  fun _ hh => (List.mem_filter.1 hh).1

/-- The turn of one more variant. -/
theorem forgotten_append (path : String) {h : Handle} (hnew : h ∉ done) :
    forgotten s path (done ++ [h]) =
      forgotten s path done ++
        if ((referrers s path h).filter (· ∉ done ++ [h])).isEmpty then [h] else [] := by
  have hold : ∀ x ∈ done, (∀ k, (done ++ [h]).idxOf k ≤ (done ++ [h]).idxOf x ↔
      done.idxOf k ≤ done.idxOf x) := by
    intro x hx k
    have hlt := List.idxOf_lt_length_of_mem hx
    rw [List.idxOf_append_of_mem hx]
    by_cases hk : k ∈ done
    · rw [List.idxOf_append_of_mem hk]
    · rw [List.idxOf_append_of_notMem hk, List.idxOf_of_notMem hk]
      omega
  have hself : ∀ k, (done ++ [h]).idxOf k ≤ (done ++ [h]).idxOf h ↔ k ∈ done ++ [h] := by
    intro k
    rw [List.idxOf_append_of_notMem hnew, List.idxOf_cons_self, ← List.idxOf_lt_length_iff,
      List.length_append, List.length_singleton]
    omega
  have hempty : ((referrers s path h).filter (· ∉ done ++ [h])).isEmpty =
      (referrers s path h).all fun k => decide (k ∈ done ++ [h]) := by
    rw [Bool.eq_iff_iff, List.isEmpty_iff, List.filter_eq_nil_iff, List.all_eq_true]
    simp only [decide_eq_true_eq, not_not]
  simp only [forgotten, List.filter_append]
  congr 1
  · refine List.filter_congr fun x hx => ?_
    simp only [hold x hx]
  · rw [List.filter_singleton, hempty]
    simp only [hself, cond_eq_ite]

/-! ### The turn of a variant -/

/-- The project of the variants that are torn down, when some are down. -/
def clearedProject (s : Store) (p : Project) (done : List Handle) : Project :=
  { p with variants :=
    (p.variants.map (leftover s p done)).filter (·.handle ∉ forgotten s p.path done) }

theorem project?_cleared (hp : s.project? id = some p) (done : List Handle) :
    (cleared s p done).project? id = some (clearedProject s p done) := by
  rw [cleared, project?_without, project?_mapVariants, hp, Option.map_some, Option.map_some]
  rfl

/-- References of variants that are down do not count. -/
theorem references_cleared (s : Store) (p : Project) (done : List Handle) (h t : Handle) :
    (clearedProject s p done).references t (some h) = holdsOn p (done ++ [h]) t := by
  rw [Project.references, clearedProject, List.any_filter, List.any_map, holdsOn]
  congr 1
  funext u
  rw [Function.comp_apply, leftover_handle, leftover_projectRefs, Bool.eq_iff_iff]
  by_cases hu : u.handle ∈ done
  · simp [hu, Table.values, Table.empty]
  · have hkept : u.handle ∉ forgotten s p.path done := fun hf => hu (forgotten_subset _ _ _ _ hf)
    simp [hu, hkept]

variable (hs : s.Sound next) (hl : s.Linked) (hp : s.project? id = some p) (hv : s.Has id v)
  (hreg : v.registered = true) (hnew : v.handle ∉ done)

include hs hp hv in
/-- A project holds on to a target as before if the variant that goes down did not reference it. -/
theorem holdsOn_append {t : Handle} (ht : ¬v.RefersTo t) :
    holdsOn p (done ++ [v.handle]) t = holdsOn p done t := by
  rw [Bool.eq_iff_iff, holdsOn_iff hs hp, holdsOn_iff hs hp]
  refine exists_congr fun u => and_congr_right fun hu => and_congr_left fun hr => ?_
  rw [List.mem_append, List.mem_singleton, not_or, and_iff_left_iff_imp]
  rintro - hh
  exact ht ((hs.handle_inj hu hv hh).2 ▸ hr)

/-- What withdrawing the references of the variant makes of what is left of another. -/
def withdrawnFrom (s : Store) (p : Project) (done : List Handle) (v w : Variant) : Variant :=
  leftBy (clearedProject s p done) (leftover s p done v) (leftover s p done w)

theorem withdrawnFrom_content (s : Store) (p : Project) (done : List Handle) (v w : Variant) :
    (withdrawnFrom s p done v w).content = (leftover s p done w).content :=
  leftBy_content ..

theorem withdrawnFrom_handle (s : Store) (p : Project) (done : List Handle) (v w : Variant) :
    (withdrawnFrom s p done v w).handle = w.handle :=
  (Variant.handle_of_content (withdrawnFrom_content ..)).trans (leftover_handle ..)

include hnew in
theorem withdrawnFrom_eq (w : Variant) :
    withdrawnFrom s p done v w =
      if w.handle ∈ v.projectRefs.values then
        withdrawn v.handle p.path (holdsOn p (done ++ [v.handle]) w.handle) (leftover s p done w)
      else leftover s p done w := by
  have hrefs : (leftover s p done v).projectRefs = v.projectRefs := by
    rw [leftover_projectRefs, if_neg hnew]
  rw [withdrawnFrom, leftBy, leftover_handle, leftover_handle, hrefs, references_cleared]
  rfl

include hs hp hv hnew in
theorem withdrawnFrom_dependees (w : Variant) :
    (withdrawnFrom s p done v w).dependees =
      if holdsOn p (done ++ [v.handle]) w.handle then w.dependees else w.dependees.erase p.path := by
  rw [withdrawnFrom_eq hnew]
  split
  · rename_i hr
    have hheld : holdsOn p done w.handle = true :=
      (holdsOn_iff hs hp).2 ⟨v, hv, hnew, (hs.mem_values hv _).1 hr⟩
    have hdeps : (leftover s p done w).dependees = w.dependees := by
      rw [leftover, hheld, if_pos rfl]
    rw [withdrawn_dependees, hdeps]
  · rename_i hr
    rw [holdsOn_append hs hp hv fun h => hr ((hs.mem_values hv _).2 h)]
    rfl

include hs hl hp hv hnew in
theorem withdrawnFrom_pending {i : Nat} {w : Variant} (hw : s.Has i w)
    (hdown : w.handle ∈ done → i = id) :
    (withdrawnFrom s p done v w).pending =
      (if w.handle ∈ done then referrers s p.path w.handle else w.pending).filter
        (· ∉ done ++ [v.handle]) := by
  have hpath : s.path? id = some p.path := by rw [path?, hp, Option.map_some]
  have hself : ∀ {a u}, s.Has a u → u.handle = v.handle → u = v :=
    fun hu hh => (hs.handle_inj hu hv hh).2
  -- the variants that wait, or will wait, for a variant refer to it
  have hwaits : (if w.handle ∈ done then referrers s p.path w.handle else w.pending).Nodup ∧
      (v.handle ∈ (if w.handle ∈ done then referrers s p.path w.handle else w.pending) →
        v.RefersTo w.handle) := by
    split
    · rename_i hd
      obtain rfl := hdown hd
      refine ⟨referrers_nodup hs _ _, fun hmem => ?_⟩
      obtain ⟨a, u, hu, hh, hr⟩ := (mem_referrers hs hl hw hpath _).1 hmem
      exact hself hu hh ▸ hr
    · refine ⟨hl.nodup hw, fun hmem => ?_⟩
      cases hwreg : w.registered with
      | true =>
          rw [hl.settled hw hwreg] at hmem
          cases hmem
      | false =>
          obtain ⟨a, u, hu, hh, hr⟩ := (hl.waiting hw hwreg _).1 hmem
          exact hself hu hh ▸ hr
  rw [withdrawnFrom_eq hnew]
  split
  · rw [withdrawn_pending, leftover_pending, filter_erase hwaits.1]
  · rename_i hr
    rw [leftover_pending]
    refine List.filter_congr fun k hk => ?_
    have hne : k ≠ v.handle := fun heq => hr ((hs.mem_values hv _).2 (hwaits.2 (heq ▸ hk)))
    simp [hne]

theorem foldl_withdrawEdge_eq (s : Store) (p : Project) (hn : v.projectRefs.values.Nodup) :
    v.projectRefs.values.foldl (withdrawEdge p.path p v.handle) s = s.mapVariants (leftBy p v) :=
  foldl_modify_eq s (fun t => withdrawn v.handle p.path (p.references t (some v.handle)))
    (fun _ w => Variant.handle_of_content (withdrawn_content v.handle p.path _ w)) hn

/-- What emptying the variant makes of what is left of another. -/
def emptiedFrom (s : Store) (p : Project) (done : List Handle) (v w : Variant) : Variant :=
  changed v.handle Variant.reset (withdrawnFrom s p done v w)

theorem emptiedFrom_handle (s : Store) (p : Project) (done : List Handle) (v w : Variant) :
    (emptiedFrom s p done v w).handle = w.handle := by
  have hw := withdrawnFrom_handle s p done v w
  unfold emptiedFrom changed
  split <;> exact hw

theorem emptiedFrom_projectRefs (s : Store) (p : Project) (done : List Handle) (v w : Variant) :
    (emptiedFrom s p done v w).projectRefs =
      if w.handle ∈ done ++ [v.handle] then .empty else w.projectRefs := by
  have hrefs : (withdrawnFrom s p done v w).projectRefs = if w.handle ∈ done then .empty else w.projectRefs :=
    (Variant.projectRefs_of_content (withdrawnFrom_content ..)).trans (leftover_projectRefs ..)
  rw [emptiedFrom, changed, withdrawnFrom_handle]
  by_cases hh : w.handle = v.handle
  · rw [if_pos hh, if_pos (by simp [hh])]
    rfl
  · rw [if_neg hh, hrefs]
    exact if_congr (by simp [hh]) rfl rfl

include hs hl hv hnew in
theorem emptied_cleared :
    emptied (cleared s p done) (clearedProject s p done) (leftover s p done v) =
      (s.mapVariants (emptiedFrom s p done v)).without (forgotten s p.path done) := by
  have hvalues : (leftover s p done v).projectRefs.values.Nodup := by
    rw [leftover_projectRefs, if_neg hnew]
    exact hl.values_nodup hs hv
  have hleft : ∀ w, (leftBy (clearedProject s p done) (leftover s p done v) w).handle = w.handle :=
    fun w => Variant.handle_of_content (leftBy_content ..)
  have hreset : ∀ w, (changed v.handle Variant.reset w).handle = w.handle := by
    intro w
    unfold changed
    split <;> rfl
  rw [emptied, foldl_withdrawEdge_eq _ _ hvalues, leftover_handle]
  change Store.mapVariants _ (changed v.handle Variant.reset) = _
  rw [cleared, mapVariants_without hleft, mapVariants_mapVariants, mapVariants_without hreset,
    mapVariants_mapVariants]
  rfl

include hs hl hv hnew in
theorem referrers_cleared :
    referrers (emptied (cleared s p done) (clearedProject s p done) (leftover s p done v)) p.path v.handle =
      (referrers s p.path v.handle).filter (· ∉ done ++ [v.handle]) := by
  have hcount : ∀ u : Variant, (decide (u.handle ∉ forgotten s p.path done) &&
      decide ((emptiedFrom s p done v u).projectRefs.get? p.path = some v.handle)) =
        (decide (u.handle ∉ done ++ [v.handle]) && decide (u.projectRefs.get? p.path = some v.handle)) := by
    intro u
    rw [emptiedFrom_projectRefs]
    by_cases hu : u.handle ∈ done ++ [v.handle]
    · simp [hu]
    · have hkept : u.handle ∉ forgotten s p.path done :=
        fun hf => hu (List.mem_append_left _ (forgotten_subset _ _ _ _ hf))
      rw [if_neg hu]
      simp only [hkept, hu, not_false_eq_true, decide_true, Bool.true_and]
  rw [emptied_cleared hs hl hv hnew]
  simp only [referrers, variants_without, variants_mapVariants, List.filter_map, List.map_map,
    List.filter_filter, Function.comp_def, emptiedFrom_handle]
  refine congrArg (List.map _) (List.filter_congr fun u _ => ?_)
  rw [Bool.and_comm, hcount]

include hs hl hp hv hreg hnew in
/-- **One more variant down.** Whatever the order so far, tearing the variant down leaves of every variant
what is left when the longer list is down. -/
theorem tornDown_cleared (hdone : ∀ k ∈ done, s.Owns id k) :
    tornDown (cleared s p done) (clearedProject s p done) (leftover s p done v) =
      (s.mapVariants (leftover s p (done ++ [v.handle]))).without (forgotten s p.path done) := by
  have hkeep : ∀ w : Variant, (((referrers s p.path v.handle).filter (· ∉ done ++ [v.handle])).foldl
      Variant.addPending w).handle = w.handle :=
    fun w => Variant.handle_of_content (addPending_foldl _ w).1
  have hwait : ∀ w, (changed v.handle (fun w => ((referrers s p.path v.handle).filter
      (· ∉ done ++ [v.handle])).foldl Variant.addPending w) w).handle = w.handle := by
    intro w
    unfold changed
    split
    · exact hkeep w
    · rfl
  unfold tornDown
  rw [leftover_handle, show (clearedProject s p done).path = p.path from rfl,
    referrers_cleared hs hl hv hnew, emptied_cleared hs hl hv hnew]
  change Store.mapVariants _ (changed v.handle _) = _
  rw [mapVariants_without hwait, mapVariants_mapVariants]
  refine mapVariants_congr (fun w => (hwait _).trans (emptiedFrom_handle ..)) (fun w => leftover_handle ..) ?_
  intro i w hw _
  have hdown : w.handle ∈ done → i = id := by
    intro hd
    obtain ⟨u, hu, huh⟩ := hdone _ hd
    exact (hs.handle_inj hw hu huh.symm).1
  have hpending := withdrawnFrom_pending hs hl hp hv hnew hw hdown
  have hdependees := withdrawnFrom_dependees hs hp hv hnew w
  have hcontent := withdrawnFrom_content s p done v w
  by_cases hh : w.handle = v.handle
  · -- the variant itself: it is emptied, and those that refer to it wait from now on
    obtain ⟨-, rfl⟩ := hs.handle_inj hw hv hh
    rw [changed_of_eq (emptiedFrom_handle ..), emptiedFrom, changed_of_eq (withdrawnFrom_handle ..)]
    have hfold := addPending_foldl ((referrers s p.path w.handle).filter (· ∉ done ++ [w.handle]))
      (withdrawnFrom s p done w w).reset
    have hnone : (withdrawnFrom s p done w w).reset.pending = [] := by
      change (withdrawnFrom s p done w w).pending = []
      rw [hpending, if_neg hnew, hl.settled hw hreg, List.filter_nil]
    refine Variant.ext_content ?_ ?_ ?_
    · rw [hfold.1, leftover_content, if_pos (by simp)]
      rw [leftover_content, if_neg hnew] at hcontent
      exact congrArg Variant.reset hcontent
    · rw [hfold.2.1]
      exact hdependees
    · rw [addPending_foldl_eq ((referrers_nodup hs _ _).filter _) (by simp [hnone]), hnone, List.nil_append,
        leftover_pending, if_pos (by simp)]
  · rw [changed_of_ne (by rwa [emptiedFrom_handle]), emptiedFrom,
      changed_of_ne (by rwa [withdrawnFrom_handle])]
    have hsame : w.handle ∈ done ++ [v.handle] ↔ w.handle ∈ done := by simp [hh]
    refine Variant.ext_content ?_ hdependees ?_
    · rw [hcontent, leftover_content, leftover_content, if_congr hsame rfl rfl]
    · rw [hpending, leftover_pending, if_congr hsame rfl rfl]

include hs hl hp in
theorem leftover_nil {i : Nat} {w : Variant} (hw : s.Has i w) : leftover s p [] w = w := by
  have hpath : s.path? id = some p.path := by rw [path?, hp, Option.map_some]
  have hpending : (leftover s p [] w).pending = w.pending := by
    rw [leftover_pending, if_neg List.not_mem_nil]
    exact List.filter_eq_self.2 fun _ _ => by simp
  refine Variant.ext_content (by rw [leftover_content, if_neg List.not_mem_nil]) ?_ hpending
  change (if holdsOn p [] w.handle then w.dependees else w.dependees.erase p.path) = w.dependees
  split
  · rfl
  · rename_i hnone
    refine Table.erase_of_get?_none (Option.eq_none_iff_forall_ne_some.2 fun a ha => hnone ?_)
    obtain ⟨hpa, u, hu, hr⟩ := (hl.dependee hw _ _).1 ha
    obtain rfl := path_inj hpa hpath
    exact (holdsOn_iff hs hp).2 ⟨u, hu, List.not_mem_nil, hr⟩

include hs hl hp in
theorem cleared_nil : cleared s p [] = s := by
  have hsame : (s.mapVariants (leftover s p [])).without [] = (s.mapVariants fun w => w).without [] :=
    mapVariants_congr (fun _ => leftover_handle ..) (fun _ => rfl) fun hw _ => leftover_nil hs hl hp hw
  rw [cleared, show forgotten s p.path [] = [] from rfl, hsame, without_nil, mapVariants_id]

end

/-- The variant that has its turn, as it was before any was down. -/
theorem of_has_cleared {s : Store} {p : Project} {done : List Handle} {i : Nat} {x : Variant}
    (hx : (cleared s p done).Has i x) (hreg : x.registered = true) :
    ∃ v, s.Has i v ∧ x = leftover s p done v ∧ v.registered = true ∧ v.handle ∉ done := by
  obtain ⟨hx, -⟩ := has_without.1 hx
  obtain ⟨v, hv, rfl⟩ := has_mapVariants.1 hx
  have hc := leftover_content s p done v
  have hnew : v.handle ∉ done := by
    intro hd
    rw [if_pos hd] at hc
    rw [Variant.registered_of_content hc] at hreg
    cases hreg
  rw [if_neg hnew] at hc
  exact ⟨v, hv, rfl, (Variant.registered_of_content hc).symm.trans hreg, hnew⟩

theorem teardown_cleared {r : Reconciler} {s : Store} {next id : Nat} {p : Project} {done : List Handle}
    {x : Variant} (hr : r.WellFormed) (hs : s.Sound next) (hl : s.Linked) (hp : s.project? id = some p)
    (hstore : r.store = cleared s p done) (hdone : ∀ k ∈ done, s.Owns id k) (hx : r.store.Has id x)
    (hxreg : x.registered = true) :
    (r.teardown id x.handle).store = cleared s p (done ++ [x.handle]) := by
  obtain ⟨v, hv, rfl, hreg, hnew⟩ := of_has_cleared (hstore ▸ hx) hxreg
  have hp' : r.store.project? id = some (clearedProject s p done) := by rw [hstore, project?_cleared hp]
  have htorn : tornDown r.store (clearedProject s p done) (leftover s p done v) =
      (s.mapVariants (leftover s p (done ++ [v.handle]))).without (forgotten s p.path done) := by
    rw [hstore]
    exact tornDown_cleared hs hl hp hv hreg hnew hdone
  obtain ⟨-, hs₁, hl₁⟩ := tornDown_effect hr.sound hr.linked hp' hx hxreg
  have hw : (tornDown r.store (clearedProject s p done) (leftover s p done v)).Has id
      (leftover s p (done ++ [v.handle]) v) := by
    rw [htorn]
    refine has_without.2 ⟨has_mapVariants.2 ⟨v, hv, rfl⟩, fun hf => ?_⟩
    rw [leftover_handle] at hf
    exact hnew (forgotten_subset _ _ _ _ hf)
  have hfind := hs₁.variant? hw
  rw [leftover_handle] at hfind
  have hpending : (leftover s p (done ++ [v.handle]) v).pending =
      (referrers s p.path v.handle).filter (· ∉ done ++ [v.handle]) := by
    rw [leftover_pending, if_pos (by simp)]
  -- where nothing waits for the variant, nothing refers to it, so there are no edges back
  have hempty : ((leftover s p (done ++ [v.handle]) v).dependees.isEmpty &&
      (leftover s p (done ++ [v.handle]) v).pending.isEmpty) =
        ((referrers s p.path v.handle).filter (· ∉ done ++ [v.handle])).isEmpty := by
    rw [← hpending, Bool.eq_iff_iff, Bool.and_eq_true, and_iff_right_iff_imp, List.isEmpty_iff,
      Table.isEmpty_iff]
    intro hnone q
    refine Option.eq_none_iff_forall_ne_some.2 fun a ha => ?_
    obtain ⟨-, u, hu, hrefers⟩ := (hl₁.dependee hw q a).1 ha
    have hunreg : (leftover s p (done ++ [v.handle]) v).registered = false := by
      rw [Variant.registered_of_content (leftover_content ..), if_pos (by simp)]
      rfl
    have hmem := (hl₁.waiting hw hunreg u.handle).2 ⟨a, u, hu, rfl, hrefers⟩
    rw [hnone] at hmem
    cases hmem
  have hfind' : (tornDown r.store (clearedProject s p done) (leftover s p done v)).variant?
      (leftover s p done v).handle = some (leftover s p (done ++ [v.handle]) v) := by
    rwa [leftover_handle]
  rw [teardown_eq hr.sound hp' hx hfind', hempty, leftover_handle, cleared, forgotten_append p.path hnew]
  split
  · change (tornDown r.store _ _).removeVariant v.handle = _
    rw [htorn, removeVariant_eq, without_without]
  · rw [List.append_nil]
    exact htorn

end Reconciler

end Graph

end CompilationBridge
