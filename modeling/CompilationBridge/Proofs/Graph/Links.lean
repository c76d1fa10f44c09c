import CompilationBridge.Graph.Reconciler
import CompilationBridge.Proofs.Graph.Store

/-! The three records of a project reference agree: the reference at the referring variant, the edge
back at its target, and, while the target is not registered, the entry in the list of those that wait
for it. Each change that the reconciler makes to the graph keeps this, whatever the workspace says. -/

namespace CompilationBridge.Graph

/-- Each table of a variant has one entry for each key. -/
def Variant.Tidy (v : Variant) : Prop :=
  v.fileRefs.keys.Nodup ∧ v.rawRefs.keys.Nodup ∧ v.projectRefs.keys.Nodup ∧ v.documents.keys.Nodup

namespace Store

/-- Paths are clean, handles and framework names single out what they name, and no handle from `next` on has been
given out. -/
structure Sound (s : Store) (next : Nat) : Prop where
  clean : ∀ {i q}, s.path? i = some q → Path.clean q = q
  handle_inj : ∀ {i j u v}, s.Has i u → s.Has j v → u.handle = v.handle → i = j ∧ u = v
  name_inj : ∀ {i u v}, s.Has i u → s.Has i v → u.framework.name = v.framework.name → u = v
  handle_lt : ∀ {i v}, s.Has i v → v.handle.value < next
  tidy : ∀ {i v}, s.Has i v → v.Tidy
  unique : ∀ i, (s.handles i).Nodup

/-- The records of each project reference agree. -/
structure Linked (s : Store) : Prop where
  target : ∀ {i v path t}, s.Has i v → v.projectRefs.get? path = some t →
    ∃ j, s.Owns j t ∧ s.path? j = some path
  dependee : ∀ {j t}, s.Has j t → ∀ q a,
    (t.dependees.get? q = some a ↔ s.path? a = some q ∧ ∃ v, s.Has a v ∧ v.RefersTo t.handle)
  nodup : ∀ {j t}, s.Has j t → t.pending.Nodup
  settled : ∀ {j t}, s.Has j t → t.registered = true → t.pending = []
  waiting : ∀ {j t}, s.Has j t → t.registered = false → ∀ k,
    (k ∈ t.pending ↔ ∃ a v, s.Has a v ∧ v.handle = k ∧ v.RefersTo t.handle)

theorem Sound.variant? {s : Store} {next : Nat} (hs : s.Sound next) {id : Nat} {v : Variant}
    (hv : s.Has id v) : s.variant? v.handle = some v := by
  obtain ⟨w, hw⟩ := exists_variant? hv
  obtain ⟨hh, j, hj⟩ := has_of_variant? hw
  rw [hw, (hs.handle_inj hj hv hh).2]

theorem Sound.has_variant? {s : Store} {next : Nat} (hs : s.Sound next) {id : Nat} {h : Handle}
    (ho : s.Owns id h) : ∃ v, s.variant? h = some v ∧ s.Has id v ∧ v.handle = h := by
  obtain ⟨v, hv, rfl⟩ := ho
  exact ⟨v, hs.variant? hv, hv, rfl⟩

theorem Sound.keys {s : Store} {next : Nat} (hs : s.Sound next) {id : Nat} {v : Variant} (hv : s.Has id v) :
    v.projectRefs.keys.Nodup :=
  (hs.tidy hv).2.2.1

theorem Sound.mono {s : Store} {m n : Nat} (hs : s.Sound m) (h : m ≤ n) : s.Sound n :=
  { hs with handle_lt := fun hv => Nat.lt_of_lt_of_le (hs.handle_lt hv) h }

theorem Sound.mem_values {s : Store} {next : Nat} (hs : s.Sound next) {id : Nat} {v : Variant}
    (hv : s.Has id v) (t : Handle) : t ∈ v.projectRefs.values ↔ v.RefersTo t :=
  Table.mem_values (hs.keys hv) t

/-- A target is recorded under one path only. -/
theorem Linked.path_unique {s : Store} {next : Nat} (hs : s.Sound next) (hl : s.Linked) {i : Nat}
    {v : Variant} (hv : s.Has i v) {p q : String} {t : Handle} (hp : v.projectRefs.get? p = some t)
    (hq : v.projectRefs.get? q = some t) : p = q := by
  obtain ⟨j, ⟨u, hu, hut⟩, hjp⟩ := hl.target hv hp
  obtain ⟨k, ⟨w, hw, hwt⟩, hkq⟩ := hl.target hv hq
  obtain ⟨rfl, -⟩ := hs.handle_inj hu hw (hut.trans hwt.symm)
  exact Option.some.inj (hjp.symm.trans hkq)

theorem Linked.values_nodup {s : Store} {next : Nat} (hs : s.Sound next) (hl : s.Linked) {i : Nat}
    {v : Variant} (hv : s.Has i v) : v.projectRefs.values.Nodup := by
  have hkeys := hs.keys hv
  refine List.Nodup.map_on ?_ (List.Nodup.of_map _ hkeys)
  rintro ⟨p, t⟩ hp ⟨q, u⟩ hq (rfl : t = u)
  rw [Table.mem_entries hkeys] at hp hq
  rw [hl.path_unique hs hv hp hq]

/-- Whether another variant of a project references a target. -/
theorem references_iff {s : Store} {next : Nat} (hs : s.Sound next) {id : Nat} {p : Project}
    (hp : s.project? id = some p) (t : Handle) (except : Option Handle) :
    p.references t except = true ↔ ∃ v, s.Has id v ∧ some v.handle ≠ except ∧ v.RefersTo t := by
  have hhas : ∀ v, s.Has id v ↔ v ∈ p.variants := by
    intro v
    simp [Has, hp]
  simp only [Project.references, List.any_eq_true, Bool.and_eq_true, decide_eq_true_eq,
    List.contains_iff_mem, hhas]
  refine exists_congr fun v => and_congr_right fun hv => and_congr_right fun _ => ?_
  exact hs.mem_values ((hhas v).2 hv) t

/-! ### Images -/

/-- One store has the variants of another, each changed by a function. -/
structure Image (s s' : Store) (g : Variant → Variant) : Prop where
  has : ∀ i w, s'.Has i w ↔ ∃ v, s.Has i v ∧ w = g v
  path : ∀ i, s'.path? i = s.path? i
  handles : ∀ i, s'.handles i = s.handles i

theorem Image.refl (s : Store) : Image s s id where
  has _ w := ⟨fun h => ⟨w, h, rfl⟩, fun ⟨_, hv, hw⟩ => hw ▸ hv⟩
  path _ := rfl
  handles _ := rfl

theorem Image.modify {s s' : Store} {g : Variant → Variant} (hi : Image s s' g) (h : Handle)
    {f : Variant → Variant} (hf : ∀ v, (f v).handle = v.handle) :
    Image s (s'.modifyVariant h f) fun v => changed h f (g v) where
  has i w := by
    rw [has_modifyVariant]
    constructor
    · rintro ⟨u, hu, rfl⟩
      obtain ⟨v, hv, rfl⟩ := (hi.has i u).1 hu
      exact ⟨v, hv, rfl⟩
    · rintro ⟨v, hv, rfl⟩
      exact ⟨g v, (hi.has i _).2 ⟨v, hv, rfl⟩, rfl⟩
  path i := (path?_modifyVariant s' h f i).trans (hi.path i)
  handles i := (handles_modifyVariant s' h hf i).trans (hi.handles i)

theorem image_modify (s : Store) (h : Handle) {f : Variant → Variant} (hf : ∀ v, (f v).handle = v.handle) :
    Image s (s.modifyVariant h f) (changed h f) :=
  (Image.refl s).modify h hf

theorem Image.congr {s s' : Store} {g g' : Variant → Variant} (hi : Image s s' g)
    (h : ∀ {i v}, s.Has i v → g v = g' v) : Image s s' g' where
  has i w := by
    rw [hi.has]
    exact exists_congr fun v => and_congr_right fun hv => by rw [h hv]
  path := hi.path
  handles := hi.handles

theorem Image.has_image {s s' : Store} {g : Variant → Variant} (hi : Image s s' g) {i : Nat} {v : Variant}
    (hv : s.Has i v) : s'.Has i (g v) :=
  (hi.has i _).2 ⟨v, hv, rfl⟩

/-- Changes of several variants, each by a function of its own. -/
theorem image_foldl_modify (s : Store) (f : Handle → Variant → Variant)
    (hf : ∀ t v, (f t v).handle = v.handle) {targets : List Handle} (hn : targets.Nodup) :
    Image s (targets.foldl (fun s t => s.modifyVariant t (f t)) s)
      fun v => if v.handle ∈ targets then f v.handle v else v := by
  induction targets generalizing s with
  | nil =>
      simp only [List.foldl_nil, List.not_mem_nil, if_false]
      exact Image.refl s
  | cons t rest ih =>
      rw [List.nodup_cons] at hn
      have hrest := ih (s.modifyVariant t (f t)) hn.2
      rw [List.foldl_cons]
      have hg : ∀ v : Variant, (if (changed t (f t) v).handle ∈ rest
          then f (changed t (f t) v).handle (changed t (f t) v) else changed t (f t) v) =
          if v.handle ∈ t :: rest then f v.handle v else v := by
        intro v
        by_cases hv : v.handle = t
        · have hnot : v.handle ∉ rest := hv ▸ hn.1
          simp [changed, hv, hf, hn.1]
        · simp [changed, hv]
      refine ⟨fun i w => ?_, fun i => (hrest.path i).trans (path?_modifyVariant s t (f t) i),
        fun i => (hrest.handles i).trans (handles_modifyVariant s t (hf t) i)⟩
      rw [hrest.has]
      constructor
      · rintro ⟨u, hu, rfl⟩
        obtain ⟨v, hv, rfl⟩ := has_modifyVariant.1 hu
        exact ⟨v, hv, hg v⟩
      · rintro ⟨v, hv, rfl⟩
        exact ⟨_, has_modifyVariant.2 ⟨v, hv, rfl⟩, (hg v).symm⟩

/-- A function that keeps what singles a variant out. -/
structure Keeps (s : Store) (g : Variant → Variant) : Prop where
  handle : ∀ {i v}, s.Has i v → (g v).handle = v.handle
  name : ∀ {i v}, s.Has i v → (g v).framework.name = v.framework.name
  tidy : ∀ {i v}, s.Has i v → (g v).Tidy

theorem Sound.image {s s' : Store} {g : Variant → Variant} {next : Nat} (hs : s.Sound next)
    (hi : Image s s' g) (hg : s.Keeps g) : s'.Sound next where
  clean hp := by
    rw [hi.path] at hp
    exact hs.clean hp
  handle_inj hx hy heq := by
    obtain ⟨u, hu, rfl⟩ := (hi.has _ _).1 hx
    obtain ⟨v, hv, rfl⟩ := (hi.has _ _).1 hy
    rw [hg.handle hu, hg.handle hv] at heq
    obtain ⟨hij, rfl⟩ := hs.handle_inj hu hv heq
    exact ⟨hij, rfl⟩
  name_inj hx hy heq := by
    obtain ⟨u, hu, rfl⟩ := (hi.has _ _).1 hx
    obtain ⟨v, hv, rfl⟩ := (hi.has _ _).1 hy
    rw [hg.name hu, hg.name hv] at heq
    rw [hs.name_inj hu hv heq]
  handle_lt hx := by
    obtain ⟨v, hv, rfl⟩ := (hi.has _ _).1 hx
    rw [hg.handle hv]
    exact hs.handle_lt hv
  tidy hx := by
    obtain ⟨v, hv, rfl⟩ := (hi.has _ _).1 hx
    exact hg.tidy hv
  unique i := by
    rw [hi.handles]
    exact hs.unique i

theorem Image.owns {s s' : Store} {g : Variant → Variant} (hi : Image s s' g) (hg : s.Keeps g) {i : Nat}
    {h : Handle} : s'.Owns i h ↔ s.Owns i h := by
  constructor
  · rintro ⟨w, hw, rfl⟩
    obtain ⟨v, hv, rfl⟩ := (hi.has i w).1 hw
    exact ⟨v, hv, (hg.handle hv).symm⟩
  · rintro ⟨v, hv, rfl⟩
    exact ⟨g v, hi.has_image hv, hg.handle hv⟩

/-- The records of an image agree if they do in terms of the store before. -/
theorem Linked.of_image {s s' : Store} {g : Variant → Variant} (hi : Image s s' g) (hg : s.Keeps g)
    (target : ∀ {i v path t}, s.Has i v → (g v).projectRefs.get? path = some t →
      ∃ j, s.Owns j t ∧ s.path? j = some path)
    (dependee : ∀ {j t}, s.Has j t → ∀ q a,
      ((g t).dependees.get? q = some a ↔ s.path? a = some q ∧ ∃ v, s.Has a v ∧ (g v).RefersTo t.handle))
    (nodup : ∀ {j t}, s.Has j t → (g t).pending.Nodup)
    (settled : ∀ {j t}, s.Has j t → (g t).registered = true → (g t).pending = [])
    (waiting : ∀ {j t}, s.Has j t → (g t).registered = false → ∀ k,
      (k ∈ (g t).pending ↔ ∃ a v, s.Has a v ∧ v.handle = k ∧ (g v).RefersTo t.handle)) : s'.Linked where
  target hx hpath := by
    obtain ⟨v, hv, rfl⟩ := (hi.has _ _).1 hx
    obtain ⟨j, ho, hj⟩ := target hv hpath
    exact ⟨j, (hi.owns hg).2 ho, (hi.path j).trans hj⟩
  dependee hx q a := by
    obtain ⟨t, ht, rfl⟩ := (hi.has _ _).1 hx
    rw [dependee ht q a, hg.handle ht, hi.path]
    refine and_congr_right fun _ => ?_
    constructor
    · rintro ⟨v, hv, hr⟩
      exact ⟨g v, hi.has_image hv, hr⟩
    · rintro ⟨w, hw, hr⟩
      obtain ⟨v, hv, rfl⟩ := (hi.has _ _).1 hw
      exact ⟨v, hv, hr⟩
  nodup hx := by
    obtain ⟨t, ht, rfl⟩ := (hi.has _ _).1 hx
    exact nodup ht
  settled hx := by
    obtain ⟨t, ht, rfl⟩ := (hi.has _ _).1 hx
    exact settled ht
  waiting hx hreg k := by
    obtain ⟨t, ht, rfl⟩ := (hi.has _ _).1 hx
    rw [waiting ht hreg, hg.handle ht]
    constructor
    · rintro ⟨a, v, hv, hk, hr⟩
      exact ⟨a, g v, hi.has_image hv, (hg.handle hv).trans hk, hr⟩
    · rintro ⟨a, w, hw, hk, hr⟩
      obtain ⟨v, hv, rfl⟩ := (hi.has _ _).1 hw
      exact ⟨a, v, hv, (hg.handle hv).symm.trans hk, hr⟩

/-! ### Changes of one variant -/

@[simp] theorem changed_self {f : Variant → Variant} {v : Variant} : changed v.handle f v = f v :=
  if_pos rfl

theorem Has.modify {s : Store} {id : Nat} {v : Variant} (hv : s.Has id v) (f : Variant → Variant) :
    (s.modifyVariant v.handle f).Has id (f v) :=
  has_modifyVariant.2 ⟨v, hv, changed_self.symm⟩

theorem changed_of_eq {h : Handle} {f : Variant → Variant} {v : Variant} (hv : v.handle = h) :
    changed h f v = f v :=
  if_pos hv

theorem changed_of_ne {h : Handle} {f : Variant → Variant} {v : Variant} (hv : v.handle ≠ h) :
    changed h f v = v :=
  if_neg hv

theorem Sound.keeps_changed {s : Store} {next : Nat} (hs : s.Sound next) {h : Handle} {f : Variant → Variant}
    (hf : ∀ {i v}, s.Has i v → v.handle = h → (f v).handle = v.handle ∧
      (f v).framework.name = v.framework.name ∧ (f v).Tidy) : s.Keeps (changed h f) where
  handle {i v} hv := by
    by_cases hh : v.handle = h
    · rw [changed_of_eq hh, (hf hv hh).1]
    · rw [changed_of_ne hh]
  name {i v} hv := by
    by_cases hh : v.handle = h
    · rw [changed_of_eq hh, (hf hv hh).2.1]
    · rw [changed_of_ne hh]
  tidy {i v} hv := by
    by_cases hh : v.handle = h
    · rw [changed_of_eq hh]
      exact (hf hv hh).2.2
    · rw [changed_of_ne hh]
      exact hs.tidy hv

theorem Sound.keeps {s : Store} {next : Nat} (hs : s.Sound next) (h : Handle) {f : Variant → Variant}
    (hf : ∀ v, (f v).handle = v.handle ∧ (f v).framework.name = v.framework.name ∧ (v.Tidy → (f v).Tidy)) :
    s.Keeps (changed h f) :=
  hs.keeps_changed fun {_ v} hv _ => ⟨(hf v).1, (hf v).2.1, (hf v).2.2 (hs.tidy hv)⟩

/-- A change of a variant that keeps its edges both ways keeps the links if its list of waiting variants
is the right one for whether it is registered afterwards. -/
theorem Linked.modify {s : Store} (hl : s.Linked) {h : Handle} {f : Variant → Variant}
    (hf : ∀ v, (f v).handle = v.handle) (hg : s.Keeps (changed h f))
    (hrefs : ∀ {i v}, s.Has i v → v.handle = h → (f v).projectRefs = v.projectRefs)
    (hdeps : ∀ {i v}, s.Has i v → v.handle = h → (f v).dependees = v.dependees)
    (hnodup : ∀ {i v}, s.Has i v → v.handle = h → (f v).pending.Nodup)
    (hsettled : ∀ {i v}, s.Has i v → v.handle = h → (f v).registered = true → (f v).pending = [])
    (hwaiting : ∀ {i v}, s.Has i v → v.handle = h → (f v).registered = false → ∀ k,
      (k ∈ (f v).pending ↔ ∃ a w, s.Has a w ∧ w.handle = k ∧ w.RefersTo h)) :
    (s.modifyVariant h f).Linked := by
  have hrefs' : ∀ {i v}, s.Has i v → (changed h f v).projectRefs = v.projectRefs := by
    intro i v hv
    by_cases hh : v.handle = h
    · rw [changed_of_eq hh, hrefs hv hh]
    · rw [changed_of_ne hh]
  have hrefers : ∀ {i v}, s.Has i v → ∀ t, ((changed h f v).RefersTo t ↔ v.RefersTo t) := by
    intro i v hv t
    rw [Variant.RefersTo, hrefs' hv]
    rfl
  refine Linked.of_image (image_modify s h hf) hg ?_ ?_ ?_ ?_ ?_
  · intro i v path t hv hpath
    rw [hrefs' hv] at hpath
    exact hl.target hv hpath
  · intro j t ht q a
    have hdeps' : (changed h f t).dependees = t.dependees := by
      by_cases hh : t.handle = h
      · rw [changed_of_eq hh, hdeps ht hh]
      · rw [changed_of_ne hh]
    rw [hdeps', hl.dependee ht q a]
    exact and_congr_right fun _ => exists_congr fun v => and_congr_right fun hv => (hrefers hv _).symm
  · intro j t ht
    by_cases hh : t.handle = h
    · rw [changed_of_eq hh]
      exact hnodup ht hh
    · rw [changed_of_ne hh]
      exact hl.nodup ht
  · intro j t ht
    by_cases hh : t.handle = h
    · rw [changed_of_eq hh]
      exact hsettled ht hh
    · rw [changed_of_ne hh]
      exact hl.settled ht
  · intro j t ht hreg k
    have hcongr : (∃ a v, s.Has a v ∧ v.handle = k ∧ (changed h f v).RefersTo t.handle) ↔
        ∃ a v, s.Has a v ∧ v.handle = k ∧ v.RefersTo t.handle :=
      exists_congr fun a => exists_congr fun v => and_congr_right fun hv =>
        and_congr_right fun _ => hrefers hv _
    rw [hcongr]
    by_cases hh : t.handle = h
    · rw [changed_of_eq hh] at hreg ⊢
      rw [hwaiting ht hh hreg, hh]
    · rw [changed_of_ne hh] at hreg ⊢
      exact hl.waiting ht hreg k

/-! ### New projects and variants -/

theorem Sound.track {s : Store} {next : Nat} (hs : s.Sound next) (path : String) :
    (s.track path).1.Sound next where
  clean hi := by
    rcases path?_track.1 hi with hi | ⟨-, rfl⟩
    · exact hs.clean hi
    · exact Path.clean_clean path
  handle_inj hu hv := hs.handle_inj (has_track.1 hu) (has_track.1 hv)
  name_inj hu hv := hs.name_inj (has_track.1 hu) (has_track.1 hv)
  handle_lt hv := hs.handle_lt (has_track.1 hv)
  tidy hv := hs.tidy (has_track.1 hv)
  unique i := by
    rw [handles_track]
    exact hs.unique i

theorem owns_track {s : Store} {path : String} {i : Nat} {h : Handle} :
    (s.track path).1.Owns i h ↔ s.Owns i h :=
  exists_congr fun _ => and_congr_left fun _ => has_track

theorem Linked.track {s : Store} (hl : s.Linked) (path : String) :
    (s.track path).1.Linked where
  target hv hpath := by
    obtain ⟨j, ho, hj⟩ := hl.target (has_track.1 hv) hpath
    exact ⟨j, owns_track.2 ho, path?_track.2 (Or.inl hj)⟩
  dependee ht q a := by
    rw [hl.dependee (has_track.1 ht) q a]
    constructor
    · rintro ⟨ha, v, hv, hr⟩
      exact ⟨path?_track.2 (Or.inl ha), v, has_track.2 hv, hr⟩
    · rintro ⟨ha, v, hv, hr⟩
      -- a project that refers to something was there before, under the same path
      obtain ⟨q', hq'⟩ := (has_track.1 hv).path
      have hsame : (s.track path).1.path? a = some q' := path?_track.2 (Or.inl hq')
      rw [ha, Option.some.injEq] at hsame
      exact ⟨hsame ▸ hq', v, has_track.1 hv, hr⟩
  nodup ht := hl.nodup (has_track.1 ht)
  settled ht := hl.settled (has_track.1 ht)
  waiting ht hreg k := by
    rw [hl.waiting (has_track.1 ht) hreg]
    exact exists_congr fun a => exists_congr fun v => and_congr_left fun _ => has_track.symm

theorem Sound.addVariant {s : Store} {next : Nat} (hs : s.Sound next) {id : Nat} {q : String}
    (hid : s.path? id = some q) {framework : Framework}
    (hnew : ∀ {v}, s.Has id v → v.framework.name ≠ framework.name) :
    (s.addVariant id { framework := framework, handle := ⟨next⟩ }).Sound (next + 1) where
  clean hi := by
    rw [path?_addVariant] at hi
    exact hs.clean hi
  handle_inj hx hy heq := by
    have hlt : ∀ {i v}, s.Has i v → v.handle ≠ ⟨next⟩ := by
      intro i v hv hh
      have := hs.handle_lt hv
      rw [hh] at this
      exact Nat.lt_irrefl next this
    rcases (has_addVariant ⟨q, hid⟩).1 hx with hu | ⟨rfl, rfl⟩ <;>
      rcases (has_addVariant ⟨q, hid⟩).1 hy with hv | ⟨rfl, rfl⟩
    · exact hs.handle_inj hu hv heq
    · exact absurd heq (hlt hu)
    · exact absurd heq.symm (hlt hv)
    · exact ⟨rfl, rfl⟩
  name_inj hx hy heq := by
    rcases (has_addVariant ⟨q, hid⟩).1 hx with hu | ⟨rfl, rfl⟩ <;>
      rcases (has_addVariant ⟨q, hid⟩).1 hy with hv | ⟨hi, rfl⟩
    · exact hs.name_inj hu hv heq
    · subst hi
      exact absurd heq (hnew hu)
    · exact absurd heq.symm (hnew hv)
    · rfl
  handle_lt hv := by
    rcases (has_addVariant ⟨q, hid⟩).1 hv with hv | ⟨rfl, rfl⟩
    · exact Nat.lt_succ_of_lt (hs.handle_lt hv)
    · exact Nat.lt_succ_self next
  tidy hv := by
    rcases (has_addVariant ⟨q, hid⟩).1 hv with hv | ⟨rfl, rfl⟩
    · exact hs.tidy hv
    · exact ⟨List.nodup_nil, List.nodup_nil, List.nodup_nil, List.nodup_nil⟩
  unique i := by
    rw [handles_addVariant ⟨q, hid⟩]
    split
    · rw [List.nodup_append]
      refine ⟨hs.unique i, List.nodup_singleton _, ?_⟩
      rintro h hh _ hn rfl
      obtain ⟨v, hv, rfl⟩ := mem_handles.1 hh
      have hlt := hs.handle_lt hv
      rw [List.mem_singleton.1 hn] at hlt
      exact Nat.lt_irrefl next hlt
    · rw [List.append_nil]
      exact hs.unique i

/-- A new variant has no edges, and no edge leads to a handle that was not given out. -/
theorem Linked.addVariant {s : Store} {next : Nat} (hs : s.Sound next) (hl : s.Linked) {id : Nat} {q : String}
    (hid : s.path? id = some q) (framework : Framework) :
    (s.addVariant id { framework := framework, handle := ⟨next⟩ }).Linked := by
  have hhas : ∀ {i w}, (s.addVariant id { framework := framework, handle := ⟨next⟩ }).Has i w ↔
      s.Has i w ∨ (i = id ∧ w = { framework := framework, handle := ⟨next⟩ }) :=
    has_addVariant ⟨q, hid⟩
  have hfresh : ∀ {i v}, s.Has i v → ¬v.RefersTo ⟨next⟩ := by
    rintro i v hv ⟨path, hpath⟩
    obtain ⟨j, ⟨u, hu, hh⟩, -⟩ := hl.target hv hpath
    have := hs.handle_lt hu
    rw [hh] at this
    exact Nat.lt_irrefl next this
  have hempty : ∀ t, ¬Variant.RefersTo { framework := framework, handle := ⟨next⟩ } t := by
    rintro t ⟨path, hpath⟩
    cases hpath
  have hrefers : ∀ {a t}, (∃ v, (s.addVariant id { framework := framework, handle := ⟨next⟩ }).Has a v ∧
      v.RefersTo t) ↔ ∃ v, s.Has a v ∧ v.RefersTo t := by
    intro a t
    constructor
    · rintro ⟨v, hv, hr⟩
      rcases hhas.1 hv with hv | ⟨rfl, rfl⟩
      · exact ⟨v, hv, hr⟩
      · exact absurd hr (hempty t)
    · rintro ⟨v, hv, hr⟩
      exact ⟨v, hhas.2 (Or.inl hv), hr⟩
  constructor
  · intro i v path t hv hpath
    rcases hhas.1 hv with hv | ⟨rfl, rfl⟩
    · obtain ⟨j, ⟨u, hu, hh⟩, hj⟩ := hl.target hv hpath
      exact ⟨j, ⟨u, hhas.2 (Or.inl hu), hh⟩, (path?_addVariant ..).trans hj⟩
    · cases hpath
  · intro j t ht q' a
    rw [path?_addVariant, hrefers]
    rcases hhas.1 ht with ht | ⟨rfl, rfl⟩
    · exact hl.dependee ht q' a
    · constructor
      · intro h
        cases h
      · rintro ⟨-, v, hv, hr⟩
        exact absurd hr (hfresh hv)
  · intro j t ht
    rcases hhas.1 ht with ht | ⟨rfl, rfl⟩
    · exact hl.nodup ht
    · exact List.nodup_nil
  · intro j t ht hreg
    rcases hhas.1 ht with ht | ⟨rfl, rfl⟩
    · exact hl.settled ht hreg
    · rfl
  · intro j t ht hreg k
    have hcongr : (∃ a v, (s.addVariant id { framework := framework, handle := ⟨next⟩ }).Has a v ∧
        v.handle = k ∧ v.RefersTo t.handle) ↔ ∃ a v, s.Has a v ∧ v.handle = k ∧ v.RefersTo t.handle := by
      constructor
      · rintro ⟨a, v, hv, hk, hr⟩
        rcases hhas.1 hv with hv | ⟨rfl, rfl⟩
        · exact ⟨a, v, hv, hk, hr⟩
        · exact absurd hr (hempty t.handle)
      · rintro ⟨a, v, hv, hk, hr⟩
        exact ⟨a, v, hhas.2 (Or.inl hv), hk, hr⟩
    rw [hcongr]
    rcases hhas.1 ht with ht | ⟨rfl, rfl⟩
    · exact hl.waiting ht hreg k
    · constructor
      · intro h
        cases h
      · rintro ⟨a, v, hv, -, hr⟩
        exact absurd hr (hfresh hv)

end Store

end CompilationBridge.Graph
