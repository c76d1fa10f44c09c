import CompilationBridge.Graph.Closure
import CompilationBridge.Proofs.Graph.Symmetry
import Mathlib.Data.List.Sort
import Mathlib.Logic.Function.Iterate
import Mathlib.Logic.Relation

/-! The projects that a change reaches. Between two rounds of the search, the edges back at a path that was
visited lead to paths that were visited or lie on the stack, so once the stack is empty every path to which
edges lead back from the origin has been visited, and no other one. The edges back at the variants of a
project lead to exactly the projects that reference it, so these are the paths of the projects from which a
chain of references leads to the origin, whatever cycles the references make. -/

namespace CompilationBridge.Graph.Store

variable {s : Store} {next : Nat}

/-- A project references another one: a variant of it has a reference under the path of the other. -/
def Refers (s : Store) (a b : Nat) : Prop :=
  ∃ v path, s.Has a v ∧ s.path? b = some path ∧ v.projectRefs.contains path = true

/-! ### One edge -/

theorem contextId?_iff {path : String} (hclean : Path.clean path = path) {id : Nat} :
    s.contextId? path = some id ↔ s.path? id = some path := by
  rw [contextId?, hclean, idOf?_iff]

/-- The edges back of a project lead to the projects that reference it. -/
theorem Linked.mem_dependees (hs : s.Sound next) (hl : s.Linked) {j : Nat} {path : String}
    (hj : s.path? j = some path) (q : String) :
    q ∈ s.dependees path ↔ ∃ a, s.path? a = some q ∧ s.Refers a j := by
  obtain ⟨p, hp, -⟩ := Option.map_eq_some_iff.1 hj
  have hid : s.contextId? path = some j := (contextId?_iff (hs.clean hj)).2 hj
  simp only [dependees, hid, Option.bind_some, hp, List.mem_mergeSort, List.mem_eraseDups,
    List.mem_flatMap, Table.mem_keys]
  constructor
  · rintro ⟨t, ht, a, ha⟩
    have ht : s.Has j t := ⟨p, hp, ht⟩
    obtain ⟨hq, v, hv, hrefers⟩ := (hl.dependee ht q a).1 ha
    have hget := (hl.refersTo_iff hs ht hj hv).1 hrefers
    exact ⟨a, hq, v, path, hv, hj, (Table.contains_iff _ _).2 ⟨_, hget⟩⟩
  · rintro ⟨a, hq, v, path', hv, hj', hcontains⟩
    obtain rfl : path' = path := Option.some.inj (hj'.symm.trans hj)
    obtain ⟨t, hget⟩ := (Table.contains_iff _ _).1 hcontains
    obtain ⟨j', ⟨u, hu, rfl⟩, hpath⟩ := hl.target hv hget
    obtain rfl := path_inj hpath hj
    obtain ⟨p', hp', hmem⟩ := hu
    obtain rfl : p' = p := Option.some.inj (hp'.symm.trans hp)
    exact ⟨u, hmem, a, (hl.dependee ⟨p', hp', hmem⟩ q a).2 ⟨hq, v, hv, path', hget⟩⟩

theorem dependees_of_untracked {path : String} (hclean : Path.clean path = path)
    (hnone : ∀ j, s.path? j ≠ some path) : s.dependees path = [] := by
  have hid : s.contextId? path = none := by
    rw [contextId?, hclean, idOf?_eq_none_iff]
    exact hnone
  rw [dependees, hid, Option.bind_none]

/-- An edge leads back from a path to that of a referring project. -/
def LeadsBack (s : Store) (path q : String) : Prop :=
  q ∈ s.dependees path

end Store

/-! ### The search -/

namespace Search

variable {s : Store} {origin : String} {x : Search}

theorem mem_push {visited stack paths : List String} {q : String} :
    q ∈ push visited stack paths ↔ q ∈ stack ∨ q ∈ paths ∧ q ∉ visited := by
  induction paths generalizing stack with
  | nil => simp
  | cons path rest ih =>
      rw [push_cons, ih, List.mem_cons]
      split <;> grind

/-- What holds of a search between two rounds. -/
structure Explores (s : Store) (origin : String) (x : Search) : Prop where
  begun : origin ∈ x.visited ∨ origin ∈ x.stack
  led : ∀ q, q ∈ x.visited ∨ q ∈ x.stack → Relation.ReflTransGen s.LeadsBack origin q
  closed : ∀ path ∈ x.visited, ∀ q ∈ s.dependees path, q ∈ x.visited ∨ q ∈ x.stack
  once : x.visited.Nodup
  ids : x.ids = x.visited.reverse.filterMap s.contextId?

theorem explores_start (s : Store) (origin : String) : Explores s origin (start origin) where
  begun := Or.inr (List.mem_singleton_self origin)
  led q hq := by
    rcases hq with hq | hq
    · cases hq
    · rw [List.mem_singleton.1 hq]
  closed path hpath := by cases hpath
  once := List.nodup_nil
  ids := rfl

/-- A path that was visited before is passed over. -/
theorem Explores.pass (h : Explores s origin x) {path : String} {rest : List String}
    (hstack : x.stack = path :: rest) (hvisited : path ∈ x.visited) :
    Explores s origin { x with stack := rest } := by
  -- what is taken off the stack is among the visited paths already
  have hkept : ∀ q, q ∈ x.visited ∨ q ∈ x.stack ↔ q ∈ x.visited ∨ q ∈ rest := by
    intro q
    rw [hstack, List.mem_cons]
    constructor
    · rintro (hq | rfl | hq)
      · exact Or.inl hq
      · exact Or.inl hvisited
      · exact Or.inr hq
    · rintro (hq | hq)
      · exact Or.inl hq
      · exact Or.inr (Or.inr hq)
  exact {
    begun := (hkept origin).1 h.begun
    led := fun q hq => h.led q ((hkept q).2 hq)
    closed := fun p hp q hq => (hkept q).1 (h.closed p hp q hq)
    once := h.once
    ids := h.ids }

theorem Explores.visit (h : Explores s origin x) {path : String} {rest : List String}
    (hstack : x.stack = path :: rest) (hnew : path ∉ x.visited) :
    Explores s origin (x.visit s path rest) := by
  have hpath : Relation.ReflTransGen s.LeadsBack origin path :=
    h.led path (Or.inr (hstack ▸ List.mem_cons_self))
  -- what is taken off the stack is among the visited paths now
  have hkept : ∀ q, q ∈ x.visited ∨ q ∈ x.stack →
      q ∈ (x.visit s path rest).visited ∨ q ∈ (x.visit s path rest).stack := by
    intro q hq
    rw [hstack, List.mem_cons] at hq
    rcases hq with hq | rfl | hq
    · exact Or.inl (List.mem_cons_of_mem _ hq)
    · exact Or.inl List.mem_cons_self
    · exact Or.inr (mem_push.2 (Or.inl hq))
  refine ⟨hkept origin h.begun, ?led, ?closed, List.nodup_cons.2 ⟨hnew, h.once⟩, ?ids⟩
  case led =>
    rintro q (hq | hq)
    · rcases List.mem_cons.1 hq with rfl | hq
      · exact hpath
      · exact h.led q (Or.inl hq)
    · rcases mem_push.1 hq with hq | ⟨hq, -⟩
      · exact h.led q (Or.inr (hstack ▸ List.mem_cons_of_mem _ hq))
      · exact hpath.tail hq
  case closed =>
    intro p hp q hq
    rcases List.mem_cons.1 hp with rfl | hp
    · by_cases hq' : q ∈ p :: x.visited
      · exact Or.inl hq'
      · exact Or.inr (mem_push.2 (Or.inr ⟨hq, hq'⟩))
    · exact hkept q (h.closed p hp q hq)
  case ids =>
    change x.ids ++ (s.contextId? path).toList = (path :: x.visited).reverse.filterMap s.contextId?
    rw [h.ids, List.reverse_cons, List.filterMap_append]
    cases hid : s.contextId? path <;> simp [hid]

theorem Explores.round (h : Explores s origin x) : Explores s origin (x.round s) := by
  cases hstack : x.stack with
  | nil => rwa [Search.round, hstack]
  | cons path rest =>
      by_cases hvisited : path ∈ x.visited
      · rw [round_of_mem s hstack hvisited]
        exact h.pass hstack hvisited
      · rw [round_of_notMem s hstack hvisited]
        exact h.visit hstack hvisited

theorem Explores.finish (h : Explores s origin x) : Explores s origin (x.finish s) := by
  induction x using Search.finish.induct s with
  | case1 x hstack => rwa [Search.finish, if_pos hstack]
  | case2 x hstack ih =>
      rw [Search.finish, if_neg hstack]
      exact ih h.round

/-- Some number of rounds brings a search to its end. -/
theorem finish_eq_iterate (s : Store) (x : Search) :
    ∃ rounds, x.finish s = (Search.round s)^[rounds] x ∧ (x.finish s).stack = [] := by
  induction x using Search.finish.induct s with
  | case1 x hstack => exact ⟨0, by rw [Search.finish, if_pos hstack]; exact ⟨rfl, hstack⟩⟩
  | case2 x hstack ih =>
      obtain ⟨rounds, hrounds, hempty⟩ := ih
      rw [Search.finish, if_neg hstack]
      exact ⟨rounds + 1, hrounds, hempty⟩

/-- A search that is over has visited exactly the paths to which edges lead back from its origin. -/
theorem Explores.mem_visited (h : Explores s origin x) (hstack : x.stack = []) {q : String} :
    q ∈ x.visited ↔ Relation.ReflTransGen s.LeadsBack origin q := by
  have hnil : ∀ p, p ∈ x.visited ∨ p ∈ x.stack → p ∈ x.visited := by
    intro p hp
    rw [hstack] at hp
    exact hp.resolve_right List.not_mem_nil
  refine ⟨fun hq => h.led q (Or.inl hq), fun hchain => ?_⟩
  induction hchain with
  | refl => exact hnil origin h.begun
  | tail _ hq ih => exact hnil _ (h.closed _ ih _ hq)

end Search

namespace Store

variable {s : Store} {next : Nat}

/-- The closure lists the context ids of the paths to which edges lead back from the origin. -/
theorem mem_closure_iff {origin : String} {id : Nat} :
    id ∈ s.closure origin ↔
      ∃ q, Relation.ReflTransGen s.LeadsBack origin q ∧ s.contextId? q = some id := by
  obtain ⟨-, -, hstack⟩ := Search.finish_eq_iterate s (Search.start origin)
  have h := (Search.explores_start s origin).finish
  rw [closure, List.mem_mergeSort, h.ids, List.mem_filterMap]
  simp only [List.mem_reverse, h.mem_visited hstack]

/-! ### Chains of references -/

/-- The edges back from a tracked path lead to the projects from which a chain of references leads to it. -/
theorem leadsBack_iff_chain (hs : s.Sound next) (hl : s.Linked) {j : Nat} {origin : String}
    (hj : s.path? j = some origin) {q : String} :
    Relation.ReflTransGen s.LeadsBack origin q ↔
      ∃ a, s.path? a = some q ∧ Relation.ReflTransGen s.Refers a j := by
  constructor
  · intro hback
    induction hback with
    | refl => exact ⟨j, hj, Relation.ReflTransGen.refl⟩
    | tail _ hq ih =>
        obtain ⟨b, hb, hchain⟩ := ih
        obtain ⟨a, ha, hrefers⟩ := (hl.mem_dependees hs hb _).1 hq
        exact ⟨a, ha, hchain.head hrefers⟩
  · rintro ⟨a, ha, hchain⟩
    -- the induction goes along the chain from its end at the origin
    induction hchain using Relation.ReflTransGen.head_induction_on generalizing q with
    | refl =>
        rw [hj] at ha
        rw [Option.some.inj ha]
    | head hrefers _ ih =>
        obtain ⟨-, path, -, hb, -⟩ := id hrefers
        exact (ih hb).tail ((hl.mem_dependees hs hb q).2 ⟨_, ha, hrefers⟩)

/-- No edge leads back from a path that is not tracked. -/
theorem eq_of_leadsBack_of_untracked {origin : String} (hclean : Path.clean origin = origin)
    (hnone : ∀ j, s.path? j ≠ some origin) {q : String}
    (hback : Relation.ReflTransGen s.LeadsBack origin q) : q = origin := by
  rcases hback.cases_head with rfl | ⟨p, hp, -⟩
  · rfl
  · rw [LeadsBack, dependees_of_untracked hclean hnone] at hp
    cases hp

theorem clean_of_leadsBack (hs : s.Sound next) (hl : s.Linked) {origin : String}
    (hclean : Path.clean origin = origin) {q : String}
    (hback : Relation.ReflTransGen s.LeadsBack origin q) : Path.clean q = q := by
  by_cases htracked : ∃ j, s.path? j = some origin
  · obtain ⟨j, hj⟩ := htracked
    obtain ⟨a, ha, -⟩ := (leadsBack_iff_chain hs hl hj).1 hback
    exact hs.clean ha
  · rw [eq_of_leadsBack_of_untracked hclean (fun j hj => htracked ⟨j, hj⟩) hback, hclean]

theorem path?_of_chain {a j : Nat} {origin : String} (hj : s.path? j = some origin)
    (hchain : Relation.ReflTransGen s.Refers a j) : ∃ q, s.path? a = some q := by
  rcases hchain.cases_head with rfl | ⟨b, ⟨v, -, hv, -, -⟩, -⟩
  · exact ⟨origin, hj⟩
  · exact hv.path

/-! ### Context ids -/

/-- The ids of the projects that a change reaches are those from which a chain of references leads to the
project at its path. -/
theorem mem_closure (hs : s.Sound next) (hl : s.Linked) {origin : String}
    (hclean : Path.clean origin = origin) (a : Nat) :
    a ∈ s.closure origin ↔ ∃ j, s.path? j = some origin ∧ Relation.ReflTransGen s.Refers a j := by
  rw [mem_closure_iff]
  constructor
  · rintro ⟨q, hback, hid⟩
    have ha := (contextId?_iff (clean_of_leadsBack hs hl hclean hback)).1 hid
    by_cases htracked : ∃ j, s.path? j = some origin
    · obtain ⟨j, hj⟩ := htracked
      obtain ⟨b, hb, hchain⟩ := (leadsBack_iff_chain hs hl hj).1 hback
      rw [path_inj ha hb]
      exact ⟨j, hj, hchain⟩
    · rw [eq_of_leadsBack_of_untracked hclean (fun j hj => htracked ⟨j, hj⟩) hback] at ha
      exact absurd ⟨a, ha⟩ htracked
  · rintro ⟨j, hj, hchain⟩
    obtain ⟨q, hq⟩ := path?_of_chain hj hchain
    exact ⟨q, (leadsBack_iff_chain hs hl hj).2 ⟨a, hq, hchain⟩, (contextId?_iff (hs.clean hq)).2 hq⟩

/-- The search finds no id twice: it visits no path twice, and the paths that it visits are clean. -/
theorem nodup_ids (hs : s.Sound next) (hl : s.Linked) {origin : String}
    (hclean : Path.clean origin = origin) : ((Search.start origin).finish s).ids.Nodup := by
  have h := (Search.explores_start s origin).finish
  rw [h.ids]
  generalize (Search.start origin).finish s = x at h
  have hids : x.visited.reverse.filterMap s.contextId? = x.visited.reverse.filterMap s.idOf? := by
    refine List.filterMap_congr fun q hq => ?_
    rw [contextId?, clean_of_leadsBack hs hl hclean (h.led q (Or.inl (List.mem_reverse.1 hq)))]
  rw [hids]
  refine (List.nodup_reverse.2 h.once).filterMap fun p q id hp hq => ?_
  exact Option.some.inj ((idOf?_iff.1 hp).symm.trans (idOf?_iff.1 hq))

theorem closure_strictlyIncreasing (hs : s.Sound next) (hl : s.Linked) {origin : String}
    (hclean : Path.clean origin = origin) : (s.closure origin).Pairwise (· < ·) := by
  have hnodup : (s.closure origin).Nodup :=
    (List.mergeSort_perm _ _).nodup_iff.2 (nodup_ids hs hl hclean)
  have hsorted : (s.closure origin).Pairwise (· ≤ ·) := List.pairwise_mergeSort' (· ≤ ·) _
  exact hsorted.imp₂ (fun a b hle hne => Nat.lt_of_le_of_ne hle hne) hnodup

/-- The search comes to its end after some rounds, with each path visited once. -/
theorem closure_eq_rounds (s : Store) (origin : String) :
    ∃ rounds, let x := (Search.round s)^[rounds] (Search.start origin)
      x.stack = [] ∧ x.visited.Nodup ∧ s.closure origin = x.ids.mergeSort (· ≤ ·) := by
  obtain ⟨rounds, hrounds, hstack⟩ := Search.finish_eq_iterate s (Search.start origin)
  have h := (Search.explores_start s origin).finish
  refine ⟨rounds, ?_⟩
  rw [← hrounds]
  exact ⟨hstack, h.once, rfl⟩

end Store

end CompilationBridge.Graph
