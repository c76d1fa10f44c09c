import CompilationBridge.Message
import Mathlib.Data.List.Perm.Basic
import Mathlib.Data.List.Sort

/-! Unresolved dependencies in any order. The entries of a payload come in no order of their own; the
list that is made of them is one of its arrangements by name, and each arrangement is made of some order.
So the order shows exactly where two reports have one name and two versions. -/

namespace CompilationBridge.Dependencies

/-! ### Arrangements -/

/-- The entries of a payload, in the order in which they come. -/
def list (deps : Dependencies) : List (String × DependencyDescription) :=
  (deps.entries.getD .empty).entries

/-- The payload with its entries in another order. -/
def inOrder (deps : Dependencies) (order : List (String × DependencyDescription)) : Dependencies :=
  { deps with entries := some ⟨order⟩ }

/-- An entry that is to be reported: it is not resolved, and neither its key nor its name is the root. -/
def IsMissing (root : String) (e : String × DependencyDescription) : Prop :=
  e.2.resolved = false ∧ e.1 ≠ root ∧ e.2.name ≠ root

instance (root : String) : DecidablePred (IsMissing root) :=
  fun _ => inferInstanceAs (Decidable (_ ∧ _))

/-- The report of an entry. Where it has no name it goes by its key. -/
def report (e : String × DependencyDescription) : PackageDependency :=
  ⟨if e.2.name = "" then e.1 else e.2.name, e.2.version⟩

/-- One report of each entry that is to be reported. -/
def reports (deps : Dependencies) : List PackageDependency :=
  (deps.list.filter (IsMissing deps.root)).map report

/-- The reports of a payload, by name. -/
def Arranges (deps : Dependencies) (out : List PackageDependency) : Prop :=
  out.Perm deps.reports ∧ out.Pairwise (·.name ≤ ·.name)

/-- The order of names, as sorting takes it. -/
def nameLe (a b : PackageDependency) : Bool :=
  a.name ≤ b.name

theorem unresolved_eq (deps : Dependencies) : deps.unresolved = deps.reports.mergeSort nameLe := by
  have hmissing : (fun e : String × DependencyDescription =>
      !(e.2.resolved || e.1 == deps.root || e.2.name == deps.root)) =
      fun e => decide (IsMissing deps.root e) := by
    funext e
    rw [Bool.eq_iff_iff, decide_eq_true_iff]
    simp [IsMissing, and_assoc]
  exact congrArg (fun p => ((deps.list.filter p).map report).mergeSort nameLe) hmissing

/-- Another order of the values of a function comes from another order of its arguments. -/
theorem exists_perm_map {α β : Type} {f : α → β} {l : List α} {out : List β} (h : out.Perm (l.map f)) :
    ∃ order : List α, order.Perm l ∧ order.map f = out := by
  have hvalues : List.Forall₂ (fun b a => b = f a) (l.map f) l := by
    rw [List.forall₂_map_left_iff]
    exact List.forall₂_same.2 fun _ _ => rfl
  obtain ⟨order, hout, horder⟩ := List.perm_comp_forall₂ h hvalues
  refine ⟨order, horder, ?_⟩
  clear horder hvalues h
  induction hout with
  | nil => rfl
  | cons hhead _ ih => rw [List.map_cons, ih, hhead]

/-- Each arrangement is made of some order of the entries. -/
theorem Arranges.exists_order {deps : Dependencies} {out : List PackageDependency} (h : deps.Arranges out) :
    ∃ order, order.Perm deps.list ∧ (deps.inOrder order).unresolved = out := by
  obtain ⟨missing, hperm, hmap⟩ := exists_perm_map h.1
  let rest := deps.list.filter fun e => !decide (IsMissing deps.root e)
  refine ⟨missing ++ rest, (hperm.append_right rest).trans (List.filter_append_perm _ _), ?_⟩
  have hreports : (deps.inOrder (missing ++ rest)).reports = out := by
    have hkept : missing.filter (IsMissing deps.root) = missing :=
      List.filter_eq_self.2 fun e he => (List.mem_filter.1 (hperm.mem_iff.1 he)).2
    have hleft : rest.filter (IsMissing deps.root) = [] := by
      simp [rest, List.filter_filter]
    change ((missing ++ rest).filter (IsMissing deps.root)).map report = out
    rw [List.filter_append, hkept, hleft, List.append_nil, hmap]
  rw [unresolved_eq, hreports]
  exact List.mergeSort_of_pairwise (h.2.imp decide_eq_true)

end CompilationBridge.Dependencies
