import CompilationBridge.Path
import Mathlib.Data.List.Basic

/-! Clean paths. The segments of a clean path are named ones, after parent segments that only a path
without a root has; taking such segments one by one changes nothing, so cleaning a clean path gives it
back. -/

namespace CompilationBridge.Path

/-! ### Segments of joined text -/

theorem segments_ne_nil (cs : List Char) : segments cs ≠ [] := by
  cases cs with
  | nil => simp [segments]
  | cons c rest =>
      rw [segments]
      split
      · simp
      · split <;> simp

theorem segments_of_no_slash {s : List Char} (hs : '/' ∉ s) : segments s = [s] := by
  induction s with
  | nil => rfl
  | cons c rest ih =>
      rw [List.mem_cons, not_or] at hs
      have hc : c ≠ '/' := fun h => hs.1 h.symm
      rw [segments, if_neg hc, ih hs.2]

theorem segments_append (cs ds : List Char) : segments (cs ++ '/' :: ds) = segments cs ++ segments ds := by
  induction cs with
  | nil => simp [segments]
  | cons c rest ih =>
      rw [List.cons_append, segments, segments, ih]
      split
      · rfl
      · obtain ⟨s, more, hsegments⟩ := List.exists_cons_of_ne_nil (segments_ne_nil rest)
        rw [hsegments]
        rfl

theorem segments_append_slash {s : List Char} (hs : '/' ∉ s) (cs : List Char) :
    segments (s ++ '/' :: cs) = s :: segments cs := by
  rw [segments_append, segments_of_no_slash hs, List.singleton_append]

theorem segments_join {ss : List (List Char)} (hne : ss ≠ []) (hs : ∀ s ∈ ss, '/' ∉ s) :
    segments (join ss) = ss := by
  induction ss with
  | nil => exact absurd rfl hne
  | cons s rest ih =>
      cases rest with
      | nil => exact segments_of_no_slash (hs s List.mem_cons_self)
      | cons t more =>
          rw [join, segments_append_slash (hs s List.mem_cons_self),
            ih (List.cons_ne_nil t more) fun x hx => hs x (List.mem_cons_of_mem s hx)]
          exact fun h => List.cons_ne_nil t more h

theorem no_slash_of_mem_segments {cs s : List Char} (h : s ∈ segments cs) : '/' ∉ s := by
  induction cs generalizing s with
  | nil =>
      rw [segments, List.mem_singleton] at h
      simp [h]
  | cons c rest ih =>
      rw [segments] at h
      split at h
      · rcases List.mem_cons.1 h with h | h
        · simp [h]
        · exact ih h
      · rename_i hc
        cases hrest : segments rest with
        | nil => exact absurd hrest (segments_ne_nil rest)
        | cons t more =>
            rw [hrest] at h ih
            rcases List.mem_cons.1 h with h | h
            · subst h
              rw [List.mem_cons, not_or]
              exact ⟨fun hs => hc hs.symm, ih List.mem_cons_self⟩
            · exact ih (List.mem_cons_of_mem t h)

/-! ### Clean segments -/

/-- A segment that is kept as it is. -/
def IsName (s : List Char) : Prop :=
  s ≠ [] ∧ s ≠ here ∧ s ≠ parent ∧ '/' ∉ s

/-- Clean segments, last first: names, then the parent segments of a path without a root. -/
def IsClean (rooted : Bool) (done : List (List Char)) : Prop :=
  ∃ names parents, done = names ++ parents ∧ (∀ s ∈ names, IsName s) ∧ (∀ s ∈ parents, s = parent) ∧
    (rooted = true → parents = [])

theorem IsClean.push {rooted : Bool} {done : List (List Char)} (h : IsClean rooted done) {s : List Char}
    (hs : '/' ∉ s) : IsClean rooted (push rooted done s) := by
  obtain ⟨names, parents, rfl, hnames, hparents, hroot⟩ := h
  unfold Path.push
  split
  · exact ⟨names, parents, rfl, hnames, hparents, hroot⟩
  · rename_i hskip
    rw [not_or] at hskip
    split
    · cases names with
      | cons last before =>
          have hlast := (hnames last List.mem_cons_self).2.2.1
          simp only [List.cons_append, if_neg hlast]
          exact ⟨before, parents, rfl, fun x hx => hnames x (List.mem_cons_of_mem last hx), hparents,
            hroot⟩
      | nil =>
          cases parents with
          | nil =>
              cases rooted with
              | true => exact ⟨[], [], rfl, hnames, hparents, hroot⟩
              | false => exact ⟨[], [parent], rfl, hnames, by simp, by simp⟩
          | cons last before =>
              have hlast := hparents last List.mem_cons_self
              simp only [List.nil_append, if_pos hlast]
              refine ⟨[], parent :: last :: before, rfl, hnames, ?_, fun hr => ?_⟩
              · intro x hx
                rcases List.mem_cons.1 hx with hx | hx
                · exact hx
                · exact hparents x hx
              · exact absurd (hroot hr) (List.cons_ne_nil _ _)
    · rename_i hparent
      refine ⟨s :: names, parents, rfl, ?_, hparents, hroot⟩
      intro x hx
      rcases List.mem_cons.1 hx with hx | hx
      · exact hx ▸ ⟨hskip.1, hskip.2, hparent, hs⟩
      · exact hnames x hx

theorem isClean_foldl_push (rooted : Bool) {ss done : List (List Char)} (hs : ∀ s ∈ ss, '/' ∉ s)
    (h : IsClean rooted done) : IsClean rooted (ss.foldl (push rooted) done) := by
  induction ss generalizing done with
  | nil => exact h
  | cons s rest ih =>
      exact ih (fun x hx => hs x (List.mem_cons_of_mem s hx)) (h.push (hs s List.mem_cons_self))

theorem IsClean.no_slash {rooted : Bool} {done : List (List Char)} (h : IsClean rooted done) :
    ∀ s ∈ done, '/' ∉ s := by
  obtain ⟨names, parents, rfl, hnames, hparents, -⟩ := h
  intro s hs
  rcases List.mem_append.1 hs with hs | hs
  · exact (hnames s hs).2.2.2
  · simp [hparents s hs, parent]

theorem IsClean.ne_nil {rooted : Bool} {done : List (List Char)} (h : IsClean rooted done) :
    ∀ s ∈ done, s ≠ [] := by
  obtain ⟨names, parents, rfl, hnames, hparents, -⟩ := h
  intro s hs
  rcases List.mem_append.1 hs with hs | hs
  · exact (hnames s hs).1
  · simp [hparents s hs, parent]

theorem push_name {rooted : Bool} {done : List (List Char)} {s : List Char} (h : IsName s) :
    push rooted done s = s :: done := by
  unfold push
  rw [if_neg (not_or.2 ⟨h.1, h.2.1⟩), if_neg h.2.2.1]

theorem push_parent {parents : List (List Char)} (h : ∀ s ∈ parents, s = parent) :
    push false parents parent = parent :: parents := by
  cases parents with
  | nil => rfl
  | cons last before =>
      have hlast := h last List.mem_cons_self
      simp [push, parent, here, hlast]

/-- Taking clean segments in their order gives them back. -/
theorem cleanSegments_of_isClean {rooted : Bool} {done : List (List Char)} (h : IsClean rooted done) :
    cleanSegments rooted done.reverse = done.reverse := by
  rw [cleanSegments, List.foldl_reverse]
  congr 1
  obtain ⟨names, parents, rfl, hnames, hparents, hroot⟩ := h
  have hbase : parents.foldr (fun s done => push rooted done s) [] = parents := by
    cases rooted with
    | true => rw [hroot rfl, List.foldr_nil]
    | false =>
        clear hroot
        induction parents with
        | nil => rfl
        | cons s rest ih =>
            have hrest : ∀ x ∈ rest, x = parent := fun x hx => hparents x (List.mem_cons_of_mem s hx)
            rw [List.foldr_cons, ih hrest, hparents s List.mem_cons_self]
            exact push_parent hrest
  rw [List.foldr_append, hbase]
  induction names with
  | nil => rfl
  | cons s rest ih =>
      rw [List.foldr_cons, ih fun x hx => hnames x (List.mem_cons_of_mem s hx)]
      exact push_name (hnames s List.mem_cons_self)

/-! ### Cleaning twice -/

theorem cleanSegments_nil_cons (rooted : Bool) (ss : List (List Char)) :
    cleanSegments rooted ([] :: ss) = cleanSegments rooted ss := by
  simp [cleanSegments, push]

theorem join_head {s : List Char} {ss : List (List Char)} (hs : s ≠ []) :
    (join (s :: ss)).head? = s.head? := by
  cases ss with
  | nil => rfl
  | cons t more =>
      obtain ⟨c, rest, rfl⟩ := List.exists_cons_of_ne_nil hs
      rfl

theorem isRooted_assemble {rooted : Bool} {ss : List (List Char)} (hslash : ∀ s ∈ ss, '/' ∉ s)
    (hne : ∀ s ∈ ss, s ≠ []) : isRooted (assemble rooted ss) = rooted := by
  cases rooted with
  | true => rfl
  | false =>
      cases ss with
      | nil => rfl
      | cons s rest =>
          obtain ⟨c, more, hs⟩ := List.exists_cons_of_ne_nil (hne s List.mem_cons_self)
          have hc : c ≠ '/' := fun h => hslash s List.mem_cons_self (by rw [hs, h]; exact List.mem_cons_self)
          have hhead : (join (s :: rest)).head? = s.head? := join_head (hne s List.mem_cons_self)
          rw [hs] at hhead
          simp [assemble, isRooted, hs, hhead, hc]

theorem cleanSegments_assemble {rooted : Bool} {done : List (List Char)} (h : IsClean rooted done) :
    cleanSegments rooted (segments (assemble rooted done.reverse)) = done.reverse := by
  have hslash : ∀ s ∈ done.reverse, '/' ∉ s := fun s hs => h.no_slash s (List.mem_reverse.1 hs)
  by_cases hnil : done.reverse = []
  · rw [hnil]
    cases rooted <;> rfl
  · cases rooted with
    | true =>
        rw [assemble, if_pos rfl, segments, if_pos rfl, cleanSegments_nil_cons,
          segments_join hnil hslash]
        exact cleanSegments_of_isClean h
    | false =>
        rw [assemble, if_neg (by simp), if_neg hnil, segments_join hnil hslash]
        exact cleanSegments_of_isClean h

theorem isClean_segments (cs : List Char) :
    IsClean (isRooted cs) ((segments cs).foldl (push (isRooted cs)) []) :=
  isClean_foldl_push _ (fun _ hs => no_slash_of_mem_segments hs) ⟨[], [], by simp⟩

theorem isRooted_cleanChars (cs : List Char) : isRooted (cleanChars cs) = isRooted cs :=
  isRooted_assemble (fun s hs => (isClean_segments cs).no_slash s (List.mem_reverse.1 hs))
    (fun s hs => (isClean_segments cs).ne_nil s (List.mem_reverse.1 hs))

theorem cleanSegments_cleanChars (cs : List Char) :
    cleanSegments (isRooted cs) (segments (cleanChars cs)) = cleanSegments (isRooted cs) (segments cs) :=
  cleanSegments_assemble (isClean_segments cs)

theorem cleanChars_cleanChars (cs : List Char) : cleanChars (cleanChars cs) = cleanChars cs := by
  rw [cleanChars, isRooted_cleanChars, cleanSegments_cleanChars]
  rfl

/-- **A clean path is its own clean form.** -/
@[simp] theorem clean_clean (path : String) : clean (clean path) = clean path := by
  simp only [clean, String.toList_ofList, cleanChars_cleanChars]

theorem cleanChars_ne_nil (cs : List Char) : cleanChars cs ≠ [] := by
  rw [cleanChars, assemble]
  split
  · exact List.cons_ne_nil _ _
  · split
    · exact List.cons_ne_nil _ _
    · rename_i hnil
      obtain ⟨s, ss, hss⟩ := List.exists_cons_of_ne_nil hnil
      have hmem : s ∈ cleanSegments (isRooted cs) (segments cs) := hss ▸ List.mem_cons_self
      have hs : s ≠ [] := (isClean_segments cs).ne_nil s (List.mem_reverse.1 hmem)
      rw [hss]
      cases ss <;> simp [join, hs]

/-- A clean path has a text. -/
theorem clean_ne_empty (path : String) : clean path ≠ "" :=
  fun h => cleanChars_ne_nil path.toList (String.ofList_inj.1 h)

/-! ### Paths one after the other -/

theorem isRooted_append {cs : List Char} (h : cs ≠ []) (ds : List Char) :
    isRooted (cs ++ ds) = isRooted cs := by
  obtain ⟨c, rest, rfl⟩ := List.exists_cons_of_ne_nil h
  rfl

/-- What stands before the last part of a path may be cleaned first. -/
theorem cleanChars_append {cs : List Char} (h : cs ≠ []) (ds : List Char) :
    cleanChars (cleanChars cs ++ '/' :: ds) = cleanChars (cs ++ '/' :: ds) := by
  have hbefore : (segments (cleanChars cs)).foldl (push (isRooted cs)) [] =
      (segments cs).foldl (push (isRooted cs)) [] :=
    List.reverse_injective (cleanSegments_cleanChars cs)
  have hroot : isRooted (cleanChars cs ++ '/' :: ds) = isRooted (cs ++ '/' :: ds) := by
    rw [isRooted_append (cleanChars_ne_nil cs), isRooted_append h, isRooted_cleanChars]
  have hsegments : cleanSegments (isRooted (cs ++ '/' :: ds)) (segments (cleanChars cs ++ '/' :: ds)) =
      cleanSegments (isRooted (cs ++ '/' :: ds)) (segments (cs ++ '/' :: ds)) := by
    rw [isRooted_append h, segments_append, segments_append, cleanSegments, cleanSegments, List.foldl_append,
      List.foldl_append, hbefore]
  change assemble _ (cleanSegments _ (segments (cleanChars cs ++ '/' :: ds))) = _
  rw [hroot, hsegments]
  rfl

theorem clean_append_clean {path : String} (h : path ≠ "") (child : String) :
    clean (clean path ++ "/" ++ child) = clean (path ++ "/" ++ child) := by
  have hchars : path.toList ≠ [] := fun hnil => h (String.toList_inj.1 hnil)
  have hslash : "/".toList = ['/'] := rfl
  simp only [clean, String.toList_append, String.toList_ofList, hslash, List.append_assoc, List.singleton_append,
    cleanChars_append hchars]

theorem append_eq {path : String} (h : path ≠ "") (child : String) :
    append path child = clean (path ++ "/" ++ child) :=
  if_neg h

/-- Two parts after a path come one after the other. -/
theorem append_append {path : String} (h : path ≠ "") (middle child : String) :
    append (append path middle) child = clean (path ++ "/" ++ middle ++ "/" ++ child) := by
  rw [append_eq h, append_eq (clean_ne_empty _), clean_append_clean]
  simp

end CompilationBridge.Path
