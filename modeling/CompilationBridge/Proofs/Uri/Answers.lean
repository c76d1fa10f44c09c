import CompilationBridge.Editor.Params
import CompilationBridge.Proofs.Paths
import CompilationBridge.Proofs.Uri.Grammar

/-! Answers to the URIs of editors. A text that does not start like a file URI is refused, and one that the
grammar takes is a clean path. What is left, a text that starts like a file URI and is outside of the
grammar, is what crashes, as a file event or as the folder of a workspace. -/

namespace CompilationBridge

namespace Uri

open Text (Bytes)

/-- A text that starts like a file URI and cannot be read as a URI. -/
def Unreadable (uri : String) : Prop :=
  ∃ rest, Text.encode uri = scheme ++ rest ∧ ∀ path, ¬Reads rest path

/-- A clean path or an error. -/
def Location.IsAnswer : Location → Prop
  | .path p => Path.clean p = p
  | .refused _ => True
  | .crash => False

theorem location_of_reads {uri : String} {rest path : Bytes} (huri : Text.encode uri = scheme ++ rest)
    (h : Reads rest path) :
    location uri = .path (Path.clean (Text.decode (if hasRootedDrive path then path.tail else path))) := by
  have hscheme : scheme.isPrefixOf (scheme ++ rest) = true :=
    List.isPrefixOf_iff_prefix.2 (List.prefix_append scheme rest)
  simp only [location, huri, if_pos hscheme, List.drop_left, decodedPath?_eq_some_iff.2 h]

theorem unreadable_iff {uri : String} :
    Unreadable uri ↔ ∃ rest, Text.encode uri = scheme ++ rest ∧ decodedPath? rest = none := by
  simp only [Unreadable, Option.eq_none_iff_forall_ne_some, ne_eq, decodedPath?_eq_some_iff]

theorem location_of_unreadable {uri : String} (h : Unreadable uri) : location uri = .crash := by
  obtain ⟨rest, huri, hnone⟩ := unreadable_iff.1 h
  have hscheme : scheme.isPrefixOf (scheme ++ rest) = true :=
    List.isPrefixOf_iff_prefix.2 (List.prefix_append scheme rest)
  simp only [location, huri, if_pos hscheme, List.drop_left, hnone]

theorem location_of_other {uri : String} (h : ∀ rest, Text.encode uri ≠ scheme ++ rest) :
    location uri = .refused (.invalidParams (Text.quote uri ++ " is not a file uri")) := by
  refine if_neg fun hscheme => ?_
  obtain ⟨rest, hrest⟩ := List.isPrefixOf_iff_prefix.1 hscheme
  exact h rest hrest.symm

theorem isAnswer_of_not_unreadable {uri : String} (h : ¬Unreadable uri) : (location uri).IsAnswer := by
  by_cases hscheme : ∃ rest, Text.encode uri = scheme ++ rest
  · obtain ⟨rest, huri⟩ := hscheme
    obtain ⟨path, hpath⟩ : ∃ path, Reads rest path := by
      by_contra hnone
      exact h ⟨rest, huri, fun path hpath => hnone ⟨path, hpath⟩⟩
    rw [location_of_reads huri hpath]
    exact Path.clean_clean _
  · rw [location_of_other fun rest huri => hscheme ⟨rest, huri⟩]
    trivial

theorem Location.IsAnswer.ne_crash {l : Location} (h : l.IsAnswer) : l ≠ .crash := by
  rintro rfl
  exact h

/-- A URI crashes the reader exactly if it starts like a file URI and cannot be read, and is answered
otherwise. -/
theorem location_crash_iff (uri : String) :
    (location uri = .crash ↔ Unreadable uri) ∧ (location uri = .crash ∨ (location uri).IsAnswer) := by
  by_cases h : Unreadable uri
  · exact ⟨iff_of_true (location_of_unreadable h) h, Or.inl (location_of_unreadable h)⟩
  · have hanswer := isAnswer_of_not_unreadable h
    exact ⟨iff_of_false hanswer.ne_crash h, Or.inr hanswer⟩

end Uri

namespace Editor

/-- The URI that names the folder an editor opened: of its first workspace folder, or else its root. -/
def InitializeParams.folderUri? (p : InitializeParams) : Option String :=
  (((p.workspaceFolders.getD []).head?.map (·.uri)).toList ++ [p.rootUri]).find? (· ≠ "")

theorem InitializeParams.workspaceRoot_eq (p : InitializeParams) :
    p.workspaceRoot =
      match p.folderUri? with
      | some uri => Uri.location uri
      | none => if p.rootPath ≠ "" then .path (Path.clean p.rootPath) else .refused .noWorkspaceRoot := by
  unfold workspaceRoot rootLocation folderUri?
  cases (p.workspaceFolders.getD []).head? with
  | none => by_cases hroot : p.rootUri = "" <;> simp [hroot]
  | some folder => by_cases huri : folder.uri = "" <;> by_cases hroot : p.rootUri = "" <;> simp [huri, hroot]

/-- The URIs of editors that crash are those that start like a file URI and cannot be read as one: as the
URI of a file event, and as the URI that names the folder of a workspace. All others come to a clean path
or to an error, and so does a folder that no URI names. -/
theorem crash_iff_unreadable (e : FileEvent) (p : InitializeParams) :
    ((e.path = .crash ↔ Uri.Unreadable e.uri) ∧ (e.path = .crash ∨ e.path.IsAnswer)) ∧
      (p.workspaceRoot = .crash ↔ ∃ uri, p.folderUri? = some uri ∧ Uri.Unreadable uri) ∧
        (p.workspaceRoot = .crash ∨ p.workspaceRoot.IsAnswer) := by
  refine ⟨Uri.location_crash_iff e.uri, ?_⟩
  rw [p.workspaceRoot_eq]
  cases p.folderUri? with
  | some uri =>
      obtain ⟨hcrash, hanswer⟩ := Uri.location_crash_iff uri
      refine ⟨?_, hanswer⟩
      simpa using hcrash
  | none =>
      by_cases hpath : p.rootPath = ""
      · simp [hpath, Uri.Location.IsAnswer]
      · simp [hpath, Uri.Location.IsAnswer]

/-- A percent sign without two digits crashes, in a file event and as the root of a workspace. -/
theorem malformed_escape_crashes :
    FileEvent.path { uri := "file:///%zz" } = .crash ∧
      InitializeParams.workspaceRoot { rootUri := "file:///%zz" } = .crash := by
  have hunreadable : Uri.Unreadable "file:///%zz" :=
    Uri.unreadable_iff.2 ⟨[0x2F, 0x25, 0x7A, 0x7A], by decide +kernel, by decide +kernel⟩
  refine ⟨Uri.location_of_unreadable hunreadable, ?_⟩
  rw [InitializeParams.workspaceRoot_eq]
  simp only [InitializeParams.folderUri?, Option.getD_none, List.head?_nil, Option.map_none,
    Option.toList_none, List.nil_append]
  rw [List.find?_singleton, if_pos (by decide)]
  exact Uri.location_of_unreadable hunreadable

end Editor

end CompilationBridge
