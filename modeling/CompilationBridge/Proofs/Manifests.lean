import CompilationBridge.Proofs.Graph.Closure
import CompilationBridge.Proofs.Graph.Tracking
import CompilationBridge.Proofs.Paths
import CompilationBridge.Server

/-! Manifests and their lock files. A clean path is put together again from its directory and its last segment,
whether it has a root, has none or begins with parent segments. So the lock file beside a manifest leads back to
the manifest, and a change of the lock file, however its path is spelled, to the project that was tracked. -/

namespace CompilationBridge

namespace Path

variable {rooted : Bool} {done ss : List (List Char)} {s : List Char} {path name : String}

/-! ### The last segment -/

/-- The text of segments with a slash behind each. -/
def stem (rooted : Bool) (ss : List (List Char)) : List Char :=
  (if rooted then ['/'] else []) ++ ss.flatMap (· ++ ['/'])

theorem join_concat (ss : List (List Char)) (s : List Char) :
    join (ss ++ [s]) = ss.flatMap (· ++ ['/']) ++ s := by
  induction ss with
  | nil => rfl
  | cons t rest ih =>
      have hcons : join (t :: (rest ++ [s])) = t ++ '/' :: join (rest ++ [s]) := by
        cases rest <;> rfl
      rw [List.cons_append, hcons, ih]
      simp

theorem assemble_concat (rooted : Bool) (ss : List (List Char)) (s : List Char) :
    assemble rooted (ss ++ [s]) = stem rooted ss ++ s := by
  cases rooted <;> simp [assemble, stem, join_concat]

/-- A stem that is not empty ends with a slash. -/
theorem stem_eq (rooted : Bool) (ss : List (List Char)) :
    stem rooted ss = [] ∨ ∃ cs, stem rooted ss = cs ++ ['/'] := by
  rcases List.eq_nil_or_concat ss with rfl | ⟨more, t, rfl⟩
  · cases rooted
    · exact Or.inl rfl
    · exact Or.inr ⟨[], rfl⟩
  · exact Or.inr ⟨(if rooted then ['/'] else []) ++ more.flatMap (· ++ ['/']) ++ t, by simp [stem]⟩

theorem ne_slash_of_mem_reverse (hs : '/' ∉ s) : ∀ c ∈ s.reverse, decide (c ≠ '/') = true := by
  intro c hc
  refine decide_eq_true ?_
  rintro rfl
  exact hs (List.mem_reverse.1 hc)

theorem upToSlash_stem (hs : '/' ∉ s) : upToSlash (stem rooted ss ++ s) = stem rooted ss := by
  rw [upToSlash, List.reverse_append, List.dropWhile_append_of_pos (ne_slash_of_mem_reverse hs)]
  rcases stem_eq rooted ss with hnil | ⟨cs, hcs⟩
  · simp [hnil]
  · simp [hcs]

theorem base_stem (hs : '/' ∉ s) (hne : s ≠ []) :
    base (String.ofList (stem rooted ss ++ s)) = String.ofList s := by
  have hall := ne_slash_of_mem_reverse hs
  -- Read from its end, the path has no slash to leave out, and the segment goes up to the slash of the stem.
  have hkeep : (s.reverse ++ (stem rooted ss).reverse).dropWhile (· = '/') =
      s.reverse ++ (stem rooted ss).reverse := by
    obtain ⟨c, rest, hrest⟩ := List.exists_cons_of_ne_nil (List.reverse_ne_nil_iff.2 hne)
    have hc : c ≠ '/' := of_decide_eq_true (hall c (hrest ▸ List.mem_cons_self))
    rw [hrest, List.cons_append, List.dropWhile_cons_of_neg (by simpa using hc)]
  have hlast : (s.reverse ++ (stem rooted ss).reverse).takeWhile (· ≠ '/') = s.reverse := by
    rw [List.takeWhile_append_of_pos hall]
    rcases stem_eq rooted ss with hnil | ⟨cs, hcs⟩
    · simp [hnil]
    · simp [hcs]
  have hfull : s.reverse ++ (stem rooted ss).reverse ≠ [] := by simp [hne]
  obtain ⟨c, rest, hrest⟩ := List.exists_cons_of_ne_nil hfull
  rw [hrest] at hkeep hlast
  simp only [base, String.toList_ofList, List.append_eq_nil_iff, hne, and_false, if_false, List.reverse_append,
    hrest, hkeep]
  rw [hlast, List.reverse_reverse]

/-! ### Clean paths, segment by segment -/

theorem IsClean.tail (h : IsClean rooted (s :: done)) : IsClean rooted done := by
  obtain ⟨names, parents, heq, hnames, hparents, hroot⟩ := h
  cases names with
  | cons t more =>
      obtain ⟨-, rfl⟩ := List.cons.inj heq
      exact ⟨more, parents, rfl, fun x hx => hnames x (List.mem_cons_of_mem t hx), hparents, hroot⟩
  | nil =>
      rw [List.nil_append] at heq
      subst heq
      refine ⟨[], done, rfl, hnames, fun x hx => hparents x (List.mem_cons_of_mem s hx), fun hr => ?_⟩
      exact absurd (hroot hr) (List.cons_ne_nil s done)

theorem IsClean.concat (h : IsClean rooted done) (hs : IsName s) : IsClean rooted (s :: done) :=
  push_name hs ▸ h.push hs.2.2.2

theorem IsClean.isRooted (h : IsClean rooted done) : isRooted (assemble rooted done.reverse) = rooted :=
  isRooted_assemble (fun s hs => h.no_slash s (List.mem_reverse.1 hs))
    fun s hs => h.ne_nil s (List.mem_reverse.1 hs)

theorem IsClean.cleanChars (h : IsClean rooted done) :
    cleanChars (assemble rooted done.reverse) = assemble rooted done.reverse := by
  rw [Path.cleanChars, h.isRooted, cleanSegments_assemble h]

theorem IsClean.assemble_ne_nil (h : IsClean rooted done) : assemble rooted done.reverse ≠ [] :=
  h.cleanChars ▸ cleanChars_ne_nil _

/-- One more segment after a clean path is one more step of cleaning. -/
theorem IsClean.cleanChars_concat (h : IsClean rooted done) (hs : '/' ∉ s) :
    Path.cleanChars (assemble rooted done.reverse ++ '/' :: s) =
      assemble rooted (Path.push rooted done s).reverse := by
  have hdone : (segments (assemble rooted done.reverse)).foldl (Path.push rooted) [] = done :=
    List.reverse_injective (cleanSegments_assemble h)
  rw [Path.cleanChars, isRooted_append h.assemble_ne_nil, h.isRooted, segments_append, segments_of_no_slash hs,
    cleanSegments, List.foldl_append, hdone]
  rfl

theorem IsClean.cleanChars_stem (h : IsClean rooted done) :
    Path.cleanChars (stem rooted done.reverse) = assemble rooted done.reverse := by
  cases done with
  | nil => cases rooted <;> rfl
  | cons t more =>
      have hstem : stem rooted (t :: more).reverse = assemble rooted (t :: more).reverse ++ '/' :: [] := by
        rw [List.reverse_cons, assemble_concat]
        simp [stem]
      rw [hstem, h.cleanChars_concat List.not_mem_nil]
      rfl

/-- The text of clean segments, last first. -/
def text (rooted : Bool) (done : List (List Char)) : String :=
  String.ofList (assemble rooted done.reverse)

theorem exists_text (path : String) : ∃ rooted done, IsClean rooted done ∧ clean path = text rooted done :=
  ⟨_, _, isClean_segments path.toList, rfl⟩

theorem text_cons (rooted : Bool) (done : List (List Char)) (s : List Char) :
    text rooted (s :: done) = String.ofList (stem rooted done.reverse ++ s) := by
  rw [text, List.reverse_cons, assemble_concat]

theorem IsClean.base_text (h : IsClean rooted (s :: done)) : base (text rooted (s :: done)) = String.ofList s := by
  rw [text_cons]
  exact base_stem (h.no_slash s List.mem_cons_self) (h.ne_nil s List.mem_cons_self)

theorem IsClean.dir_text (h : IsClean rooted (s :: done)) : dir (text rooted (s :: done)) = text rooted done := by
  rw [text_cons, dir, String.toList_ofList, upToSlash_stem (h.no_slash s List.mem_cons_self),
    h.tail.cleanChars_stem]
  rfl

theorem IsClean.append_text (h : IsClean rooted done) (hs : IsName s) :
    append (text rooted done) (String.ofList s) = text rooted (s :: done) := by
  have hne : text rooted done ≠ "" := fun hempty => h.assemble_ne_nil (String.ofList_inj.1 hempty)
  have hslash : "/".toList = ['/'] := rfl
  rw [append_eq hne, clean, text]
  simp only [String.toList_append, String.toList_ofList, hslash, List.append_assoc, List.singleton_append]
  rw [h.cleanChars_concat hs.2.2.2, push_name hs]
  rfl

/-! ### Directory and last segment -/

variable {parent : String}

theorem clean_append (hparent : parent ≠ "") (child : String) : clean (append parent child) = append parent child := by
  rw [append_eq hparent, clean_clean]

theorem clean_dir (path : String) : clean (dir path) = dir path := by
  rw [dir, clean, String.toList_ofList, cleanChars_cleanChars]

/-- The directory of what was put into a clean directory is that directory. -/
theorem dir_append (hparent : clean parent = parent) (hname : IsName name.toList) :
    dir (append parent name) = parent := by
  obtain ⟨rooted, done, h, heq⟩ := exists_text parent
  rw [hparent] at heq
  have happend := h.append_text hname
  rw [String.ofList_toList] at happend
  rw [heq, happend]
  exact (h.concat hname).dir_text

theorem base_append (hparent : clean parent = parent) (hname : IsName name.toList) :
    base (append parent name) = name := by
  obtain ⟨rooted, done, h, heq⟩ := exists_text parent
  rw [hparent] at heq
  have happend := h.append_text hname
  rw [String.ofList_toList] at happend
  rw [heq, happend, (h.concat hname).base_text, String.ofList_toList]

/-- A clean path whose last segment is a name is put together from its directory and the name. -/
theorem append_dir (hpath : clean path = path) (hbase : base path = name) (hname : IsName name.toList) :
    append (dir path) name = path := by
  obtain ⟨rooted, done, h, heq⟩ := exists_text path
  rw [hpath] at heq
  subst heq
  cases done with
  | nil =>
      -- The last segment of the root is a slash and that of the dot is the dot, and neither is a name.
      subst hbase
      cases rooted <;> exact absurd hname (by unfold IsName; decide)
  | cons s done =>
      rw [h.base_text] at hbase
      subst hbase
      rw [String.toList_ofList] at hname
      rw [h.dir_text, h.tail.append_text hname]

end Path

namespace Manifest

theorem isName_fileName : Path.IsName fileName.toList := by
  unfold Path.IsName
  decide

theorem isName_lockFileName : Path.IsName lockFileName.toList := by
  unfold Path.IsName
  decide

theorem clean_lockFile (path : String) : Path.clean (lockFile path) = lockFile path :=
  Path.clean_append (Path.clean_dir path ▸ Path.clean_ne_empty _) _

theorem base_lockFile (path : String) : Path.base (lockFile path) = lockFileName :=
  Path.base_append (Path.clean_dir path) isName_lockFileName

/-- The lock file beside a path belongs to the manifest beside it. -/
theorem ofLockFile_lockFile (path : String) : ofLockFile (lockFile path) = Path.append (Path.dir path) fileName := by
  rw [ofLockFile, lockFile, Path.dir_append (Path.clean_dir path) isName_lockFileName]

/-- The lock file beside a path leads back to the path exactly if that is the clean path of a manifest. -/
theorem ofLockFile_lockFile_iff (path : String) :
    ofLockFile (Path.clean (lockFile path)) = path ↔ Path.clean path = path ∧ Path.base path = fileName := by
  rw [clean_lockFile, ofLockFile_lockFile]
  constructor
  · intro h
    rw [← h]
    exact ⟨Path.clean_append (Path.clean_dir path ▸ Path.clean_ne_empty _) _,
      Path.base_append (Path.clean_dir path) isName_fileName⟩
  · exact fun ⟨hclean, hbase⟩ => Path.append_dir hclean hbase isName_fileName

end Manifest

namespace ProjectSystem

open CompilationBridge.Graph (ProjectRef)

/-- The lock file that is watched for a project is the one beside its manifest. -/
theorem eq_of_watchedLockFile {s : Shared} {project : ProjectRef} {rest : List Task} {e : Surroundings}
    {lock : String} (h : Effect.watchedLockFile lock ∈ (perform s (.watchLockFile project) rest e).2.2) :
    lock = Manifest.lockFile project.path := by
  have heffect := List.mem_singleton.1 h
  cases hfault : e.fault with
  | some fault =>
      rw [hfault] at heffect
      cases heffect
  | none =>
      rw [hfault] at heffect
      exact Effect.watchedLockFile.inj heffect

end ProjectSystem

namespace Graph

theorem Store.contextId_mem_closure {s : Store} {path : String} {id : Nat} (h : s.contextId? path = some id) :
    id ∈ s.closure path :=
  Store.mem_closure_iff.2 ⟨path, Relation.ReflTransGen.refl, h⟩

namespace Reconciler

/-- A project that a run has announced is found by its path from then on. -/
theorem contextId?_of_announced (extension : String) (outages : Outages Workspace.Method)
    (ops later : List Operation) {project : ProjectRef}
    (h : project ∈ (facing extension outages).announcements ops) :
    Path.clean project.path = project.path ∧
      (((facing extension outages).operateAll ops).operateAll later).store.contextId? project.path =
        some project.contextId := by
  have hpaths := isClean_operateAll extension outages ops
  have hgains := gains_operateAll ((facing extension outages).operateAll ops) later
  rw [announcements_facing] at h
  have hpath := Store.mem_refs.1 h
  have hclean := hpaths project.path (Store.mem_paths_iff.2 ⟨project.contextId, hpath⟩)
  refine ⟨hclean, ?_⟩
  rw [Store.contextId?, hclean]
  exact Store.idOf?_iff.2 (hgains.path hpath)

/-- **A changed lock file leads to the project it belongs to.** Cleaning a path twice cleans it once. The
lock file beside a path leads back to the path exactly if that is the clean path of a manifest, whether it
has a root, has none or begins with parent segments. So take any project that a run has announced whose
manifest has the usual name, and any path that cleans to the lock file watched for it. The change arms a
timer for the path of the project, which has its context id then and after whatever follows, so what the
timer sends reaches the project. If an editor reports the lock file, it is taken for one as well. -/
theorem lock_change_resolves (extension : String) (outages : Outages Workspace.Method)
    (ops later : List Operation) :
    (∀ path, Path.clean (Path.clean path) = Path.clean path) ∧
    (∀ path, Manifest.ofLockFile (Path.clean (Manifest.lockFile path)) = path ↔
      Path.clean path = path ∧ Path.base path = Manifest.fileName) ∧
    ∀ project ∈ (facing extension outages).announcements ops, Path.base project.path = Manifest.fileName →
      ∀ shared rest surroundings lock, ProjectSystem.Effect.watchedLockFile lock ∈
          (ProjectSystem.perform shared (.watchLockFile project) rest surroundings).2.2 →
        let s := (((facing extension outages).operateAll ops).operateAll later).store
        let key : Notifier.Key := ⟨project.path, .refreshDependencies⟩
        (∀ changed, Path.clean changed = Path.clean lock →
          (∀ n now, Notifier.lockFileChanged n now changed = n.schedule now key) ∧
          s.contextId? (Manifest.ofLockFile (Path.clean changed)) = some project.contextId) ∧
        project.contextId ∈ Notifier.audience s key ∧
        ∀ (server : Server) now, server.fileChanged now lock =
          ({ server with notifier := server.notifier.schedule now key }, []) := by
  refine ⟨Path.clean_clean, Manifest.ofLockFile_lockFile_iff, ?_⟩
  intro project hmem hbase shared rest surroundings lock hwatched s key
  obtain ⟨hclean, hid⟩ := contextId?_of_announced extension outages ops later hmem
  obtain rfl := ProjectSystem.eq_of_watchedLockFile hwatched
  have hback := (Manifest.ofLockFile_lockFile_iff project.path).2 ⟨hclean, hbase⟩
  have harms : ∀ changed, Path.clean changed = Path.clean (Manifest.lockFile project.path) →
      ∀ n now, Notifier.lockFileChanged n now changed = n.schedule now key := by
    intro changed hchanged n now
    rw [Notifier.lockFileChanged, hchanged, hback]
  refine ⟨fun changed hchanged => ⟨harms changed hchanged, ?_⟩, Store.contextId_mem_closure hid, ?_⟩
  · rw [hchanged, hback]
    exact hid
  · intro server now
    have hname : Path.base (Manifest.lockFile project.path) ≠ Manifest.fileName := by
      rw [Manifest.base_lockFile]
      decide
    rw [Server.fileChanged, if_neg hname, if_pos (Manifest.base_lockFile project.path), Server.lockFileChanged,
      harms _ rfl]

theorem lock_change_resolves_three_spellings :
    let start := facing ".cs" {}
    let ops := [.track "/ws/src/app/project.json", .track "project.json", .track "../lib/./project.json"]
    let later := [.track "other/project.json"]
    let watched := fun project =>
      (ProjectSystem.perform default (.watchLockFile project) [] {}).2.2.map fun
        | .watchedLockFile lock => lock
        | _ => ""
    let s := ((start.operateAll ops).operateAll later).store
    start.announcements ops =
      [⟨1, "/ws/src/app/project.json"⟩, ⟨2, "project.json"⟩, ⟨3, "../lib/project.json"⟩] ∧
    (start.announcements ops).map watched =
      [["/ws/src/app/project.lock.json"], ["project.lock.json"], ["../lib/project.lock.json"]] ∧
    s.contextId? (Manifest.ofLockFile (Path.clean "/ws//src/app/obj/../project.lock.json")) = some 1 ∧
    s.contextId? (Manifest.ofLockFile (Path.clean "./project.lock.json")) = some 2 ∧
    s.contextId? (Manifest.ofLockFile (Path.clean "..//lib/project.lock.json")) = some 3 := by
  intro start ops later watched s
  have hannounced : start.announcements ops =
      [⟨1, "/ws/src/app/project.json"⟩, ⟨2, "project.json"⟩, ⟨3, "../lib/project.json"⟩] := by
    decide +kernel
  obtain ⟨-, -, hfinds⟩ := lock_change_resolves ".cs" {} ops later
  have hfound : ∀ project ∈ start.announcements ops, Path.base project.path = Manifest.fileName →
      ∀ changed, Path.clean changed = Path.clean (Manifest.lockFile project.path) →
        s.contextId? (Manifest.ofLockFile (Path.clean changed)) = some project.contextId :=
    fun project hmem hbase changed hchanged =>
      ((hfinds project hmem hbase default [] {} _ List.mem_cons_self).1 changed hchanged).2
  rw [hannounced] at hfound
  refine ⟨hannounced, by decide +kernel, ?_, ?_, ?_⟩
  · exact hfound ⟨1, "/ws/src/app/project.json"⟩ (by decide) (by decide +kernel) _ (by decide +kernel)
  · exact hfound ⟨2, "project.json"⟩ (by decide) (by decide +kernel) _ (by decide +kernel)
  · exact hfound ⟨3, "../lib/project.json"⟩ (by decide) (by decide +kernel) _ (by decide +kernel)

end Reconciler

end Graph

end CompilationBridge
