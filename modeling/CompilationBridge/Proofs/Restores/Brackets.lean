import CompilationBridge.Proofs.Restores.Accounts
import CompilationBridge.Proofs.Telling
import Mathlib.Data.List.Chain

/-! The progress of restores as an editor sees it. A run creates and begins the token of its project when it
tells that it has started, and ends it when it tells how it went. Nothing keeps the runs of a project apart
before they take its lock, so a run may start while another one uses the token. The progress of the token is
a series of whole brackets, each of a created, a begun and an ended token, if and only if no run creates the
token while another run uses it. -/

namespace CompilationBridge.Restores

open CompilationBridge.Graph (ProjectRef)
open Editors (Telling Mark Progress Stage progressOf marksOf mem_ids)

/-- Restores and the editors that they tell. -/
structure Reporting where
  restores : Restores
  editors : Editors := {}
  /-- What runs are telling, by the place of the run. -/
  tellings : Table Nat Telling := .empty
  sent : List (Editors.Note × Option Fault) := []

namespace Reporting

inductive Move where
  | register (id : Handle) (connection : Option String)
  | deregister (id : Handle)
  /-- Connections begin or cease to fail. -/
  | disturb (outages : Outages Editors.Line)
  | run (project : ProjectRef)
  | exit (process : Nat) (code : Int)
  | output (process now : Nat)
  | stop
  /-- A run takes a step, if it is ready and has nothing to tell. -/
  | work (i : Nat) (answers : Surroundings)
  /-- A run that has something to tell begins with it, takes a step of it or is done with it. -/
  | tell (i now : Nat)

def work (s : Reporting) (i : Nat) (answers : Surroundings) : Reporting :=
  match s.restores.runs[i]?, s.restores.step i answers with
  | some x, some (restores, _) => if x.event?.isSome then s else { s with restores := restores }
  | _, _ => s

def tell (s : Reporting) (i now : Nat) : Reporting :=
  match s.restores.runs[i]? with
  | none => s
  | some x =>
    match x.event?, s.tellings.get? i with
    | none, _ => s
    | some event, none => { s with tellings := s.tellings.put i (.start s.editors event) }
    | some _, some t =>
      if t.editors = [] then
        { s with
          restores := (s.restores.act i x { now := now, fault := Fault.join t.faults }).1
          tellings := s.tellings.erase i }
      else
        let told := t.step s.editors
        { s with
          editors := told.editors
          tellings := s.tellings.put i told.telling
          sent := s.sent ++ told.sent }

def take (s : Reporting) : Move → Reporting
  | .register id connection =>
    match s.editors.register id connection with
    | .ok editors => { s with editors := editors }
    | .error _ => s
  | .deregister id => { s with editors := s.editors.deregister id }
  | .disturb outages => { s with editors := { s.editors with outages := outages } }
  | .run project => { s with restores := s.restores.run project }
  | .exit process code => { s with restores := s.restores.exit process code }
  | .output process now => { s with restores := s.restores.output process now }
  | .stop => { s with restores := s.restores.cancel }
  | .work i answers => s.work i answers
  | .tell i now => s.tell i now

def run (s : Reporting) (moves : List Move) : Reporting :=
  moves.foldl take s

def start (settings : Settings.Restore) (processors : Nat) : Reporting :=
  { restores := .new settings processors }

end Reporting

/-- How far a run is with the token of its project, towards one editor. -/
inductive Use where
  | before
  /-- The token was created, which is not noted yet. -/
  | created
  | held
  | begun
  /-- The token was given up, which the editor is not told yet. -/
  | ending
  | past
deriving DecidableEq, Repr

def Use.isOpen : Use → Bool
  | .before | .past => false
  | _ => true

/-- By what comes next towards the editor, while a run tells that it has started. -/
def Use.atStart : Option Stage → Use
  | none => .begun
  | some (.hold _) => .created
  | some (.report _) => .held
  | some _ => .before

/-- By what comes next towards the editor, while a run tells how it went. -/
def Use.atFinish : Option Stage → Use
  | none => .past
  | some (.report _) => .ending
  | some _ => .begun

def Point.use (id : Handle) (telling : Option Telling) : Point → Use
  | .entry => (telling.map fun t => Use.atStart (t.toward id)).getD .before
  | .announce _ => (telling.map fun t => Use.atFinish (t.toward id)).getD .begun
  | .conclude _ | .tell | .done => .past
  | _ => .begun

namespace Reporting

/-- The use of a run, if it is one of the project at a path. -/
def use? (s : Reporting) (id : Handle) (path : String) (i : Nat) : Option Use :=
  (s.restores.runs[i]?).bind fun x =>
    if x.project.path = path then some (x.point.use id (s.tellings.get? i)) else none

def isUsing (s : Reporting) (id : Handle) (path : String) (i : Nat) : Bool :=
  (s.use? id path i).any Use.isOpen

/-- Whether an editor holds the token of a project. -/
def holds (s : Reporting) (id : Handle) (path : String) : Bool :=
  decide (Editors.token path ∈ s.editors.tokens id)

def marks (s : Reporting) (id : Handle) (path : String) : List Mark :=
  marksOf id (Editors.token path) s.sent

/-- A run creates the token while another one uses it. -/
def Clashes (s : Reporting) (id : Handle) (path : String) (move : Move) : Prop :=
  ∃ i j, i ≠ j ∧ s.isUsing id path i = true ∧ s.use? id path j = some .before ∧
    (s.take move).use? id path j = some .created

/-- No two runs use the token at a time. -/
def Apart (s : Reporting) (id : Handle) (path : String) : List Move → Prop
  | [] => True
  | move :: rest => ¬ s.Clashes id path move ∧ (s.take move).Apart id path rest

end Reporting

/-- The next mark of a series of brackets. -/
def nextMark : Mark → Mark
  | .created => .begun
  | .begun => .ended
  | .ended => .created

/-- A token is created first, and after each mark comes the next one. -/
def Alternates (marks : List Mark) : Prop :=
  (Mark.ended :: marks).IsChain fun a b => b = nextMark a

/-- Every bracket is closed. -/
def Whole (marks : List Mark) : Prop :=
  Alternates marks ∧ marks.getLastD .ended = .ended

variable {s s' : Reporting} {id : Handle} {path : String} {i j : Nat} {x : Run} {move : Reporting.Move}

/-! ### What a move changes -/

/-- A telling is about what its run has to tell. -/
def IsTelling (r : Restores) (i : Nat) (t : Telling) : Prop :=
  ∃ x p, r.runs[i]? = some x ∧ x.event? = some t.event ∧ progressOf t.event = some p ∧ t.stage.Fits p ∧
    t.editors.Nodup

structure Sound (s : Reporting) : Prop where
  telling : ∀ i t, s.tellings.get? i = some t → IsTelling s.restores i t
  clients : s.editors.clients.keys.Nodup
  tokens : ∀ id, (s.editors.tokens id).Nodup

theorem Sound.start (settings : Settings.Restore) (processors : Nat) : Sound (.start settings processors) where
  telling i t ht := by cases (Table.get?_empty i).symm.trans ht
  clients := List.nodup_nil
  tokens _ := List.nodup_nil

/-- A run that has nothing to tell tells nothing. -/
theorem Sound.no_telling (hs : Sound s) (h : ∀ x, s.restores.runs[i]? = some x → x.event? = none) :
    s.tellings.get? i = none := by
  cases ht : s.tellings.get? i with
  | none => rfl
  | some t =>
      obtain ⟨x, -, hx, hevent, -⟩ := hs.telling i t ht
      cases (h x hx).symm.trans hevent

/-- The progress of what a run tells. -/
theorem exists_progress {event : Event} (h : x.event? = some event) :
    ∃ p, progressOf event = some p ∧ p.token = Editors.token x.project.path ∧
      (x.point = .entry ∧ p = .start x.project.path ∨
        ∃ code succeeded, x.point = .announce code ∧ p = .finish x.project.path succeeded) := by
  obtain ⟨project, point⟩ := x
  cases point with
  | entry =>
      obtain rfl := Option.some_inj.1 h
      exact ⟨_, rfl, rfl, Or.inl ⟨rfl, rfl⟩⟩
  | announce code =>
      obtain rfl := Option.some_inj.1 h
      exact ⟨_, rfl, rfl, Or.inr ⟨code, _, rfl, rfl⟩⟩
  | _ => cases h

theorem isReady_of_event? {r : Restores} {event : Event} (h : x.event? = some event) (now : Nat) :
    r.isReady now i x.point = true := by
  obtain ⟨project, point⟩ := x
  cases point with
  | entry | announce => rfl
  | _ => cases h

/-- What it comes to that a run works or tells something: it does nothing, goes on in silence, begins to tell
what it has to tell, takes a step of that, or goes on when everything is told. -/
inductive Steps (s : Reporting) (i : Nat) : Reporting → Prop
  | still : Steps s i s
  | silent {x : Run} {e : Surroundings} {pt : Point} {r' : Restores} {ds : List Deed}
      (hx : s.restores.runs[i]? = some x) (hevent : x.event? = none)
      (hturn : Turn s.restores i x.project e x.point pt r' ds) :
      Steps s i { s with restores := r'.goTo i pt }
  | start {x : Run} {event : Event} (hx : s.restores.runs[i]? = some x) (hevent : x.event? = some event)
      (hnone : s.tellings.get? i = none) :
      Steps s i { s with tellings := s.tellings.put i (.start s.editors event) }
  | act {t : Telling} {p : Progress} {k : Handle} {rest : List Handle} {e' : Editors} {next : Option Stage}
      {sent : List (Editors.Note × Option Fault)} (fault : Option Fault) (ht : s.tellings.get? i = some t)
      (hp : progressOf t.event = some p) (hk : t.editors = k :: rest)
      (hacts : Telling.Acts s.editors p k t.stage e' next sent) :
      Steps s i { s with
        editors := e'
        tellings := s.tellings.put i (t.goOn k fault next)
        sent := s.sent ++ sent }
  | told {x : Run} {t : Telling} {e : Surroundings} {pt : Point} {r' : Restores} {ds : List Deed}
      (hx : s.restores.runs[i]? = some x) (hevent : x.event? = some t.event) (ht : s.tellings.get? i = some t)
      (hend : t.editors = []) (hturn : Turn s.restores i x.project e x.point pt r' ds) :
      Steps s i { s with restores := r'.goTo i pt, tellings := s.tellings.erase i }

theorem steps_work (s : Reporting) (i : Nat) (e : Surroundings) : Steps s i (s.work i e) := by
  unfold Reporting.work
  split
  · rename_i x restores effects hx hstep
    split
    · exact .still
    · rename_i hevent
      obtain ⟨y, hy, hready, hact⟩ := step_eq_some hstep
      obtain rfl : x = y := Option.some_inj.1 (hx.symm.trans hy)
      obtain ⟨pt, r', ds, hacts⟩ := exists_acts (i := i) hready
      obtain rfl : restores = r'.goTo i pt := (congrArg Prod.fst hact).trans hacts.state
      exact .silent hx (Option.not_isSome_iff_eq_none.1 hevent) hacts.turn
  · exact .still

theorem steps_tell (hs : Sound s) (i now : Nat) : Steps s i (s.tell i now) := by
  unfold Reporting.tell
  split
  · exact .still
  · rename_i x hx
    split
    · exact .still
    · rename_i event hevent hnone
      exact .start hx hevent hnone
    · rename_i event t _ ht
      obtain ⟨y, p, hy, hevent, hp, hfits, -⟩ := hs.telling i t ht
      obtain rfl : x = y := Option.some_inj.1 (hx.symm.trans hy)
      split
      · rename_i hend
        obtain ⟨pt, r', ds, hacts⟩ := exists_acts (i := i)
          (e := { now := now, fault := Fault.join t.faults }) (isReady_of_event? (r := s.restores) hevent now)
        rw [hacts.state]
        exact .told hx hevent ht hend hacts.turn
      · rename_i hgoes
        obtain ⟨k, rest, hk⟩ := List.exists_cons_of_ne_nil hgoes
        obtain ⟨e', next, sent, fault, hacts, hstep⟩ := Telling.step_acts s.editors hp hfits hk
        simp only [hstep]
        exact .act fault ht hp hk hacts

/-- A step of the use of a token towards an editor: whether the editor holds the token before and after, and
what it is sent. -/
inductive Passage : Use → Bool → Use → Bool → List Mark → Prop
  | create {held : Bool} : Passage .before held .created held [.created]
  | hold {held : Bool} : Passage .created held .held true []
  | start {held : Bool} : Passage .held held .begun held [.begun]
  | withdraw : Passage .begun true .ending false []
  | skip : Passage .begun false .past false []
  | finish {held : Bool} : Passage .ending held .past held [.ended]

/-- What a move changes towards an editor. -/
inductive Change (s s' : Reporting) (id : Handle) (path : String) : Prop
  | still (holds : s'.holds id path = s.holds id path) (marks : s'.marks id path = s.marks id path)
      (uses : ∀ i, s'.use? id path i = s.use? id path i ∨
        s.use? id path i = none ∧ s'.use? id path i = some .before)
  | pass {j : Nat} {u u' : Use} {marks : List Mark} (use : s.use? id path j = some u)
      (passage : Passage u (s.holds id path) u' (s'.holds id path) marks)
      (marks : s'.marks id path = s.marks id path ++ marks)
      (uses : ∀ i, s'.use? id path i = if i = j then some u' else s.use? id path i)

theorem token_injective {path path' : String} (h : Editors.token path = Editors.token path') :
    path = path' := by
  have h := congrArg String.toList h
  exact String.toList_inj.1 (by simpa [Editors.token, String.toList_append] using h)

theorem use?_eq (hx : s.restores.runs[i]? = some x) (id : Handle) (path : String) : s.use? id path i =
    if x.project.path = path then some (x.point.use id (s.tellings.get? i)) else none := by
  rw [Reporting.use?, hx]
  rfl

/-- A move that tells editors nothing and leaves the runs where they are. -/
theorem Change.ofEditors (htokens : s'.editors.tokens id = s.editors.tokens id)
    (hruns : s'.restores.runs = s.restores.runs) (htellings : s'.tellings = s.tellings)
    (hsent : s'.sent = s.sent) : Change s s' id path :=
  .still (by rw [Reporting.holds, htokens]; rfl) (by rw [Reporting.marks, hsent]; rfl)
    fun i => Or.inl (by rw [Reporting.use?, hruns, htellings]; rfl)

/-- The runs that are there stay when another one comes. -/
theorem getElem?_run_of_some {r : Restores} (hx : r.runs[i]? = some x) (project : ProjectRef) :
    (r.run project).runs[i]? = some x := by
  unfold Restores.run
  split
  · rw [List.getElem?_append_left (List.getElem?_eq_some_iff.1 hx).1, hx]
  · exact hx

theorem Change.run (hs : Sound s) (project : ProjectRef) :
    Change s (s.take (.run project)) id path := by
  refine .still rfl rfl fun i => ?_
  cases hx : s.restores.runs[i]? with
  | some x =>
      have hx' := getElem?_run_of_some hx project
      exact Or.inl ((use?_eq hx' id path).trans (use?_eq hx id path).symm)
  | none =>
      have hnone : s.use? id path i = none := by rw [Reporting.use?, hx]; rfl
      cases hx' : (s.restores.run project).runs[i]? with
      | none => exact Or.inl (by rw [hnone]; simp [Reporting.use?, Reporting.take, hx'])
      | some y =>
          rcases getElem?_runs_run hx' with hy | ⟨rfl, rfl⟩
          · cases hx.symm.trans hy
          have htelling := hs.no_telling fun x hsome => by cases hx.symm.trans hsome
          have huse : (s.take (.run project)).use? id path s.restores.runs.length = _ :=
            use?_eq hx' id path
          rw [huse, hnone]
          by_cases hpath : project.path = path
          · rw [if_pos hpath]
            refine Or.inr ⟨rfl, ?_⟩
            rw [show (s.take (.run project)).tellings = s.tellings from rfl, htelling]
            rfl
          · exact Or.inl (if_neg hpath)

/-- A run that has nothing to tell stays with its use of the token. -/
theorem Turn.use {r r' : Restores} {project : ProjectRef} {e : Surroundings} {pt pt' : Point} {ds : List Deed}
    (h : Turn r i project e pt pt' r' ds) (hpt : ({ project := project, point := pt } : Run).event? = none) :
    pt'.use id none = pt.use id none := by
  cases h <;> first | rfl | cases hpt

/-- The use of a token is a matter of what comes next towards the editor. -/
theorem Point.use_congr {t t' : Telling} (h : t'.toward id = t.toward id) (pt : Point) :
    pt.use id (some t') = pt.use id (some t) := by
  cases pt <;> simp [Point.use, h]

/-- A run that has told everything goes on. -/
theorem Turn.use_told {r r' : Restores} {project : ProjectRef} {e : Surroundings} {pt pt' : Point}
    {ds : List Deed} {t : Telling} (h : Turn r i project e pt pt' r' ds)
    (hpt : ({ project := project, point := pt } : Run).event?.isSome = true) (ht : t.toward id = none) :
    pt'.use id none = pt.use id (some t) := by
  cases h with
  | start | announce => simp [Point.use, ht, Use.atStart, Use.atFinish]
  | _ => cases hpt

theorem Change.ofTurn {r' : Restores} {e : Surroundings} {pt : Point} {ds : List Deed}
    (hx : s.restores.runs[i]? = some x) (h : Turn s.restores i x.project e x.point pt r' ds)
    (hrestores : s'.restores = r'.goTo i pt) (heditors : s'.editors = s.editors) (hsent : s'.sent = s.sent)
    (htellings : ∀ j, s'.tellings.get? j = if j = i then none else s.tellings.get? j)
    (huse : pt.use id none = x.point.use id (s.tellings.get? i)) : Change s s' id path := by
  refine .still (by rw [Reporting.holds, heditors]; rfl) (by rw [Reporting.marks, hsent]; rfl)
    fun j => Or.inl ?_
  rw [Reporting.use?, Reporting.use?, hrestores, h.getElem?_runs hx, htellings]
  by_cases hj : j = i
  · subst hj
    simp [hx, huse]
  · rw [if_neg (Ne.symm hj), if_neg hj]

/-- A step towards an editor in which nothing fails is a step of the use of the token, or none. -/
def Passes (u : Use) (held : Bool) (u' : Use) (held' : Bool) (marks : List Mark) : Prop :=
  (u' = u ∧ held' = held ∧ marks = []) ∨ Passage u held u' held' marks

section

variable {e e' : Editors} {stage : Stage} {next : Option Stage} {sent : List (Editors.Note × Option Fault)}
  {p : Progress}

theorem passes_start (hp : p.stage = .create p) (h : Telling.Acts e p id stage e' next sent)
    (hsent : ∀ entry ∈ sent, entry.2 = none) :
    Passes (.atStart (some stage)) (decide (p.token ∈ e.tokens id)) (.atStart next)
      (decide (p.token ∈ e'.tokens id)) (marksOf id p.token sent) := by
  have hmark : p.mark = .begun := by
    cases p with
    | start => rfl
    | finish => cases hp
  cases h with
  | fail => cases hsent _ List.mem_cons_self
  | notify hn hnote => exact Or.inl ⟨by rw [hp]; rfl, rfl, Editors.marksOf_of_ne (by simp [hnote])⟩
  | create =>
      rw [Editors.marksOf_createNote]
      exact Or.inr .create
  | hold =>
      rw [decide_eq_true ((Editors.mem_tokens_hold e id p.token id p.token).2 (Or.inr ⟨rfl, rfl⟩))]
      exact Or.inr .hold
  | withdraw hp' | skip hp' => cases hp.symm.trans hp'
  | report =>
      rw [Editors.marksOf_progressNote, hmark]
      exact Or.inr .start

theorem passes_finish (hp : p.stage = .withdraw p) (h : Telling.Acts e p id stage e' next sent)
    (hnodup : (e.tokens id).Nodup) (hsent : ∀ entry ∈ sent, entry.2 = none) :
    Passes (.atFinish (some stage)) (decide (p.token ∈ e.tokens id)) (.atFinish next)
      (decide (p.token ∈ e'.tokens id)) (marksOf id p.token sent) := by
  have hmark : p.mark = .ended := by
    cases p with
    | start => cases hp
    | finish => rfl
  cases h with
  | fail => cases hsent _ List.mem_cons_self
  | notify hn hnote => exact Or.inl ⟨by rw [hp]; rfl, rfl, Editors.marksOf_of_ne (by simp [hnote])⟩
  | create hp' | hold hp' => cases hp.symm.trans hp'
  | withdraw _ hheld =>
      have hgiven : p.token ∉ (e.withdraw id p.token).tokens id :=
        fun h => ((Editors.mem_tokens_withdraw hnodup ..).1 h).2 ⟨rfl, rfl⟩
      rw [decide_eq_true hheld, decide_eq_false hgiven]
      exact Or.inr .withdraw
  | skip _ hfree =>
      rw [decide_eq_false hfree]
      exact Or.inr .skip
  | report =>
      rw [Editors.marksOf_progressNote, hmark]
      exact Or.inr .finish

end

theorem toward_start {e : Editors} (h : id ∈ e.ids) (event : Event) :
    (Telling.start e event).toward id = some .notify := by
  unfold Telling.toward
  split
  · rfl
  · rw [if_pos (show id ∈ (Telling.start e event).editors from h)]

/-- A move that changes the use of one run at most. -/
theorem Change.ofPasses {u u' : Use} {marks : List Mark} (hu : s.use? id path i = some u)
    (h : Passes u (s.holds id path) u' (s'.holds id path) marks)
    (hmarks : s'.marks id path = s.marks id path ++ marks)
    (huses : ∀ j, s'.use? id path j = if j = i then some u' else s.use? id path j) : Change s s' id path := by
  rcases h with ⟨rfl, hholds, rfl⟩ | h
  · refine .still hholds (hmarks.trans (List.append_nil _)) fun j => Or.inl ?_
    rw [huses]
    split
    · rename_i hj
      rw [hj, hu]
    · rfl
  · exact .pass hu h hmarks huses

/-- A telling of run `i` changes no other use. -/
theorem use?_put (hx : s.restores.runs[i]? = some x) (editors : Editors) (t : Telling)
    (sent : List (Editors.Note × Option Fault)) (id : Handle) (path : String) (j : Nat) :
    Reporting.use? ⟨s.restores, editors, s.tellings.put i t, sent⟩ id path j =
      if j = i then (if x.project.path = path then some (x.point.use id (some t)) else none)
      else s.use? id path j := by
  rw [Reporting.use?, Table.get?_put]
  split
  · rename_i hj
    rw [hj, hx]
    rfl
  · rfl

/-- A step of what a run tells. -/
theorem Change.act (hs : Sound s) {t : Telling} {p : Progress} {k : Handle} {rest : List Handle} {e' : Editors}
    {next : Option Stage} {sent : List (Editors.Note × Option Fault)} (fault : Option Fault)
    (ht : s.tellings.get? i = some t) (hp : progressOf t.event = some p) (hk : t.editors = k :: rest)
    (hacts : Telling.Acts s.editors p k t.stage e' next sent)
    (hsent : ∀ entry ∈ sent, entry.1.editor = id → entry.2 = none) :
    Change s { s with
      editors := e'
      tellings := s.tellings.put i (t.goOn k fault next)
      sent := s.sent ++ sent } id path := by
  obtain ⟨x, p', hx, hevent, hp', -, hnodup⟩ := hs.telling i t ht
  obtain rfl : p = p' := Option.some_inj.1 (hp.symm.trans hp')
  obtain ⟨p', hp', htoken, hpoint⟩ := exists_progress hevent
  obtain rfl : p = p' := Option.some_inj.1 (hp.symm.trans hp')
  have htokens := hs.tokens k
  have huse := use?_eq hx id path
  have huses := use?_put hx e' (t.goOn k fault next) (s.sent ++ sent) id path
  by_cases hown : id = k ∧ x.project.path = path
  · obtain ⟨rfl, rfl⟩ := hown
    rw [if_pos rfl, ht] at huse
    simp only [if_true] at huses
    have hnone : ∀ entry ∈ sent, entry.2 = none := fun entry h => hsent entry h (hacts.editor entry h)
    refine .ofPasses huse ?_ (Editors.marksOf_append id _ s.sent sent) huses
    simp only [Reporting.holds, ← htoken]
    rcases hpoint with ⟨hpt, rfl⟩ | ⟨code, succeeded, hpt, rfl⟩
    · simp only [hpt, Point.use, Option.map_some, Option.getD_some, Telling.toward_of_head hk,
        Telling.toward_goOn_self hk hnodup]
      exact passes_start rfl hacts hnone
    · simp only [hpt, Point.use, Option.map_some, Option.getD_some, Telling.toward_of_head hk,
        Telling.toward_goOn_self hk hnodup]
      exact passes_finish rfl hacts htokens hnone
  · -- another editor is told, or the token of another project is used
    have hne : id ≠ k ∨ Editors.token path ≠ p.token := by
      by_contra h
      rw [not_or, not_not, not_not, htoken] at h
      exact hown ⟨h.1, (token_injective h.2).symm⟩
    refine .still (decide_eq_decide.2 (hacts.mem_tokens htokens hne)) ?_ fun j => Or.inl ?_
    · simp only [Reporting.marks, Editors.marksOf_append, hacts.marksOf hne, List.append_nil]
    · rw [huses]
      split
      · rename_i hj
        subst hj
        rw [huse, ht]
        split
        · rename_i hpath
          have hid : id ≠ k := fun h => hown ⟨h, hpath⟩
          rw [Point.use_congr (Telling.toward_goOn_of_ne hk hid fault next)]
        · rfl
      · rfl

/-- A run begins to tell something. -/
theorem Change.start {event : Event} (hconnected : id ∈ s.editors.ids) (hx : s.restores.runs[i]? = some x)
    (hevent : x.event? = some event) (hnone : s.tellings.get? i = none) :
    Change s { s with tellings := s.tellings.put i (.start s.editors event) } id path := by
  refine .still rfl rfl fun j => Or.inl ?_
  rw [use?_put hx]
  split
  · rename_i hj
    subst hj
    obtain ⟨_, _, _, hpoint⟩ := exists_progress hevent
    have htoward := toward_start hconnected event
    rw [use?_eq hx, hnone]
    rcases hpoint with ⟨hpt, -⟩ | ⟨code, -, hpt, -⟩ <;>
      simp [hpt, Point.use, htoward, Use.atStart, Use.atFinish]
  · rfl

theorem Change.steps (hs : Sound s) (hconnected : id ∈ s.editors.ids) (h : Steps s i s')
    (hsent : ∀ entry ∈ s'.sent, entry.1.editor = id → entry.2 = none) : Change s s' id path := by
  cases h with
  | still => exact .ofEditors rfl rfl rfl rfl
  | silent hx hevent hturn =>
      have htelling : s.tellings.get? i = none :=
        hs.no_telling fun y hy => Option.some_inj.1 (hx.symm.trans hy) ▸ hevent
      refine .ofTurn hx hturn rfl rfl rfl (fun j => ?_) ?_
      · split
        · rename_i hj
          rw [hj, htelling]
        · rfl
      · rw [htelling]
        exact hturn.use hevent
  | start hx hevent hnone => exact .start hconnected hx hevent hnone
  | act fault ht hp hk hacts =>
      exact .act hs fault ht hp hk hacts fun entry h => hsent entry (List.mem_append_right _ h)
  | @told x t e pt r' ds hx hevent ht hend hturn =>
      have htold : t.toward id = none := by simp [Telling.toward, hend]
      have htells : x.event?.isSome = true := by rw [hevent]; rfl
      refine .ofTurn hx hturn rfl rfl rfl (Table.get?_erase s.tellings i) ?_
      rw [ht]
      exact hturn.use_told htells htold

theorem Change.take (hs : Sound s) (hconnected : id ∈ s.editors.ids) {move : Reporting.Move}
    (hstays : move ≠ .deregister id)
    (hsent : ∀ entry ∈ (s.take move).sent, entry.1.editor = id → entry.2 = none) :
    Change s (s.take move) id path := by
  cases move with
  | register k connection => cases connection <;> exact .ofEditors rfl rfl rfl rfl
  | deregister k =>
      refine .ofEditors ?_ rfl rfl rfl
      have hk : id ≠ k := fun h => hstays (h ▸ rfl)
      simp [Reporting.take, Editors.deregister, Editors.tokens, hk]
  | run project => exact .run hs project
  | work i answers => exact .steps hs hconnected (steps_work s i answers) hsent
  | tell i now => exact .steps hs hconnected (steps_tell hs i now) hsent
  | _ => exact .ofEditors rfl rfl rfl rfl

/-! ### What holds at all times -/

/-- A move that changes no telling and no editor's tokens. -/
theorem Sound.frame (hs : Sound s) (htellings : s'.tellings = s.tellings)
    (hruns : ∀ i x, s.restores.runs[i]? = some x → (s.tellings.get? i).isSome = true →
      s'.restores.runs[i]? = some x)
    (hclients : s'.editors.clients.keys.Nodup) (htokens : ∀ id, (s'.editors.tokens id).Nodup) : Sound s' := by
  refine ⟨fun i t ht => ?_, hclients, htokens⟩
  rw [htellings] at ht
  obtain ⟨x, p, hx, hrest⟩ := hs.telling i t ht
  exact ⟨x, p, hruns i x hx (by rw [ht]; rfl), hrest⟩

theorem Sound.steps (hs : Sound s) (h : Steps s i s') : Sound s' := by
  cases h with
  | still => exact hs
  | @silent x e pt r' ds hx hevent hturn =>
      refine hs.frame rfl (fun j y hy hj => ?_) hs.clients hs.tokens
      have hij : i ≠ j := by
        rintro rfl
        rw [hs.no_telling fun y hy => Option.some_inj.1 (hx.symm.trans hy) ▸ hevent] at hj
        cases hj
      rw [hturn.getElem?_runs hx, if_neg hij, hy]
  | @start x event hx hevent hnone =>
      refine ⟨fun j t ht => ?_, hs.clients, hs.tokens⟩
      rw [Table.get?_put] at ht
      split at ht
      · rename_i hj
        obtain rfl := Option.some_inj.1 ht
        obtain ⟨p, hp, -⟩ := exists_progress hevent
        exact ⟨x, p, hj ▸ hx, hevent, hp, trivial, (List.mergeSort_perm ..).nodup_iff.2 hs.clients⟩
      · exact hs.telling j t ht
  | @act t p k rest e' next sent fault ht hp hk hacts =>
      refine ⟨fun j t' ht' => ?_, hacts.clients ▸ hs.clients, fun id => hacts.nodup_tokens hs.tokens⟩
      rw [Table.get?_put] at ht'
      split at ht'
      · rename_i hj
        obtain rfl := Option.some_inj.1 ht'
        obtain ⟨x, -, hx, hevent, -, -, hnodup⟩ := hs.telling i t ht
        have hsame := Telling.event_goOn t k fault next
        exact ⟨x, p, hj ▸ hx, hevent.trans (congrArg some hsame.symm), (congrArg progressOf hsame).trans hp,
          Telling.fits_goOn hacts.fits k fault, Telling.nodup_goOn hnodup fault next⟩
      · exact hs.telling j t' ht'
  | told hx hevent ht hend hturn =>
      refine ⟨fun j t' ht' => ?_, hs.clients, hs.tokens⟩
      rw [Table.get?_erase] at ht'
      split at ht'
      · cases ht'
      · rename_i hj
        obtain ⟨y, q, hy, hrest⟩ := hs.telling j t' ht'
        exact ⟨y, q, by rw [hturn.getElem?_runs hx, if_neg (Ne.symm hj), hy], hrest⟩

theorem Sound.take (hs : Sound s) (move : Reporting.Move) : Sound (s.take move) := by
  have hruns : ∀ i x, s.restores.runs[i]? = some x → (s.tellings.get? i).isSome = true →
      s.restores.runs[i]? = some x := fun _ _ hx _ => hx
  cases move with
  | register k connection =>
      cases connection with
      | none => exact hs
      | some name => exact hs.frame rfl hruns (Table.keys_put_nodup hs.clients k name) hs.tokens
  | deregister k =>
      refine hs.frame rfl hruns (Table.keys_erase_nodup hs.clients k) fun id => ?_
      simp only [Reporting.take, Editors.deregister, Editors.tokens, Table.get?_erase]
      split
      · exact .nil
      · exact hs.tokens id
  | run project =>
      exact hs.frame rfl (fun i x hx _ => getElem?_run_of_some hx project) hs.clients hs.tokens
  | work i answers => exact hs.steps (steps_work s i answers)
  | tell i now => exact hs.steps (steps_tell hs i now)
  | _ => exact hs.frame rfl hruns hs.clients hs.tokens

theorem Sound.run (hs : Sound s) (moves : List Reporting.Move) : Sound (s.run moves) :=
  List.foldlRecOn moves Reporting.take hs fun _ h move _ => h.take move

theorem Steps.sent (h : Steps s i s') : s.sent <+: s'.sent := by
  cases h with
  | act => exact List.prefix_append ..
  | _ => exact List.prefix_rfl

theorem Steps.clients (h : Steps s i s') : s'.editors.clients = s.editors.clients := by
  cases h with
  | act fault ht hp hk hacts => exact hacts.clients
  | _ => rfl

theorem sent_take (hs : Sound s) (move : Reporting.Move) : s.sent <+: (s.take move).sent := by
  cases move with
  | register k connection => cases connection <;> exact List.prefix_rfl
  | work i answers => exact (steps_work s i answers).sent
  | tell i now => exact (steps_tell hs i now).sent
  | _ => exact List.prefix_rfl

theorem sent_run (hs : Sound s) (moves : List Reporting.Move) : s.sent <+: (s.run moves).sent := by
  induction moves generalizing s with
  | nil => exact List.prefix_rfl
  | cons move rest ih => exact (sent_take hs move).trans (ih (hs.take move))

theorem connected_take (hs : Sound s) (hconnected : id ∈ s.editors.ids) {move : Reporting.Move}
    (hstays : move ≠ .deregister id) : id ∈ (s.take move).editors.ids := by
  rw [mem_ids] at hconnected ⊢
  obtain ⟨name, hname⟩ := hconnected
  cases move with
  | register k connection =>
      cases connection with
      | none => exact ⟨name, hname⟩
      | some other =>
          have hget : (s.take (.register k (some other))).editors.clients.get? id = _ :=
            Table.get?_put s.editors.clients k other id
          rw [hget]
          split
          · exact ⟨_, rfl⟩
          · exact ⟨name, hname⟩
  | deregister k =>
      have hk : id ≠ k := fun h => hstays (h ▸ rfl)
      exact ⟨name, (Table.get?_erase s.editors.clients k id).trans ((if_neg hk).trans hname)⟩
  | work i answers => exact ⟨name, (congrArg (·.get? id) (steps_work s i answers).clients).trans hname⟩
  | tell i now => exact ⟨name, (congrArg (·.get? id) (steps_tell hs i now).clients).trans hname⟩
  | _ => exact ⟨name, hname⟩

/-! ### Brackets -/

theorem alternates_append {marks : List Mark} {mark : Mark} :
    Alternates (marks ++ [mark]) ↔ Alternates marks ∧ mark = nextMark (marks.getLastD .ended) := by
  rw [Alternates, ← List.cons_append, List.isChain_append]
  simp [Alternates, List.getLast?_cons, List.getLastD_eq_getLast?]

theorem Alternates.of_append {marks more : List Mark} (h : Alternates (marks ++ more)) : Alternates marks :=
  List.IsChain.left_of_append (show (Mark.ended :: marks ++ more).IsChain _ from h)

/-- Whether the editor holds the token, and the last mark, while a run uses it. -/
def Use.Fits (held : Bool) (last : Mark) : Use → Prop
  | .created => held = false ∧ last = .created
  | .held => held = true ∧ last = .created
  | .begun => held = true ∧ last = .begun
  | .ending => held = false ∧ last = .begun
  | .before | .past => False

theorem Use.Fits.isOpen {held : Bool} {last : Mark} {u : Use} (h : u.Fits held last) : u.isOpen = true := by
  cases u <;> first | rfl | cases h

/-- The bracket is open. -/
theorem Use.Fits.next_ne {held : Bool} {last : Mark} {u : Use} (h : u.Fits held last) :
    .created ≠ nextMark last := by
  cases u with
  | before | past => cases h
  | _ =>
      rw [h.2]
      decide

theorem Passage.of_before {u' : Use} {held held' : Bool} {marks : List Mark}
    (h : Passage .before held u' held' marks) : u' = .created ∧ held' = held ∧ marks = [.created] := by
  cases h
  exact ⟨rfl, rfl, rfl⟩

theorem Passage.isOpen {u u' : Use} {held held' : Bool} {marks : List Mark} (h : Passage u held u' held' marks)
    (hu : u ≠ .before) : u.isOpen = true := by
  cases h with
  | create => exact absurd rfl hu
  | _ => rfl

/-- A use goes on. -/
theorem Passage.fits {u u' : Use} {held held' : Bool} {marks before : List Mark}
    (h : Passage u held u' held' marks) (hfits : u.Fits held (before.getLastD .ended)) :
    (u' = .past ∧ held' = false ∧ (before ++ marks).getLastD .ended = .ended ∨
      u'.Fits held' ((before ++ marks).getLastD .ended)) ∧
      (Alternates before → Alternates (before ++ marks)) := by
  cases h with
  | create => cases hfits
  | hold => exact ⟨Or.inr ⟨rfl, by simpa using hfits.2⟩, fun h => by simpa using h⟩
  | start =>
      exact ⟨Or.inr ⟨hfits.1, by simp⟩, fun h => alternates_append.2 ⟨h, by rw [hfits.2]; rfl⟩⟩
  | withdraw => exact ⟨Or.inr ⟨rfl, by simpa using hfits.2⟩, fun h => by simpa using h⟩
  | skip => cases hfits.1
  | finish =>
      exact ⟨Or.inl ⟨rfl, hfits.1, by simp⟩, fun h => alternates_append.2 ⟨h, by rw [hfits.2]; rfl⟩⟩

/-- The token is free, or one run uses it. -/
structure Snug (s : Reporting) (id : Handle) (path : String) : Prop where
  alternates : Alternates (s.marks id path)
  state : ((∀ i, s.isUsing id path i = false) ∧ s.holds id path = false ∧
      (s.marks id path).getLastD .ended = .ended) ∨
    ∃ i u, s.use? id path i = some u ∧ u.Fits (s.holds id path) ((s.marks id path).getLastD .ended) ∧
      ∀ j, s.isUsing id path j = true → j = i

theorem isUsing_of_use? {u : Use} (h : s.use? id path i = some u) : s.isUsing id path i = u.isOpen := by
  rw [Reporting.isUsing, h]
  rfl

theorem Snug.still (h : Snug s id path) (hholds : s'.holds id path = s.holds id path)
    (hmarks : s'.marks id path = s.marks id path)
    (huses : ∀ i, s'.use? id path i = s.use? id path i ∨
      s.use? id path i = none ∧ s'.use? id path i = some .before) : Snug s' id path := by
  have husing : ∀ i, s'.isUsing id path i = s.isUsing id path i := by
    intro i
    rcases huses i with h | ⟨hnone, hbefore⟩
    · rw [Reporting.isUsing, h]
      rfl
    · rw [Reporting.isUsing, Reporting.isUsing, hnone, hbefore]
      rfl
  refine ⟨hmarks ▸ h.alternates, ?_⟩
  rw [hholds, hmarks]
  refine h.state.imp (fun h => ⟨fun i => (husing i).trans (h.1 i), h.2⟩) ?_
  rintro ⟨i, u, hu, hfits, hsole⟩
  refine ⟨i, u, ?_, hfits, fun j hj => hsole j ((husing j).symm.trans hj)⟩
  rcases huses i with h | ⟨hnone, -⟩
  · exact h.trans hu
  · cases hnone.symm.trans hu

theorem Snug.pass {j : Nat} {u u' : Use} {marks : List Mark} (h : Snug s id path)
    (hu : s.use? id path j = some u) (hpassage : Passage u (s.holds id path) u' (s'.holds id path) marks)
    (hmarks : s'.marks id path = s.marks id path ++ marks)
    (huses : ∀ i, s'.use? id path i = if i = j then some u' else s.use? id path i)
    (hapart : u = .before → ∀ i, s.isUsing id path i = true → i = j) : Snug s' id path := by
  have hself : s'.isUsing id path j = u'.isOpen := isUsing_of_use? ((huses j).trans (if_pos rfl))
  have hothers : ∀ i, i ≠ j → s'.isUsing id path i = s.isUsing id path i := fun i hi => by
    rw [Reporting.isUsing, huses, if_neg hi]
    rfl
  have hsole' : (∀ i, s.isUsing id path i = true → i = j) →
      ∀ i, s'.isUsing id path i = true → i = j := by
    intro hsole i hi
    by_contra hij
    exact hij (hsole i ((hothers i hij).symm.trans hi))
  by_cases hbefore : u = .before
  · subst hbefore
    have hnone : ∀ i, s.isUsing id path i = false := by
      intro i
      by_contra husing
      rw [Bool.not_eq_false] at husing
      rw [hapart rfl i husing, isUsing_of_use? hu] at husing
      cases husing
    rcases h.state with ⟨-, hfree, hlast⟩ | ⟨i, v, hv, hfits, -⟩
    · obtain ⟨rfl, hheld, rfl⟩ := hpassage.of_before
      refine ⟨?_, Or.inr ⟨j, .created, (huses j).trans (if_pos rfl), ?_, hsole' (hapart rfl)⟩⟩
      · rw [hmarks]
        exact alternates_append.2 ⟨h.alternates, by rw [hlast]; rfl⟩
      · exact ⟨hheld.trans hfree, by simp [hmarks]⟩
    · cases (hnone i).symm.trans ((isUsing_of_use? hv).trans hfits.isOpen)
  · have hopen := hpassage.isOpen hbefore
    rcases h.state with ⟨hnone, -⟩ | ⟨i, v, hv, hfits, hsole⟩
    · cases (hnone j).symm.trans ((isUsing_of_use? hu).trans hopen)
    · obtain rfl := hsole j ((isUsing_of_use? hu).trans hopen)
      obtain rfl : u = v := Option.some_inj.1 (hu.symm.trans hv)
      obtain ⟨hend, halternates⟩ := hpassage.fits hfits
      rw [← hmarks] at hend halternates
      refine ⟨halternates h.alternates, ?_⟩
      rcases hend with ⟨rfl, hfree, hlast⟩ | hfits'
      · refine Or.inl ⟨fun i => ?_, hfree, hlast⟩
        by_contra husing
        rw [Bool.not_eq_false] at husing
        rw [hsole' hsole i husing, hself] at husing
        cases husing
      · exact Or.inr ⟨j, u', (huses j).trans (if_pos rfl), hfits', hsole' hsole⟩

theorem Change.snug (hchange : Change s (s.take move) id path) (h : Snug s id path)
    (hapart : ¬ s.Clashes id path move) : Snug (s.take move) id path := by
  cases hchange with
  | still hholds hmarks huses => exact h.still hholds hmarks huses
  | @pass j u u' marks hu hpassage hmarks huses =>
      refine h.pass hu hpassage hmarks huses fun hbefore i hi => ?_
      subst hbefore
      obtain ⟨rfl, -⟩ := hpassage.of_before
      by_contra hij
      exact hapart ⟨i, j, hij, hi, hu, (huses j).trans (if_pos rfl)⟩

/-- The token is created in an open bracket. -/
theorem Change.not_alternates (hchange : Change s (s.take move) id path) (h : Snug s id path)
    (hclash : s.Clashes id path move) : ¬ Alternates ((s.take move).marks id path) := by
  obtain ⟨i, k, hne, hi, hk, hk'⟩ := hclash
  have hlast : .created ≠ nextMark ((s.marks id path).getLastD .ended) := by
    rcases h.state with ⟨hnone, -⟩ | ⟨-, u, -, hfits, -⟩
    · cases (hnone i).symm.trans hi
    · exact hfits.next_ne
  cases hchange with
  | still hholds hmarks huses =>
      rcases huses k with h | ⟨hnone, -⟩
      · cases hk'.symm.trans (h.trans hk)
      · cases hnone.symm.trans hk
  | @pass j u u' marks hu hpassage hmarks huses =>
      have hkj : k = j := by
        by_contra hkj
        cases hk'.symm.trans (((huses k).trans (if_neg hkj)).trans hk)
      subst hkj
      obtain rfl := Option.some_inj.1 (hu.symm.trans hk)
      obtain ⟨-, -, rfl⟩ := hpassage.of_before
      rw [hmarks]
      exact fun halternates => hlast (alternates_append.1 halternates).2

theorem marks_run (hs : Sound s) (moves : List Reporting.Move) (id : Handle) (path : String) :
    s.marks id path <+: (s.run moves).marks id path := by
  obtain ⟨more, hmore⟩ := sent_run hs moves
  refine ⟨marksOf id (Editors.token path) more, ?_⟩
  rw [Reporting.marks, Reporting.marks, ← hmore, Editors.marksOf_append]

/-- From a state in which the token is free or has one user. -/
theorem Snug.run (h : Snug s id path) (hs : Sound s) (hconnected : id ∈ s.editors.ids)
    {moves : List Reporting.Move} (hstays : .deregister id ∉ moves)
    (hsent : ∀ entry ∈ (s.run moves).sent, entry.1.editor = id → entry.2 = none) :
    (Alternates ((s.run moves).marks id path) ↔ s.Apart id path moves) ∧
      (s.Apart id path moves → Snug (s.run moves) id path) := by
  induction moves generalizing s with
  | nil => exact ⟨⟨fun _ => trivial, fun _ => h.alternates⟩, fun _ => h⟩
  | cons move rest ih =>
      obtain ⟨hmove, hrest⟩ := not_or.1 (List.mem_cons.not.1 hstays)
      have hchange : Change s (s.take move) id path := .take hs hconnected (Ne.symm hmove)
        fun entry hentry => hsent entry ((sent_run (hs.take move) rest).subset hentry)
      by_cases hclash : s.Clashes id path move
      · refine ⟨⟨fun halternates => ?_, fun hapart => absurd hclash hapart.1⟩,
          fun hapart => absurd hclash hapart.1⟩
        obtain ⟨more, hmore⟩ := marks_run (hs.take move) rest id path
        have halternates : Alternates (((s.take move).run rest).marks id path) := halternates
        rw [← hmore] at halternates
        exact absurd halternates.of_append (hchange.not_alternates h hclash)
      · obtain ⟨hiff, hsnug⟩ := ih (hchange.snug h hclash) (hs.take move)
          (connected_take hs hconnected (Ne.symm hmove)) hrest hsent
        exact ⟨hiff.trans ⟨fun hapart => ⟨hclash, hapart⟩, And.right⟩, fun hapart => hsnug hapart.2⟩

/-- All runs of a project have ended. -/
def Idle (r : Restores) (path : String) : Prop :=
  ∀ x ∈ r.runs, x.project.path = path → x.point = .done

theorem not_isUsing_of_idle (h : s.restores.Idle path) (i : Nat) : s.isUsing id path i = false := by
  rw [Reporting.isUsing]
  cases hx : s.restores.runs[i]? with
  | none => simp [Reporting.use?, hx]
  | some x =>
      rw [use?_eq hx]
      split
      · rename_i hpath
        rw [h x (List.mem_of_getElem? hx) hpath]
        rfl
      · rfl

/-- **Progress of restores.** Let an editor be connected that does not hold the token of a project, at a time
when no run of the project is under way, and let it stay connected and all sends to it succeed. Whatever
happens, what it is sent about the token is a series of brackets if and only if no run creates the token while
another run uses it; and then every bracket is closed once the runs of the project have ended. -/
theorem progress_bracketed_iff (settings : Settings.Restore) (processors : Nat)
    (earlier moves : List Reporting.Move) (id : Handle) (path : String) :
    let s := { (Reporting.start settings processors).run earlier with sent := [] }
    id ∈ s.editors.ids → Editors.token path ∉ s.editors.tokens id → s.restores.Idle path →
    .deregister id ∉ moves →
    (∀ entry ∈ (s.run moves).sent, entry.1.editor = id → entry.2 = none) →
    (Alternates ((s.run moves).marks id path) ↔ s.Apart id path moves) ∧
      (s.Apart id path moves → (s.run moves).restores.Idle path → Whole ((s.run moves).marks id path)) := by
  intro s hconnected hfree hidle hstays hsent
  have hearlier := (Sound.start settings processors).run earlier
  have hs : Sound s := hearlier.frame rfl (fun _ _ hx _ => hx) hearlier.clients hearlier.tokens
  have hsnug : Snug s id path :=
    ⟨.singleton _, Or.inl ⟨not_isUsing_of_idle hidle, decide_eq_false hfree, rfl⟩⟩
  obtain ⟨hiff, hrun⟩ := hsnug.run hs hconnected hstays hsent
  refine ⟨hiff, fun hapart hended => ⟨hiff.2 hapart, ?_⟩⟩
  rcases (hrun hapart).state with ⟨-, -, hlast⟩ | ⟨i, u, hu, hfits, -⟩
  · exact hlast
  · cases (not_isUsing_of_idle hended i).symm.trans ((isUsing_of_use? hu).trans hfits.isOpen)

/-- A project is restored once. -/
theorem single_restore_bracketed :
    let settings : Settings.Restore := { enabled := true, executable := "dnu", timeout := 5 }
    let project : ProjectRef := ⟨1, "/app/project.json"⟩
    let tells (n : Nat) : List Reporting.Move := List.replicate n (.tell 0 0)
    let works (n : Nat) : List Reporting.Move := List.replicate n (.work 0 { now := 0 })
    let moves := [.run project] ++ tells 6 ++ works 4 ++ [.exit 0 0] ++ works 4 ++ tells 5 ++ works 2
    let s := { (Reporting.start settings 4).run [.register ⟨1⟩ (some "e")] with sent := [] }
    (s.run moves).restores.Idle project.path ∧ s.Apart ⟨1⟩ project.path moves ∧
      Whole ((s.run moves).marks ⟨1⟩ project.path) := by
  intro settings project tells works moves s
  have hended : (s.run moves).restores.Idle project.path := by
    unfold Idle
    decide +kernel
  have halternates : Alternates ((s.run moves).marks ⟨1⟩ project.path) := by
    unfold Alternates
    decide +kernel
  obtain ⟨hiff, hwhole⟩ := progress_bracketed_iff settings 4 [.register ⟨1⟩ (some "e")] moves ⟨1⟩
    project.path (mem_ids.2 ⟨"e", by decide +kernel⟩) (by decide +kernel) (by unfold Idle; decide +kernel)
    (by simp [moves, tells, works]) (by decide +kernel)
  exact ⟨hended, hiff.1 halternates, hwhole (hiff.1 halternates) hended⟩

/-- A project is restored again while its restore runs. The second run creates and begins the token that is in
use, and ends nothing, for the first one has ended the token by then. -/
theorem overlapping_restores_tangle :
    let settings : Settings.Restore := { enabled := true, executable := "dnu", timeout := 5 }
    let project : ProjectRef := ⟨1, "/app/project.json"⟩
    let tells (i n : Nat) : List Reporting.Move := List.replicate n (.tell i 0)
    let works (i n : Nat) : List Reporting.Move := List.replicate n (.work i { now := 0 })
    let moves := [Reporting.Move.register ⟨1⟩ (some "e"), Reporting.Move.run project] ++ tells 0 6 ++
      works 0 4 ++ [Reporting.Move.run project] ++ tells 1 6 ++ works 1 1 ++
      [Reporting.Move.exit 0 0] ++ works 0 4 ++ tells 0 5 ++ works 0 2 ++
      works 1 3 ++ [Reporting.Move.exit 1 0] ++ works 1 4 ++ tells 1 4 ++ works 1 2
    let s := (Reporting.start settings 4).run moves
    (∀ entry ∈ s.sent, entry.2 = none) ∧ s.restores.Idle project.path ∧
      s.marks ⟨1⟩ project.path = [.created, .begun, .created, .begun, .ended] ∧
      ¬ Alternates (s.marks ⟨1⟩ project.path) := by
  unfold Idle Alternates
  decide +kernel

/-- Steps of the two runs in between: the first run gives the token up before the second one begins it, and it
is never ended again. -/
example :
    let settings : Settings.Restore := { enabled := true, executable := "dnu", timeout := 5 }
    let project : ProjectRef := ⟨1, "/app/project.json"⟩
    let tells (i n : Nat) : List Reporting.Move := List.replicate n (.tell i 0)
    let works (i n : Nat) : List Reporting.Move := List.replicate n (.work i { now := 0 })
    let moves := [Reporting.Move.register ⟨1⟩ (some "e"), Reporting.Move.run project] ++ tells 0 6 ++
      works 0 4 ++ [Reporting.Move.exit 0 0] ++ works 0 4 ++ [Reporting.Move.run project] ++ tells 1 4 ++
      tells 0 5 ++ works 0 2 ++ tells 1 2 ++ works 1 4 ++ [Reporting.Move.exit 1 0] ++ works 1 4 ++
      tells 1 4 ++ works 1 2
    let s := (Reporting.start settings 4).run moves
    s.restores.isQuiet = true ∧
      s.marks ⟨1⟩ project.path = [.created, .begun, .created, .ended, .begun] := by
  decide +kernel

end CompilationBridge.Restores
