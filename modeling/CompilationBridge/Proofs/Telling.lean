import CompilationBridge.Editors
import CompilationBridge.Proofs.Tables
import Mathlib.Logic.Relation

/-! Editors told about an event, step by step. A send takes its time, and between any two steps of a telling
others may send to the same editor, or change what tokens it holds. A telling goes through the editors that
were registered at its start; each is sent the event and then what the progress of the event asks for. The
steps of a telling that nothing interrupts are those of `emit`. -/

namespace CompilationBridge.Editors

/-- What comes next towards the editor that is being told. -/
inductive Stage where
  | notify
  | create (p : Progress)
  /-- The token was created and is taken note of. -/
  | hold (p : Progress)
  /-- The token is given up, if it is held. -/
  | withdraw (p : Progress)
  | report (p : Progress)
deriving DecidableEq, Repr

/-- What follows an event with a progress. -/
def Progress.stage : Progress → Stage
  | .start path => .create (.start path)
  | .finish path succeeded => .withdraw (.finish path succeeded)

def hold (e : Editors) (id : Handle) (token : String) : Editors :=
  let held := e.tokens id
  { e with progress := e.progress.put id (if token ∈ held then held else held ++ [token]) }

def withdraw (e : Editors) (id : Handle) (token : String) : Editors :=
  { e with progress := e.progress.put id ((e.tokens id).erase token) }

theorem sendProgress_start (e : Editors) (id : Handle) (path : String) : e.sendProgress id (.start path) =
    ((e.post (createNote id (.start path))).mapFault (.context "creating restore progress")).andThen
      fun e => (e.hold id (token path)).post (progressNote id (.start path)) :=
  rfl

theorem sendProgress_finish (e : Editors) (id : Handle) (path : String) (succeeded : Bool) :
    e.sendProgress id (.finish path succeeded) =
      if token path ∈ e.tokens id then
        (e.withdraw id (token path)).post (progressNote id (.finish path succeeded))
      else ⟨e, [], none⟩ :=
  rfl

structure Telling where
  event : Event
  /-- The editors that are still to be told. The first one is being told. -/
  editors : List Handle
  stage : Stage := .notify
  faults : List Fault := []
deriving Repr

/-- What a step leads to: the editors, the telling, and what was sent with the fault of its send. -/
structure Told where
  editors : Editors
  telling : Telling
  sent : List (Note × Option Fault) := []

namespace Telling

def start (e : Editors) (event : Event) : Telling :=
  { event := event, editors := e.ids }

/-- Goes on with the editor that is being told, or turns to the next one. -/
def goOn (t : Telling) (id : Handle) (fault : Option Fault) : Option Stage → Telling
  | some stage => { t with stage := stage }
  | none => { t with
      editors := t.editors.tail
      stage := .notify
      faults := t.faults ++ (fault.map (sendFault id)).toList }

/-- Goes on after a send. One that failed ends the telling of the editor. -/
def after (t : Telling) (id : Handle) (next : Option Stage) (o : Outcome) : Told :=
  ⟨o.editors, t.goOn id o.fault (if o.fault.isSome then none else next), o.notes.map (·, o.fault)⟩

def eventNote (id : Handle) (event : Event) : Note :=
  ⟨id, false, event.type, event.body.toJson⟩

def step (e : Editors) (t : Telling) : Told :=
  match t.editors with
  | [] => ⟨e, t, []⟩
  | id :: _ =>
    match t.stage with
    | .notify => t.after id ((progressOf t.event).map Progress.stage) (e.post (eventNote id t.event))
    | .create p =>
      t.after id (some (.hold p))
        ((e.post (createNote id p)).mapFault (.context "creating restore progress"))
    | .hold p => ⟨e.hold id p.token, { t with stage := .report p }, []⟩
    | .withdraw p =>
      if p.token ∈ e.tokens id then ⟨e.withdraw id p.token, { t with stage := .report p }, []⟩
      else ⟨e, t.goOn id none none, []⟩
    | .report p => t.after id none (e.post (progressNote id p))

end Telling

namespace Told

/-- A further step, with nothing in between. -/
def next (w : Told) : Told :=
  let more := w.telling.step w.editors
  { more with sent := w.sent ++ more.sent }

/-- Any number of further steps. -/
def Leads : Told → Told → Prop :=
  Relation.ReflTransGen fun w w' => w' = w.next

end Told

variable {e : Editors} {t : Telling} {event : Event} {id : Handle} {token : String}

theorem mem_ids : id ∈ e.ids ↔ ∃ connection, e.clients.get? id = some connection := by
  rw [ids, List.mem_mergeSort, Table.mem_keys]

/-! ### A telling that nothing interrupts -/

/-- From a stage on, the steps towards an editor come to an outcome, and the next editor is turned to. -/
def Completes (event : Event) (id : Handle) (e : Editors) (stage : Stage) (o : Outcome) : Prop :=
  ∀ rest faults sent, ∃ more, more.map (·.1) = o.notes ∧
    Told.Leads ⟨e, ⟨event, id :: rest, stage, faults⟩, sent⟩
      ⟨o.editors, ⟨event, rest, .notify, faults ++ (o.fault.map (sendFault id)).toList⟩, sent ++ more⟩

variable {stage stage' : Stage} {o : Outcome}

theorem Completes.ofLast (h : ∀ rest faults, Telling.step e ⟨event, id :: rest, stage, faults⟩ =
    Telling.after ⟨event, id :: rest, stage, faults⟩ id none o) : Completes event id e stage o := by
  intro rest faults sent
  refine ⟨o.notes.map (·, o.fault), by simp [Function.comp_def], .single ?_⟩
  simp [Told.next, h, Telling.after, Telling.goOn]

theorem Completes.ofSend {f : Editors → Outcome} (hf : ∀ e, Completes event id e stage' (f e))
    (h : ∀ rest faults, Telling.step e ⟨event, id :: rest, stage, faults⟩ =
      Telling.after ⟨event, id :: rest, stage, faults⟩ id (some stage') o) :
    Completes event id e stage (o.andThen f) := by
  cases hfault : o.fault with
  | some fault =>
      have hsame : o.andThen f = o := by rw [Outcome.andThen, hfault]
      rw [hsame]
      intro rest faults sent
      refine ⟨o.notes.map (·, o.fault), by simp [Function.comp_def], .single ?_⟩
      simp [Told.next, h, Telling.after, hfault, Telling.goOn]
  | none =>
      have hthen : o.andThen f =
          ⟨(f o.editors).editors, o.notes ++ (f o.editors).notes, (f o.editors).fault⟩ := by
        rw [Outcome.andThen, hfault]
      rw [hthen]
      intro rest faults sent
      obtain ⟨more, hmore, hleads⟩ := hf o.editors rest faults (sent ++ o.notes.map (·, o.fault))
      refine ⟨o.notes.map (·, o.fault) ++ more, by simp [Function.comp_def, hmore], ?_⟩
      rw [← List.append_assoc]
      refine .head ?_ hleads
      simp [Told.next, h, Telling.after, hfault, Telling.goOn]

/-- A step that sends nothing. -/
theorem Completes.ofTable {e' : Editors} (hf : Completes event id e' stage' o)
    (h : ∀ rest faults, Telling.step e ⟨event, id :: rest, stage, faults⟩ =
      ⟨e', ⟨event, id :: rest, stage', faults⟩, []⟩) : Completes event id e stage o := by
  intro rest faults sent
  obtain ⟨more, hmore, hleads⟩ := hf rest faults sent
  refine ⟨more, hmore, .head ?_ hleads⟩
  rw [Told.next, h, List.append_nil]

theorem completes_report (event : Event) (id : Handle) (e : Editors) (p : Progress) :
    Completes event id e (.report p) (e.post (progressNote id p)) :=
  .ofLast fun _ _ => rfl

theorem completes_progress (event : Event) (id : Handle) (e : Editors) (p : Progress) :
    Completes event id e p.stage (e.sendProgress id p) := by
  cases p with
  | start path =>
      refine .ofSend (fun e => ?_) fun _ _ => rfl
      exact .ofTable (completes_report event id (e.hold id _) _) fun _ _ => rfl
  | finish path succeeded =>
      simp only [sendProgress]
      split
      · rename_i hheld
        exact .ofTable (completes_report event id _ _) fun _ _ => if_pos hheld
      · rename_i hnot
        intro rest faults sent
        refine ⟨[], rfl, .single ?_⟩
        simp [Told.next, Telling.step, Progress.stage, hnot, Telling.goOn]

theorem completes_event (event : Event) (id : Handle) (e : Editors) :
    Completes event id e .notify (sendEvent event e id) := by
  unfold sendEvent
  cases hprogress : progressOf event with
  | some p =>
      exact .ofSend (fun e => completes_progress event id e p) fun _ _ => by
        simp only [Telling.step, hprogress]
        rfl
  | none =>
      have hsame : ∀ o : Outcome, o.andThen (fun e => ⟨e, [], none⟩) = o := by
        rintro ⟨editors, notes, fault⟩
        cases fault <;> simp [Outcome.andThen]
      rw [hsame]
      exact .ofLast fun _ _ => by
        simp only [Telling.step, hprogress]
        rfl

/-- A series of tellings, with one more editor. -/
def tellOne (event : Event) (state : Editors × List Note × List Fault) (id : Handle) :
    Editors × List Note × List Fault :=
  let o := sendEvent event state.1 id
  (o.editors, state.2.1 ++ o.notes, state.2.2 ++ (o.fault.map (sendFault id)).toList)

theorem leads_foldl (event : Event) (ids : List Handle) (state : Editors × List Note × List Fault)
    (sent : List (Note × Option Fault)) (hsent : sent.map (·.1) = state.2.1) :
    ∃ sent', sent'.map (·.1) = (ids.foldl (tellOne event) state).2.1 ∧
      Told.Leads ⟨state.1, ⟨event, ids, .notify, state.2.2⟩, sent⟩
        ⟨(ids.foldl (tellOne event) state).1,
          ⟨event, [], .notify, (ids.foldl (tellOne event) state).2.2⟩, sent'⟩ := by
  induction ids generalizing state sent with
  | nil => exact ⟨sent, hsent, .refl⟩
  | cons id rest ih =>
      obtain ⟨more, hmore, hleads⟩ := completes_event event id state.1 rest state.2.2 sent
      obtain ⟨sent', hsent', hrest⟩ := ih (tellOne event state id) (sent ++ more)
        (by rw [List.map_append, hsent, hmore]; rfl)
      exact ⟨sent', hsent', hleads.trans hrest⟩

/-- **A telling that nothing interrupts comes to what `emit` does.** -/
theorem leads_emit (e : Editors) (event : Event) :
    ∃ faults sent, Fault.join faults = (e.emit event).fault ∧ sent.map (·.1) = (e.emit event).notes ∧
      Told.Leads ⟨e, .start e event, []⟩
        ⟨(e.emit event).editors, ⟨event, [], .notify, faults⟩, sent⟩ := by
  obtain ⟨sent, hsent, hleads⟩ := leads_foldl event e.ids (e, [], []) [] rfl
  exact ⟨_, sent, rfl, hsent, hleads⟩

/-! ### What an editor sees of the progress of a token -/

/-- The work-done progress of a token, as an editor sees it. -/
inductive Mark where
  | created
  | begun
  | ended
deriving DecidableEq, Repr

def Progress.mark : Progress → Mark
  | .start _ => .begun
  | .finish _ _ => .ended

/-- The token that a note is about, and what it says of it. -/
def Note.mark? (n : Note) : Option (String × Mark) :=
  match n.params.get? "token" with
  | some (.str token) =>
    if n.method = "window/workDoneProgress/create" then some (token, .created)
    else if n.method = "$/progress" then
      match (n.params.get? "value").bind (·.get? "kind") with
      | some (.str "begin") => some (token, .begun)
      | some (.str "end") => some (token, .ended)
      | _ => none
    else none
  | _ => none

/-- What has been sent to an editor about a token. -/
def marksOf (id : Handle) (token : String) (sent : List (Note × Option Fault)) : List Mark :=
  sent.filterMap fun entry =>
    if entry.1.editor = id then entry.1.mark?.bind fun mark => if mark.1 = token then some mark.2 else none
    else none

@[simp] theorem marksOf_append (id : Handle) (token : String) (sent sent' : List (Note × Option Fault)) :
    marksOf id token (sent ++ sent') = marksOf id token sent ++ marksOf id token sent' :=
  List.filterMap_append

theorem mark?_createNote (id : Handle) (p : Progress) : (createNote id p).mark? = some (p.token, .created) :=
  rfl

theorem mark?_progressNote (id : Handle) (p : Progress) :
    (progressNote id p).mark? = some (p.token, p.mark) := by
  cases p with
  | start path =>
      by_cases hpath : path = "" <;>
        simp [Note.mark?, progressNote, Progress.value, Json.get?, hpath, Progress.mark]
  | finish path succeeded => rfl

theorem mark?_eventNote (id : Handle) (event : Event) : (Telling.eventNote id event).mark? = none := by
  obtain ⟨type, body⟩ := event
  cases body <;> rfl

theorem marksOf_self {n : Note} {fault : Option Fault} {mark : Mark} (hn : n.editor = id)
    (hmark : n.mark? = some (token, mark)) : marksOf id token [(n, fault)] = [mark] := by
  simp [marksOf, hn, hmark]

theorem marksOf_createNote (id : Handle) (p : Progress) (fault : Option Fault) :
    marksOf id p.token [(createNote id p, fault)] = [.created] :=
  marksOf_self rfl (mark?_createNote id p)

theorem marksOf_progressNote (id : Handle) (p : Progress) (fault : Option Fault) :
    marksOf id p.token [(progressNote id p, fault)] = [p.mark] :=
  marksOf_self rfl (mark?_progressNote id p)

theorem tokens_put (e : Editors) (k : Handle) (held : List String) (id : Handle) :
    ({ e with progress := e.progress.put k held } : Editors).tokens id =
      if id = k then held else e.tokens id := by
  rw [tokens, Table.get?_put]
  split <;> rfl

theorem mem_tokens_hold (e : Editors) (k : Handle) (told : String) (id : Handle) (token : String) :
    token ∈ (e.hold k told).tokens id ↔ token ∈ e.tokens id ∨ id = k ∧ token = told := by
  rw [hold, tokens_put]
  by_cases hid : id = k
  · subst hid
    by_cases hheld : told ∈ e.tokens id
    · simp only [if_pos hheld, if_true, true_and]
      exact ⟨Or.inl, fun h => h.elim (fun h => h) fun h => h ▸ hheld⟩
    · simp [hheld]
  · simp [hid]

theorem mem_tokens_withdraw {e : Editors} {k : Handle} (hnodup : (e.tokens k).Nodup) (told : String)
    (id : Handle) (token : String) :
    token ∈ (e.withdraw k told).tokens id ↔ token ∈ e.tokens id ∧ ¬(id = k ∧ token = told) := by
  rw [withdraw, tokens_put]
  by_cases hid : id = k
  · subst hid
    simp [hnodup.mem_erase_iff, and_comm]
  · simp [hid]

theorem nodup_tokens_hold (hnodup : ∀ id, (e.tokens id).Nodup) (k : Handle) (told : String) (id : Handle) :
    ((e.hold k told).tokens id).Nodup := by
  rw [hold, tokens_put]
  split
  · split
    · exact hnodup k
    · rename_i hfree
      exact List.nodup_append.2 ⟨hnodup k, List.nodup_singleton _, by
        rintro a ha b hb rfl
        exact hfree (List.mem_singleton.1 hb ▸ ha)⟩
  · exact hnodup id

theorem nodup_tokens_withdraw (hnodup : ∀ id, (e.tokens id).Nodup) (k : Handle) (told : String)
    (id : Handle) : ((e.withdraw k told).tokens id).Nodup := by
  rw [withdraw, tokens_put]
  split
  · exact (hnodup k).erase _
  · exact hnodup id

/-! ### Steps of the telling of a restore -/

/-- The stages of a telling with a progress. -/
def Stage.Fits (p : Progress) : Stage → Prop
  | .notify => True
  | .create q | .hold q => q = p ∧ p.stage = .create p
  | .withdraw q => q = p ∧ p.stage = .withdraw p
  | .report q => q = p

theorem Progress.fits_stage (p : Progress) : p.stage.Fits p := by
  cases p <;> exact ⟨rfl, rfl⟩

namespace Telling

/-- What comes next towards an editor, if it has not been told. -/
def toward (t : Telling) (id : Handle) : Option Stage :=
  if t.editors.head? = some id then some t.stage else if id ∈ t.editors then some .notify else none

/-- A step towards an editor: the stage, what becomes of the editors, what comes next towards this editor, and
what is sent. A send that fails is the last one. -/
inductive Acts (e : Editors) (p : Progress) (k : Handle) :
    Stage → Editors → Option Stage → List (Note × Option Fault) → Prop
  | fail {stage : Stage} {n : Note} {fault : Fault} (hn : n.editor = k)
      (hmark : ∀ mark ∈ n.mark?, mark.1 = p.token) :
      Acts e p k stage (e.post n).editors none [(n, some fault)]
  | notify {n : Note} (hn : n.editor = k) (hmark : n.mark? = none) :
      Acts e p k .notify (e.post n).editors (some p.stage) [(n, none)]
  | create (hp : p.stage = .create p) :
      Acts e p k (.create p) (e.post (createNote k p)).editors (some (.hold p)) [(createNote k p, none)]
  | hold (hp : p.stage = .create p) : Acts e p k (.hold p) (e.hold k p.token) (some (.report p)) []
  | withdraw (hp : p.stage = .withdraw p) (hheld : p.token ∈ e.tokens k) :
      Acts e p k (.withdraw p) (e.withdraw k p.token) (some (.report p)) []
  | skip (hp : p.stage = .withdraw p) (hfree : p.token ∉ e.tokens k) : Acts e p k (.withdraw p) e none []
  | report : Acts e p k (.report p) (e.post (progressNote k p)).editors none [(progressNote k p, none)]

theorem acts_after {p : Progress} {k : Handle} {stage : Stage} {next : Option Stage} {n : Note} (t : Telling)
    {o : Outcome} (heditors : o.editors = (e.post n).editors) (hnotes : o.notes = [n]) (hn : n.editor = k)
    (hmark : ∀ mark ∈ n.mark?, mark.1 = p.token)
    (h : Acts e p k stage (e.post n).editors next [(n, none)]) :
    ∃ e' next' sent fault, Acts e p k stage e' next' sent ∧
      t.after k next o = ⟨e', t.goOn k fault next', sent⟩ := by
  cases hfault : o.fault with
  | none => exact ⟨_, _, _, none, h, by simp [after, hfault, heditors, hnotes]⟩
  | some fault =>
      have hfail : Acts e p k stage (e.post n).editors none [(n, some fault)] := .fail hn hmark
      exact ⟨_, _, _, some fault, hfail, by simp [after, hfault, heditors, hnotes]⟩

theorem step_acts {p : Progress} {k : Handle} {rest : List Handle} (e : Editors)
    (hp : progressOf t.event = some p) (hfits : t.stage.Fits p) (ht : t.editors = k :: rest) :
    ∃ e' next sent fault, Acts e p k t.stage e' next sent ∧
      t.step e = ⟨e', t.goOn k fault next, sent⟩ := by
  obtain ⟨event, editors, stage, faults⟩ := t
  obtain rfl : editors = k :: rest := ht
  have hcreate : ∀ mark ∈ (createNote k p).mark?, mark.1 = p.token := by simp [mark?_createNote]
  have hreport : ∀ mark ∈ (progressNote k p).mark?, mark.1 = p.token := by simp [mark?_progressNote]
  have hevent := mark?_eventNote k event
  cases stage with
  | notify =>
      simp only [step, hp, Option.map_some]
      exact acts_after _ rfl rfl rfl (by simp [hevent]) (.notify rfl hevent)
  | create q =>
      obtain ⟨rfl, hstage⟩ := hfits
      simp only [step]
      exact acts_after _ rfl rfl rfl hcreate (.create hstage)
  | hold q =>
      obtain ⟨rfl, hstage⟩ := hfits
      exact ⟨_, _, _, none, .hold hstage, rfl⟩
  | withdraw q =>
      obtain ⟨rfl, hstage⟩ := hfits
      simp only [step]
      split
      · rename_i hheld
        exact ⟨_, _, _, none, .withdraw hstage hheld, rfl⟩
      · rename_i hfree
        exact ⟨_, _, _, none, .skip hstage hfree, rfl⟩
  | report q =>
      obtain rfl : q = p := hfits
      simp only [step]
      exact acts_after _ rfl rfl rfl hreport .report

end Telling

variable {p : Progress} {k : Handle} {stage : Stage} {e' : Editors} {next : Option Stage}
  {sent : List (Note × Option Fault)} {rest : List Handle}

open Telling (Acts)

theorem Telling.Acts.clients (h : Acts e p k stage e' next sent) : e'.clients = e.clients := by
  cases h <;> rfl

theorem Telling.Acts.editor (h : Acts e p k stage e' next sent) : ∀ entry ∈ sent, entry.1.editor = k := by
  cases h <;> simp_all [createNote, progressNote]

/-- The other editors, and the other tokens of this one. -/
theorem Telling.Acts.mem_tokens (h : Acts e p k stage e' next sent) (hnodup : (e.tokens k).Nodup)
    (hne : id ≠ k ∨ token ≠ p.token) : token ∈ e'.tokens id ↔ token ∈ e.tokens id := by
  have hother : ¬(id = k ∧ token = p.token) := fun h => hne.elim (· h.1) (· h.2)
  cases h with
  | hold => simp [mem_tokens_hold, hother]
  | withdraw => simp [mem_tokens_withdraw hnodup, hother]
  | _ => rfl

theorem Telling.Acts.nodup_tokens (h : Acts e p k stage e' next sent) (hnodup : ∀ id, (e.tokens id).Nodup) :
    (e'.tokens id).Nodup := by
  cases h with
  | hold => exact nodup_tokens_hold hnodup k _ id
  | withdraw => exact nodup_tokens_withdraw hnodup k _ id
  | _ => exact hnodup id

theorem marksOf_of_ne {n : Note} {fault : Option Fault}
    (h : ∀ mark ∈ n.mark?, n.editor ≠ id ∨ mark.1 ≠ token) :
    marksOf id token [(n, fault)] = [] := by
  cases hmark : n.mark? with
  | none => simp [marksOf, hmark]
  | some mark =>
      rcases h mark hmark with h | h
      · simp [marksOf, h]
      · simp [marksOf, hmark, h]

theorem Telling.Acts.marksOf (h : Acts e p k stage e' next sent) (hne : id ≠ k ∨ token ≠ p.token) :
    marksOf id token sent = [] := by
  have hnote : ∀ {n : Note} {fault : Option Fault}, n.editor = k →
      (∀ mark ∈ n.mark?, mark.1 = p.token) → Editors.marksOf id token [(n, fault)] = [] := fun hn hmark =>
    marksOf_of_ne fun mark hmem => hne.imp (hn ▸ Ne.symm ·) (hmark mark hmem ▸ Ne.symm ·)
  cases h with
  | fail hn hmark => exact hnote hn hmark
  | notify hn hmark => exact hnote hn (by simp [hmark])
  | create => exact hnote rfl (by simp [mark?_createNote])
  | report => exact hnote rfl (by simp [mark?_progressNote])
  | _ => rfl

theorem Telling.Acts.fits (h : Acts e p k stage e' next sent) :
    ∀ stage' ∈ next, stage'.Fits p := by
  intro stage' hnext
  cases h with
  | notify =>
      obtain rfl := Option.some_inj.1 hnext
      exact p.fits_stage
  | create hp =>
      obtain rfl := Option.some_inj.1 hnext
      exact ⟨rfl, hp⟩
  | hold | withdraw =>
      obtain rfl := Option.some_inj.1 hnext
      rfl
  | _ => cases hnext

namespace Telling

theorem toward_of_head (ht : t.editors = k :: rest) : t.toward k = some t.stage := by
  simp [toward, ht]

theorem toward_goOn_self (ht : t.editors = k :: rest) (hnodup : t.editors.Nodup) (fault : Option Fault)
    (next : Option Stage) : (t.goOn k fault next).toward k = next := by
  rw [ht, List.nodup_cons] at hnodup
  cases next with
  | some stage => simp [toward, goOn, ht]
  | none =>
      have hhead : rest.head? ≠ some k := fun h => hnodup.1 (List.mem_of_mem_head? h)
      simp [toward, goOn, ht, hhead, hnodup.1]

/-- What comes next towards the other editors stays. -/
theorem toward_goOn_of_ne (ht : t.editors = k :: rest) (hid : id ≠ k) (fault : Option Fault)
    (next : Option Stage) : (t.goOn k fault next).toward id = t.toward id := by
  cases next with
  | some stage => simp [toward, goOn, ht, hid.symm]
  | none =>
      cases rest with
      | nil => simp [toward, goOn, ht, hid.symm, hid]
      | cons k' rest =>
          by_cases hk' : k' = id
          · simp [toward, goOn, ht, hid.symm, hk']
          · simp [toward, goOn, ht, hid.symm, hid, hk']

theorem event_goOn (t : Telling) (k : Handle) (fault : Option Fault) (next : Option Stage) :
    (t.goOn k fault next).event = t.event := by
  cases next <;> rfl

theorem fits_goOn (h : ∀ stage ∈ next, stage.Fits p) (k : Handle) (fault : Option Fault) :
    (t.goOn k fault next).stage.Fits p := by
  cases next with
  | none => trivial
  | some stage => exact h stage rfl

theorem nodup_goOn (hnodup : t.editors.Nodup) (fault : Option Fault) (next : Option Stage) :
    (t.goOn k fault next).editors.Nodup := by
  cases next with
  | some stage => exact hnodup
  | none => exact hnodup.sublist (List.tail_sublist _)

end Telling

end CompilationBridge.Editors
