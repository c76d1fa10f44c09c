import CompilationBridge.Proofs.Telling

/-! Many editors behind one gateway. An event or a log message goes to every registered editor, over the
connection of each, and a restore event also drives the progress of its token with each of them. What is sent
over one connection is decided by what happens to its own editor: two histories that have the same
registrations of that editor and the same events make the same calls over its connection, up to a call that
succeeds in one of them and fails in the other, and there is none if the connection is the editor's alone and
fails alike. And the progress of a token is ended with an editor only if the editor has created the token since
it was registered and since the progress was last ended. -/

namespace CompilationBridge

/-- A history with one more entry, cut at an entry: the last one or one before it. -/
theorem concat_eq_append_cons {α : Type} {l before after : List α} {last entry : α} :
    l ++ [last] = before ++ entry :: after ↔
      (before = l ∧ entry = last ∧ after = []) ∨
        ∃ rest, after = rest ++ [last] ∧ l = before ++ entry :: rest := by
  rcases List.eq_nil_or_concat after with rfl | ⟨rest, x, rfl⟩
  · constructor
    · intro heq
      obtain ⟨rfl, hlast⟩ := List.append_inj' heq rfl
      exact Or.inl ⟨rfl, (List.cons.inj hlast).1.symm, rfl⟩
    · rintro (⟨rfl, rfl, -⟩ | ⟨rest, hrest, -⟩)
      · rfl
      · simp at hrest
  · rw [List.concat_eq_append, ← List.cons_append, ← List.append_assoc]
    constructor
    · intro heq
      obtain ⟨rfl, hlast⟩ := List.append_inj' heq rfl
      exact Or.inr ⟨rest, by rw [(List.cons.inj hlast).1], rfl⟩
    · rintro (⟨-, -, hnil⟩ | ⟨rest', hrest, rfl⟩)
      · simp at hnil
      · obtain ⟨rfl, hlast⟩ := List.append_inj' hrest rfl
        rw [(List.cons.inj hlast).1]

namespace Editors

/-- What is done to the editors. -/
inductive Operation where
  | register (id : Handle) (connection : Option String)
  | deregister (id : Handle)
  | emit (event : Event)
  | logMessage (level : Int) (message : String)

/-- Whether an operation concerns an editor: its own registration steps do, and what goes to all editors. -/
def Operation.concerns (id : Handle) : Operation → Bool
  | .register k _ | .deregister k => k = id
  | .emit _ | .logMessage _ _ => true

/-- A call over the connection of an editor, and whether it succeeded. -/
structure Call where
  note : Note
  succeeded : Bool

inductive Entry where
  | registered (id : Handle)
  | deregistered (id : Handle)
  | called (call : Call)

def Entry.call? : Entry → Option Call
  | .called call => some call
  | _ => none

/-- The calls that sending notes one after the other comes to. -/
def callsOf (e : Editors) : List Note → List Call
  | [] => []
  | n :: rest => ⟨n, (e.post n).fault.isNone⟩ :: (e.post n).editors.callsOf rest

/-- The editors with what has happened to them. -/
structure Exchange where
  editors : Editors
  log : List Entry := []

namespace Exchange

/-- No editor is registered, and sends fail as outages have it. -/
def start (outages : Outages Line) : Exchange :=
  { editors := { outages := outages } }

/-- Takes over what sending has come to. -/
def send (s : Exchange) (o : Outcome) : Exchange :=
  { editors := o.editors, log := s.log ++ (s.editors.callsOf o.notes).map .called }

def take (s : Exchange) : Operation → Exchange
  | .register id connection =>
    match s.editors.register id connection with
    | .ok editors => { editors := editors, log := s.log ++ [.registered id] }
    | .error _ => s
  | .deregister id => { editors := s.editors.deregister id, log := s.log ++ [.deregistered id] }
  | .emit event => s.send (s.editors.emit event)
  | .logMessage level message => s.send (s.editors.logMessage level message)

def run (s : Exchange) (ops : List Operation) : Exchange :=
  ops.foldl take s

/-- The calls over the connection of an editor. -/
def callsTo (s : Exchange) (id : Handle) : List Call :=
  (s.log.filterMap Entry.call?).filter (·.note.editor = id)

/-- Each registration is of an editor that is not registered at the time. -/
def RegistersNew (s : Exchange) : List Operation → Prop
  | [] => True
  | op :: rest =>
    (∀ id connection, op = .register id connection → id ∉ s.editors.ids) ∧ (s.take op).RegistersNew rest

end Exchange

/-- Whether an editor shares its connections with no other. -/
def OwnConnections (id : Handle) (ops : List Operation) : Prop :=
  ∀ k name, .register k (some name) ∈ ops → .register id (some name) ∈ ops → k = id

/-- Sends over owned connections fail alike. -/
def Alike (Own : String → Prop) (outages outages' : Outages Line) : Prop :=
  ∀ line : Line, Own line.name → outages.script.get? line = outages'.script.get? line

/-- The same calls, up to one that succeeds in one series and fails in the other. -/
def Part (calls calls' : List Call) : Prop :=
  ∃ common note succeeded rest rest', calls = common ++ ⟨note, succeeded⟩ :: rest ∧
    calls' = common ++ ⟨note, !succeeded⟩ :: rest'

/-- An editor forgets a token when it is registered anew or leaves, and when the token is ended. -/
def Entry.Closes (id : Handle) (token : String) : Entry → Prop
  | .registered k | .deregistered k => k = id
  | .called call => call.note.editor = id ∧ call.note.mark? = some (token, .ended)

/-- An editor has created a token and not forgotten it since. -/
def Created (log : List Entry) (id : Handle) (token : String) : Prop :=
  ∃ before note after, log = before ++ .called ⟨note, true⟩ :: after ∧ note.editor = id ∧
    note.mark? = some (token, .created) ∧ ∀ entry ∈ after, ¬ entry.Closes id token

variable {e e' : Editors} {o : Outcome} {s s' t t' : Exchange} {id k : Handle} {n : Note} {p : Progress}
  {token : String} {event : Event} {op : Operation}

/-! ### Draws from the outages -/

section Draws

variable {τ : Type} [DecidableEq τ]

theorem draw_fst (outages : Outages τ) (part : τ) :
    (outages.draw part).1 = ((outages.script.get? part).bind List.head?).getD false := by
  unfold Outages.draw
  split
  · rename_i hscript
    rw [hscript]
    rfl
  · cases hscript : outages.script.get? part with
    | none => rfl
    | some uses => cases uses with
      | nil => rfl
      | cons failing rest => simp_all

theorem get?_draw (outages : Outages τ) (part other : τ) : (outages.draw part).2.script.get? other =
    if other = part then (outages.script.get? part).map List.tail else outages.script.get? other := by
  unfold Outages.draw
  split
  · rename_i hscript
    rw [Table.get?_put, hscript]
    rfl
  · split
    · rename_i hother
      subst hother
      cases hscript : outages.script.get? other with
      | none => rfl
      | some uses => cases uses with
        | nil => rfl
        | cons failing rest => simp_all
    · rfl

end Draws

section Lines

variable {outages outages' : Outages Line} {Own : String → Prop} {name : String} {line : Line}

theorem Alike.symm (h : Alike Own outages outages') : Alike Own outages' outages :=
  fun line hown => (h line hown).symm

theorem Alike.draw_fst (h : Alike Own outages outages') (line : Line) (hown : Own line.name) :
    (outages.draw line).1 = (outages'.draw line).1 := by
  rw [Editors.draw_fst, Editors.draw_fst, h line hown]

theorem Alike.draw (h : Alike Own outages outages') (line : Line) :
    Alike Own (outages.draw line).2 (outages'.draw line).2 := by
  intro other hown
  rw [get?_draw, get?_draw]
  split
  · rename_i heq
    rw [← heq, h other hown]
  · exact h other hown

theorem drawLine_eq (outages : Outages Line) (name method : String) : drawLine outages name method =
    if (outages.draw ⟨name, some method⟩).1 then (true, (outages.draw ⟨name, some method⟩).2)
    else (outages.draw ⟨name, some method⟩).2.draw ⟨name, none⟩ := by
  unfold drawLine
  split <;> simp [*]

theorem get?_drawLine_of_ne (outages : Outages Line) (hline : line.name ≠ name) (method : String) :
    (drawLine outages name method).2.script.get? line = outages.script.get? line := by
  have hne (method : Option String) : line ≠ ⟨name, method⟩ := fun heq => hline (congrArg Line.name heq)
  rw [drawLine_eq]
  split
  · rw [get?_draw, if_neg (hne _)]
  · rw [get?_draw, if_neg (hne _), get?_draw, if_neg (hne _)]

/-- Over a connection that is owned, a send comes to the same with outages that are alike. -/
theorem Alike.drawLine_fst (h : Alike Own outages outages') (hown : Own name) (method : String) :
    (drawLine outages name method).1 = (drawLine outages' name method).1 := by
  have hmethod := h.draw ⟨name, some method⟩
  rw [drawLine_eq, drawLine_eq, h.draw_fst _ hown]
  split
  · rfl
  · exact hmethod.draw_fst _ hown

/-- Over any connection, a send leaves outages alike that are. -/
theorem Alike.drawLine (h : Alike Own outages outages') (name method : String) :
    Alike Own (drawLine outages name method).2 (drawLine outages' name method).2 := by
  by_cases hown : Own name
  · rw [drawLine_eq, drawLine_eq, h.draw_fst _ hown]
    split
    · exact h.draw _
    · exact (h.draw _).draw _
  · intro line hline
    have hne : line.name ≠ name := fun heq => hown (heq ▸ hline)
    rw [get?_drawLine_of_ne outages hne, get?_drawLine_of_ne outages' hne, h line hline]

end Lines

/-! ### Sends one after the other -/

/-- The editors after notes were sent. -/
def posted (e : Editors) (notes : List Note) : Editors :=
  notes.foldl (fun e n => (e.post n).editors) e

theorem post_congr (hclients : e.clients = e'.clients) (houtages : e.outages = e'.outages) (n : Note) :
    (e.post n).fault = (e'.post n).fault ∧
      (e.post n).editors.clients = (e'.post n).editors.clients ∧
      (e.post n).editors.outages = (e'.post n).editors.outages := by
  simp only [post, hclients, houtages]
  exact ⟨trivial, trivial, trivial⟩

theorem posted_congr (hclients : e.clients = e'.clients) (houtages : e.outages = e'.outages)
    (notes : List Note) : (e.posted notes).outages = (e'.posted notes).outages := by
  induction notes generalizing e e' with
  | nil => exact houtages
  | cons n rest ih =>
      obtain ⟨-, hclients', houtages'⟩ := post_congr hclients houtages n
      exact ih hclients' houtages'

theorem callsOf_congr (hclients : e.clients = e'.clients) (houtages : e.outages = e'.outages)
    (notes : List Note) : e.callsOf notes = e'.callsOf notes := by
  induction notes generalizing e e' with
  | nil => rfl
  | cons n rest ih =>
      obtain ⟨hfault, hclients', houtages'⟩ := post_congr hclients houtages n
      rw [callsOf, callsOf, hfault, ih hclients' houtages']

theorem clients_posted (e : Editors) (notes : List Note) : (e.posted notes).clients = e.clients := by
  induction notes generalizing e with
  | nil => rfl
  | cons n rest ih => exact ih (e.post n).editors

/-- Sends to an editor over its connection take nothing away from the others. -/
theorem get?_posted_of_ne {line : Line} {notes : List Note} (hnotes : ∀ n ∈ notes, n.editor = k)
    (hline : line.name ≠ (e.clients.get? k).getD "") :
    (e.posted notes).outages.script.get? line = e.outages.script.get? line := by
  induction notes generalizing e with
  | nil => rfl
  | cons n rest ih =>
      have hn : line.name ≠ (e.clients.get? n.editor).getD "" := by
        rwa [hnotes n List.mem_cons_self]
      have hrest : ((e.post n).editors.posted rest).outages.script.get? line =
          (e.post n).editors.outages.script.get? line :=
        ih (fun m hm => hnotes m (List.mem_cons_of_mem n hm)) hline
      exact hrest.trans (get?_drawLine_of_ne e.outages hn n.method)

theorem callsOf_append (e : Editors) (notes more : List Note) :
    e.callsOf (notes ++ more) = e.callsOf notes ++ (e.posted notes).callsOf more := by
  induction notes generalizing e with
  | nil => rfl
  | cons n rest ih =>
      rw [List.cons_append, callsOf, callsOf, ih, List.cons_append]
      rfl

/-- An outcome draws from the outages what its notes draw, one after the other. -/
structure Outcome.Draws (o : Outcome) (e : Editors) : Prop where
  clients : o.editors.clients = e.clients
  outages : o.editors.outages = (e.posted o.notes).outages

theorem Outcome.Draws.callsOf_append (h : o.Draws e) (more : List Note) :
    e.callsOf (o.notes ++ more) = e.callsOf o.notes ++ o.editors.callsOf more := by
  rw [Editors.callsOf_append]
  congr 1
  apply callsOf_congr
  · rw [clients_posted, h.clients]
  · exact h.outages.symm

theorem Outcome.Draws.append {o' : Outcome} (h : o.Draws e) (h' : o'.Draws o.editors) (fault : Option Fault) :
    (⟨o'.editors, o.notes ++ o'.notes, fault⟩ : Outcome).Draws e where
  clients := h'.clients.trans h.clients
  outages := by
    have hposted : e.posted (o.notes ++ o'.notes) = (e.posted o.notes).posted o'.notes := by
      rw [posted, List.foldl_append]
      rfl
    rw [hposted]
    apply h'.outages.trans
    exact posted_congr (h.clients.trans (clients_posted e o.notes).symm) h.outages o'.notes

theorem Outcome.Draws.mapFault (h : o.Draws e) (f : Fault → Fault) : (o.mapFault f).Draws e :=
  ⟨h.clients, h.outages⟩

/-- An outcome of sends to one editor, which leave the tokens of the others alone. -/
structure Outcome.Toward (o : Outcome) (e : Editors) (k : Handle) : Prop extends o.Draws e where
  editor : ∀ n ∈ o.notes, n.editor = k
  tokens : ∀ id, id ≠ k → o.editors.tokens id = e.tokens id

theorem Outcome.Toward.post (e : Editors) (n : Note) : (e.post n).Toward e n.editor :=
  ⟨⟨rfl, rfl⟩, fun _ hn => congrArg Note.editor (List.mem_singleton.1 hn), fun _ _ => rfl⟩

theorem Outcome.Toward.andThen {next : Editors → Outcome} (h : o.Toward e k)
    (hnext : (next o.editors).Toward o.editors k) : (o.andThen next).Toward e k := by
  unfold Outcome.andThen
  split
  · exact h
  · refine ⟨h.toDraws.append hnext.toDraws _, fun n hn => ?_, fun id hid => ?_⟩
    · exact (List.mem_append.1 hn).elim (h.editor n) (hnext.editor n)
    · exact (hnext.tokens id hid).trans (h.tokens id hid)

/-- A change of the tokens that the editor holds, before it is told. -/
theorem Outcome.Toward.ofTokens {held : List String}
    (h : o.Toward { e with progress := e.progress.put k held } k) : o.Toward e k where
  clients := h.clients
  outages := by
    rw [h.outages]
    apply posted_congr <;> rfl
  editor := h.editor
  tokens id hid := (h.tokens id hid).trans ((tokens_put e k held id).trans (if_neg hid))

theorem toward_sendProgress (e : Editors) (k : Handle) (p : Progress) : (e.sendProgress k p).Toward e k := by
  cases p with
  | start path =>
      have hcreate := Outcome.Toward.post e (createNote k (.start path))
      simp only [sendProgress]
      apply Outcome.Toward.andThen
      · exact ⟨hcreate.toDraws.mapFault _, hcreate.editor, hcreate.tokens⟩
      · exact .ofTokens (.post _ (progressNote k (.start path)))
  | finish path succeeded =>
      simp only [sendProgress]
      split
      · exact .ofTokens (.post _ (progressNote k (.finish path succeeded)))
      · exact ⟨⟨rfl, rfl⟩, by simp, fun _ _ => rfl⟩

theorem toward_sendEvent (event : Event) (e : Editors) (k : Handle) : (sendEvent event e k).Toward e k := by
  apply Outcome.Toward.andThen (Outcome.Toward.post e (Telling.eventNote k event))
  split
  · exact toward_sendProgress _ k _
  · exact ⟨⟨rfl, rfl⟩, by simp, fun _ _ => rfl⟩

namespace Exchange

/-- Sends that follow one another. -/
theorem send_send (h : o.Draws s.editors) (o' : Outcome) :
    (s.send o).send o' = s.send ⟨o'.editors, o.notes ++ o'.notes, o'.fault⟩ := by
  simp only [send, h.callsOf_append, List.map_append, List.append_assoc]

theorem send_andThen {next : Editors → Outcome} (h : o.Draws s.editors) :
    s.send (o.andThen next) = if o.fault.isNone then (s.send o).send (next o.editors) else s.send o := by
  rw [send_send h]
  unfold Outcome.andThen
  split <;> simp_all

/-- Tells one editor what is sent to each of them. -/
def tell (send : Editors → Handle → Outcome) (s : Exchange) (k : Handle) : Exchange :=
  s.send (send s.editors k)

/-- A broadcast tells the registered editors one after the other. -/
theorem send_broadcast {send : Editors → Handle → Outcome} (hsend : ∀ e k, (send e k).Toward e k)
    (s : Exchange) : s.send (s.editors.broadcast send) = s.editors.ids.foldl (tell send) s := by
  have hfoldl : ∀ (ids : List Handle) (o : Outcome) (faults : List Fault), o.Draws s.editors →
      let r := ids.foldl (fun (state : Editors × List Note × List Fault) id =>
        let o := send state.1 id
        (o.editors, state.2.1 ++ o.notes, state.2.2 ++ (o.fault.map (sendFault id)).toList))
        (o.editors, o.notes, faults)
      s.send ⟨r.1, r.2.1, Fault.join r.2.2⟩ = ids.foldl (tell send) (s.send o) := by
    intro ids
    induction ids with
    | nil => exact fun _ _ _ => rfl
    | cons k rest ih =>
        intro o faults h
        have hk := (hsend o.editors k).toDraws
        rw [List.foldl_cons, List.foldl_cons, tell, send_send h]
        exact ih ⟨_, _, (send o.editors k).fault⟩ _ (h.append hk _)
  have hstart : s.send ⟨s.editors, [], none⟩ = s := by simp [Exchange.send, callsOf]
  have hall := hfoldl s.editors.ids ⟨s.editors, [], none⟩ [] ⟨rfl, rfl⟩
  rw [hstart] at hall
  exact hall

/-- A change of what editors hold takes nothing away from the sends that follow. -/
theorem send_of_congr {e : Editors} (hclients : e.clients = s.editors.clients)
    (houtages : e.outages = s.editors.outages) (o : Outcome) : { s with editors := e }.send o = s.send o := by
  simp only [send, callsOf_congr hclients houtages]

theorem callsTo_send (s : Exchange) (o : Outcome) (id : Handle) : (s.send o).callsTo id =
    s.callsTo id ++ (s.editors.callsOf o.notes).filter (·.note.editor = id) := by
  have hcalls : Entry.call? ∘ Entry.called = some := rfl
  simp only [callsTo, send, List.filterMap_append, List.filterMap_map, hcalls, List.filterMap_some,
    List.filter_append]

theorem callsTo_send_post (s : Exchange) (n : Note) : (s.send (s.editors.post n)).callsTo n.editor =
    s.callsTo n.editor ++ [⟨n, (s.editors.post n).fault.isNone⟩] := by
  rw [callsTo_send]
  simp [callsOf, post]

theorem callsOf_note {e : Editors} {notes : List Note} {call : Call} (h : call ∈ e.callsOf notes) :
    call.note ∈ notes := by
  induction notes generalizing e with
  | nil => cases h
  | cons n rest ih =>
      rcases List.mem_cons.1 h with rfl | h
      · exact List.mem_cons_self
      · exact List.mem_cons_of_mem n (ih h)

theorem callsTo_send_of_ne (h : o.Toward s.editors k) (hk : k ≠ id) : (s.send o).callsTo id = s.callsTo id := by
  rw [callsTo_send, List.filter_eq_nil_iff.2, List.append_nil]
  intro call hcall
  rw [h.editor _ (callsOf_note hcall)]
  simpa using hk

theorem callsTo_prefix_send (s : Exchange) (o : Outcome) (id : Handle) :
    s.callsTo id <+: (s.send o).callsTo id := by
  rw [callsTo_send]
  exact List.prefix_append _ _

theorem callsTo_prefix_take (s : Exchange) (op : Operation) (id : Handle) :
    s.callsTo id <+: (s.take op).callsTo id := by
  cases op with
  | register k connection =>
      cases connection with
      | none => exact List.prefix_rfl
      | some name =>
          simp only [take, register, callsTo, List.filterMap_append, List.filter_append]
          exact List.prefix_append _ _
  | deregister k =>
      simp only [take, callsTo, List.filterMap_append, List.filter_append]
      exact List.prefix_append _ _
  | emit event => exact callsTo_prefix_send ..
  | logMessage level message => exact callsTo_prefix_send ..

theorem callsTo_prefix_run (s : Exchange) (ops : List Operation) (id : Handle) :
    s.callsTo id <+: (s.run ops).callsTo id := by
  induction ops generalizing s with
  | nil => exact List.prefix_rfl
  | cons op rest ih => exact (callsTo_prefix_take s op id).trans (ih (s.take op))

end Exchange

/-! ### Two histories -/

theorem Part.mono {calls calls' more more' : List Call} (h : Part calls calls') (hmore : calls <+: more)
    (hmore' : calls' <+: more') : Part more more' := by
  obtain ⟨common, note, succeeded, rest, rest', rfl, rfl⟩ := h
  obtain ⟨end_, rfl⟩ := hmore
  obtain ⟨end', rfl⟩ := hmore'
  exact ⟨common, note, succeeded, rest ++ end_, rest' ++ end', by simp, by simp⟩

/-- What two histories have in common of the connections of an editor: no other editor has one of the owned
connections, and sends over them fail alike in both histories. -/
structure Terms where
  Own : String → Prop
  /-- Whether the editor may have a connection that is not owned. -/
  Shared : Prop

/-- Two histories in which an editor has seen the same and stands the same. -/
structure Twin (c : Terms) (id : Handle) (s s' : Exchange) : Prop where
  calls : s.callsTo id = s'.callsTo id
  connection : s.editors.clients.get? id = s'.editors.clients.get? id
  tokens : s.editors.tokens id = s'.editors.tokens id
  alike : Alike c.Own s.editors.outages s'.editors.outages
  apart : ∀ k name, s.editors.clients.get? k = some name → c.Own name → k = id
  apart' : ∀ k name, s'.editors.clients.get? k = some name → c.Own name → k = id
  owned : ∀ name, s.editors.clients.get? id = some name → c.Own name ∨ c.Shared

/-- What an editor has seen is the same, or parts at the outcome of a call over a connection that the editor
does not own. -/
def Beside (c : Terms) (id : Handle) (s s' : Exchange) : Prop :=
  Twin c id s s' ∨ c.Shared ∧ Part (s.callsTo id) (s'.callsTo id)

variable {c : Terms}

theorem Twin.symm (h : Twin c id s s') : Twin c id s' s where
  calls := h.calls.symm
  connection := h.connection.symm
  tokens := h.tokens.symm
  alike := h.alike.symm
  apart := h.apart'
  apart' := h.apart
  owned name hname := h.owned name (h.connection.trans hname)

theorem Twin.registered (h : Twin c id s s') : id ∈ s.editors.ids ↔ id ∈ s'.editors.ids := by
  rw [mem_ids, mem_ids, h.connection]

theorem Beside.mono (h : Beside c id s s') (hparted : s.callsTo id <+: t.callsTo id)
    (hparted' : s'.callsTo id <+: t'.callsTo id) (htwin : Twin c id s s' → Beside c id t t') :
    Beside c id t t' := by
  rcases h with h | ⟨hshared, h⟩
  · exact htwin h
  · exact Or.inr ⟨hshared, h.mono hparted hparted'⟩

theorem mem_ids_congr (h : e.clients = e'.clients) : id ∈ e.ids ↔ id ∈ e'.ids := by
  rw [ids, ids, h]

/-- Another editor is told, over a connection that the editor does not own. -/
theorem Twin.send_left (h : Twin c id s s') (ho : o.Toward s.editors k) (hk : k ≠ id)
    (hids : k ∈ s.editors.ids) : Twin c id (s.send o) s' where
  calls := (Exchange.callsTo_send_of_ne ho hk).trans h.calls
  connection := (congrArg (Table.get? · id) ho.clients).trans h.connection
  tokens := (ho.tokens id hk.symm).trans h.tokens
  alike line hown := by
    obtain ⟨name, hname⟩ := mem_ids.1 hids
    have hline : line.name ≠ name := fun hline => hk (h.apart k name hname (hline ▸ hown))
    refine Eq.trans ?_ (h.alike line hown)
    show o.editors.outages.script.get? line = _
    rw [ho.outages]
    apply get?_posted_of_ne ho.editor
    rwa [hname]
  apart k name hname := h.apart k name ((congrArg (Table.get? · k) ho.clients).symm.trans hname)
  apart' := h.apart'
  owned name hname := h.owned name ((congrArg (Table.get? · id) ho.clients).symm.trans hname)

theorem Twin.post (h : Twin c id s s') (hid : id ∈ s.editors.ids) (hn : n.editor = id) :
    (s.editors.post n).fault.isNone = (s'.editors.post n).fault.isNone ∧
        Twin c id (s.send (s.editors.post n)) (s'.send (s'.editors.post n)) ∨
      c.Shared ∧ Part ((s.send (s.editors.post n)).callsTo id) ((s'.send (s'.editors.post n)).callsTo id) := by
  subst hn
  obtain ⟨name, hname⟩ := mem_ids.1 hid
  have hname' : s'.editors.clients.get? n.editor = some name := h.connection.symm.trans hname
  rw [Exchange.callsTo_send_post, Exchange.callsTo_send_post, h.calls]
  by_cases hsame : (s.editors.post n).fault.isNone = (s'.editors.post n).fault.isNone
  · refine Or.inl ⟨hsame, ?_, h.connection, h.tokens, ?_, h.apart, h.apart', h.owned⟩
    · rw [Exchange.callsTo_send_post, Exchange.callsTo_send_post, h.calls, hsame]
    · simp only [Exchange.send, Editors.post, hname, hname']
      exact h.alike.drawLine name n.method
  · refine Or.inr ⟨(h.owned name hname).resolve_left fun hown => ?_, ?_⟩
    · apply hsame
      simp only [Editors.post, hname, hname', Option.getD_some, h.alike.drawLine_fst hown n.method]
    · refine ⟨s'.callsTo n.editor, n, (s.editors.post n).fault.isNone, [], [], rfl, ?_⟩
      rw [Bool.eq_not.2 (Ne.symm hsame)]

/-- Goes on after a send to the editor that has come to the same in both histories. -/
theorem Twin.andThen {o' : Outcome} {next : Editors → Outcome} (ho : o.Draws s.editors)
    (ho' : o'.Draws s'.editors)
    (h : o.fault.isNone = o'.fault.isNone ∧ Twin c id (s.send o) (s'.send o') ∨
      c.Shared ∧ Part ((s.send o).callsTo id) ((s'.send o').callsTo id))
    (hnext : Twin c id (s.send o) (s'.send o') →
      Beside c id ((s.send o).send (next o.editors)) ((s'.send o').send (next o'.editors))) :
    Beside c id (s.send (o.andThen next)) (s'.send (o'.andThen next)) := by
  rw [Exchange.send_andThen ho, Exchange.send_andThen ho']
  rcases h with ⟨hsame, htwin⟩ | ⟨hshared, hpart⟩
  · rw [hsame]
    split
    · exact hnext htwin
    · exact Or.inl htwin
  · have hmore (t : Exchange) (o : Outcome) (b : Bool) :
        t.callsTo id <+: (if b then t.send o else t).callsTo id := by
      split
      · exact t.callsTo_prefix_send o id
      · exact List.prefix_rfl
    exact Or.inr ⟨hshared, hpart.mono (hmore _ _ _) (hmore _ _ _)⟩

theorem Twin.setTokens (h : Twin c id s s') (held : List String) :
    Twin c id { s with editors := { s.editors with progress := s.editors.progress.put id held } }
      { s' with editors := { s'.editors with progress := s'.editors.progress.put id held } } :=
  ⟨h.calls, h.connection, by rw [tokens_put, tokens_put, if_pos rfl, if_pos rfl], h.alike, h.apart, h.apart',
    h.owned⟩

theorem Twin.hold (h : Twin c id s s') (token : String) :
    Twin c id { s with editors := s.editors.hold id token }
      { s' with editors := s'.editors.hold id token } := by
  simp only [Editors.hold, h.tokens]
  exact h.setTokens _

theorem Twin.withdraw (h : Twin c id s s') (token : String) :
    Twin c id { s with editors := s.editors.withdraw id token }
      { s' with editors := s'.editors.withdraw id token } := by
  simp only [Editors.withdraw, h.tokens]
  exact h.setTokens _

/-- The editor is told after a change of the tokens that it holds. -/
theorem Twin.postFrom (h : Twin c id { s with editors := e } { s' with editors := e' })
    (hid : id ∈ e.ids) (hn : n.editor = id) (hclients : e.clients = s.editors.clients)
    (houtages : e.outages = s.editors.outages)
    (hclients' : e'.clients = s'.editors.clients) (houtages' : e'.outages = s'.editors.outages) :
    Beside c id (s.send (e.post n)) (s'.send (e'.post n)) := by
  rw [← Exchange.send_of_congr hclients houtages, ← Exchange.send_of_congr hclients' houtages']
  exact (h.post hid hn).imp And.right fun hpart => hpart

theorem Twin.silent (h : Twin c id s s') (fault fault' : Option Fault) :
    Beside c id (s.send ⟨s.editors, [], fault⟩) (s'.send ⟨s'.editors, [], fault'⟩) := by
  apply Or.inl
  simpa [Exchange.send, callsOf] using h

theorem Twin.sendProgress (h : Twin c k s s') (hk : k ∈ s.editors.ids) (p : Progress) :
    Beside c k (s.send (s.editors.sendProgress k p)) (s'.send (s'.editors.sendProgress k p)) := by
  cases p with
  | start path =>
      have hcreate (e : Editors) := (Outcome.Toward.post e (createNote k (.start path))).toDraws
      rw [sendProgress_start, sendProgress_start]
      apply Twin.andThen ((hcreate _).mapFault _) ((hcreate _).mapFault _)
      · simp only [Outcome.mapFault, Option.isNone_map]
        exact h.post hk rfl
      · intro htwin
        exact (htwin.hold (Editors.token path)).postFrom hk rfl rfl rfl rfl rfl
  | finish path succeeded =>
      rw [sendProgress_finish, sendProgress_finish, h.tokens]
      split
      · exact (h.withdraw (Editors.token path)).postFrom hk rfl rfl rfl rfl rfl
      · exact h.silent none none

theorem Twin.sendEvent (h : Twin c k s s') (hk : k ∈ s.editors.ids) (event : Event) :
    Beside c k (s.send (sendEvent event s.editors k)) (s'.send (sendEvent event s'.editors k)) := by
  have hpost (e : Editors) := (Outcome.Toward.post e (Telling.eventNote k event)).toDraws
  apply Twin.andThen (hpost _) (hpost _) (h.post hk rfl)
  intro htwin
  split
  · exact htwin.sendProgress hk _
  · exact htwin.silent none none

namespace Exchange

theorem clients_tell {send : Editors → Handle → Outcome} (hsend : ∀ e k, (send e k).Toward e k)
    (s : Exchange) (ids : List Handle) : (ids.foldl (tell send) s).editors.clients = s.editors.clients := by
  induction ids generalizing s with
  | nil => rfl
  | cons k rest ih => exact (ih _).trans (hsend s.editors k).clients

theorem clients_broadcast {send : Editors → Handle → Outcome} (hsend : ∀ e k, (send e k).Toward e k)
    (e : Editors) : (e.broadcast send).editors.clients = e.clients :=
  (congrArg (fun s : Exchange => s.editors.clients) (send_broadcast hsend ⟨e, []⟩)).trans
    (clients_tell hsend ⟨e, []⟩ e.ids)

theorem callsTo_prefix_tell (send : Editors → Handle → Outcome) (s : Exchange) (ids : List Handle)
    (id : Handle) : s.callsTo id <+: (ids.foldl (tell send) s).callsTo id := by
  induction ids generalizing s with
  | nil => exact List.prefix_rfl
  | cons k rest ih => exact (s.callsTo_prefix_send _ id).trans (ih _)

end Exchange

theorem Twin.tell_left {send : Editors → Handle → Outcome} (hsend : ∀ e k, (send e k).Toward e k)
    (h : Twin c id s s') {ids : List Handle} (hids : id ∉ ids) (hmem : ∀ k ∈ ids, k ∈ s.editors.ids) :
    Twin c id (ids.foldl (Exchange.tell send) s) s' := by
  induction ids generalizing s with
  | nil => exact h
  | cons k rest ih =>
      obtain ⟨hk, hrest⟩ := not_or.1 (List.mem_cons.not.1 hids)
      apply ih (h.send_left (hsend s.editors k) (Ne.symm hk) (hmem k List.mem_cons_self)) hrest
      intro other hother
      exact (mem_ids_congr (hsend s.editors k).clients).2 (hmem other (List.mem_cons_of_mem k hother))

/-- The editors before and after one of them in a broadcast. -/
theorem Twin.tell {send : Editors → Handle → Outcome} (hsend : ∀ e k, (send e k).Toward e k)
    (h : Twin c id s s') {ids ids' : List Handle} (hids : id ∉ ids) (hids' : id ∉ ids')
    (hmem : ∀ k ∈ ids, k ∈ s.editors.ids) (hmem' : ∀ k ∈ ids', k ∈ s'.editors.ids) :
    Twin c id (ids.foldl (Exchange.tell send) s) (ids'.foldl (Exchange.tell send) s') :=
  ((h.tell_left hsend hids hmem).symm.tell_left hsend hids' hmem').symm

/-- A broadcast, of which an editor sees what is sent to it. -/
theorem Twin.broadcast {send : Editors → Handle → Outcome} (hsend : ∀ e k, (send e k).Toward e k)
    (hown : ∀ {s s'}, Twin c id s s' → id ∈ s.editors.ids →
      Beside c id (s.send (send s.editors id)) (s'.send (send s'.editors id)))
    (h : Twin c id s s') (hnodup : s.editors.ids.Nodup) (hnodup' : s'.editors.ids.Nodup) :
    Beside c id (s.send (s.editors.broadcast send)) (s'.send (s'.editors.broadcast send)) := by
  rw [Exchange.send_broadcast hsend, Exchange.send_broadcast hsend]
  by_cases hid : id ∈ s.editors.ids
  · obtain ⟨before, after, hids⟩ := List.append_of_mem hid
    obtain ⟨before', after', hids'⟩ := List.append_of_mem (h.registered.1 hid)
    have hmem : ∀ k ∈ before ++ id :: after, k ∈ s.editors.ids := fun k hk => hids ▸ hk
    have hmem' : ∀ k ∈ before' ++ id :: after', k ∈ s'.editors.ids := fun k hk => hids' ▸ hk
    rw [hids, List.nodup_middle, List.nodup_cons, List.mem_append, not_or] at hnodup
    rw [hids', List.nodup_middle, List.nodup_cons, List.mem_append, not_or] at hnodup'
    rw [hids, hids', List.foldl_append, List.foldl_append, List.foldl_cons, List.foldl_cons]
    simp only [List.forall_mem_append, List.forall_mem_cons] at hmem hmem'
    have hbefore := h.tell hsend hnodup.1.1 hnodup'.1.1 hmem.1 hmem'.1
    -- who is registered stays the same while the editors are told
    have htold (t : Exchange) (told : List Handle) (k : Handle) (hk : k ∈ t.editors.ids) :
        k ∈ (Exchange.tell send (told.foldl (Exchange.tell send) t) id).editors.ids :=
      (mem_ids_congr ((hsend _ id).clients.trans (Exchange.clients_tell hsend t told))).2 hk
    have hid' : id ∈ (before.foldl (Exchange.tell send) s).editors.ids :=
      (mem_ids_congr (Exchange.clients_tell hsend s before)).2 hid
    refine (hown hbefore hid').mono (Exchange.callsTo_prefix_tell ..) (Exchange.callsTo_prefix_tell ..) ?_
    intro htwin
    apply Or.inl
    apply htwin.tell hsend hnodup.1.2 hnodup'.1.2
    · exact fun k hk => htold s before k (hmem.2.2 k hk)
    · exact fun k hk => htold s' before' k (hmem'.2.2 k hk)
  · have hid' : id ∉ s'.editors.ids := fun hmem => hid (h.registered.2 hmem)
    exact Or.inl (h.tell hsend hid hid' (fun _ hk => hk) fun _ hk => hk)

theorem toward_logMessage (level : Int) (message : String) (e : Editors) (k : Handle) :
    (e.post ⟨k, false, "window/logMessage", messageParams level message⟩).Toward e k :=
  .post e ⟨k, false, "window/logMessage", messageParams level message⟩

theorem tokens_deregister (e : Editors) (k id : Handle) :
    (e.deregister k).tokens id = if id = k then [] else e.tokens id := by
  simp only [tokens, deregister, Table.get?_erase]
  split <;> rfl

theorem mem_ids_deregister (e : Editors) (k id : Handle) :
    id ∈ (e.deregister k).ids ↔ id ≠ k ∧ id ∈ e.ids := by
  simp only [mem_ids, deregister, Table.get?_erase]
  split <;> simp [*]

theorem mem_ids_register (e : Editors) (k : Handle) (name : String) (id : Handle) :
    id ∈ ({ e with clients := e.clients.put k name } : Editors).ids ↔ id = k ∨ id ∈ e.ids := by
  simp only [mem_ids, Table.get?_put]
  split <;> simp [*]

/-- A registration gives owned connections to the editor only, and other ones as the terms say. -/
def Terms.Grant (c : Terms) (id : Handle) (op : Operation) : Prop :=
  ∀ k name, op = .register k (some name) → (c.Own name → k = id) ∧ (k = id → c.Own name ∨ c.Shared)

theorem apart_register {clients : Table Handle String} {name : String}
    (h : ∀ k name, clients.get? k = some name → c.Own name → k = id) (hnew : c.Own name → k = id) :
    ∀ other name', (clients.put k name).get? other = some name' → c.Own name' → other = id := by
  intro other name' hname hown
  rw [Table.get?_put] at hname
  split at hname
  · rename_i hother
    obtain rfl := Option.some_inj.1 hname
    exact hother.trans (hnew hown)
  · exact h other name' hname hown

theorem apart_deregister {clients : Table Handle String}
    (h : ∀ k name, clients.get? k = some name → c.Own name → k = id) (k : Handle) :
    ∀ other name, (clients.erase k).get? other = some name → c.Own name → other = id := by
  intro other name hname hown
  rw [Table.get?_erase] at hname
  split at hname
  · cases hname
  · exact h other name hname hown

/-- An operation on another editor. -/
theorem Twin.take_left (h : Twin c id s s') (hop : op.concerns id = false) (hgrant : c.Grant id op) :
    Twin c id (s.take op) s' := by
  cases op with
  | register k connection =>
      have hk : id ≠ k := fun heq => of_decide_eq_false hop heq.symm
      cases connection with
      | none => exact h
      | some name =>
          have hclients : (s.editors.clients.put k name).get? id = s.editors.clients.get? id := by
            rw [Table.get?_put, if_neg hk]
          refine ⟨?_, hclients.trans h.connection, h.tokens, h.alike,
            apart_register h.apart (hgrant k name rfl).1, h.apart',
            fun name hname => h.owned name (hclients.symm.trans hname)⟩
          rw [← h.calls]
          simp [Exchange.take, register, Exchange.callsTo, Entry.call?]
  | deregister k =>
      have hk : id ≠ k := fun heq => of_decide_eq_false hop heq.symm
      have hclients : (s.editors.clients.erase k).get? id = s.editors.clients.get? id := by
        rw [Table.get?_erase, if_neg hk]
      refine ⟨?_, hclients.trans h.connection, ?_, h.alike, apart_deregister h.apart k, h.apart',
        fun name hname => h.owned name (hclients.symm.trans hname)⟩
      · rw [← h.calls]
        simp [Exchange.take, Exchange.callsTo, Entry.call?]
      · exact (tokens_deregister s.editors k id).trans ((if_neg hk).trans h.tokens)
  | emit event => cases hop
  | logMessage level message => cases hop

/-- An operation that both histories have. -/
theorem Twin.take (h : Twin c id s s') (hnodup : s.editors.ids.Nodup) (hnodup' : s'.editors.ids.Nodup)
    (hgrant : c.Grant id op) : Beside c id (s.take op) (s'.take op) := by
  cases op with
  | register k connection =>
      cases connection with
      | none => exact Or.inl h
      | some name =>
          obtain ⟨hown, howned⟩ := hgrant k name rfl
          refine Or.inl ⟨?_, ?_, h.tokens, h.alike, apart_register h.apart hown,
            apart_register h.apart' hown, fun name' hname => ?_⟩
          · simpa [Exchange.take, register, Exchange.callsTo, Entry.call?] using h.calls
          · show (s.editors.clients.put k name).get? id = (s'.editors.clients.put k name).get? id
            rw [Table.get?_put, Table.get?_put, h.connection]
          · have hput := (Table.get?_put s.editors.clients k name id).symm.trans hname
            split at hput
            · rename_i hk
              obtain rfl := Option.some_inj.1 hput
              exact howned hk.symm
            · exact h.owned name' hput
  | deregister k =>
      refine Or.inl ⟨?_, ?_, ?_, h.alike, apart_deregister h.apart k, apart_deregister h.apart' k,
        fun name hname => ?_⟩
      · simpa [Exchange.take, Exchange.callsTo, Entry.call?] using h.calls
      · show (s.editors.clients.erase k).get? id = (s'.editors.clients.erase k).get? id
        rw [Table.get?_erase, Table.get?_erase, h.connection]
      · show (s.editors.deregister k).tokens id = (s'.editors.deregister k).tokens id
        rw [tokens_deregister, tokens_deregister, h.tokens]
      · have herase := (Table.get?_erase s.editors.clients k id).symm.trans hname
        split at herase
        · cases herase
        · exact h.owned name herase
  | emit event => exact h.broadcast (toward_sendEvent event) (·.sendEvent · event) hnodup hnodup'
  | logMessage level message =>
      apply h.broadcast (toward_logMessage level message) _ hnodup hnodup'
      exact fun htwin hid => (htwin.post hid rfl).imp And.right fun hpart => hpart

namespace Exchange

theorem nodup_keys_take (h : s.editors.clients.keys.Nodup) (op : Operation) :
    (s.take op).editors.clients.keys.Nodup := by
  cases op with
  | register k connection =>
      cases connection with
      | none => exact h
      | some name => exact Table.keys_put_nodup h k name
  | deregister k => exact Table.keys_erase_nodup h k
  | emit event => exact (clients_broadcast (toward_sendEvent event) s.editors).symm ▸ h
  | logMessage level message => exact (clients_broadcast (toward_logMessage level message) s.editors).symm ▸ h

theorem nodup_keys_run (h : s.editors.clients.keys.Nodup) (ops : List Operation) :
    (s.run ops).editors.clients.keys.Nodup := by
  induction ops generalizing s with
  | nil => exact h
  | cons op rest ih => exact ih (nodup_keys_take h op)

theorem nodup_ids (h : s.editors.clients.keys.Nodup) : s.editors.ids.Nodup :=
  List.nodup_mergeSort.2 h

end Exchange

/-- Any number of operations on other editors. -/
theorem Twin.run_left (h : Twin c id s s') {ops : List Operation} (hops : ∀ op ∈ ops, ¬ op.concerns id)
    (hgrant : ∀ op ∈ ops, c.Grant id op) : Twin c id (s.run ops) s' := by
  induction ops generalizing s with
  | nil => exact h
  | cons op rest ih =>
      rw [List.forall_mem_cons] at hops hgrant
      exact ih (h.take_left (Bool.not_eq_true _ ▸ hops.1) hgrant.1) hops.2 hgrant.2

/-- Histories in which the same happens to one editor. -/
theorem Twin.run (h : Twin c id s s') (hkeys : s.editors.clients.keys.Nodup)
    (hkeys' : s'.editors.clients.keys.Nodup) {ops ops' : List Operation}
    (hops : ops.filter (·.concerns id) = ops'.filter (·.concerns id)) (hgrant : ∀ op ∈ ops, c.Grant id op)
    (hgrant' : ∀ op ∈ ops', c.Grant id op) : Beside c id (s.run ops) (s'.run ops') := by
  induction ops generalizing s s' ops' with
  | nil =>
      have hothers : ∀ op ∈ ops', ¬ op.concerns id := List.filter_eq_nil_iff.1 hops.symm
      exact Or.inl (h.symm.run_left hothers hgrant').symm
  | cons op rest ih =>
      rw [List.forall_mem_cons] at hgrant
      by_cases hop : op.concerns id
      · rw [List.filter_cons_of_pos hop] at hops
        obtain ⟨before, after, rfl, hbefore, -, hafter⟩ := List.filter_eq_cons_iff.1 hops.symm
        rw [List.forall_mem_append, List.forall_mem_cons] at hgrant'
        have htwin : Twin c id s (s'.run before) := (h.symm.run_left hbefore hgrant'.1).symm
        have hkeys'' := Exchange.nodup_keys_run hkeys' before
        have hsplit : s'.run (before ++ op :: after) = ((s'.run before).take op).run after :=
          List.foldl_append
        rw [hsplit]
        have htaken := htwin.take (Exchange.nodup_ids hkeys) (Exchange.nodup_ids hkeys'') hgrant.1
        refine htaken.mono (Exchange.callsTo_prefix_run ..) (Exchange.callsTo_prefix_run ..) fun h => ?_
        exact ih h (Exchange.nodup_keys_take hkeys op) (Exchange.nodup_keys_take hkeys'' op) hafter.symm
          hgrant.2 hgrant'.2.2
      · rw [List.filter_cons_of_neg hop] at hops
        exact ih (h.take_left (Bool.not_eq_true _ ▸ hop) hgrant.1) (Exchange.nodup_keys_take hkeys op) hkeys'
          hops hgrant.2 hgrant'

/-! ### Tokens that are ended -/

/-- What is held was created, and what is ended was held. -/
structure Traced (s : Exchange) : Prop where
  created : ∀ id token, token ∈ s.editors.tokens id → Created s.log id token
  ended : ∀ before call after token, s.log = before ++ .called call :: after →
    call.note.mark? = some (token, .ended) → Created before call.note.editor token
  nodup : ∀ id, (s.editors.tokens id).Nodup
  registered : ∀ id token, token ∈ s.editors.tokens id → id ∈ s.editors.ids

theorem Created.append {log : List Entry} {entry : Entry} (h : Created log id token)
    (hopen : ¬ entry.Closes id token) : Created (log ++ [entry]) id token := by
  obtain ⟨before, note, after, rfl, hnote, hmark, hafter⟩ := h
  refine ⟨before, note, after ++ [entry], by simp, hnote, hmark, fun e he => ?_⟩
  rcases List.mem_append.1 he with he | he
  · exact hafter e he
  · rw [List.mem_singleton.1 he]
    exact hopen

/-- One more entry. -/
theorem Traced.append {entry : Entry} (h : Traced s)
    (hopen : ∀ id token, token ∈ e.tokens id → token ∈ s.editors.tokens id ∧ ¬ entry.Closes id token)
    (hended : ∀ call token, entry = .called call → call.note.mark? = some (token, .ended) →
      Created s.log call.note.editor token)
    (hnodup : ∀ id, (e.tokens id).Nodup) (hregistered : ∀ id token, token ∈ e.tokens id → id ∈ e.ids) :
    Traced ⟨e, s.log ++ [entry]⟩ where
  created id token hheld := (h.created id token (hopen id token hheld).1).append (hopen id token hheld).2
  ended before call after token hlog hmark := by
    rcases concat_eq_append_cons.1 hlog with ⟨rfl, hentry, -⟩ | ⟨rest, -, hlog⟩
    · exact hended call token hentry.symm hmark
    · exact h.ended before call rest token hlog hmark
  nodup := hnodup
  registered := hregistered

/-- A note that ends no token that is held. -/
theorem Traced.post (h : Traced s) (hended : ∀ token, n.mark? = some (token, .ended) →
    Created s.log n.editor token ∧ token ∉ s.editors.tokens n.editor) :
    Traced (s.send (s.editors.post n)) := by
  refine h.append (fun id token hheld => ⟨hheld, ?_⟩) ?_ h.nodup h.registered
  · rintro ⟨rfl, hmark⟩
    exact (hended token hmark).2 hheld
  · rintro call token hcall hmark
    cases hcall
    exact (hended token hmark).1

theorem Traced.hold (h : Traced s) (hcreated : Created s.log k token) (hk : k ∈ s.editors.ids) :
    Traced { s with editors := s.editors.hold k token } where
  created id told hheld := by
    rcases (mem_tokens_hold s.editors k token id told).1 hheld with hheld | ⟨rfl, rfl⟩
    · exact h.created id told hheld
    · exact hcreated
  ended := h.ended
  nodup := nodup_tokens_hold h.nodup k token
  registered id told hheld := by
    rcases (mem_tokens_hold s.editors k token id told).1 hheld with hheld | ⟨rfl, rfl⟩
    · exact h.registered id told hheld
    · exact hk

theorem Traced.withdraw (h : Traced s) (k : Handle) (token : String) :
    Traced { s with editors := s.editors.withdraw k token } where
  created id told hheld := h.created id told ((mem_tokens_withdraw (h.nodup k) token id told).1 hheld).1
  ended := h.ended
  nodup := nodup_tokens_withdraw h.nodup k token
  registered id told hheld := h.registered id told ((mem_tokens_withdraw (h.nodup k) token id told).1 hheld).1

/-- A creation that has just succeeded. -/
theorem created_post (hmark : n.mark? = some (token, .created)) (hok : (s.editors.post n).fault.isNone) :
    Created (s.send (s.editors.post n)).log n.editor token := by
  refine ⟨s.log, n, [], ?_, rfl, hmark, nofun⟩
  show s.log ++ [Entry.called ⟨n, (s.editors.post n).fault.isNone⟩] = s.log ++ [Entry.called ⟨n, true⟩]
  rw [hok]

theorem Traced.sendProgress (h : Traced s) (hk : k ∈ s.editors.ids) (p : Progress) :
    Traced (s.send (s.editors.sendProgress k p)) := by
  cases p with
  | start path =>
      have hcreate := (Outcome.Toward.post s.editors (createNote k (.start path))).toDraws
      have hposted : Traced (s.send (s.editors.post (createNote k (.start path)))) :=
        h.post fun token hmark => by cases (mark?_createNote k _).symm.trans hmark
      rw [sendProgress_start, Exchange.send_andThen (hcreate.mapFault _)]
      split
      · rename_i hok
        rw [Outcome.mapFault, Option.isNone_map] at hok
        have hheld := hposted.hold (created_post (mark?_createNote k (.start path)) hok) hk
        exact hheld.post fun token hmark => by cases (mark?_progressNote k _).symm.trans hmark
      · exact hposted
  | finish path succeeded =>
      rw [sendProgress_finish]
      split
      · rename_i hheld
        refine (h.withdraw k (Editors.token path)).post fun told hmark => ?_
        obtain rfl : Editors.token path = told :=
          congrArg Prod.fst (Option.some_inj.1 ((mark?_progressNote k _).symm.trans hmark))
        refine ⟨h.created k _ hheld, fun hstill => ?_⟩
        exact ((mem_tokens_withdraw (h.nodup k) _ k _).1 hstill).2 ⟨rfl, rfl⟩
      · simpa [Exchange.send, callsOf] using h

theorem Traced.sendEvent (h : Traced s) (hk : k ∈ s.editors.ids) (event : Event) :
    Traced (s.send (sendEvent event s.editors k)) := by
  have hpost := (Outcome.Toward.post s.editors (Telling.eventNote k event)).toDraws
  have hposted : Traced (s.send (s.editors.post (Telling.eventNote k event))) :=
    h.post fun token hmark => by cases (mark?_eventNote k event).symm.trans hmark
  change Traced (s.send ((s.editors.post (Telling.eventNote k event)).andThen _))
  rw [Exchange.send_andThen hpost]
  split
  · split
    · exact hposted.sendProgress hk _
    · simpa [Exchange.send, callsOf] using hposted
  · exact hposted

theorem Traced.broadcast {send : Editors → Handle → Outcome} (hsend : ∀ e k, (send e k).Toward e k)
    (hown : ∀ {s k}, Traced s → k ∈ s.editors.ids → Traced (s.send (send s.editors k))) (h : Traced s) :
    Traced (s.send (s.editors.broadcast send)) := by
  rw [Exchange.send_broadcast hsend]
  have hall : ∀ ids : List Handle, ∀ s : Exchange, Traced s → (∀ k ∈ ids, k ∈ s.editors.ids) →
      Traced (ids.foldl (Exchange.tell send) s) := by
    intro ids
    induction ids with
    | nil => exact fun _ h _ => h
    | cons k rest ih =>
        intro s h hids
        refine ih _ (hown h (hids k List.mem_cons_self)) fun k' hk' => ?_
        exact (mem_ids_congr (hsend s.editors k).clients).2 (hids k' (List.mem_cons_of_mem k hk'))
  exact hall s.editors.ids s h fun _ hk => hk

theorem Traced.take (h : Traced s) (hnew : ∀ id connection, op = .register id connection → id ∉ s.editors.ids) :
    Traced (s.take op) := by
  cases op with
  | register k connection =>
      cases connection with
      | none => exact h
      | some name =>
          refine h.append (fun id token hheld => ⟨hheld, ?_⟩) nofun h.nodup fun id token hheld => ?_
          · rintro rfl
            exact hnew k (some name) rfl (h.registered k token hheld)
          · exact (mem_ids_register s.editors k name id).2 (Or.inr (h.registered id token hheld))
  | deregister k =>
      have hheld (id : Handle) (token : String) (hmem : token ∈ (s.editors.deregister k).tokens id) :
          id ≠ k ∧ token ∈ s.editors.tokens id := by
        rw [tokens_deregister] at hmem
        split at hmem
        · cases hmem
        · exact ⟨‹_›, hmem⟩
      refine h.append (fun id token hmem => ⟨(hheld id token hmem).2, ?_⟩) nofun (fun id => ?_)
        fun id token hmem => ?_
      · exact fun hk => (hheld id token hmem).1 hk.symm
      · rw [tokens_deregister]
        split
        · exact List.nodup_nil
        · exact h.nodup id
      · obtain ⟨hk, htoken⟩ := hheld id token hmem
        exact (mem_ids_deregister s.editors k id).2 ⟨hk, h.registered id token htoken⟩
  | emit event => exact h.broadcast (toward_sendEvent event) fun hs hk => hs.sendEvent hk event
  | logMessage level message =>
      apply h.broadcast (toward_logMessage level message)
      exact fun hs _ => hs.post fun token hmark => by cases hmark

theorem Traced.run (h : Traced s) {ops : List Operation} (hnew : s.RegistersNew ops) : Traced (s.run ops) := by
  induction ops generalizing s with
  | nil => exact h
  | cons op rest ih => exact ih (h.take hnew.1) hnew.2

theorem traced_start (outages : Outages Line) : Traced (.start outages) :=
  ⟨nofun, fun before call after token hlog => by simp [Exchange.start] at hlog, fun _ => List.nodup_nil, nofun⟩

theorem twin_start {outages outages' : Outages Line} (halike : Alike c.Own outages outages') :
    Twin c id (.start outages) (.start outages') :=
  ⟨rfl, rfl, rfl, halike, nofun, nofun, nofun⟩

/-- What concerns an editor is in both histories if what concerns it is the same. -/
theorem mem_register_congr {ops ops' : List Operation}
    (hops : ops'.filter (·.concerns id) = ops.filter (·.concerns id)) (connection : Option String) :
    .register id connection ∈ ops' ↔ .register id connection ∈ ops := by
  have hconcerns : (Operation.register id connection).concerns id := decide_eq_true rfl
  calc .register id connection ∈ ops'
      ↔ .register id connection ∈ ops'.filter (·.concerns id) := by simp [List.mem_filter, hconcerns]
    _ ↔ .register id connection ∈ ops.filter (·.concerns id) := by rw [hops]
    _ ↔ .register id connection ∈ ops := by simp [List.mem_filter, hconcerns]

/-- **Editors do not influence each other.** Take any history of the editors, with any outages, in which only
editors that are not registered are registered. A second history with the same registration steps of one editor
and the same events and log messages may have any other editors, that come, leave and fail as they like: over
the connection of that editor both make the same calls, up to a call that succeeds in one of them and fails in
the other. There is no such call if the editor shares its connections with no other and the outages of these
connections are the same. And the progress of a token is ended with an editor only if a creation of the token
has succeeded for it since it was registered, and since the progress was last ended. -/
theorem editors_apart (outages : Outages Line) (ops : List Operation)
    (hnew : (Exchange.start outages).RegistersNew ops) (id : Handle) :
    let s := (Exchange.start outages).run ops
    (∀ outages' ops', ops'.filter (·.concerns id) = ops.filter (·.concerns id) →
      let s' := (Exchange.start outages').run ops'
      (s.callsTo id = s'.callsTo id ∨ Part (s.callsTo id) (s'.callsTo id)) ∧
      (OwnConnections id ops → OwnConnections id ops' →
        Alike (fun name => .register id (some name) ∈ ops) outages outages' →
        s.callsTo id = s'.callsTo id)) ∧
    ∀ before call after token, s.log = before ++ .called call :: after → call.note.editor = id →
      call.note.mark? = some (token, .ended) → Created before id token := by
  intro s
  refine ⟨fun outages' ops' hops => ⟨?_, fun hown hown' halike => ?_⟩, ?_⟩
  · -- no connection counts as owned, so the outages need not be alike
    have hstart : Twin ⟨fun _ => False, True⟩ id (.start outages) (.start outages') := twin_start nofun
    have hgrant (op : Operation) : Terms.Grant ⟨fun _ => False, True⟩ id op :=
      fun _ _ _ => ⟨False.elim, fun _ => Or.inr trivial⟩
    exact (hstart.run List.nodup_nil List.nodup_nil hops.symm (fun op _ => hgrant op) fun op _ => hgrant op).imp
      Twin.calls And.right
  · have hstart : Twin ⟨_, False⟩ id (.start outages) (.start outages') := twin_start halike
    have hbeside := hstart.run List.nodup_nil List.nodup_nil hops.symm
      (by
        rintro _ hop k name rfl
        exact ⟨hown k name hop, fun hk => Or.inl (hk ▸ hop)⟩)
      (by
        rintro _ hop k name rfl
        refine ⟨fun hid => hown' k name hop ((mem_register_congr hops _).2 hid), fun hk => Or.inl ?_⟩
        exact (mem_register_congr hops _).1 (hk ▸ hop))
    exact hbeside.elim Twin.calls fun h => h.1.elim
  · rintro before call after token hlog rfl hmark
    exact ((traced_start outages).run hnew).ended before call after token hlog hmark

theorem ids_of_sorted (h : e.clients.keys.Pairwise fun a b => Handle.le a b) : e.ids = e.clients.keys :=
  List.mergeSort_of_pairwise h

/-- An editor that is told of a restore from start to end, next to one that fails and leaves and, in a second
history, next to one that comes late. -/
theorem editors_apart_failing_or_late :
    let outages : Outages Line := Outages.plan {} ⟨"b", none⟩ [false, true]
    let ops : List Operation := [.register ⟨1⟩ (some "a"), .register ⟨2⟩ (some "b"),
      .emit (Event.restoreStarted "p"), .deregister ⟨2⟩, .emit (Event.restoreFinished "p" true)]
    let ops' : List Operation := [.register ⟨1⟩ (some "a"), .emit (Event.restoreStarted "p"),
      .emit (Event.restoreFinished "p" true), .register ⟨3⟩ (some "c")]
    let s := (Exchange.start outages).run ops
    (Exchange.start outages).RegistersNew ops ∧ (s.callsTo ⟨1⟩).length = 5 ∧
      s.callsTo ⟨1⟩ = ((Exchange.start {}).run ops').callsTo ⟨1⟩ ∧
      ∃ before call after, s.log = before ++ .called call :: after ∧ call.note.editor = ⟨1⟩ ∧
        call.note.mark? = some (Editors.token "p", .ended) ∧ Created before ⟨1⟩ (Editors.token "p") := by
  intro outages ops ops' s
  have hnew : (Exchange.start outages).RegistersNew ops :=
    ⟨by rintro _ _ ⟨⟩; decide +kernel, by rintro _ _ ⟨⟩; decide +kernel, nofun, nofun, nofun, trivial⟩
  have happart := editors_apart outages ops hnew ⟨1⟩
  have htwo : s = (([⟨1⟩, ⟨2⟩].foldl (Exchange.tell (sendEvent (Event.restoreStarted "p")))
      ((Exchange.start outages).run (ops.take 2))).run (ops.drop 3)) := by
    have hids : ((Exchange.start outages).run (ops.take 2)).editors.ids = [⟨1⟩, ⟨2⟩] :=
      ids_of_sorted (by decide)
    rw [← hids, ← Exchange.send_broadcast (toward_sendEvent _)]
    rfl
  have hended : ∃ call ∈ s.callsTo ⟨1⟩, call.note.mark? = some (Editors.token "p", .ended) := by
    rw [htwo]
    decide +kernel
  obtain ⟨call, hcall, hmark⟩ := hended
  obtain ⟨hcall, heditor⟩ := List.mem_filter.1 hcall
  obtain ⟨entry, hentry, hcalled⟩ := List.mem_filterMap.1 hcall
  cases entry with
  | called call' =>
      obtain rfl := Option.some_inj.1 hcalled
      obtain ⟨before, after, hlog⟩ := List.append_of_mem hentry
      have hid := of_decide_eq_true heditor
      refine ⟨hnew, ?_, ?_, before, call', after, hlog, hid, hmark, ?_⟩
      · rw [htwo]
        decide +kernel
      · apply (happart.1 {} ops' rfl).2
        · grind [OwnConnections]
        · grind [OwnConnections]
        · intro line hline
          have hname : line.name = "a" := by simpa [ops] using hline
          have hline : line ≠ ⟨"b", none⟩ := by
            rintro rfl
            exact absurd hname (by decide)
          exact (Table.get?_put ..).trans (if_neg hline)
      · exact happart.2 before call' after _ hlog hid hmark
  | registered id => cases hcalled
  | deregistered id => cases hcalled

end Editors

end CompilationBridge
