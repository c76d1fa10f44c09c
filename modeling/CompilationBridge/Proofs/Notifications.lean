import CompilationBridge.Proofs.Graph.Closure
import CompilationBridge.Simulation.Graph
import Mathlib

/-! Notifications that fire. A timer that expires sends one message to each project that the change
reaches, in the order of their ids. A message that cannot be sent is logged, and the next one is tried. -/

namespace CompilationBridge

namespace Notifier

/-- The callback of a pending timer has a message for each project that the change reaches. -/
theorem fanOut_messages {n : Notifier} {k : Key} {timer : Timer} (hk : n.timers.get? k = some timer)
    (s : Graph.Store) :
    (((n.expire k).forget k).fanOut s k).2 =
      (s.closure k.path).map fun id : Nat => Message.new k.order.type id none := by
  have hexpired : (n.expire k).timers.get? k = some .expired := by
    rw [expire, Table.get?_modify, if_pos rfl, hk, Option.map_some]
    cases timer <;> rfl
  have hfiring : k ∈ ((n.expire k).forget k).firing := by
    rw [forget, if_pos hexpired]
    exact List.mem_append_right _ (List.mem_singleton_self k)
  rw [fanOut, if_pos hfiring]
  rfl

/-! ### Sending -/

section Sending

variable {σ : Type} (send : σ → Message → σ × Option Fault)

/-- What comes of messages that are sent one after the other: the fault of each that is not taken. -/
def answers : σ → List Message → List (Option Fault)
  | _, [] => []
  | x, m :: rest => (send x m).2 :: answers (send x m).1 rest

/-- The messages that get through. -/
def through (messages : List Message) (answers : List (Option Fault)) : List Message :=
  ((messages.zip answers).filter (·.2.isNone)).map (·.1)

/-- The records of the messages that do not. -/
def refusals (messages : List Message) (answers : List (Option Fault)) : List LogRecord :=
  (messages.zip answers).filterMap fun e => e.2.map (sendFailure e.1)

theorem through_cons (m : Message) (messages : List Message) (answer : Option Fault)
    (answers : List (Option Fault)) :
    through (m :: messages) (answer :: answers) = through [m] [answer] ++ through messages answers := by
  cases answer <;> simp [through]

theorem refusals_cons (m : Message) (messages : List Message) (answer : Option Fault)
    (answers : List (Option Fault)) :
    refusals (m :: messages) (answer :: answers) =
      (answer.map (sendFailure m)).toList ++ refusals messages answers := by
  cases answer <;> simp [refusals]

theorem length_answers (x : σ) (messages : List Message) :
    (answers send x messages).length = messages.length := by
  induction messages generalizing x with
  | nil => rfl
  | cons m rest ih => rw [answers, List.length_cons, List.length_cons, ih]

/-- Every message is tried, whichever of those before it failed. `sent` lists what the host has taken. -/
theorem sendAll_spec {sent : σ → List Message}
    (hsent : ∀ x m, sent (send x m).1 = sent x ++ through [m] [(send x m).2])
    (x : σ) (messages : List Message) :
    sent (sendAll send x messages).1 = sent x ++ through messages (answers send x messages) ∧
      (sendAll send x messages).2 = refusals messages (answers send x messages) := by
  induction messages generalizing x with
  | nil => simp [sendAll, through, refusals]
  | cons m rest ih =>
      obtain ⟨ihsent, ihrecords⟩ := ih (send x m).1
      rw [answers, through_cons, refusals_cons, ← List.append_assoc, ← hsent, ← ihsent, ← ihrecords]
      exact ⟨rfl, rfl⟩

end Sending

end Notifier

namespace Simulation.GraphBench

theorem sent_send (b : GraphBench) (m : Message) :
    (b.send m).1.sent = b.sent ++ Notifier.through [m] [(b.send m).2] := by
  unfold send usePart
  obtain ⟨failing, outages⟩ := b.outages.draw .send
  cases failing <;> simp [Notifier.through]

end Simulation.GraphBench

namespace Notifier

open CompilationBridge.Graph CompilationBridge.Graph.Reconciler Simulation

/-- **A change reaches exactly the projects that depend on it, and each is told once.** In every graph
that a run leaves, whichever workspace calls fail, the search from a clean path comes to its end after some
rounds, and has then visited no path twice. The ids that it has found are in strictly increasing order:
those of the projects from which a chain of references leads to the project at the path, which is one of
them, and none if the path is not tracked. When the timer of a change of the path fires, one message is
tried for each of these ids, however the messages are sent; those that are not taken are logged, and the
others get through all the same. -/
theorem closure_notified (extension : String) (outages : Outages Workspace.Method) (steps : List Step)
    (path : String) (hclean : Path.clean path = path) :
    let s := ((facing extension outages).run steps).store
    (∃ rounds, let x := (Search.round s)^[rounds] (Search.start path)
      x.stack = [] ∧ x.visited.Nodup ∧ s.closure path = x.ids.mergeSort (· ≤ ·)) ∧
    (s.closure path).Pairwise (· < ·) ∧
    (∀ a, a ∈ s.closure path ↔ ∃ j, s.path? j = some path ∧ Relation.ReflTransGen s.Refers a j) ∧
    ((∀ j, s.path? j ≠ some path) → s.closure path = []) ∧
    ∀ (σ : Type) (send : σ → Message → σ × Option Fault) (sent : σ → List Message),
      (∀ x m, sent (send x m).1 = sent x ++ through [m] [(send x m).2]) →
      ∀ (n : Notifier) (x : σ) (order : Order) (timer : Timer), n.timers.get? ⟨path, order⟩ = some timer →
        let messages := (s.closure path).map fun id : Nat => Message.new order.type id none
        let answers := answers send x messages
        let fired := (n.fire send x s ⟨path, order⟩).2
        answers.length = messages.length ∧
        sent fired.1 = sent x ++ through messages answers ∧ fired.2 = refusals messages answers := by
  intro s
  have hr : ((facing extension outages).run steps).WellFormed := wellFormed_run extension outages steps
  have hmem := Store.mem_closure hr.sound hr.linked hclean
  refine ⟨Store.closure_eq_rounds s path, Store.closure_strictlyIncreasing hr.sound hr.linked hclean, hmem,
    fun hnone => ?untracked, ?fired⟩
  case untracked =>
    rw [List.eq_nil_iff_forall_not_mem]
    intro a ha
    obtain ⟨j, hj, -⟩ := (hmem a).1 ha
    exact hnone j hj
  case fired =>
    intro σ send sent hsent n x order timer htimer messages answers fired
    have hfired : fired = sendAll send x messages := congrArg (sendAll send x) (fanOut_messages htimer s)
    rw [hfired]
    exact ⟨length_answers send x messages, sendAll_spec send hsent x messages⟩

/-- Two projects that reference each other, and a change of the second: the host does not take the message
for the first, and the one for the second is sent. -/
theorem cycle_notified :
    let reference := fun (id : Int) (path : String) => Step.apply {
      type := "References"
      contextId := id
      payload := some ("\x7b\"ProjectReferences\":[\x7b\"Path\":\"" ++ path ++ "\"\x7d]\x7d") }
    let r := (facing ".cs" {}).run [.track "/app", .track "/lib", reference 1 "/lib", reference 2 "/app"]
    let b : GraphBench := {
      reconciler := r
      notifier := { debounce := 5, timers := ⟨[(⟨"/lib", .filesChanged⟩, .armed 5)]⟩ }
      outages := Outages.fail {} .send 1 }
    r.store.closure "/lib" = [1, 2] ∧ Relation.ReflTransGen r.store.Refers 1 2 ∧
      (b.fire 5 ⟨"/lib", .filesChanged⟩).sent = [Message.new "FilesChanged" 2 none] := by
  intro reference r b
  let app : Variant := {
    framework := {}, handle := ⟨1⟩, registered := true
    projectRefs := ⟨[("/lib", ⟨2⟩)]⟩, dependees := ⟨[("/lib", 2)]⟩ }
  let lib : Variant := {
    framework := {}, handle := ⟨2⟩, registered := true
    projectRefs := ⟨[("/app", ⟨1⟩)]⟩, dependees := ⟨[("/app", 1)]⟩ }
  have hstore : r.store = {
      nextId := 3
      projects := ⟨[(1, { path := "/app", variants := [app] }), (2, { path := "/lib", variants := [lib] })]⟩
      byPath := ⟨[("/app", 1), ("/lib", 2)]⟩ } := by
    decide +kernel
  have hids : r.store.closure "/lib" = [1, 2] := by
    rw [hstore]
    cbv
  have hlib : r.store.path? 2 = some "/lib" := by
    rw [hstore]
    rfl
  obtain ⟨-, -, hmem, -, hfire⟩ := closure_notified ".cs" {}
    [.track "/app", .track "/lib", reference 1 "/lib", reference 2 "/app"] "/lib" (by decide +kernel)
  obtain ⟨j, hj, hchain⟩ := (hmem 1).1 (hids ▸ List.mem_cons_self)
  have hr : r.WellFormed := wellFormed_run ..
  obtain rfl := Store.path_inj hj hlib
  obtain ⟨-, hsent, -⟩ := hfire GraphBench GraphBench.send GraphBench.sent GraphBench.sent_send
    b.notifier { b with now := 5 } .filesChanged (.armed 5) rfl
  refine ⟨hids, hchain, hsent.trans ?_⟩
  rw [show ((facing ".cs" {}).run _).store.closure "/lib" = [1, 2] from hids]
  decide +kernel

end Notifier

end CompilationBridge
