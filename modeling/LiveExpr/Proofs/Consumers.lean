import LiveExpr.Proofs.QueueFires
import LiveExpr.Proofs.Turns

/-!
A listener that takes one item each time it is told. It sees the front item and acknowledges
it, and as long as items remain this fires the trigger again. The fire is made amid the
fan-out that called the listener, so it waits until this is over, and the listener is called
once more. So one fire is enough for all items there are: they are seen one after the other,
and the queue is empty when the fire is over.
-/
namespace LiveExpr

variable {H : Host} {α : Type}

/-- What a listener sees that is called as long as there are items, and once if there are none. -/
def sightings : List α → List (Option α)
  | [] => [none]
  | items => items.map some

/-- The fire that an acknowledgment leaves in the line: that of the trigger, if items remain. -/
def remainder (trigger : String) (rest : List α) : List String :=
  if rest.isEmpty then [] else [trigger]

/-- The notes of one fan-out of the trigger, in which items remain or none do. -/
def visitNotes (trigger : String) (id : Ticket) (rest : List α) : List (Note H) :=
  .fanOutBegan trigger :: .called id trigger ::
    ((remainder trigger rest).map .fired ++ [.fanOutEnded trigger])

/-- The notes of the fan-outs in which the items are seen, one in each. -/
def consumptionNotes (trigger : String) (id : Ticket) : List α → List (Note H)
  | [] => visitNotes trigger id ([] : List α)
  | [_] => visitNotes trigger id ([] : List α)
  | _ :: next :: rest =>
    visitNotes trigger id (next :: rest) ++ consumptionNotes trigger id (next :: rest)

section Sightings

variable (items : List α)

theorem length_sightings : (sightings items).length = max items.length 1 := by
  cases items with
  | nil => rfl
  | cons item rest => simp [sightings]

theorem getElem?_sightings {j : Nat} {item : α} (h : items[j]? = some item) :
    (sightings items)[j]? = some (some item) := by
  cases items with
  | nil => cases h
  | cons first rest =>
    show ((first :: rest).map some)[j]? = some (some item)
    rw [List.getElem?_map, h]
    rfl

/-- The first item is seen, and the others later, if there are any. -/
theorem sightings_cons (item next : α) (rest : List α) :
    sightings (item :: next :: rest) = some item :: sightings (next :: rest) := rfl

theorem consumptionNotes_cons (trigger : String) (id : Ticket) (item next : α) (rest : List α) :
    (consumptionNotes trigger id (item :: next :: rest) : List (Note H)) =
      visitNotes trigger id (next :: rest) ++ consumptionNotes trigger id (next :: rest) := rfl

theorem calledIds_visitNotes (trigger : String) (id : Ticket) (rest : List α) :
    calledIds (visitNotes trigger id rest : List (Note H)) = [id] := by
  unfold visitNotes remainder
  split <;> rfl

/-- The listener is called once for each item, and once if there is none. -/
theorem calledIds_consumptionNotes (trigger : String) (id : Ticket) :
    calledIds (consumptionNotes trigger id items : List (Note H)) =
      List.replicate (max items.length 1) id := by
  induction items with
  | nil => exact calledIds_visitNotes ..
  | cons item rest ih =>
    cases rest with
    | nil => exact calledIds_visitNotes ..
    | cons next rest =>
      rw [consumptionNotes_cons, calledIds_append, calledIds_visitNotes, ih]
      simp [List.replicate_succ]

end Sightings

namespace Bus

variable {β : Type} {b : Bus β}

theorem isLive_of_mem_targets {name : String} {id : Ticket} {target : β}
    (h : (id, target) ∈ b.targets name) : b.isLive id = true := by
  have htier {tier : Tier} (h : (id, target) ∈ b.tierTargets name tier) : b.isLive id = true := by
    obtain ⟨s, hs, -⟩ := find?_of_mem_tierTargets h
    exact Option.isSome_iff_exists.mpr ⟨s, hs⟩
  exact (List.mem_append.mp h).elim htier htier

end Bus

namespace Engine

/-- As long as the name is that of the queue, the action sees the front item and acknowledges it.
What comes of seeing it is up to the host. -/
def Consumes (action : Action H Unit) (q : QueueRef H) (name : String)
    (see : H.State → Option (H.Item q.kind) → H.State) : Prop :=
  ∀ (call : Callbacks H) (e : Engine H) (content : Queue (H.Item q.kind)),
    e.queues.named? name = some (q.number, ⟨q.kind, content⟩) →
    (action.run call).run e =
      ((acknowledge call name).run { e with host := see e.host content.front? }).map
        fun found => ((), found.2)

/-- The queue is seen by whoever has been handed it, and the acknowledgment asked for by name. -/
def consuming (q : QueueRef H) (name : String) (see : H.State → Option (H.Item q.kind) → H.State) :
    Action H Unit := do
  let e ← Action.engine
  Action.modifyHost fun s => see s ((e.queues.at? q).bind Queue.front?)
  let _ ← Action.ask (.acknowledge name)

theorem consuming_consumes (q : QueueRef H) (name : String)
    (see : H.State → Option (H.Item q.kind) → H.State) :
    Consumes (consuming q name see) q name see := by
  intro call e content hq
  have hseen : e.unwritten.queues.at? q = some content :=
    Directory.at?_eq_some.mpr (Directory.named?_eq_some hq)
  unfold consuming
  rw [Action.run_engine_bind, hseen, Option.bind_some, Option.map_eq_bind]
  rfl

/-- The engine amid the fan-outs of the trigger of a queue that has these items now. -/
def consumed (e : Engine H) (q : QueueRef H) (trigger : String) (items : List (H.Item q.kind))
    (line : List String) (host : H.State) (journal : List (Note H)) : Engine H :=
  { e with
    bus := { e.bus with pending := line, dispatching := true }
    queues := e.queues.update q ⟨trigger, items⟩
    host, journal }

/-- The engine after the last of the fan-outs. -/
def emptied (e : Engine H) (q : QueueRef H) (trigger : String) (host : H.State)
    (journal : List (Note H)) : Engine H :=
  { e with
    bus := { e.bus with pending := [], dispatching := false }
    queues := e.queues.update q ⟨trigger, []⟩
    host, journal }

section Consumer

variable {call inner : Callbacks H} {e : Engine H} {name trigger : String} {q : QueueRef H}
  {content : Queue (H.Item q.kind)} {see : H.State → Option (H.Item q.kind) → H.State}
  {action : Action H Unit} {host : H.State} {journal : List (Note H)}
  {items : List (H.Item q.kind)}

/-- One call of the listener. -/
theorem Consumes.run (hconsumes : Consumes action q name see)
    (hq : e.queues.named? name = some (q.number, ⟨q.kind, content⟩)) :
    (action.run inner).run (e.consumed q trigger items [] host journal) =
      some ((), e.consumed q trigger items.tail (remainder trigger items.tail)
        (see host items.head?) ((remainder trigger items.tail).map .fired ++ journal)) := by
  let seen : Engine H := e.consumed q trigger items [] (see host items.head?) journal
  have hnamed : seen.queues.named? name = some (q.number, ⟨q.kind, ⟨trigger, items⟩⟩) :=
    Directory.named?_replace hq _
  have hrest : (e.queues.update q ⟨trigger, items⟩).replace q.number
      (KindQueue.mk q.kind ⟨trigger, items⟩).rest = e.queues.update q ⟨trigger, items.tail⟩ :=
    Directory.replace_replace ..
  have hacknowledged : (acknowledge inner name).run seen = _ := (acknowledge_requeues hnamed).run
  refine (hconsumes inner (e.consumed q trigger items [] host journal) _ hnamed).trans ?_
  show ((acknowledge inner name).run seen).map (fun found => ((), found.2)) = _
  rw [hacknowledged, show seen.queues = e.queues.update q ⟨trigger, items⟩ from rfl, hrest]
  cases hitems : items.tail with
  | nil =>
    have hnone : (KindQueue.mk q.kind ⟨trigger, items⟩).continuing? = none :=
      if_pos (List.isEmpty_iff.mpr hitems)
    rw [hnone]
    rfl
  | cons next rest =>
    have hsome : (KindQueue.mk q.kind ⟨trigger, items⟩).continuing? = some trigger :=
      if_neg (show ¬ items.tail.isEmpty = true by simp [hitems])
    rw [hsome]
    -- The listener has been called in a fan-out, so the fire only joins the line.
    have hdeferred := fire_deferred inner trigger
      (e := e.consumed q trigger (next :: rest) [] (see host items.head?) journal) rfl
    show (((fire inner trigger).run
      (e.consumed q trigger (next :: rest) [] (see host items.head?) journal)).map _).map _ = _
    rw [hdeferred]
    rfl

variable {id : Ticket} {l : H.Listener}

section Rounds

variable (hq : e.queues.named? name = some (q.number, ⟨q.kind, content⟩))
  (htargets : e.bus.targets trigger = [(id, .listener l)])
  (hlistener : call.listener l trigger = action.run inner) (hconsumes : Consumes action q name see)

include hq htargets hlistener hconsumes

/-- One fan-out, in which the listener is the only one to be called. -/
theorem fanOut_consumed :
    (fanOut call trigger).run (e.consumed q trigger items [] host journal) =
      some ((), e.consumed q trigger items.tail (remainder trigger items.tail)
        (see host items.head?) ((visitNotes trigger id items.tail).reverse ++ journal)) := by
  let began : Engine H := e.consumed q trigger items [] host (.fanOutBegan trigger :: journal)
  have hlive : began.bus.isLive id = true :=
    Bus.isLive_of_mem_targets (htargets ▸ List.mem_singleton_self _)
  have hdeliver : (deliver call trigger [(id, .listener l)]).run began =
      ((call.listener l trigger).run
        (e.consumed q trigger items [] host (.called id trigger :: .fanOutBegan trigger ::
          journal))).bind fun found => some ((), found.2) := by
    unfold deliver
    rw [run_get_bind, if_pos hlive]
    rfl
  show ((deliver call trigger (e.bus.targets trigger)).run began).bind
    (fun found => some ((), found.2.note (.fanOutEnded trigger))) = _
  rw [htargets, hdeliver, hlistener, hconsumes.run hq]
  cases items.tail <;> rfl

theorem drain_round (rounds : Nat) :
    (drain call (rounds + 1)).run (e.consumed q trigger items [trigger] host journal) =
      (drain call rounds).run (e.consumed q trigger items.tail (remainder trigger items.tail)
        (see host items.head?) ((visitNotes trigger id items.tail).reverse ++ journal)) := by
  show ((fanOut call trigger).run (e.consumed q trigger items [] host journal)).bind
    (fun found => (drain call rounds).run found.2) = _
  rw [fanOut_consumed hq htargets hlistener hconsumes]
  rfl

/-- There is a fan-out as long as items remain. The induction is on those that remain. -/
theorem drain_consumed {rounds : Nat} (hrounds : max items.length 1 < rounds) :
    (drain call rounds).run (e.consumed q trigger items [trigger] host journal) =
      some ((), e.emptied q trigger ((sightings items).foldl see host)
        ((consumptionNotes trigger id items).reverse ++ journal)) := by
  induction items generalizing host journal rounds with
  | nil =>
    obtain ⟨rounds, rfl⟩ : ∃ n, rounds = n + 2 := Nat.exists_eq_add_of_le' (by omega)
    rw [drain_round hq htargets hlistener hconsumes]
    rfl
  | cons item rest ih =>
    obtain ⟨rounds, rfl⟩ : ∃ n, rounds = n + 2 := Nat.exists_eq_add_of_le' (by omega)
    rw [drain_round hq htargets hlistener hconsumes]
    cases rest with
    | nil => rfl
    | cons next rest =>
      have hrest : max (next :: rest).length 1 < rounds + 1 := by
        simp only [List.length_cons] at hrounds ⊢
        omega
      rw [sightings_cons, consumptionNotes_cons, List.reverse_append, List.append_assoc]
      exact ih hrest

end Rounds

theorem Idle.alert_eq (hidle : e.Idle) (hq : e.queues.at? q = some content) :
    e.alert content.trigger = e.consumed q content.trigger content.items [content.trigger] e.host
      (.fired content.trigger :: e.journal) := by
  have hqueues : e.queues.update q ⟨content.trigger, content.items⟩ = e.queues :=
    Directory.replace_self (Directory.at?_eq_some.mp hq)
  have hbus : (e.alert content.trigger).bus =
      { e.bus with pending := [content.trigger], dispatching := true } := by
    show { e.bus with pending := e.bus.pending ++ [content.trigger], dispatching := true } = _
    rw [hidle.2]
    rfl
  unfold consumed
  rw [hqueues, ← hbus]
  rfl

theorem Idle.emptied_eq (hidle : e.Idle) :
    e.emptied q trigger host journal =
      { e with queues := e.queues.update q ⟨trigger, []⟩, host, journal } := by
  have hbus : { e.bus with pending := [], dispatching := false } = e.bus := by
    rw [← hidle.1, ← hidle.2]
  unfold emptied
  rw [hbus]

/-- A single fire of the trigger is enough for a listener that takes one item each time. It is
called once for each of the items there are, and once if there are none, it sees them one after
the other, and the queue is empty when the fire is over. -/
theorem consumer_drains_queue (script : Script H H) {rounds : Nat} (depth : Nat)
    (hidle : e.Idle) (hq : e.queues.named? name = some (q.number, ⟨q.kind, content⟩))
    (htargets : e.bus.targets content.trigger = [(id, .listener l)])
    (hconsumes : Consumes (script.listener l content.trigger) q name see)
    (hrounds : max content.items.length 1 < rounds) :
    ∃ (notes : List (Note H)) (e' : Engine H),
      (fire (script.callbacks rounds (depth + 1)) content.trigger).run e = some ((), e') ∧
      e' = { e with
        queues := e.queues.update q { content with items := [] }
        host := (sightings content.items).foldl see e.host
        journal := (.fired content.trigger :: notes).reverse ++ e.journal } ∧
      e'.Idle ∧ e'.queues.at? q = some { content with items := [] } ∧
      calledIds notes = List.replicate (max content.items.length 1) id ∧
      (sightings content.items).length = max content.items.length 1 ∧
      ∀ (j : Nat) (item : H.Item q.kind), content.items[j]? = some item →
        (sightings content.items)[j]? = some (some item) := by
  have hat : e.queues.at? q = some content :=
    Directory.at?_eq_some.mpr (Directory.named?_eq_some hq)
  have hrun : (fire (script.callbacks rounds (depth + 1)) content.trigger).run e =
      some ((), e.emptied q content.trigger
        ((sightings content.items).foldl see e.host)
        ((consumptionNotes content.trigger id content.items).reverse ++
          .fired content.trigger :: e.journal)) := by
    refine (settle_begins content.trigger hidle.1).trans ?_
    rw [hidle.alert_eq hat]
    exact drain_consumed hq htargets rfl hconsumes hrounds
  refine ⟨consumptionNotes content.trigger id content.items, _, hrun, ?_, ⟨rfl, rfl⟩,
    Directory.at?_update hat _, calledIds_consumptionNotes .., length_sightings _,
    fun j item => getElem?_sightings _⟩
  rw [hidle.emptied_eq, List.reverse_cons, List.append_assoc]
  rfl

end Consumer

end Engine

/-- A host that serves those who wait, and remembers whom it has seen at the front. -/
def Counter : Host where
  Function := Empty
  Listener := Unit
  Task := Empty
  Source := Empty
  Kind := Unit
  Item _ := Nat
  State := List (Option Nat)
  decFunction := inferInstanceAs (DecidableEq Empty)
  decKind := inferInstanceAs (DecidableEq Unit)
  entity _ := ⟨fun x y => x == y, fun _ _ => none⟩

namespace Counter

def kind : Counter.Kind := ()

def queue : QueueRef Counter := ⟨kind, 0⟩

def remember (seen : List (Option Nat)) (front? : Option Nat) : List (Option Nat) :=
  seen ++ [front?]

def script : Script Counter Counter where
  native := nofun
  listener _ _ := Engine.consuming queue "counter" remember
  task := nofun
  pump := nofun

/-- The engine when these wait and those have been seen. -/
def serving (content : Queue Nat) (seen : List (Option Nat)) (journal : List (Note Counter)) :
    Engine Counter :=
  { Engine.create .standard seen with
    bus := (Bus.empty.subscribe .host "next" .listen (.listener ())).2
    queues := ⟨[⟨kind, content⟩], [("counter", 0)]⟩
    journal }

def waiting : Queue Nat := ⟨"next", [3, 1, 4]⟩

/-- The trigger of the queue is not its name. -/
theorem consumer_drains_queue_served :
    ∃ notes : List (Note Counter),
      (Engine.fire (script.callbacks 4 1) "next").run (serving waiting [] []) =
        some ((), serving ⟨"next", []⟩ [some 3, some 1, some 4] (.fired "next" :: notes).reverse) ∧
      calledIds notes = List.replicate 3 ⟨.host, 0⟩ := by
  have hidle : (serving waiting [] []).Idle := ⟨rfl, rfl⟩
  have htargets : (serving waiting [] []).bus.targets "next" =
      [(⟨.host, 0⟩, .listener ())] := by
    cbv
  have hqueue : (serving waiting [] []).queues.named? "counter" =
      some (queue.number, ⟨queue.kind, waiting⟩) := rfl
  have hconsumes : Engine.Consumes (script.listener () "next") queue "counter" remember :=
    Engine.consuming_consumes queue "counter" remember
  obtain ⟨notes, e', hrun, rfl, -, -, hcalled, -⟩ :=
    Engine.consumer_drains_queue script 0 hidle hqueue htargets hconsumes (show 3 < 4 by decide)
  refine ⟨notes, ?_, hcalled⟩
  rw [← List.append_nil (Note.fired "next" :: notes).reverse]
  exact hrun

end Counter

end LiveExpr
