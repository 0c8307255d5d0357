import LiveExpr.Proofs.FanOutOrder
import LiveExpr.Proofs.MixerChanges
import LiveExpr.Proofs.QueueHistories

/-!
What the operations on queues fire. Each of them puts its queue in place first, and all
that is left to do after that is at most one fire of the trigger, which is not the name of the
queue in general. An append always fires, a removal never, and an acknowledgment fires if
there is something left to be read. An acknowledgment can be asked for in three ways: by the
name of the queue, by the native, and from a mixer for a queue of its own. All are the same to
the queue and to those who listen.
-/
namespace LiveExpr

variable {H : Host}

namespace KindQueue

/-- The queue without its front item, if it has any. -/
def rest (q : KindQueue H) : KindQueue H := ⟨q.kind, { q.queue with items := q.queue.items.tail }⟩

/-- The trigger of the queue, if there are items behind the front one. -/
def continuing? (q : KindQueue H) : Option String :=
  if q.rest.isEmpty then none else some q.trigger

theorem rest_of_isEmpty {q : KindQueue H} (h : q.isEmpty = true) : q.rest = q := by
  obtain ⟨kind, trigger, items⟩ := q
  obtain rfl : items = [] := List.isEmpty_iff.mp h
  rfl

theorem isEmpty_rest {q : KindQueue H} (h : q.isEmpty = true) : q.rest.isEmpty = true := by
  rw [rest_of_isEmpty h, h]

end KindQueue

namespace Directory

variable {d : Directory H} {name : String} {n : Nat} {k : H.Kind} {queue : KindQueue H}

theorem replace_self {q : KindQueue H} (h : d.queues[n]? = some q) :
    d.replace n q = d := by
  obtain ⟨hn, rfl⟩ := List.getElem?_eq_some_iff.mp h
  unfold replace
  rw [List.set_getElem_self]

theorem replace_replace (d : Directory H) (n : Nat) (q q' : KindQueue H) :
    (d.replace n q).replace n q' = d.replace n q' := by
  unfold replace
  rw [List.set_set]

theorem named?_iff : d.named? name = some (n, queue) ↔
    d.numbers.get? name = some n ∧ d.queues[n]? = some queue := by
  simp [named?, Option.bind_eq_some_iff]

theorem named?_replace {q : KindQueue H}
    (h : d.named? name = some (n, q)) (q' : KindQueue H) :
    (d.replace n q').named? name = some (n, q') := by
  obtain ⟨hnumber, hq⟩ := named?_iff.mp h
  obtain ⟨hlt, -⟩ := List.getElem?_eq_some_iff.mp hq
  exact named?_iff.mpr ⟨hnumber, List.getElem?_set_self hlt⟩

/-- Whoever refers to a queue sees what has been put in place of it. -/
theorem at?_update {q : QueueRef H} {content : Queue (H.Item q.kind)} (h : d.at? q = some content)
    (content' : Queue (H.Item q.kind)) : (d.update q content').at? q = some content' := by
  obtain ⟨hn, -⟩ := List.getElem?_eq_some_iff.mp (at?_eq_some.mp h)
  exact at?_eq_some.mpr (List.getElem?_set_self hn)

/-- The queue is added under a name. -/
def add (d : Directory H) (name : String) (queue : KindQueue H) : Directory H :=
  ⟨d.queues ++ [queue], d.numbers.set name d.queues.length⟩

theorem openQueue_new (h : d.named? name = none) (trigger : String) (k : H.Kind) :
    d.openQueue name trigger k =
      .ok (⟨k, d.queues.length⟩, d.add name ⟨k, .empty trigger⟩) := by
  unfold openQueue
  rw [h]
  rfl

theorem openQueue_known (h : d.named? name = some (n, queue)) (trigger : String) :
    d.openQueue name trigger queue.kind = .ok (⟨queue.kind, n⟩, d) := by
  unfold openQueue
  rw [h]
  exact if_pos rfl

theorem openQueue_mismatch (h : d.named? name = some (n, queue)) (hk : queue.kind ≠ k)
    (trigger : String) :
    d.openQueue name trigger k = .error (.kindMismatch name queue.kind k) := by
  unfold openQueue
  rw [h]
  exact if_neg hk

theorem at?_add (d : Directory H) (name : String) (k : H.Kind) (content : Queue (H.Item k)) :
    (d.add name ⟨k, content⟩).at? ⟨k, d.queues.length⟩ = some content :=
  at?_eq_some.mpr List.getElem?_concat_length

theorem replace_add (d : Directory H) (name : String) (queue queue' : KindQueue H) :
    (d.add name queue).replace d.queues.length queue' = d.add name queue' := by
  unfold replace add
  rw [List.set_append_right _ _ (Nat.le_refl _), Nat.sub_self]
  rfl

end Directory

namespace Engine

variable {α : Type} {call : Callbacks H} {e e' : Engine H} {operation : Run H α}
  {queues : Directory H} {name? : Option String} {reply : α}

/-- A fire, or none. -/
def fire? (call : Callbacks H) : Option String → Run H Unit
  | none => pure ()
  | some name => fire call name

/-- The operation puts the queues in place, and then all that is left to do is the fire, if there is
one, and to give the reply. -/
structure Requeues (call : Callbacks H) (operation : Run H α) (e : Engine H)
    (queues : Directory H) (name? : Option String) (reply : α) : Prop where
  run : operation.run e =
    ((fire? call name?).run { e with queues }).map fun found => (reply, found.2)

theorem Requeues.silent (h : Requeues call operation e queues none reply) :
    operation.run e = some (reply, { e with queues }) := h.run

/-- What is in the journal after the operation. Fires that it has not made itself belong to the
fan-outs, and there are none of those if one is in progress. -/
theorem Requeues.issued (h : Requeues call operation e queues name? reply)
    (hcall : call.Keeps Terms.any.regime) {w : List Ticket} (hs : Sound .any ⟨e, w⟩) {x : α}
    (hrun : operation.run e = some (x, e')) {d : List (Note H)}
    (hj : e'.journal = d.reverse ++ e.journal) :
    (name? = none → d = []) ∧
      ∀ name ∈ name?, ∃ fans : List (FanOut H),
        d = .fired name :: fans.flatMap FanOut.notes ∧
        (e.bus.dispatching = true → fans = []) := by
  have hreverse : ∀ notes : List (Note H), e'.journal = notes.reverse ++ e.journal → d = notes :=
    fun _ hnotes => List.reverse_inj.mp (List.append_cancel_right (hj.symm.trans hnotes))
  rw [h.run] at hrun
  obtain ⟨⟨⟨⟩, e₁⟩, hfire, heq⟩ := Option.map_eq_some_iff.mp hrun
  obtain ⟨-, rfl⟩ := Prod.mk.inj heq
  constructor
  · rintro rfl
    cases hfire
    exact hreverse [] rfl
  · rintro name rfl
    have hs' : Sound .any ⟨{ e with queues }, w⟩ := hs.step (.passed ..)
    obtain ⟨fans, hjournal, hnone⟩ := fire_announced hcall hs' hfire
    exact ⟨fans, hreverse _ hjournal, hnone⟩

/-- The operation drops the front item of the queue with the number, and fires its trigger if items
remain. If there is no item it does nothing. -/
structure Acknowledges (call : Callbacks H) (operation : Run H α) (e : Engine H) (n : Nat)
    (q : KindQueue H) (reply : α) : Prop where
  requeues : Requeues call operation e (e.queues.replace n q.rest) q.continuing? reply
  nothing : q.isEmpty = true → operation.run e = some (reply, e)

theorem Requeues.acknowledges {n : Nat} {q : KindQueue H}
    (h : Requeues call operation e (e.queues.replace n q.rest) q.continuing? reply)
    (hq : e.queues.queues[n]? = some q) : Acknowledges call operation e n q reply where
  requeues := h
  nothing := fun hempty => by
    have hnone : q.continuing? = none := if_pos (KindQueue.isEmpty_rest hempty)
    rw [hnone] at h
    rw [h.silent, KindQueue.rest_of_isEmpty hempty, Directory.replace_self hq]

section Requests

variable {q : QueueRef H} {content : Queue (H.Item q.kind)} {name : String} {n : Nat}
  {found : KindQueue H}

theorem append_requeues (hq : e.queues.at? q = some content) (item : H.Item q.kind) :
    Requeues call (append call q item) e (e.queues.update q (content.put item))
      (some content.trigger) () where
  run := by
    unfold append
    rw [run_get_bind, hq]
    exact (congrFun Option.map_id _).symm

theorem appendNamed_requeues {k : H.Kind} {content : Queue (H.Item k)} {opened : Directory H}
    (hopen : e.queues.openQueue name name k = .ok (⟨k, n⟩, opened))
    (hq : opened.at? ⟨k, n⟩ = some content) (item : H.Item k) :
    Requeues call (appendNamed call name k item) e (opened.update ⟨k, n⟩ (content.put item))
      (some content.trigger) (.ok ()) where
  run := by
    have happend : Requeues call (append call ⟨k, n⟩ item) { e with queues := opened }
        (opened.update ⟨k, n⟩ (content.put item)) (some content.trigger) () :=
      append_requeues (e := { e with queues := opened }) hq item
    unfold appendNamed
    rw [run_get_bind, hopen]
    dsimp only
    rw [dif_pos rfl]
    show ((append call ⟨k, n⟩ item).run { e with queues := opened }).bind
      (fun found => some ((.ok () : Except (QueueError H.Kind) Unit), found.2)) = _
    rw [happend.run, Option.map_eq_bind, Option.bind_assoc, Option.map_eq_bind]
    rfl

/-- A queue of which items remain has had an item to drop. -/
theorem acknowledge_requeues (hq : e.queues.named? name = some (n, found)) :
    Requeues call (acknowledge call name) e (e.queues.replace n found.rest) found.continuing?
      (!found.isEmpty) where
  run := by
    unfold acknowledge
    rw [run_get_bind, hq]
    show ((if (!found.isEmpty && !found.rest.isEmpty) = true then
      (do fire call found.trigger; return !found.isEmpty) else return !found.isEmpty :
        Run H Bool).run { e with queues := e.queues.replace n found.rest }) = _
    cases hrest : found.rest.isEmpty with
    | true =>
      rw [if_neg (by simp), show found.continuing? = none from if_pos hrest]
      rfl
    | false =>
      have hfound : found.isEmpty = false := by
        cases hempty : found.isEmpty with
        | false => rfl
        | true => rw [KindQueue.isEmpty_rest hempty] at hrest; cases hrest
      rw [hfound, if_pos (by simp), show found.continuing? = some found.trigger from
        if_neg (by simp [hrest])]
      exact Option.map_eq_bind.symm

theorem take_requeues (hq : e.queues.at? q = some content) :
    Requeues call (take q) e
      (e.queues.update q { content with items := content.items.tail }) none content.front? where
  run := by
    unfold take
    rw [run_get_bind, hq]
    rfl

theorem popNamed_requeues (hq : e.queues.named? name = some (n, found)) :
    Requeues call (popNamed name) e (e.queues.replace n found.rest) none (!found.isEmpty) where
  run := by
    unfold popNamed
    rw [run_get_bind, hq]
    rfl

theorem appendNamed_requeues_new (hq : e.queues.named? name = none) (k : H.Kind) (item : H.Item k) :
    Requeues call (appendNamed call name k item) e
      ⟨e.queues.queues ++ [⟨k, ⟨name, [item]⟩⟩], e.queues.numbers.set name e.queues.queues.length⟩
      (some name) (.ok ()) := by
  have hput : (e.queues.add name ⟨k, .empty name⟩).update ⟨k, e.queues.queues.length⟩
      ((Queue.empty name).put item) = e.queues.add name ⟨k, ⟨name, [item]⟩⟩ :=
    Directory.replace_add ..
  show Requeues call _ e (e.queues.add name ⟨k, ⟨name, [item]⟩⟩) _ _
  rw [← hput]
  exact appendNamed_requeues (Directory.openQueue_new hq name k) (e.queues.at?_add ..) item

theorem appendNamed_refused (hq : e.queues.named? name = some (n, found)) {k : H.Kind}
    (hk : found.kind ≠ k) (item : H.Item k) :
    Requeues call (appendNamed call name k item) e e.queues none
      (.error (.kindMismatch name found.kind k)) where
  run := by
    unfold appendNamed
    rw [run_get_bind, Directory.openQueue_mismatch hq hk]
    rfl

theorem popNamed_requeues_unknown (hq : e.queues.named? name = none) :
    Requeues call (popNamed name) e e.queues none false where
  run := by
    unfold popNamed
    rw [run_get_bind, hq]
    rfl

theorem acknowledge_requeues_unknown (hq : e.queues.named? name = none) :
    Requeues call (acknowledge call name) e e.queues none false where
  run := by
    unfold acknowledge
    rw [run_get_bind, hq]
    rfl

end Requests

/-- The operations on queues, each with the queues that it leaves, with the trigger that it fires
then, if any, and with its reply. Natives make their requests by the inner callbacks. -/
structure QueueFires (call outer : Callbacks H) (e : Engine H) : Prop where
  append : ∀ {q : QueueRef H} {content}, e.queues.at? q = some content → ∀ item,
    (e.queues.update q (content.put item)).at? q = some (content.put item) ∧
      Requeues call (answer call (.append q item)) e (e.queues.update q (content.put item))
        (some content.trigger) ()
  appendNamed : ∀ {name n k} {content : Queue (H.Item k)},
    e.queues.named? name = some (n, ⟨k, content⟩) → ∀ item,
      Requeues call (answer call (.appendNamed name k item)) e
        (e.queues.update ⟨k, n⟩ (content.put item)) (some content.trigger) (.ok ())
  /-- A queue that is made by an append has its own name as trigger. -/
  appendNew : ∀ {name}, e.queues.named? name = none → ∀ k item,
    Requeues call (answer call (.appendNamed name k item)) e
      ⟨e.queues.queues ++ [⟨k, ⟨name, [item]⟩⟩], e.queues.numbers.set name e.queues.queues.length⟩
      (some name) (.ok ())
  appendRefused : ∀ {name n found}, e.queues.named? name = some (n, found) →
    ∀ {k}, found.kind ≠ k → ∀ item,
      Requeues call (answer call (.appendNamed name k item)) e e.queues none
        (.error (.kindMismatch name found.kind k))
  take : ∀ {q : QueueRef H} {content}, e.queues.at? q = some content →
    Requeues call (answer call (.take q)) e
      (e.queues.update q { content with items := content.items.tail }) none content.front?
  popNamed : ∀ {name n found}, e.queues.named? name = some (n, found) →
    Requeues call (answer call (.popNamed name)) e (e.queues.replace n found.rest) none
      (!found.isEmpty)
  popUnknown : ∀ {name}, e.queues.named? name = none →
    Requeues call (answer call (.popNamed name)) e e.queues none false
  acknowledge : ∀ {name n found}, e.queues.named? name = some (n, found) →
    Acknowledges call (answer call (.acknowledge name)) e n found (!found.isEmpty) ∧
      ∀ {args} c, textArg args 0 = some name →
        Acknowledges call (outer.native (.builtin .queueAck) args c) e n found .unset
  acknowledgeUnknown : ∀ {name}, e.queues.named? name = none →
    Requeues call (answer call (.acknowledge name)) e e.queues none false ∧
      ∀ {args} c, textArg args 0 = some name →
        Requeues call (outer.native (.builtin .queueAck) args c) e e.queues none .unset

/-- What follows an operation may be a reply of another kind. -/
theorem Requeues.replying (h : Requeues call operation e queues name? reply) {β : Type} (x : β) :
    Requeues call (operation >>= fun _ => pure x) e queues name? x where
  run := by
    show (operation.run e).bind (fun found => some (x, found.2)) = _
    rw [h.run, Option.map_eq_bind, Option.bind_assoc, Option.map_eq_bind]
    rfl

theorem builtin_queueAck {args : List Value} {name : String} (h : textArg args 0 = some name) :
    builtin call .queueAck args = (acknowledge call name >>= fun _ => pure .unset) := by
  unfold builtin
  rw [h]

theorem queueFires (script : Script H H) (rounds depth : Nat) (e : Engine H) :
    QueueFires (script.callbacks rounds depth) (script.callbacks rounds (depth + 1)) e where
  append hq item := ⟨Directory.at?_update hq _, append_requeues hq item⟩
  appendNamed {name _ _ _} hq item :=
    appendNamed_requeues (Directory.openQueue_known hq name)
      (Directory.at?_eq_some.mpr (Directory.named?_eq_some hq)) item
  appendNew := appendNamed_requeues_new
  appendRefused := appendNamed_refused
  take := take_requeues
  popNamed := popNamed_requeues
  popUnknown := popNamed_requeues_unknown
  acknowledge hq := by
    have hall : Requeues (script.callbacks rounds depth)
        (Engine.acknowledge (script.callbacks rounds depth) _) e _ _ _ := acknowledge_requeues hq
    refine ⟨hall.acknowledges (Directory.named?_eq_some hq), fun {args} c hname => ?_⟩
    refine Requeues.acknowledges ?_ (Directory.named?_eq_some hq)
    show Requeues _ (builtin (script.callbacks rounds depth) .queueAck args) e _ _ _
    rw [builtin_queueAck hname]
    exact hall.replying Value.unset
  acknowledgeUnknown {name} hq := by
    have hall : Requeues (script.callbacks rounds depth)
        (Engine.acknowledge (script.callbacks rounds depth) name) e e.queues none false :=
      acknowledge_requeues_unknown hq
    refine ⟨hall, fun {args} c hname => ?_⟩
    show Requeues _ (builtin (script.callbacks rounds depth) .queueAck args) e _ _ _
    rw [builtin_queueAck hname]
    exact hall.replying Value.unset

end Engine

theorem Action.run_engine_bind {α : Type} {call : Callbacks H} (e : Engine H)
    (f : Engine H → Action H α) :
    ((Action.engine >>= f).run call).run e = ((f e.unwritten).run call).run e := rfl

namespace Mixer

variable {C : Host} {call : Callbacks (extend C)} {e : Engine (extend C)} {n : Nat} {m : Mixer}

/-- The queue of the mixer that the native acknowledges. -/
def Function.queue? (m : Mixer) : Function → Option (QueueRef (extend C))
  | .channelAck => some (advertQueue m)
  | .removalAck => some (removalQueue m)
  | _ => none

theorem acknowledge_requeues {q : QueueRef (extend C)} {content : Queue ((extend C).Item q.kind)}
    (hq : e.queues.at? q = some content) :
    Engine.Requeues call ((Mixer.acknowledge q).run call) e
      (e.queues.replace q.number (KindQueue.mk q.kind content).rest)
      (KindQueue.mk q.kind content).continuing? () where
  run := by
    have htake : (Engine.take q).run e = _ :=
      (Engine.take_requeues hq : Engine.Requeues call ..).silent
    unfold Mixer.acknowledge
    rw [Action.run_bind, StateT.run_bind,
      show (ask (.take q) : Action (extend C) _).run call = Engine.take q from bind_pure _, htake]
    obtain ⟨trigger, items⟩ := content
    cases items with
    | nil => rfl
    | cons item items =>
      let left : Engine (extend C) := { e with queues := e.queues.update q ⟨trigger, items⟩ }
      have hrest : left.unwritten.queues.at? q = some ⟨trigger, items⟩ :=
        Directory.at?_update hq _
      refine (Action.run_engine_bind left _).trans ?_
      rw [hrest]
      dsimp only
      cases items with
      | nil => rfl
      | cons next items =>
        show (Engine.fire call trigger >>= pure).run _ = _
        rw [bind_pure]
        exact (congrFun Option.map_id _).symm

theorem call_requeues (hm : (e.host.mixers : List Mixer)[n]? = some m) {f : Function}
    {q : QueueRef (extend C)} (hf : f.queue? m = some q) {content : Queue ((extend C).Item q.kind)}
    (hq : e.queues.at? q = some content) (args : List Value) :
    Engine.Requeues call ((Mixer.call n f args).run call) e
      (e.queues.replace q.number (KindQueue.mk q.kind content).rest)
      (KindQueue.mk q.kind content).continuing? .unset where
  run := by
    have hall := (acknowledge_requeues hq : Engine.Requeues call ..).replying Value.unset
    have hcall : ((Mixer.call n f args).run call).run e =
        ((Mixer.acknowledge q).run call >>= fun _ => pure Value.unset).run e := by
      rw [show (fun _ => pure Value.unset : Unit → Run (extend C) Value) =
        fun x => ((fun _ => pure Value.unset : Unit → Action (extend C) Value) x).run call from rfl,
        ← Action.run_bind]
      cases f with
      | channelAck =>
        cases hf
        exact run_mixer? hm _
      | removalAck =>
        cases hf
        exact run_mixer? hm _
      | _ => cases hf
    rw [hcall, hall.run]

/-- The two natives of a mixer that acknowledge do to its own queue what the builtin one does to
the queue of a name, as long as this is the same queue. -/
structure OwnQueueFires (call outer : Callbacks (extend C)) (e : Engine (extend C)) (n : Nat)
    (m : Mixer) : Prop where
  acknowledge : ∀ {f : Function} {q}, f.queue? m = some q →
    ∀ {content}, e.queues.at? q = some content →
    ∀ args c, Engine.Acknowledges call (outer.native (.host (.mixer n f)) args c) e q.number
      ⟨q.kind, content⟩ .unset
  alike : ∀ {f : Function} {q}, f.queue? m = some q → ∀ {name content},
    e.queues.named? name = some (q.number, ⟨q.kind, content⟩) →
    ∀ args c {args'} c', Engine.textArg args' 0 = some name →
      (outer.native (.host (.mixer n f)) args c).run e =
        (outer.native (.builtin .queueAck) args' c').run e

theorem ownQueueFires (own : Script C (extend C)) (rounds depth : Nat)
    (hm : (e.host.mixers : List Mixer)[n]? = some m) :
    OwnQueueFires ((script own).callbacks rounds depth) ((script own).callbacks rounds (depth + 1))
      e n m where
  acknowledge {_ _} hf {_} hq args _ :=
    (call_requeues hm hf hq args).acknowledges (Directory.at?_eq_some.mp hq)
  alike {f q} hf {name content} hq args c {args'} c' hname := by
    have hat : e.queues.at? q = some content :=
      Directory.at?_eq_some.mpr (Directory.named?_eq_some hq)
    obtain ⟨-, hnative⟩ := (Engine.queueFires (script own) rounds depth e).acknowledge hq
    rw [(hnative c' hname).requeues.run]
    exact (call_requeues hm hf hat args).run

end Mixer

/-- An operation on a queue fires the trigger of the queue once, or not at all, and it does so when
the queue is as it leaves it. What else is fired meanwhile is fired in the fan-outs. By whichever
way an acknowledgment is asked for, it does the same. -/
theorem queue_operations_fire :
    (∀ {H : Host} (script : Script H H) (rounds depth : Nat) (e : Engine H),
      Engine.QueueFires (script.callbacks rounds depth) (script.callbacks rounds (depth + 1)) e ∧
      (e.Reachable → ∀ {α : Type} {operation : Run H α} {queues name? reply},
        Engine.Requeues (script.callbacks rounds depth) operation e queues name? reply →
        ∀ {x e' d}, operation.run e = some (x, e') → e'.journal = d.reverse ++ e.journal →
          (name? = none → d = []) ∧
          ∀ name ∈ name?, ∃ fans : List (FanOut H),
            d = .fired name :: fans.flatMap FanOut.notes ∧
            (e.bus.dispatching = true → fans = []))) ∧
    ∀ {C : Host} (own : Script C (Mixer.extend C)) (rounds depth : Nat)
      (e : Engine (Mixer.extend C)) {n m}, (e.host.mixers : List Mixer)[n]? = some m →
      Mixer.OwnQueueFires ((Mixer.script own).callbacks rounds depth)
        ((Mixer.script own).callbacks rounds (depth + 1)) e n m := by
  refine ⟨fun script rounds depth e => ⟨Engine.queueFires script rounds depth e, ?_⟩,
    fun {C} own rounds depth e {n m} hm => Mixer.ownQueueFires own rounds depth hm⟩
  intro he α operation queues name? reply hoperation x e' d hrun hj
  obtain ⟨w, hs⟩ := he.sound
  exact hoperation.issued (script.keeps_any rounds depth) hs hrun hj

namespace Bare

open Mixer

/-- Two channels have been announced by the mixer and not been acknowledged. -/
def waiting : Queue Advert :=
  ⟨"mixer_channel", [⟨.sink, 0, "front-left", Interface.sink.identifier 3⟩,
    ⟨.sink, 1, "front-right", Interface.sink.identifier 3⟩]⟩

def advertising : Engine (extend Bare) :=
  { playing with queues := ⟨[⟨.advert, waiting⟩], [("mixer_channel", 0)]⟩ }

end Bare

namespace Shelf

theorem reachable_filled : filled.Reachable := by
  have hrun : (filling.run (script.callbacks 2 2)).run (.create .standard ()) =
      some ((), filled) := by
    cbv
  exact (Engine.reachable_create (H := Shelf) .standard ()).action script hrun

/-- The shelf without its front item. Who listens to the trigger has been told. -/
def advanced : Engine Shelf :=
  { filled with
    queues := ⟨[⟨kind, ⟨"full", [(3, "d")]⟩⟩], [("shelf", 0)]⟩
    journal := announced ++ filled.journal }

/-- The trigger of the shelf is not its name. The queue of the mixer has the name as trigger. -/
theorem queue_operations_fire_shelved :
    (Engine.answer (script.callbacks 2 2) (.acknowledge "shelf")).run filled =
        some (true, advanced) ∧
      (∃ fans : List (FanOut Shelf),
        announced.reverse = .fired "full" :: fans.flatMap FanOut.notes) ∧
      ((Bare.script.callbacks 2 3).native (.host (.mixer 0 .channelAck)) [] .empty).run
          Bare.advertising =
        ((Bare.script.callbacks 2 3).native (.builtin .queueAck) [.text "mixer_channel"]
          .empty).run Bare.advertising ∧
      Engine.Acknowledges (Bare.script.callbacks 2 2)
        ((Bare.script.callbacks 2 3).native (.host (.mixer 0 .channelAck)) [] .empty)
        Bare.advertising 0 ⟨.advert, Bare.waiting⟩ .unset := by
  obtain ⟨hany, hown⟩ := queue_operations_fire
  obtain ⟨hfires, hissued⟩ := hany script 2 2 filled
  have hnamed : filled.queues.named? "shelf" = some (0, ⟨kind, content⟩) := rfl
  have hrun : (Engine.answer (script.callbacks 2 2) (.acknowledge "shelf")).run filled =
      some (true, advanced) := by
    cbv
  have hjournal : advanced.journal = announced.reverse.reverse ++ filled.journal := rfl
  obtain ⟨-, hfired⟩ :=
    hissued reachable_filled (hfires.acknowledge hnamed).1.requeues hrun hjournal
  obtain ⟨fans, hnotes, -⟩ := hfired "full" rfl
  have hmixers : (Bare.advertising.host.mixers : List Mixer)[0]? =
      some ⟨Mixer.Tables.empty.update .sink Bare.speakers, 0, 1, .empty⟩ := rfl
  have hmixer : Mixer.OwnQueueFires (Bare.script.callbacks 2 2) (Bare.script.callbacks 2 3)
      Bare.advertising 0 _ := hown _ 2 2 Bare.advertising hmixers
  have hqueue : Bare.advertising.queues.named? "mixer_channel" =
      some (0, ⟨.advert, Bare.waiting⟩) := rfl
  have hat : Bare.advertising.queues.at? ⟨.advert, 0⟩ = some Bare.waiting :=
    Directory.at?_eq_some.mpr rfl
  exact ⟨hrun, ⟨fans, hnotes⟩, hmixer.alike (f := .channelAck) rfl hqueue [] .empty .empty rfl,
    hmixer.acknowledge (f := .channelAck) rfl hat [] .empty⟩

end Shelf

end LiveExpr
