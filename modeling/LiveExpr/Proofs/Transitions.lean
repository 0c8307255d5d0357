import LiveExpr.Engine.Perform
import LiveExpr.Proofs.Bindings
import LiveExpr.Proofs.Watches
import Mathlib.Logic.Relation

/-!
The elementary transitions of an engine, callbacks and evaluations being made of them.
A fan-out in progress is part of the state here as the list of the subscriptions that
it has yet to come to. Whatever may be bound to names and whatever evaluations may come
to, the bus and the store agree on the watches at every moment.
-/
namespace LiveExpr

variable {H : Host}

namespace Engine

/-- The names that an evaluation called and the expression does not watch yet. -/
def unwatched (c : Cache) (v : Evaluation) : List String :=
  v.dependencies.filter fun name => !c.watches.contains name

section Complete

variable {e : Engine H} {h : Handle} (began : Nat) (v : Evaluation)

theorem complete_unknown (hc : e.store.get? h = none) : e.complete h began v = e := by
  simp only [complete, hc]

theorem complete_registry : (e.complete h began v).registry = e.registry := by
  unfold complete
  split
  · rfl
  · dsimp only
    split <;> rfl

theorem complete_limits : (e.complete h began v).limits = e.limits := by
  unfold complete
  split
  · rfl
  · dsimp only
    split <;> rfl

theorem complete_queues : (e.complete h began v).queues = e.queues := by
  unfold complete
  split
  · rfl
  · dsimp only
    split <;> rfl

variable {c : Cache} (hc : e.store.get? h = some c)

include hc

theorem complete_bus : (e.complete h began v).bus = (watch h (unwatched c v) e.bus).2 := by
  simp only [complete, hc]
  split <;> rfl

theorem complete_store :
    (e.complete h began v).store = e.store.modify h fun c' =>
      { c' with watches := c'.watches ++ (watch h (unwatched c v) e.bus).1 }.complete began v.value
        v.volatile := by
  simp only [complete, hc]
  split <;> rfl

theorem complete_journal_eq :
    (e.complete h began v).journal =
      if !v.volatile && c.epoch == began then .stored h v.value :: e.journal else e.journal := by
  simp only [complete, hc]
  split <;> rfl

end Complete

/-- All that is noted of an evaluation that is taken in is that its value is stored, if it is. -/
theorem complete_journal (e : Engine H) (h : Handle) (began : Nat) (v : Evaluation) :
    (e.complete h began v).journal = e.journal ∨
      (e.complete h began v).journal = .stored h v.value :: e.journal := by
  cases hc : e.store.get? h with
  | none => exact Or.inl (congrArg journal (complete_unknown began v hc))
  | some c =>
    rw [complete_journal_eq began v hc]
    split
    · exact Or.inr rfl
    · exact Or.inl rfl

/-- The cache after an evaluation was taken in for it. -/
def completed (x : Handle) (began : Nat) (v : Evaluation) (c : Cache) (b : Bus (Subscriber H)) :
    Cache :=
  { c with watches := c.watches ++ (watch x (unwatched c v) b).1 }.complete began v.value v.volatile

theorem complete_cases {e : Engine H} {h x : Handle} {began : Nat} {v : Evaluation} {c' : Cache}
    (hc' : (e.complete h began v).store.get? x = some c') :
    (x ≠ h ∧ e.store.get? x = some c') ∨
      (x = h ∧ ∃ c, e.store.get? x = some c ∧ c' = completed x began v c e.bus) := by
  cases hc : e.store.get? h with
  | none =>
    rw [complete_unknown began v hc] at hc'
    refine Or.inl ⟨?_, hc'⟩
    rintro rfl
    rw [hc] at hc'
    cases hc'
  | some c =>
    rw [complete_store began v hc, Store.get?_modify] at hc'
    by_cases hx : x = h
    · subst hx
      rw [if_pos rfl, hc] at hc'
      cases hc'
      exact Or.inr ⟨rfl, c, hc, rfl⟩
    · rw [if_neg hx] at hc'
      exact Or.inl ⟨hx, hc'⟩

end Engine

/-- What may be bound to names, and how the evaluations come out that are taken in. -/
structure Terms (H : Host) where
  binds : Behavior (Native H) → Prop
  completes : Registry (Native H) → Limits → Program → Evaluation → Prop
  unbound : binds .unbound
  user : ∀ p, binds (.user p)
  nondeterministic : ∀ f, binds (.native f false)

/-- An engine and the subscriptions that the fan-out in progress has yet to come to. -/
structure Moment (H : Host) where
  engine : Engine H
  awaited : List Ticket

/-- Notes of what has no part in the life of a stored value. -/
def Note.Passing : Note H → Prop
  | .called _ _ => False
  | .fanOutBegan _ => False
  | _ => True

/-- A fire joins the line, and the line is being worked through from then on. -/
def Engine.alert (name : String) (e : Engine H) : Engine H :=
  let e := e.announce name
  { e with bus := e.bus.setDispatching true }

inductive Step (terms : Terms H) : Moment H → Moment H → Prop
  | passed {e w} (queues : Directory H) (mailbox : Mailbox (Message H)) (sources : List H.Source)
      (host : H.State) : Step terms ⟨e, w⟩ ⟨{ e with queues, mailbox, sources, host }, w⟩
  | noted {e w} {n : Note H} (hn : n.Passing) : Step terms ⟨e, w⟩ ⟨e.note n, w⟩
  | looked {e w} {registry : Registry (Native H)}
      (hr : ∀ name, registry.resolve name = e.registry.resolve name) :
      Step terms ⟨e, w⟩ ⟨{ e with registry }, w⟩
  | alerted {e w} (name : String) : Step terms ⟨e, w⟩ ⟨e.alert name, w⟩
  | rebound {e w} {name : String} {b : Behavior (Native H)} (hb : terms.binds b) :
      Step terms ⟨e, w⟩ ⟨{ e with registry := ⟨e.registry.entries.set name b⟩ }.alert name, w⟩
  | rested {e} (hp : e.bus.pending = []) :
      Step terms ⟨e, []⟩ ⟨{ e with bus := e.bus.setDispatching false }, []⟩
  | began {e name bus} (hd : e.bus.dispatching = true) (hn : e.bus.next? = some (name, bus)) :
      Step terms ⟨e, []⟩
        ⟨{ e with bus }.note (.fanOutBegan name), (bus.targets name).map Prod.fst⟩
  | called {e w id s} (hs : e.bus.find? id = some s) (hn : ∀ h, s.target ≠ .cache h) :
      Step terms ⟨e, id :: w⟩ ⟨e.note (.called id s.name), w⟩
  | dropped {e w id s h} (hs : e.bus.find? id = some s) (ht : s.target = .cache h) :
      Step terms ⟨e, id :: w⟩
        ⟨{ e.note (.called id s.name) with store := e.store.modify h Cache.invalidate }, w⟩
  | skipped {e w id} (hs : e.bus.find? id = none) : Step terms ⟨e, id :: w⟩ ⟨e, w⟩
  | inserted {e w} (p : Program) (mode : Mode) :
      Step terms ⟨e, w⟩ ⟨{ e with store := (e.store.insert (.create p mode)).2 }, w⟩
  | unbound {e w h c} (hc : e.store.get? h = some c) :
      Step terms ⟨e, w⟩
        ⟨{ e with store := (e.store.remove h).2, bus := Engine.unwatch c.watches e.bus }, w⟩
  | subscribed {e w} (name : String) (tier : Tier) {target : Subscriber H}
      (hn : ∀ h, target ≠ .cache h) :
      Step terms ⟨e, w⟩ ⟨{ e with bus := (e.bus.subscribe .host name tier target).2 }, w⟩
  | unsubscribed {e w} (id : SubscriptionId) :
      Step terms ⟨e, w⟩ ⟨{ e with bus := (e.bus.unsubscribe id.ticket).2 }, w⟩
  | completed {e w} (h : Handle) (epoch : Nat) {v : Evaluation}
      (hv : ∀ c, e.store.get? h = some c → terms.completes e.registry e.limits c.program v) :
      Step terms ⟨e, w⟩ ⟨e.complete h epoch v, w⟩

def Steps (terms : Terms H) : Moment H → Moment H → Prop := Relation.ReflTransGen (Step terms)

/-- What holds at every moment. Outside of fan-outs none is in progress and none is waiting. -/
structure Sound (terms : Terms H) (m : Moment H) : Prop where
  tied : Tied m.engine.bus m.engine.store
  binds : ∀ name, terms.binds (m.engine.registry.resolve name)
  idle : m.engine.bus.dispatching = false → m.awaited = [] ∧ m.engine.bus.pending = []

theorem Tied.complete {e : Engine H} (ht : Tied e.bus e.store) (h : Handle) (began : Nat)
    (v : Evaluation) : Tied (e.complete h began v).bus (e.complete h began v).store := by
  cases hc : e.store.get? h with
  | none => rwa [Engine.complete_unknown began v hc]
  | some c =>
    rw [Engine.complete_bus began v hc, Engine.complete_store began v hc]
    exact ht.watch hc (Engine.watch_watched h _ ht.bus) rfl

theorem Engine.complete_dispatching {e : Engine H} (ht : Tied e.bus e.store) (h : Handle)
    (began : Nat) (v : Evaluation) :
    (e.complete h began v).bus.dispatching = e.bus.dispatching ∧
      (e.complete h began v).bus.pending = e.bus.pending := by
  cases hc : e.store.get? h with
  | none =>
    rw [Engine.complete_unknown began v hc]
    exact ⟨rfl, rfl⟩
  | some c =>
    have hw := Engine.watch_watched h (unwatched c v) ht.bus
    rw [Engine.complete_bus began v hc]
    exact ⟨hw.dispatching, hw.pending⟩

theorem Engine.unwatch_line (watches : Table Ticket) (b : Bus (Subscriber H)) :
    (unwatch watches b).dispatching = b.dispatching ∧ (unwatch watches b).pending = b.pending := by
  refine unwatch_induction (P := fun b' => b'.dispatching = b.dispatching ∧ b'.pending = b.pending)
    watches ⟨rfl, rfl⟩ fun b' id hb => ?_
  rw [Bus.dispatching_unsubscribe, Bus.pending_unsubscribe]
  exact hb

variable {terms : Terms H} {m m' : Moment H}

theorem Sound.step (hm : Sound terms m) (h : Step terms m m') : Sound terms m' := by
  obtain ⟨htied, hbinds, hidle⟩ := hm
  cases h with
  | passed => exact ⟨htied, hbinds, hidle⟩
  | noted => exact ⟨htied, hbinds, hidle⟩
  | looked hr => exact ⟨htied, fun name => hr name ▸ hbinds name, hidle⟩
  | alerted name => exact ⟨htied.line _ _, hbinds, fun hd => by cases hd⟩
  | @rebound e w name b hb =>
    refine ⟨htied.line _ _, fun other => ?_, fun hd => by cases hd⟩
    show terms.binds ((⟨e.registry.entries.set name b⟩ : Registry (Native H)).resolve other)
    rw [Registry.resolve_set]
    split
    · exact hb
    · exact hbinds other
  | rested hp => exact ⟨htied.line _ _, hbinds, fun _ => ⟨rfl, hp⟩⟩
  | @began e name bus hd hn =>
    obtain ⟨rest, hpending, rfl⟩ := Bus.next?_eq_some hn
    refine ⟨htied.line _ _, hbinds, fun hf => ?_⟩
    have hboth : e.bus.dispatching = false := hf
    rw [hd] at hboth
    cases hboth
  | called hs hn => exact ⟨htied, hbinds, fun hd => by cases (hidle hd).1⟩
  | dropped hs ht =>
    exact ⟨htied.modify _ fun _ => rfl, hbinds, fun hd => by cases (hidle hd).1⟩
  | skipped hs => exact ⟨htied, hbinds, fun hd => by cases (hidle hd).1⟩
  | inserted p mode => exact ⟨htied.insert p mode, hbinds, hidle⟩
  | @unbound e w h c hc =>
    obtain ⟨hdispatching, hpending⟩ := Engine.unwatch_line c.watches e.bus
    refine ⟨htied.unbind hc, hbinds, ?_⟩
    show (Engine.unwatch c.watches e.bus).dispatching = false → _
    rw [hdispatching, hpending]
    exact hidle
  | subscribed name tier hn => exact ⟨htied.subscribe name tier hn, hbinds, hidle⟩
  | @unsubscribed e w id =>
    refine ⟨htied.unsubscribe id, hbinds, ?_⟩
    show (e.bus.unsubscribe id.ticket).2.dispatching = false → _
    rw [Bus.dispatching_unsubscribe, Bus.pending_unsubscribe]
    exact hidle
  | @completed e w h epoch v hv =>
    obtain ⟨hdispatching, hpending⟩ := Engine.complete_dispatching htied h epoch v
    refine ⟨htied.complete h epoch v, ?_, ?_⟩
    · show ∀ name, terms.binds ((e.complete h epoch v).registry.resolve name)
      rw [Engine.complete_registry]
      exact hbinds
    · show (e.complete h epoch v).bus.dispatching = false → _
      rw [hdispatching, hpending]
      exact hidle

theorem Sound.steps (hm : Sound terms m) (h : Steps terms m m') : Sound terms m' := by
  induction h with
  | refl => exact hm
  | tail _ hstep ih => exact ih.step hstep

theorem sound_create (limits : Limits) (host : H.State) :
    Sound terms ⟨.create limits host, []⟩ where
  tied := Tied.empty
  binds := by
    intro name
    show terms.binds ((Registry.mk Engine.builtins).resolve name)
    simp only [Registry.resolve, Engine.builtins, Table.get?]
    split
    · exact terms.nondeterministic _
    split
    · exact terms.nondeterministic _
    split
    · exact terms.nondeterministic _
    · exact terms.unbound
  idle := fun _ => ⟨rfl, rfl⟩

/-- What holds of the bus if it only needs to hold of subscribing, unsubscribing and changes of the
line. -/
theorem Step.bus_induction {P : Bus (Subscriber H) → Prop} (h : Step terms m m')
    (hm : Sound terms m) (hP : P m.engine.bus)
    (hline : ∀ {b} pending dispatching, P b → P { b with pending, dispatching })
    (hsubscribe : ∀ {b} owner name tier target, b.Valid → P b →
      P (b.subscribe owner name tier target).2)
    (hunsubscribe : ∀ {b} id, P b → P (b.unsubscribe id).2) : P m'.engine.bus := by
  cases h with
  | @alerted e w name => exact hline (b := e.bus) _ _ hP
  | @rebound e w name b hb => exact hline (b := e.bus) _ _ hP
  | rested hp => exact hline _ _ hP
  | began hd hn =>
    obtain ⟨rest, -, rfl⟩ := Bus.next?_eq_some hn
    exact hline _ _ hP
  | unbound hc => exact Engine.unwatch_induction _ hP fun b id hb => hunsubscribe id hb
  | subscribed name tier hn => exact hsubscribe _ _ _ _ hm.tied.bus hP
  | unsubscribed id => exact hunsubscribe _ hP
  | @completed e w h epoch v hv =>
    show P (e.complete h epoch v).bus
    cases hc : e.store.get? h with
    | none =>
      rw [Engine.complete_unknown _ _ hc]
      exact hP
    | some c =>
      rw [Engine.complete_bus _ _ hc]
      exact Engine.watch_induction h _ hm.tied.bus hP fun b name hv hb => hsubscribe _ _ _ _ hv hb
  | _ => exact hP

/-- Subscriptions are never altered, and never come back. -/
theorem Step.later (h : Step terms m m') (hm : Sound terms m) :
    m.engine.bus.Later m'.engine.bus :=
  h.bus_induction hm (.refl _) (fun _ _ hb => ⟨hb.numbers, hb.kept⟩)
    (fun _ _ _ _ hv hb => hb.trans (hv.later_subscribe ..))
    fun id hb => hb.trans (Bus.later_unsubscribe _ id)

/-- The journal only grows. -/
theorem Step.grows (h : Step terms m m') : m.engine.journal <:+ m'.engine.journal := by
  cases h with
  | @completed e w h epoch v hv =>
    show e.journal <:+ (e.complete h epoch v).journal
    rcases e.complete_journal h epoch v with hj | hj
    · exact hj ▸ List.suffix_rfl
    · exact hj ▸ List.suffix_cons ..
  | noted | alerted | rebound | began | called | dropped => exact List.suffix_cons ..
  | _ => exact List.suffix_rfl

theorem Steps.grows (h : Steps terms m m') : m.engine.journal <:+ m'.engine.journal := by
  induction h with
  | refl => exact List.suffix_rfl
  | tail _ hstep ih => exact ih.trans hstep.grows

theorem Steps.later (h : Steps terms m m') (hm : Sound terms m) :
    m.engine.bus.Later m'.engine.bus := by
  induction h with
  | refl => exact .refl _
  | tail hsteps hstep ih => exact ih.trans (hstep.later (hm.steps hsteps))

end LiveExpr
