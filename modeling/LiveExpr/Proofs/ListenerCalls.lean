import LiveExpr.Proofs.Freshness
import LiveExpr.Proofs.Moves

/-!
How a listener comes to be called. A request issues a fire while nothing is being worked
through, the line is worked through one fan-out after the other, and in one of these it
is the turn of the listener. All of this keeps to a regime if the callbacks do.
-/
namespace LiveExpr

variable {H : Host} {α : Type} {name : String}

namespace Engine

/-- The request issues a fire when it is answered, and this is the engine when the line begins to be
worked through. -/
inductive Raises : Request H → Engine H → Engine H → Prop
  | fire (name : String) (e : Engine H) : Raises (.fire name) e (e.alert name)
  | append {q : QueueRef H} {e : Engine H} {content : Queue (H.Item q.kind)}
      (found : e.queues.at? q = some content) (item : H.Item q.kind) :
      Raises (.append q item) e
        ({ e with queues := e.queues.update q (content.put item) }.alert content.trigger)

/-- Some of the fan-outs of the line are over. -/
inductive Drains (call : Callbacks H) : Engine H → Engine H → Prop
  | here (e : Engine H) : Drains call e e
  | fanned {name : String} {bus : Bus (Subscriber H)} {e e₁ e' : Engine H}
      (next : e.bus.next? = some (name, bus))
      (hrun : (fanOut call name).run { e with bus } = some ((), e₁))
      (rest : Drains call e₁ e') : Drains call e e'

/-- As the line is worked through, it comes to the turn of a listener, which finds the engine given
last. -/
inductive Calls (call : Callbacks H) (e : Engine H) (name : String) (l : H.Listener) :
    Engine H → Prop
  | turn {e₁ e₂ : Engine H} {bus : Bus (Subscriber H)} {id : Ticket}
      {s : Subscription (Subscriber H)} {before after : List (Ticket × Subscriber H)}
      (drains : Drains call e e₁) (next : e₁.bus.next? = some (name, bus))
      (targets : bus.targets name = before ++ (id, s.target) :: after)
      (delivered : (deliver call name before).run ({ e₁ with bus }.note (.fanOutBegan name)) =
        some ((), e₂))
      (live : e₂.bus.find? id = some s) (tier : s.tier = .listen)
      (target : s.target = .listener l) :
      Calls call e name l (e₂.note (.called id name))

/-- If nothing is being worked through, to answer the request is to work through the line. -/
theorem Raises.answer {r : Request H} {e e₁ e' : Engine H} {reply : r.Reply} (h : Raises r e e₁)
    (hd : e.bus.dispatching = false) {call : Callbacks H}
    (hrun : (Engine.answer call r).run e = some (reply, e')) :
    (drain call call.rounds).run e₁ = some ((), e') := by
  have hsettle {name : String} {e : Engine H} (hd : e.bus.dispatching = false)
      (hrun : (Engine.fire call name).run e = some ((), e')) :
      (drain call call.rounds).run (e.alert name) = some ((), e') :=
    (settle_begins name hd).symm.trans hrun
  cases h with
  | fire name => exact hsettle hd hrun
  | @append q e content found item =>
    have hrest : (Engine.append call q item).run e = some ((), e') := hrun
    unfold Engine.append at hrest
    rw [run_get_bind, found] at hrest
    exact hsettle (e := { e with queues := e.queues.update q (content.put item) }) hd hrest

section Calls

variable {regime : Regime H} {call : Callbacks H} {e e' : Engine H}

/-- From the request to the beginning of the line. -/
theorem Raises.path {r : Request H} {w : List Ticket} (h : Raises r e e') :
    regime.path ⟨e, w⟩ ⟨e', w⟩ ∧ Steps regime.terms ⟨e, w⟩ ⟨e', w⟩ := by
  have halert : ∀ {e : Engine H} (name : String),
      regime.path ⟨e, w⟩ ⟨e.alert name, w⟩ ∧ Steps regime.terms ⟨e, w⟩ ⟨e.alert name, w⟩ := by
    intro e name
    have hdeed : Deed regime.terms ⟨e, w⟩ [] ⟨e.alert name, w⟩ := .went (.alerted name) rfl rfl
    exact ⟨regime.went hdeed (.plain rfl rfl rfl rfl), hdeed.steps⟩
  cases h with
  | fire name => exact halert name
  | @append q e content found item =>
    have hput : Deed regime.terms ⟨e, w⟩ [.put q.number q.kind item]
        ⟨{ e with queues := e.queues.update q (content.put item) }, w⟩ :=
      .put (Directory.at?_eq_some.mp found) item
    have ht : regime.Takes e [.put q.number q.kind item] := by simp [Regime.Takes]
    obtain ⟨hpath, hsteps⟩ :=
      halert (e := { e with queues := e.queues.update q (content.put item) }) content.trigger
    have hr : Ensues ⟨e, w⟩ ⟨e, w⟩ [.put q.number q.kind item]
        ⟨{ e with queues := e.queues.update q (content.put item) }, w⟩ :=
      .plain rfl rfl rfl rfl
    exact ⟨regime.trans (regime.deed (regime.refl _) hput hr ht) hpath, hput.steps.trans hsteps⟩

variable (hcall : call.Keeps regime)

include hcall

theorem Drains.path (h : Drains call e e') (hs : Sound regime.terms ⟨e, []⟩)
    (hd : e.bus.dispatching = true) :
    regime.path ⟨e, []⟩ ⟨e', []⟩ ∧ Sound regime.terms ⟨e', []⟩ ∧ e'.bus.dispatching = true := by
  induction h with
  | here e => exact ⟨regime.refl _, hs, hd⟩
  | fanned next hrun _ ih =>
    obtain ⟨⟨log, hcourse⟩, hpath, hd₁, -⟩ := fanOut_course hcall hs hd next hrun
    obtain ⟨hpath', hs', hd'⟩ := ih (hs.steps hcourse.steps) hd₁
    exact ⟨regime.trans hpath hpath', hs', hd'⟩

/-- When it is the turn of the listener, none but listeners are left to be called. -/
theorem Calls.reached {l : H.Listener} (h : Calls call e name l e')
    (hs : Sound regime.terms ⟨e, []⟩) (hd : e.bus.dispatching = true) :
    ∃ after, regime.path ⟨e, []⟩ ⟨e', after⟩ ∧ Sound regime.terms ⟨e', after⟩ ∧
      ∀ id ∈ after, id.number < e'.bus.nextNumber ∧
        ∀ s, e'.bus.find? id = some s → s.tier = .listen := by
  obtain @⟨e₁, e₂, bus, id, s, before, after, hdrains, hnext, htargets, hdelivered, hlive, htier,
    -⟩ := h
  obtain ⟨hpath₁, hs₁, hd₁⟩ := hdrains.path hcall hs hd
  have hbegan : Deed regime.terms ⟨e₁, []⟩ []
      ⟨{ e₁ with bus }.note (.fanOutBegan name), (bus.targets name).map Prod.fst⟩ :=
    .went (.began hd₁ hnext) rfl rfl
  have hm := hs₁.steps hbegan.steps
  have hdispatching : bus.dispatching = true := by
    obtain ⟨rest, -, rfl⟩ := Bus.next?_eq_some hnext
    exact hd₁
  have hbegun : regime.path ⟨e₁, []⟩
      ⟨{ e₁ with bus }.note (.fanOutBegan name), (bus.targets name).map Prod.fst⟩ :=
    regime.went hbegan (.plain rfl rfl rfl rfl)
  obtain ⟨hamid, hlisten⟩ := listener_turn hcall hm hdispatching htargets hdelivered hlive htier
  have hlater := hamid.steps.later hm
  refine ⟨after.map Prod.fst, regime.trans hpath₁ (regime.trans hbegun hamid.path),
    hm.steps hamid.steps, fun other hmem => ?_⟩
  obtain ⟨s', hs', htier'⟩ := hlisten other hmem
  have hmade : other.number < bus.nextNumber := hm.tied.bus.number_lt hs'
  refine ⟨Nat.lt_of_lt_of_le hmade hlater.numbers, fun s'' hs'' => ?_⟩
  have hsame : bus.find? other = some s'' := hlater.kept other s'' hmade hs''
  rw [hs'] at hsame
  cases hsame
  exact htier'

end Calls

end Engine

/-- Requests that look at bound expressions or evaluate programs. -/
def Request.Reads : Request H → Prop
  | .read _ _ => True
  | .evaluate _ _ _ => True
  | _ => False

def Action.OnlyReads : Action H α → Prop
  | .pure _ => True
  | .request r next => r.Reads ∧ ∀ reply, (next reply).OnlyReads
  | .look next => ∀ e, (next e).OnlyReads
  | .change _ _ => False

theorem Action.ComesTo.evolved {regime : Regime H} {call : Callbacks H}
    (hcall : call.Keeps regime) {a : Action H α} {r : Request H} {e e' : Engine H}
    {w : List Ticket} (h : a.ComesTo call e r e') (ha : a.OnlyReads)
    (hs : Sound regime.terms ⟨e, w⟩) : Evolved regime w e e' := by
  induction h with
  | here => exact .refl _
  | @request r r' next e e₁ e' reply hr _ ih =>
    have hallows : regime.terms.Allows r := by
      cases r with
      | registerNative name f deterministic => exact ha.1.elim
      | _ => trivial
    have hanswer := (from_answer hcall hallows e).evolved hs hr
    exact hanswer.trans (ih (ha.2 reply) (hs.steps hanswer.steps))
  | look _ ih => exact ih (ha _) hs
  | change => exact ha.elim

end LiveExpr
