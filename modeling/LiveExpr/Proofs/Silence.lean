import LiveExpr.Proofs.ListenerCalls

/-!
An engine without subscriptions. A fire still stands in line and is fanned out, but nobody is
called, and nothing but the journal tells of it. So what is announced changes no more than the
announcement itself does.
-/
namespace LiveExpr

variable {H : Host}

theorem Bus.targets_eq_nil {α : Type} {b : Bus α} (h : b.subscriptions = []) (name : String) :
    b.targets name = [] := by
  have hfind : ∀ id, b.find? id = none := fun id => by
    unfold Bus.find?
    rw [h]
    rfl
  have hnone : ∀ tier, b.tierTargets name tier = [] := fun tier =>
    List.filterMap_eq_nil_iff.mpr fun id _ => by rw [hfind]
  unfold Bus.targets
  rw [hnone, hnone, List.nil_append]

/-- Requests that announce something. -/
def Request.Raises : Request H → Prop
  | .fire _ => True
  | .append _ _ => True
  | _ => False

/-- Whatever it gets to see, the action makes no other requests than these. -/
def Action.OnlyRaises {α : Type} : Action H α → Prop
  | .pure _ => True
  | .request r next => r.Raises ∧ ∀ reply, (next reply).OnlyRaises
  | .look next => ∀ e, (next e).OnlyRaises
  | .change _ next => next.OnlyRaises

theorem Action.OnlyRaises.bind {α β : Type} {a : Action H α} {f : α → Action H β}
    (ha : a.OnlyRaises) (hf : ∀ x, (f x).OnlyRaises) : (a >>= f).OnlyRaises := by
  induction a with
  | pure x => exact hf x
  | request r next ih => exact ⟨ha.1, fun reply => ih reply (ha.2 reply)⟩
  | look next ih => exact fun e => ih e (ha e)
  | change g next ih => exact ih ha

theorem Action.OnlyRaises.forM {α : Type} {f : α → Action H Unit} (hf : ∀ x, (f x).OnlyRaises)
    (l : List α) : (l.forM f).OnlyRaises := by
  induction l with
  | nil => trivial
  | cons x rest ih => exact (hf x).bind fun _ => ih

namespace Engine

variable {call : Callbacks H} {e e' : Engine H}

/-- Queues and host are the same, and there are no subscriptions. -/
structure Silent (e e' : Engine H) : Prop where
  queues : e'.queues = e.queues
  host : e'.host = e.host
  subscriptions : e'.bus.subscriptions = []

theorem fanOut_silent (hnone : e.bus.subscriptions = []) (name : String) :
    (fanOut call name).run e =
      some ((), (e.note (.fanOutBegan name)).note (.fanOutEnded name)) := by
  show ((deliver call name (e.bus.targets name)).run (e.note (.fanOutBegan name))).bind _ = _
  rw [Bus.targets_eq_nil hnone]
  rfl

theorem drain_silent (rounds : Nat) (hnone : e.bus.subscriptions = [])
    (hrun : (drain call rounds).run e = some ((), e')) : Silent e e' := by
  induction rounds generalizing e with
  | zero => cases hrun
  | succ rounds ih =>
    unfold drain at hrun
    rw [run_get_bind] at hrun
    split at hrun
    · cases hrun
      exact ⟨rfl, rfl, hnone⟩
    · rename_i name bus hnext
      have hbus : bus.subscriptions = [] := by
        obtain ⟨rest, -, rfl⟩ := Bus.next?_eq_some hnext
        exact hnone
      replace hrun : ((fanOut call name).run { e with bus }).bind
        (fun found => (drain call rounds).run found.2) = some ((), e') := hrun
      rw [fanOut_silent (e := { e with bus }) hbus, Option.bind_some] at hrun
      have hrest := ih hbus hrun
      exact ⟨hrest.queues, hrest.host, hrest.subscriptions⟩

theorem fire_silent {name : String} (hnone : e.bus.subscriptions = [])
    (hrun : (fire call name).run e = some ((), e')) : Silent e e' := by
  replace hrun : (settle call).run (e.announce name) = some ((), e') := hrun
  cases hd : e.bus.dispatching with
  | true =>
    rw [settle_deferred name hd] at hrun
    cases hrun
    exact ⟨rfl, rfl, hnone⟩
  | false =>
    rw [settle_begins name hd] at hrun
    have hdrain := drain_silent (e := e.alert name) _ hnone hrun
    exact ⟨hdrain.queues, hdrain.host, hdrain.subscriptions⟩

/-- What a request raises comes to nothing. -/
theorem Raises.silent {r : Request H} {raised : Engine H} {reply : r.Reply} (h : Raises r e raised)
    (hnone : e.bus.subscriptions = []) (hrun : (Engine.answer call r).run e = some (reply, e')) :
    Silent raised e' := by
  cases h with
  | fire name =>
    have hfire := fire_silent hnone hrun
    exact ⟨hfire.queues, hfire.host, hfire.subscriptions⟩
  | @append q e content found item =>
    have happend : (Engine.append call q item).run e = some ((), e') := hrun
    unfold Engine.append at happend
    rw [run_get_bind, found] at happend
    have hfire := fire_silent (e := { e with queues := e.queues.update q (content.put item) }) hnone
      happend
    exact ⟨hfire.queues, hfire.host, hfire.subscriptions⟩

theorem answer_silent {r : Request H} (hr : r.Raises) {reply : r.Reply}
    (hnone : e.bus.subscriptions = []) (hrun : (answer call r).run e = some (reply, e')) :
    e'.bus.subscriptions = [] := by
  cases r with
  | fire name => exact (Raises.fire name e).silent hnone hrun |>.subscriptions
  | append q item =>
    cases hq : e.queues.at? q with
    | none =>
      have happend : (append call q item).run e = some (reply, e') := hrun
      unfold append at happend
      rw [run_get_bind, hq] at happend
      cases happend
      exact hnone
    | some content => exact (Raises.append hq item).silent hnone hrun |>.subscriptions
  | _ => exact hr.elim

end Engine

/-- Whatever request the action comes to, there are still no subscriptions. -/
theorem Action.ComesTo.silent {α : Type} {call : Callbacks H} {a : Action H α} {r : Request H}
    {e e' : Engine H} (h : a.ComesTo call e r e') (ha : a.OnlyRaises)
    (hnone : e.bus.subscriptions = []) : e'.bus.subscriptions = [] := by
  induction h with
  | here => exact hnone
  | request hr _ ih => exact ih (ha.2 _) (Engine.answer_silent ha.1 hnone hr)
  | look _ ih => exact ih (ha _) hnone
  | change _ ih => exact ih ha hnone

/-- And when it is over. -/
theorem Action.Goes.silent {α : Type} {call : Callbacks H} {a : Action H α} {x : α}
    {e e' : Engine H} {moves : List (Move H)} (h : a.Goes call e moves x e') (ha : a.OnlyRaises)
    (hnone : e.bus.subscriptions = []) : e'.bus.subscriptions = [] := by
  induction h with
  | pure => exact hnone
  | request hr _ ih => exact ih (ha.2 _) (Engine.answer_silent ha.1 hnone hr)
  | look _ ih => exact ih (ha _) hnone
  | change _ ih => exact ih ha hnone

end LiveExpr
