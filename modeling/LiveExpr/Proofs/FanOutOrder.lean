import LiveExpr.Proofs.Reachability
import Mathlib

/-!
The order of fan-outs. The outermost fire sees to all fires that are issued before it
is over, in the order in which they were issued. Each of them has one fan-out, which is
at its end before the next one begins.
-/
namespace LiveExpr

variable {H : Host}

namespace Engine

theorem fire_deferred (call : Callbacks H) (name : String) {e : Engine H}
    (hd : e.bus.dispatching = true) : (fire call name).run e = some ((), e.announce name) :=
  settle_deferred name hd

/-- A fire that finds nothing in progress works through the line, in which it stands alone. -/
theorem fire_drained {regime : Regime H} {call : Callbacks H} (hcall : call.Keeps regime)
    {w : List Ticket} {name : String} {e e' : Engine H} (hs : Sound regime.terms ⟨e, w⟩)
    (hd : e.bus.dispatching = false) (hrun : (fire call name).run e = some ((), e')) :
    (e.alert name).bus.pending = [name] ∧ Drained regime (e.alert name) e' := by
  obtain ⟨rfl, hpending⟩ := hs.idle hd
  have hdrain : (drain call call.rounds).run (e.alert name) = some ((), e') :=
    (settle_begins name hd).symm.trans hrun
  refine ⟨?_, drain_drained hcall call.rounds (hs.step (.alerted name)) rfl hdrain⟩
  show e.bus.pending ++ [name] = [name]
  rw [hpending]
  rfl

/-- After the note of a fire there are only those of whole fan-outs, and none if one is in
progress. -/
theorem fire_announced {call : Callbacks H} (hcall : call.Keeps Terms.any.regime) {w : List Ticket}
    {name : String} {e e' : Engine H} (hs : Sound .any ⟨e, w⟩)
    (hrun : (fire call name).run e = some ((), e')) :
    ∃ fans : List (FanOut H),
      e'.journal = (.fired name :: fans.flatMap FanOut.notes).reverse ++ e.journal ∧
      (e.bus.dispatching = true → fans = []) := by
  cases hd : e.bus.dispatching with
  | true =>
    -- Amid a fan-out the fire only takes its place in the line.
    rw [fire_deferred call name hd] at hrun
    cases hrun
    exact ⟨[], rfl, fun _ => rfl⟩
  | false =>
    obtain ⟨-, hdrained⟩ := fire_drained hcall hs hd hrun
    obtain ⟨fans, hjournal, -⟩ := hdrained.fanOuts
    refine ⟨fans, ?_, nofun⟩
    rw [hjournal, List.reverse_cons, List.append_assoc]
    rfl

/-- A fire amid a fan-out joins the line and calls nobody. The outermost fire leaves nothing in the
line, and it performs one fan-out for every fire from its own on, in the order of the fires. What
one fan-out does is never mixed with what another one does. -/
theorem fire_in_order (script : Script H H) (rounds depth : Nat) (name : String) {e : Engine H}
    (he : e.Reachable) :
    (e.bus.dispatching = true →
      (fire (script.callbacks rounds depth) name).run e = some ((), e.announce name)) ∧
    ∀ e', e.bus.dispatching = false →
      (fire (script.callbacks rounds depth) name).run e = some ((), e') →
      e'.Idle ∧ ∃ fans : List (FanOut H),
        e'.journal = (.fired name :: fans.flatMap FanOut.notes).reverse ++ e.journal ∧
        fans.map FanOut.name = firedNames (.fired name :: fans.flatMap FanOut.notes) := by
  obtain ⟨w, hs⟩ := he.sound
  refine ⟨fire_deferred _ name, fun e' hd hrun => ?_⟩
  obtain ⟨hpending, hdrained⟩ := fire_drained (script.keeps_any rounds depth) hs hd hrun
  obtain ⟨fans, hjournal, hnames⟩ := hdrained.fanOuts
  refine ⟨hdrained.idle, fans, ?_, ?_⟩
  · rw [hjournal, List.reverse_cons, List.append_assoc]
    rfl
  · rw [hnames, hpending]
    rfl

end Engine

/-- A host with two listeners, of which one fires two names. -/
def Nested : Host where
  Function := Empty
  Listener := Bool
  Task := Empty
  Source := Empty
  Kind := Empty
  Item _ := Empty
  State := Unit
  decFunction := inferInstanceAs (DecidableEq Empty)
  decKind := inferInstanceAs (DecidableEq Empty)
  entity := nofun

namespace Nested

def script : Script Nested Nested where
  native := nofun
  listener
    | true, _ => do
      Action.ask (.fire "inner")
      Action.ask (.fire "outer2")
    | false, _ => return
  task := nofun
  pump := nofun

def subscribing : Action Nested Unit := do
  let _ ← Action.ask (.subscribe "outer" .listen true)
  let _ ← Action.ask (.subscribe "inner" .listen false)
  let _ ← Action.ask (.subscribe "outer2" .listen false)

def subscribed : Engine Nested :=
  { Engine.create .standard () with
    bus := (((Bus.empty.subscribe .host "outer" .listen (.listener true)).2.subscribe .host "inner"
      .listen (.listener false)).2.subscribe .host "outer2" .listen (.listener false)).2 }

/-- The notes of the fire of the outer name, oldest first. -/
def notes : List (Note Nested) :=
  [.fired "outer", .fanOutBegan "outer", .called ⟨.host, 0⟩ "outer", .fired "inner",
    .fired "outer2", .fanOutEnded "outer", .fanOutBegan "inner", .called ⟨.host, 1⟩ "inner",
    .fanOutEnded "inner", .fanOutBegan "outer2", .called ⟨.host, 2⟩ "outer2", .fanOutEnded "outer2"]

theorem reachable_subscribed : subscribed.Reachable := by
  have hrun : (subscribing.run (script.callbacks 4 2)).run (.create .standard ()) =
      some ((), subscribed) := by
    cbv
  exact (Engine.reachable_create (H := Nested) .standard ()).action script hrun

theorem fire_in_order_nested :
    let e' : Engine Nested := { subscribed with journal := notes.reverse }
    (Engine.fire (script.callbacks 4 2) "outer").run subscribed = some ((), e') ∧ e'.Idle ∧
      ∃ fans : List (FanOut Nested), fans.map FanOut.name = ["outer", "inner", "outer2"] ∧
        notes = .fired "outer" :: fans.flatMap FanOut.notes := by
  intro e'
  have hrun : (Engine.fire (script.callbacks 4 2) "outer").run subscribed = some ((), e') := by
    cbv
  obtain ⟨hidle, fans, hjournal, hnames⟩ :=
    (Engine.fire_in_order script 4 2 "outer" reachable_subscribed).2 e' rfl hrun
  have hnotes : notes = .fired "outer" :: fans.flatMap FanOut.notes :=
    List.reverse_inj.mp (hjournal.trans (List.append_nil _))
  refine ⟨hrun, hidle, fans, ?_, hnotes⟩
  rw [hnames, ← hnotes]
  rfl

end Nested

end LiveExpr
