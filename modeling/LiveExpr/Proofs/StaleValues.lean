import LiveExpr.Proofs.Deliveries
import LiveExpr.Proofs.Reachability
import LiveExpr.Proofs.Reads
import Mathlib

/-!
When the value of an evaluation is stored. A value is dropped on arrival exactly when,
while the evaluation ran, the bus called a subscription by which the expression itself
watches a name. A name that was called for the first time is not watched before the
evaluation is complete, so its fire in the meantime goes unnoticed.
-/
namespace LiveExpr

variable {H : Host}

namespace Engine

/-- The value of an evaluation is returned, and it is stored unless it is volatile or the
expression is reached while the evaluation runs; then what other evaluations have stored stays,
and if there is nothing the next read is an evaluation again. A name that the expression watches
at the beginning reaches it as soon as the name fires. -/
theorem read_stores_unless_reached (script : Script H H) (rounds depth : Nat) {e : Engine H}
    (he : e.Reachable) {h : Handle} {c : Cache} (hc : e.store.get? h = some c)
    (hv : c.value = none) (ctx : Context) {v : Evaluation} {e₁ : Engine H}
    (heval : (evaluate (script.callbacks rounds depth) c.program [] ctx).run e =
      some (.ok v, e₁)) :
    ∃ d e', e₁.journal = d ++ e.journal ∧
      (read (script.callbacks rounds depth) h ctx).run e = some (v.value, e') ∧
      (e₁.store.get? h = none → e'.store.get? h = none) ∧
      ∀ c₁, e₁.store.get? h = some c₁ →
        (∀ name, c.watches.contains name = true → .fanOutBegan name ∈ d → c₁.Reached d) ∧
        ∃ c', e'.store.get? h = some c' ∧
          (v.volatile = false → ¬ c₁.Reached d → c'.value = some v.value) ∧
          (v.volatile = true ∨ c₁.Reached d → c'.value = c₁.value) ∧
          (c'.value = none → ∀ ctx',
            ((read (script.callbacks rounds depth) h ctx').run e').map Prod.fst =
              ((evaluate (script.callbacks rounds depth) c.program [] ctx').run e').map
                fun found => reading found.1) := by
  obtain ⟨w, hs⟩ := he.sound
  have hevolved := (from_evaluate (script.keeps_any rounds depth) ..).evolved hs heval
  have hs₁ := hs.steps hevolved.steps
  obtain ⟨d, hsince⟩ := hevolved.steps.since hs (Store.issued_of_get? hc)
  have hread : (read (script.callbacks rounds depth) h ctx).run e = some (v.value,
      ((e₁.note (.ran h)).complete h c.epoch v).note (.answered h v.value)) :=
    read_of_evaluate hc hv heval
  refine ⟨d, _, hsince.journal, hread, fun hnone => ?_, fun c₁ hc₁ => ?_⟩
  · show ((e₁.note (.ran h)).complete h c.epoch v).store.get? h = none
    rw [complete_unknown (e := e₁.note (.ran h)) c.epoch v hnone]
    exact hnone
  have hepoch := hsince.epoch_iff hs₁ hc hc₁
  obtain ⟨c₂, hc₂, hkept⟩ := hsince.cache c₁ hc₁
  obtain rfl : c = c₂ := Option.some_inj.mp (hc.symm.trans hc₂)
  obtain ⟨c', hc', hprogram, hvalue⟩ :=
    complete_value (e := e₁.note (.ran h)) c.epoch v hc₁
  refine ⟨fun name hwatches hbegan => ?_, c', hc', fun hv hn => ?_, fun hor => ?_, ?_⟩
  · obtain ⟨id, hid⟩ := Option.isSome_iff_exists.mp hwatches
    have hwatch := Table.mem_of_get? hid
    have hheard := hevolved.steps.heard hs hc hwatch (by rw [hc₁]; rfl) hsince.journal
      (Or.inl hbegan)
    have hcalled : .called id name ∈ d := by
      cases hd : e.bus.dispatching with
      | true =>
        obtain ⟨d', hj, hquiet⟩ := hevolved.quiet hd
        rw [List.append_cancel_right (hsince.journal.symm.trans hj)] at hbegan
        exact (hquiet name hbegan).elim
      | false =>
        obtain ⟨rfl, -⟩ := hs.idle hd
        exact hheard.resolve_right List.not_mem_nil
    obtain ⟨added, hadded, -⟩ := hkept.watches
    exact ⟨name, id, by rw [hadded]; exact List.mem_append_left _ hwatch, hcalled⟩
  · rw [hvalue, hv, hepoch.mpr hn]
    simp
  · rw [hvalue]
    rcases hor with hvolatile | hreached
    · simp [hvolatile]
    · have hne : c₁.epoch ≠ c.epoch := fun heq => hepoch.mp heq hreached
      simp [hne]
  · intro hnone ctx'
    rw [← hkept.program, ← hprogram]
    exact read_value (e := ((e₁.note (.ran h)).complete h c.epoch v).note _) hc' hnone

end Engine

/-- A host with two natives, of which the first binds its own name to the second and returns. -/
def Fickle : Host where
  Function := Bool
  Listener := Empty
  Task := Empty
  Source := Empty
  Kind := Empty
  Item _ := Empty
  State := Unit
  decFunction := inferInstanceAs (DecidableEq Bool)
  decKind := inferInstanceAs (DecidableEq Empty)
  entity := nofun

namespace Fickle

def script : Script Fickle Fickle where
  native
    | true, _, _ => do
      Action.ask (.registerNative "A" false true)
      return .text "old"
    | false, _, _ => return .text "new"
  listener := nofun
  task := nofun
  pump := nofun

def program : Program := ⟨Instruction.encode (.call "A" 0), 0⟩

/-- Binds the name to the first native, and an expression that calls it. -/
def opening : Action Fickle Handle := do
  Action.ask (.registerNative "A" true true)
  Action.ask (.bind program .onDemand)

/-- Reads the expression, which watches the name from then on, and binds the name as before. -/
def watching : Action Fickle Unit := do
  let _ ← Action.ask (.read ⟨0, 0⟩ .empty)
  Action.ask (.registerNative "A" true true)

/-- The engine when the name stands for one of the natives and one expression is bound. -/
def engine (native : Bool) (c : Cache) (bus : Bus (Subscriber Fickle))
    (journal : List (Note Fickle)) : Engine Fickle :=
  { Engine.create .standard () with
    bus, journal
    registry := ⟨Engine.builtins ++ [("A", .native (.host native) true)]⟩
    store := ⟨[⟨0, some c⟩], []⟩ }

/-- The notes of a fire of the name, newest first. -/
def fired (calls : List (Note Fickle)) : List (Note Fickle) :=
  .fanOutEnded "A" :: calls ++ [.fanOutBegan "A", .fired "A"]

def fresh : Cache := .create program .onDemand

/-- The expression after its first read. -/
def known : Cache :=
  { fresh with
    value := some (.text "old")
    shown := some (.text "old")
    watches := [("A", ⟨.engine, 0⟩)] }

def called : Note Fickle := .called ⟨.engine, 0⟩ "A"

def opened : Engine Fickle := engine true fresh .empty (fired [])

/-- The bus when the expression watches the name. -/
def watchful : Bus (Subscriber Fickle) :=
  (Bus.empty.subscribe .engine "A" .invalidate (.cache ⟨0, 0⟩)).2

def firstRead : List (Note Fickle) :=
  .answered ⟨0, 0⟩ (.text "old") :: .stored ⟨0, 0⟩ (.text "old") :: .ran ⟨0, 0⟩ ::
    fired [] ++ opened.journal

def watched : Engine Fickle := engine true known.invalidate watchful (fired [called] ++ firstRead)

theorem reachable_opened : opened.Reachable := by
  have hrun : (opening.run (script.callbacks 2 2)).run (.create .standard ()) =
      some (⟨0, 0⟩, opened) := by
    cbv
  exact (Engine.reachable_create (H := Fickle) .standard ()).action script hrun

theorem reachable_watched : watched.Reachable := by
  have hrun : (watching.run (script.callbacks 2 2)).run opened = some ((), watched) := by
    cbv
  exact reachable_opened.action script hrun

/-- The expression watches the name, which fires while the program runs. -/
theorem read_stores_unless_reached_rebound :
    ∃ e' c',
      (Engine.read (script.callbacks 2 2) ⟨0, 0⟩ .empty).run watched = some (.text "old", e') ∧
      e'.store.get? ⟨0, 0⟩ = some c' ∧ c'.value = none := by
  let e₁ := engine false known.invalidate.invalidate watchful
    (fired [called] ++ watched.journal)
  have heval : (Engine.evaluate (script.callbacks 2 2) program [] .empty).run watched =
      some (.ok ⟨.text "old", ["A"], false⟩, e₁) := by
    cbv
  obtain ⟨d, e', hj, hread, -, hbound⟩ :=
    Engine.read_stores_unless_reached script 2 2 reachable_watched (h := ⟨0, 0⟩)
      (c := known.invalidate) rfl rfl .empty heval
  have hd : d = fired [called] := List.append_cancel_right (hj.symm.trans rfl)
  obtain ⟨hreached, c', hc', -, hkept, -⟩ := hbound known.invalidate.invalidate rfl
  have hbegan : .fanOutBegan "A" ∈ d := by
    simp [hd, fired]
  exact ⟨e', c', hread, hc', hkept (Or.inr (hreached "A" rfl hbegan))⟩

/-- A dependency fires while the program runs, and yet the value is stored: the expression did not
watch it. The next read gives the stored value, but an evaluation gives another. -/
theorem stored_although_fired :
    ∃ (e e₁ e' e'' : Engine Fickle) (c c₁ c' : Cache) (v v' : Evaluation) (d : List (Note Fickle)),
      e.Reachable ∧ e.store.get? ⟨0, 0⟩ = some c ∧ c.value = none ∧
      (Engine.evaluate (script.callbacks 2 2) c.program [] .empty).run e = some (.ok v, e₁) ∧
      e₁.journal = d ++ e.journal ∧
      "A" ∈ v.dependencies ∧ .fanOutBegan "A" ∈ d ∧
      e₁.store.get? ⟨0, 0⟩ = some c₁ ∧ c₁.value = none ∧
      (Engine.read (script.callbacks 2 2) ⟨0, 0⟩ .empty).run e = some (v.value, e') ∧
      e'.store.get? ⟨0, 0⟩ = some c' ∧ c'.value = some v.value ∧
      (Engine.evaluate (script.callbacks 2 2) c.program [] .empty).run e' = some (.ok v', e'') ∧
      (v'.value == v.value) = false := by
  let e₁ := engine false fresh .empty (fired [] ++ opened.journal)
  let e' := engine false known watchful firstRead
  refine ⟨opened, e₁, e', e', fresh, fresh, known, ⟨.text "old", ["A"], false⟩,
    ⟨.text "new", ["A"], false⟩, fired [], reachable_opened, rfl, rfl, ?_, rfl, by simp,
    by simp [fired], rfl, rfl, ?_, rfl, rfl, ?_, ?_⟩
  · cbv
  · cbv
  · cbv
  · cbv

end Fickle

end LiveExpr
