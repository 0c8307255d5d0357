import LiveExpr.Proofs.Histories
import Mathlib

/-!
Subscriptions are accounted for. Of the subscriptions that the engine itself holds there
is one for each name that a bound expression depends on, and no other. When an expression
is unbound all of them go, and an evaluation that is still running brings none back.
-/
namespace LiveExpr

variable {H : Host}

/-- Each subscription is listed once, and those of the engine drop stored values. -/
structure Bus.Proper (b : Bus (Subscriber H)) : Prop where
  listed : ∀ name, (b.idsOf name).Nodup
  engine : ∀ id s, b.find? id = some s → id.owner = .engine →
    ∃ h, s = ⟨s.name, .invalidate, .cache h⟩

namespace Bus.Proper

variable {b : Bus (Subscriber H)}

theorem empty : (Bus.empty : Bus (Subscriber H)).Proper where
  listed := fun _ => List.nodup_nil
  engine := by simp [Bus.find?, Bus.empty]

theorem subscribe (hp : b.Proper) (hb : b.Valid) (owner : Owner) (name : String) (tier : Tier)
    (target : Subscriber H)
    (hengine : owner = .engine → tier = .invalidate ∧ ∃ h, target = .cache h) :
    (b.subscribe owner name tier target).2.Proper where
  listed := by
    intro other
    rw [idsOf_subscribe]
    split
    · have hnew : ⟨owner, b.nextNumber⟩ ∉ b.idsOf name := by
        intro hmem
        obtain ⟨s, hs, -⟩ := (hb.listed name _).mp hmem
        rw [hb.find?_next] at hs
        cases hs
      refine List.nodup_append.mpr ⟨hp.listed name, List.nodup_singleton _, ?_⟩
      rintro id hid _ hmem rfl
      exact hnew (List.mem_singleton.mp hmem ▸ hid)
    · exact hp.listed other
  engine := by
    intro id s hs howner
    rw [hb.find?_subscribe] at hs
    split at hs
    · rename_i hid
      cases hs
      obtain ⟨rfl, h, rfl⟩ := hengine (by rw [← howner, hid])
      exact ⟨h, rfl⟩
    · exact hp.engine id s hs howner

theorem unsubscribe (hp : b.Proper) (id : Ticket) : (b.unsubscribe id).2.Proper where
  listed := fun name => (hp.listed name).sublist (b.idsOf_unsubscribe_sublist id name)
  engine := by
    intro other s hs howner
    rw [find?_unsubscribe] at hs
    split at hs
    · cases hs
    · exact hp.engine other s hs howner

theorem watch (hp : b.Proper) (hb : b.Valid) (h : Handle) (names : List String) :
    (Engine.watch h names b).2.Proper := by
  induction names generalizing b with
  | nil => exact hp
  | cons name rest ih =>
    exact ih (hp.subscribe hb .engine name .invalidate (.cache h) fun _ => ⟨rfl, h, rfl⟩)
      (hb.subscribe ..)

end Bus.Proper

variable {terms : Terms H} {m m' : Moment H}

theorem Step.proper (h : Step terms m m') (hm : Sound terms m) (hp : m.engine.bus.Proper) :
    m'.engine.bus.Proper := by
  cases h with
  | @began e name bus hd hn =>
    obtain ⟨rest, -, rfl⟩ := Bus.next?_eq_some hn
    exact ⟨hp.listed, hp.engine⟩
  | @unbound e w h c hc =>
    exact Engine.unwatch_induction (P := Bus.Proper) _ hp fun _ id hb => hb.unsubscribe id
  | @subscribed e w name tier target hn =>
    exact hp.subscribe hm.tied.bus .host name tier target nofun
  | @unsubscribed e w id => exact hp.unsubscribe _
  | @completed e w h epoch v hv =>
    show (e.complete h epoch v).bus.Proper
    cases hc : e.store.get? h with
    | none =>
      rw [Engine.complete_unknown epoch v hc]
      exact hp
    | some c =>
      rw [Engine.complete_bus epoch v hc]
      exact hp.watch hm.tied.bus h _
  | _ => exact ⟨hp.listed, hp.engine⟩

theorem Steps.proper (h : Steps terms m m') (hm : Sound terms m) (hp : m.engine.bus.Proper) :
    m'.engine.bus.Proper := by
  induction h with
  | refl => exact hp
  | tail hsteps hstep ih => exact hstep.proper (hm.steps hsteps) ih

theorem Steps.unbound {x : Handle} (h : Steps terms m m') (hm : Sound terms m)
    (hi : m.engine.store.Issued x) (hx : m.engine.store.get? x = none) :
    m'.engine.store.get? x = none := by
  obtain ⟨d, hsince⟩ := h.since hm hi
  cases hc' : m'.engine.store.get? x with
  | none => rfl
  | some c' =>
    obtain ⟨c, hc, -⟩ := hsince.cache c' hc'
    rw [hx] at hc
    cases hc

/-- The engine's own subscriptions to the name and the bound expressions that depend on it
correspond one to one. -/
structure Accounted (e : Engine H) (name : String) : Prop where
  listed : (e.bus.idsOf name).Nodup
  expression : ∀ id ∈ e.bus.idsOf name, id.owner = .engine →
    ∃ x c, e.bus.find? id = some ⟨name, .invalidate, .cache x⟩ ∧
      e.store.get? x = some c ∧ name ∈ c.dependencies
  subscription : ∀ x c, e.store.get? x = some c → name ∈ c.dependencies →
    ∃! id, id ∈ e.bus.idsOf name ∧ id.owner = .engine ∧
      e.bus.find? id = some ⟨name, .invalidate, .cache x⟩

variable {log : List (Entry H)} {e : Engine H} {w : List Ticket}

theorem History.accounted (h : History log ⟨e, w⟩) (name : String) : Accounted e name := by
  have htied := h.sound.tied
  have hproper : e.bus.Proper := by
    obtain ⟨limits, host, hcourse⟩ := h
    exact hcourse.steps.proper (sound_create limits host) .empty
  refine ⟨hproper.listed name, fun id hid howner => ?_, fun x c hc hname => ?_⟩
  · obtain ⟨s, hs, rfl⟩ := (htied.bus.listed name id).mp hid
    obtain ⟨x, hx⟩ := hproper.engine id s hs howner
    obtain ⟨c, hc, hw⟩ := htied.owned hs (congrArg Subscription.target hx)
    refine ⟨x, c, hx ▸ hs, hc, Cache.mem_dependencies.mpr (Table.mem_keys.mpr ⟨id, hw⟩)⟩
  · obtain ⟨id, hw⟩ := Table.mem_keys.mp (Cache.mem_dependencies.mp hname)
    obtain ⟨howner, hfind⟩ := htied.watched hc hw
    refine ⟨id, ⟨(htied.bus.listed name id).mpr ⟨_, hfind, rfl⟩, howner, hfind⟩, ?_⟩
    rintro other ⟨-, -, hother⟩
    obtain ⟨c', hc', hw'⟩ := htied.owned hother rfl
    obtain rfl : c = c' := Option.some_inj.mp (hc.symm.trans hc')
    exact congrArg Prod.snd (List.inj_on_of_nodup_map (h.recorded hc).distinct hw' hw rfl)

theorem Engine.unbind_bound {x : Handle} {c : Cache} (hc : e.store.get? x = some c) :
    (unbind x).run e =
      some (true, { e with store := (e.store.remove x).2, bus := unwatch c.watches e.bus }) := by
  unfold unbind
  rw [run_get_bind]
  have hremoved : e.store.remove x = (some c, (e.store.remove x).2) := by
    simp only [Store.remove, hc]
  rw [hremoved]
  rfl

/-- The subscriptions of the engine and the expressions that depend on a name correspond to each
other. An expression depends on the names that its completed evaluations list. When it is unbound
none of its subscriptions remains or is made later, whatever was being evaluated. -/
theorem History.subscriptions_accounted (h : History log ⟨e, w⟩) :
    (∀ name, Accounted e name) ∧
    (∀ x c, e.store.get? x = some c → c.dependencies.Nodup ∧
      ∀ name, name ∈ c.dependencies ↔ ∃ v ∈ completions x log, name ∈ v.dependencies) ∧
    ∀ x c, e.store.get? x = some c → ∃ e', (Engine.unbind x).run e = some (true, e') ∧
      ∀ m', Steps .listing ⟨e', w⟩ m' → m'.engine.store.get? x = none ∧
        ∀ id s, m'.engine.bus.find? id = some s → s.target ≠ .cache x := by
  refine ⟨h.accounted, fun x c hc => ⟨?_, (h.recorded hc).dependencies⟩, fun x c hc => ?_⟩
  · exact (List.mergeSort_perm _ _).nodup_iff.mpr (h.recorded hc).distinct
  · have hunbound : Step .listing ⟨e, w⟩
        ⟨{ e with store := (e.store.remove x).2, bus := Engine.unwatch c.watches e.bus }, w⟩ :=
      .unbound hc
    refine ⟨_, Engine.unbind_bound hc, fun m' hsteps => ?_⟩
    have hsound := h.sound.step hunbound
    have hgone : m'.engine.store.get? x = none := by
      refine hsteps.unbound hsound ((Store.issued_of_get? hc).remove x) ?_
      exact (Store.get?_remove ..).trans (if_pos rfl)
    refine ⟨hgone, fun id s hs htarget => ?_⟩
    obtain ⟨c', hc', -⟩ := (hsound.steps hsteps).tied.owned hs htarget
    rw [hgone] at hc'
    cases hc'

/-- A host with one native, which unbinds an expression. -/
def Hostile : Host where
  Function := Handle
  Listener := Empty
  Task := Empty
  Source := Empty
  Kind := Empty
  Item _ := Empty
  State := Unit
  decFunction := inferInstanceAs (DecidableEq Handle)
  decKind := inferInstanceAs (DecidableEq Empty)
  entity := nofun

namespace Hostile

def script : Script Hostile Hostile where
  native h _ _ := do
    let _ ← Action.ask (.unbind h)
    return .boolean true
  listener := nofun
  task := nofun
  pump := nofun

def program : Program := ⟨Instruction.encode (.call "A" 0), 0⟩

/-- Two expressions with one program, which unbinds the first of them. Both are read. -/
def opening : Action Hostile Unit := do
  Action.ask (.registerNative "A" (⟨0, 0⟩ : Handle) true)
  let x ← Action.ask (.bind program .onDemand)
  let y ← Action.ask (.bind program .onDemand)
  let _ ← Action.ask (.read x .empty)
  let _ ← Action.ask (.read y .empty)

/-- What is left of the second expression. -/
def kept : Cache :=
  { Cache.create program .onDemand with
    value := some (.boolean true)
    shown := some (.boolean true)
    watches := [("A", ⟨.engine, 0⟩)] }

def opened : Engine Hostile :=
  { Engine.create .standard () with
    bus := (Bus.empty.subscribe .engine "A" .invalidate (.cache ⟨1, 0⟩)).2
    registry := ⟨Engine.builtins ++ [("A", .native (.host (⟨0, 0⟩ : Handle)) true)]⟩
    store := ⟨[⟨1, none⟩, ⟨0, some kept⟩], [0]⟩
    journal :=
      [.answered ⟨1, 0⟩ (.boolean true), .stored ⟨1, 0⟩ (.boolean true), .ran ⟨1, 0⟩,
        .answered ⟨0, 0⟩ (.boolean true), .ran ⟨0, 0⟩, .fanOutEnded "A", .fanOutBegan "A",
        .fired "A"] }

/-- The first expression was unbound by its own evaluation, which made no subscription any more. -/
theorem subscriptions_accounted_unbound :
    opened.store.get? ⟨0, 0⟩ = none ∧ opened.store.get? ⟨1, 0⟩ = some kept ∧
    (∃! id, id ∈ opened.bus.idsOf "A" ∧ id.owner = .engine ∧
      opened.bus.find? id = some ⟨"A", .invalidate, .cache ⟨1, 0⟩⟩) ∧
    (∃ log, History log ⟨opened, []⟩ ∧ ∃ v ∈ completions ⟨1, 0⟩ log, "A" ∈ v.dependencies) ∧
    ∃ e', (Engine.unbind ⟨1, 0⟩).run opened = some (true, e') ∧
      ∀ m', Steps .listing ⟨e', []⟩ m' → ∀ id s, m'.engine.bus.find? id = some s →
        s.target ≠ .cache ⟨1, 0⟩ := by
  have hrun : (opening.run (script.callbacks 2 2)).run (.create .standard ()) =
      some ((), opened) := by
    cbv
  obtain ⟨log, hlog⟩ := (history_create (H := Hostile) .standard ()).action script hrun
  obtain ⟨haccounted, hdependencies, hunbind⟩ := History.subscriptions_accounted hlog
  have hkept : opened.store.get? ⟨1, 0⟩ = some kept := rfl
  have hname : "A" ∈ kept.dependencies := Cache.mem_dependencies.mpr List.mem_cons_self
  refine ⟨rfl, rfl, (haccounted "A").subscription _ _ hkept hname, ⟨_, hlog, ?_⟩, ?_⟩
  · exact ((hdependencies _ _ hkept).2 "A").mp hname
  · obtain ⟨e', hunbound, hlater⟩ := hunbind _ _ hkept
    exact ⟨e', hunbound, fun m' hsteps => (hlater m' hsteps).2⟩

end Hostile

end LiveExpr
