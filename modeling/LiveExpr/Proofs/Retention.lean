import LiveExpr.Proofs.Histories
import LiveExpr.Proofs.Reads
import LiveExpr.Proofs.Deliveries
import Mathlib

/-!
Stored values are kept. Whatever the host's own code does, an expression that stores a
value keeps it until one of the names that it depends on is delivered, and no read of it
runs its program until then. What is done to other expressions, to other names and to
queues is no excuse, and neither is the reuse of a slot.
-/
namespace LiveExpr

variable {H : Host} {terms : Terms H} {m m' : Moment H} {x : Handle} {c : Cache}

/-- Nobody is called but in a fan-out that the operation itself has begun. -/
theorem Evolved.began_of_called {regime : Regime H} {w : List Ticket} {e e' : Engine H}
    (h : Evolved regime w e e') (hs : Sound regime.terms ⟨e, w⟩) {d : List (Note H)}
    (hj : e'.journal = d ++ e.journal) {id : Ticket} {name : String}
    (hcalled : .called id name ∈ d) : .fanOutBegan name ∈ d := by
  cases hd : e.bus.dispatching with
  | true =>
    -- Amid a fan-out the operation calls nobody, since what it fires waits in line.
    obtain ⟨notes, hnotes, haside, -⟩ := h.aside hd
    obtain rfl := List.append_cancel_right (hj.symm.trans hnotes)
    exact (haside _ (List.mem_reverse.mp hcalled)).elim
  | false =>
    obtain ⟨rfl, -⟩ := hs.idle hd
    obtain ⟨d', hj', hbegan, -⟩ := h.steps.summons hs
    obtain rfl := List.append_cancel_right (hj.symm.trans hj')
    exact (hbegan id name hcalled).resolve_left List.not_mem_nil

/-- A part of the journal in which no name of the expression is delivered. -/
def Cache.Undelivered (c : Cache) (d : List (Note H)) : Prop :=
  ∀ name ∈ c.dependencies, .fanOutBegan name ∉ d

theorem Evolved.unreached {regime : Regime H} {w : List Ticket} {e e' : Engine H}
    (h : Evolved regime w e e') (hs : Sound regime.terms ⟨e, w⟩) {d : List (Note H)}
    (hj : e'.journal = d ++ e.journal) (hn : c.Undelivered d) : ¬ c.Reached d := by
  rintro ⟨name, id, hwatch, hcalled⟩
  refine hn name (Cache.mem_dependencies.mpr ?_) (h.began_of_called hs hj hcalled)
  exact Table.mem_keys.mpr ⟨id, hwatch⟩

/-- The expression is as it was, its program has not run for a read, and all reads of it are
answered with the value that it stores. -/
structure Retained (x : Handle) (c : Cache) (v : Value) (d : List (Note H)) (e' : Engine H) :
    Prop where
  cache : e'.store.get? x = some c
  ran : .ran x ∉ d
  answered : ∀ u, .answered x u ∈ d → u = v

/-- An expression that stores a value is retained as long as it is bound and not reached. -/
structure Retains (x : Handle) (m m' : Moment H) : Prop where
  steps : Steps .any m m'
  retained : ∀ {c v d}, m.engine.store.get? x = some c → c.value = some v →
    m'.engine.journal = d ++ m.engine.journal → (m'.engine.store.get? x).isSome →
    ¬ c.Reached d → Retained x c v d m'.engine

/-- An evaluation that is taken in has run for a read. -/
theorem mem_ran_of_mem_completions {log : List (Entry H)} {v : Evaluation}
    (h : v ∈ completions x log) : x ∈ log.filterMap Entry.ran? := by
  obtain ⟨entry, hentry, hv⟩ := List.mem_filterMap.mp h
  refine List.mem_filterMap.mpr ⟨entry, hentry, ?_⟩
  unfold Entry.completion? at hv
  split at hv
  · split at hv
    · rename_i hx
      rw [hx]
      rfl
    · cases hv
  · cases hv

section Deed

variable {log : List (Entry H)} {v : Value} {d : List (Note H)} (h : Deed terms m log m')
  (hr : x ∉ log.filterMap Entry.ran?) (hc : m.engine.store.get? x = some c)

include h hr hc

/-- Unless its program runs, the most that a deed does to an expression is to drop its value. -/
theorem Deed.cache_of_not_ran (hm : Sound terms m) {c' : Cache}
    (hc' : m'.engine.store.get? x = some c') : c' = c ∨ c' = c.invalidate := by
  rcases h.cache_cases hm hc' with ⟨-, c₀, hc₀, hkept⟩ | ⟨hnew, -⟩ | ⟨-, -, v, -, hentries, -⟩
  · obtain rfl := Option.some_inj.mp (hc₀.symm.trans hc)
    exact hkept
  · exact (hnew (Store.issued_of_get? hc)).elim
  · refine (hr (mem_ran_of_mem_completions (v := v) ?_)).elim
    rw [hentries]
    exact List.mem_cons_self

theorem Deed.answered_stored (hv : c.value = some v)
    (hj : m'.engine.journal = d ++ m.engine.journal) {u : Value} (hu : .answered x u ∈ d) :
    u = v := by
  have hanswers := h.answers
  rw [hj, answers_append] at hanswers
  have hmem : (x, u) ∈ log.filterMap Entry.answer? := by
    rw [← List.append_cancel_right hanswers]
    exact List.mem_filterMap.mpr ⟨_, hu, rfl⟩
  cases h with
  | unknown hnone =>
    cases List.mem_singleton.mp hmem
    cases hc.symm.trans hnone
  | found hc₀ hv₀ =>
    cases List.mem_singleton.mp hmem
    cases hc.symm.trans hc₀
    exact Option.some_inj.mp (hv₀.symm.trans hv)
  | ran =>
    cases List.mem_singleton.mp hmem
    exact (hr List.mem_cons_self).elim
  | _ => cases hmem

theorem Deed.retained (hm : Sound terms m) (hv : c.value = some v)
    (hj : m'.engine.journal = d ++ m.engine.journal)
    (hnoted : programRuns m'.engine.journal =
      log.filterMap Entry.ran? ++ programRuns m.engine.journal)
    (hbound : (m'.engine.store.get? x).isSome) (hn : ¬ c.Reached d) :
    Retained x c v d m'.engine := by
  refine ⟨?_, fun hran => hr ?_, fun u hu => h.answered_stored hr hc hv hj hu⟩
  · obtain ⟨c', hc'⟩ := Option.isSome_iff_exists.mp hbound
    rw [hc']
    rcases h.cache_of_not_ran hr hc hm hc' with rfl | rfl
    · rfl
    · -- A value is only dropped together with a new epoch, that is, by a call.
      obtain ⟨d', hsince⟩ := h.steps.since hm (Store.issued_of_get? hc)
      obtain rfl := List.append_cancel_right (hj.symm.trans hsince.journal)
      have hepoch := hsince.epoch_iff (hm.steps h.steps) hc hc'
      exact (Nat.succ_ne_self _ (hepoch.mpr hn)).elim
  · rw [hj, programRuns_append] at hnoted
    rw [← List.append_cancel_right hnoted]
    exact List.mem_filterMap.mpr ⟨_, hran, rfl⟩

end Deed

namespace Retains

variable {m'' : Moment H}

theorem still (h : Steps .any m m') (hs : m'.engine.store = m.engine.store)
    (hj : m'.engine.journal = m.engine.journal) : Retains x m m' where
  steps := h
  retained := by
    intro c v d hc hv hj' hbound hn
    obtain rfl : d = [] := List.append_left_eq_self.mp (hj'.symm.trans hj)
    exact ⟨hs ▸ hc, List.not_mem_nil, fun u hu => (List.not_mem_nil hu).elim⟩

theorem trans (hm : Sound .any m) (h : Retains x m m') (h' : Retains x m' m'') :
    Retains x m m'' where
  steps := h.steps.trans h'.steps
  retained := by
    intro c v d hc hv hj hbound hn
    have hi := Store.issued_of_get? hc
    obtain ⟨d₁, hearly⟩ := h.steps.since hm hi
    obtain ⟨d₂, hlate⟩ := h'.steps.since (hm.steps h.steps) hearly.issued
    obtain rfl : d = d₂ ++ d₁ := by
      refine List.append_cancel_right (hj.symm.trans ?_)
      rw [hlate.journal, hearly.journal, List.append_assoc]
    have hn₁ : ¬ c.Reached d₁ := fun ⟨name, id, hwatch, hcalled⟩ =>
      hn ⟨name, id, hwatch, List.mem_append_right _ hcalled⟩
    have hn₂ : ¬ c.Reached d₂ := fun ⟨name, id, hwatch, hcalled⟩ =>
      hn ⟨name, id, hwatch, List.mem_append_left _ hcalled⟩
    obtain ⟨hc₁, hran₁, hanswered₁⟩ := h.retained hc hv hearly.journal (hlate.bound hbound) hn₁
    obtain ⟨hc₂, hran₂, hanswered₂⟩ := h'.retained hc₁ hv hlate.journal hbound hn₂
    refine ⟨hc₂, fun hran => ?_, fun u hu => ?_⟩
    · exact (List.mem_append.mp hran).elim hran₂ hran₁
    · exact (List.mem_append.mp hu).elim (hanswered₂ u) (hanswered₁ u)

/-- A read that runs a program began when no value was stored. -/
theorem deed {log : List (Entry H)} (hm : Sound .any m) (h : Retains x m m')
    (hdeed : Deed .any m' log m'') (hr : Ensues m m' log m'') : Retains x m m'' := by
  refine ⟨h.steps.trans hdeed.steps, fun {c v d} hc hv hj hbound hn => ?_⟩
  have hran : x ∉ log.filterMap Entry.ran? := by
    intro hran
    obtain ⟨c₀, hc₀, hnone⟩ := hr.missed x hran
    obtain rfl := Option.some_inj.mp (hc₀.symm.trans hc)
    cases hnone.symm.trans hv
  have hlast : Retains x m' m'' := ⟨hdeed.steps, fun hc' hv' hj' hbound' hn' =>
    hdeed.retained hran hc' (hm.steps h.steps) hv' hj' hr.noted hbound' hn'⟩
  exact (h.trans hm hlast).retained hc hv hj hbound hn

end Retains

/-- The regime under which the value of one expression is kept. -/
def Regime.retaining (x : Handle) : Regime H where
  terms := .any
  completes _ _ _ := True
  path m m' := Sound .any m → Retains x m m'
  refl _ _ := .still .refl rfl rfl
  trans h h' hm := (h hm).trans hm (h' (hm.steps (h hm).steps))
  deed h hdeed hr _ hm := (h hm).deed hm hdeed hr
  posted _ _ _ _ := .still (.single (.passed ..)) rfl rfl
  added _ _ _ _ := .still (.single (.passed ..)) rfl rfl
  drained h _ _ hm :=
    have hdrained := Retains.still (.single (.passed ..)) rfl rfl
    hdrained.trans hm (h (hm.steps hdrained.steps))

theorem Script.keeps_retaining (script : Script H H) (rounds depth : Nat) (x : Handle) :
    (script.callbacks rounds depth).Keeps (.retaining x) := by
  have hobeys : script.Obeys (.retaining x) :=
    Script.AsksOnly.obeys ⟨fun _ _ _ => Action.asksOnly_any _, fun _ _ => Action.asksOnly_any _,
      fun _ => Action.asksOnly_any _, fun _ => Action.asksOnly_any _⟩
      fun _ _ _ _ => .still (.single (.passed ..)) rfl rfl
  exact hobeys.callbacks_keep (fun _ _ => ⟨trivial, trivial⟩) depth

namespace Engine

variable {e : Engine H}

/-- An expression that stores a value is retained through anything that is done to the engine, as
long as none of its names is delivered and it stays bound. Conversely, the value of an evaluation
for a read is stored unless it is volatile, if nothing at all is delivered while the program
runs. -/
theorem retained_unless_delivered (script : Script H H) (rounds depth : Nat) (he : e.Reachable)
    (hc : e.store.get? x = some c) :
    (∀ {v : Value}, c.value = some v → ∀ {α : Type} {a : Action H α} {r : α} {e' : Engine H},
      (a.run (script.callbacks rounds depth)).run e = some (r, e') →
      ∀ {d : List (Note H)}, e'.journal = d ++ e.journal → c.Undelivered d →
        e'.store.contains x = true → Retained x c v d e') ∧
    (c.value = none → ∀ {ctx : Context} {v : Evaluation} {e₁ : Engine H},
      (evaluate (script.callbacks rounds depth) c.program [] ctx).run e = some (.ok v, e₁) →
      v.volatile = false →
      ∀ {d : List (Note H)}, e₁.journal = d ++ e.journal → (∀ name, .fanOutBegan name ∉ d) →
        e₁.store.contains x = true →
        ∃ e' c', (read (script.callbacks rounds depth) x ctx).run e = some (v.value, e') ∧
          e'.store.get? x = some c' ∧ c'.value = some v.value) := by
  obtain ⟨w, hs⟩ := he.sound
  refine ⟨fun {v} hv {α a r e'} hrun {d} hj hn hbound => ?_,
    fun hv {ctx v e₁} heval hvolatile {d} hj hn hbound => ?_⟩
  · have hobeys : a.Obeys (.retaining x) := a.asksOnly_any.obeys fun _ _ _ _ =>
      .still (.single (.passed ..)) rfl rfl
    have hevolved : Evolved (.retaining x) w e e' :=
      (hobeys.runs (script.keeps_retaining rounds depth x) w e).evolved hs hrun
    exact (hevolved.path hs).retained hc hv hj hbound (hevolved.unreached hs hj hn)
  · have hevolved := (from_evaluate (script.keeps_any rounds depth) ..).evolved hs heval
    obtain ⟨d', hsince⟩ := hevolved.steps.since hs (Store.issued_of_get? hc)
    obtain rfl := List.append_cancel_right (hj.symm.trans hsince.journal)
    obtain ⟨c₁, hc₁⟩ := Option.isSome_iff_exists.mp hbound
    -- The value is stored if the epoch is still the one in which the evaluation began.
    have hepoch : c₁.epoch = c.epoch :=
      (hsince.epoch_iff (hs.steps hevolved.steps) hc hc₁).mpr
        (hevolved.unreached hs hj fun name _ => hn name)
    obtain ⟨c', hc', -, hvalue⟩ := complete_value (e := e₁.note (.ran x)) c.epoch v hc₁
    refine ⟨_, c', read_of_evaluate hc hv heval, hc', ?_⟩
    rw [hvalue, hvolatile, hepoch]
    simp

end Engine

/-- A host with two natives, of which the second unbinds an expression and binds another one. -/
def Lodging : Host where
  Function := Bool
  Listener := Empty
  Task := Empty
  Source := Empty
  Kind := Empty
  Item _ := Empty
  State := Unit
  decFunction := inferInstanceAs (DecidableEq Bool)
  decKind := inferInstanceAs (DecidableEq Empty)
  entity := nofun

namespace Lodging

def program (name : String) : Program := ⟨Instruction.encode (.call name 0), 0⟩

def script : Script Lodging Lodging where
  native
    | true, _, _ => return .boolean true
    | false, _, _ => do
      let _ ← Action.ask (.unbind ⟨1, 0⟩)
      let _ ← Action.ask (.bind (program "A") .onDemand)
      return .boolean false
  listener := nofun
  task := nofun
  pump := nofun

/-- Binds three expressions and reads the first. -/
def opening : Action Lodging Unit := do
  Action.ask (.registerNative "A" true true)
  Action.ask (.registerNative "B" false true)
  let x ← Action.ask (.bind (program "A") .onDemand)
  let _ ← Action.ask (.bind (program "A") .onDemand)
  let _ ← Action.ask (.bind (program "B") .onDemand)
  let _ ← Action.ask (.read x .empty)

/-- The third expression is read, which puts another one in the place of the second, and has its
value dropped. Then the first is read again. -/
def working : Action Lodging Unit := do
  let _ ← Action.ask (.read ⟨2, 0⟩ .empty)
  Action.ask (.fire "B")
  let _ ← Action.ask (.read ⟨0, 0⟩ .empty)

def fresh (name : String) : Cache := .create (program name) .onDemand

def known (name : String) (v : Bool) (n : Nat) : Cache :=
  { fresh name with
    value := some (.boolean v)
    shown := some (.boolean v)
    watches := [(name, ⟨.engine, n⟩)] }

def engine (slots : List Slot) (bus : Bus (Subscriber Lodging)) (journal : List (Note Lodging)) :
    Engine Lodging :=
  { Engine.create .standard () with
    bus, journal
    registry := ⟨Engine.builtins ++
      [("A", .native (.host true) true), ("B", .native (.host false) true)]⟩
    store := ⟨slots, []⟩ }

def watchful : Bus (Subscriber Lodging) :=
  (Bus.empty.subscribe .engine "A" .invalidate (.cache ⟨0, 0⟩)).2

def opened : Engine Lodging :=
  engine [⟨0, some (known "A" true 0)⟩, ⟨0, some (fresh "A")⟩, ⟨0, some (fresh "B")⟩] watchful
    [.answered ⟨0, 0⟩ (.boolean true), .stored ⟨0, 0⟩ (.boolean true), .ran ⟨0, 0⟩,
      .fanOutEnded "B", .fanOutBegan "B", .fired "B", .fanOutEnded "A", .fanOutBegan "A",
      .fired "A"]

theorem reachable_opened : opened.Reachable := by
  have hrun : (opening.run (script.callbacks 2 2)).run (.create .standard ()) =
      some ((), opened) := by
    cbv
  exact (Engine.reachable_create (H := Lodging) .standard ()).action script hrun

/-- What is noted while the host does its work. -/
def notes : List (Note Lodging) :=
  [.answered ⟨0, 0⟩ (.boolean true), .fanOutEnded "B", .called ⟨.engine, 1⟩ "B", .fanOutBegan "B",
    .fired "B", .answered ⟨2, 0⟩ (.boolean false), .stored ⟨2, 0⟩ (.boolean false), .ran ⟨2, 0⟩]

/-- The first expression keeps its value, and the third stores one when it is read. -/
theorem retained_unless_delivered_lodging :
    ∃ e' e'', (working.run (script.callbacks 2 2)).run opened = some ((), e') ∧
      e'.journal = notes ++ opened.journal ∧
      Retained ⟨0, 0⟩ (known "A" true 0) (.boolean true) notes e' ∧
      (Engine.read (script.callbacks 2 2) ⟨2, 0⟩ .empty).run opened =
        some (.boolean false, e'') ∧
      ∃ c', e''.store.get? ⟨2, 0⟩ = some c' ∧ c'.value = some (.boolean false) := by
  let slots : List Slot := [⟨0, some (known "A" true 0)⟩, ⟨1, some (fresh "A")⟩]
  let e' := engine (slots ++ [⟨0, some (known "B" false 1).invalidate⟩])
    (watchful.subscribe .engine "B" .invalidate (.cache ⟨2, 0⟩)).2 (notes ++ opened.journal)
  let e₁ := engine (slots ++ [⟨0, some (fresh "B")⟩]) watchful opened.journal
  have hrun : (working.run (script.callbacks 2 2)).run opened = some ((), e') := by
    cbv
  have heval : (Engine.evaluate (script.callbacks 2 2) (program "B") [] .empty).run opened =
      some (.ok ⟨.boolean false, ["B"], false⟩, e₁) := by
    cbv
  have hundelivered : (known "A" true 0).Undelivered notes := by
    intro name hname
    obtain rfl := List.mem_singleton.mp (Cache.mem_dependencies.mp hname)
    simp [notes]
  have hretained := (Engine.retained_unless_delivered script 2 2 reachable_opened
    (x := ⟨0, 0⟩) (c := known "A" true 0) rfl).1 rfl hrun rfl hundelivered rfl
  obtain ⟨e'', c', hread, hc', hv'⟩ := (Engine.retained_unless_delivered script 2 2
    reachable_opened (x := ⟨2, 0⟩) (c := fresh "B") rfl).2 rfl heval rfl (d := []) rfl (by simp) rfl
  exact ⟨e', e'', hrun, rfl, hretained, hread, c', hc', hv'⟩

end Lodging

end LiveExpr
