import LiveExpr.Proofs.Confinement
import LiveExpr.Proofs.MixerTables

/-!
The tables of mixers at all times. There are few ways in which a mixer alters its state: its
natives and the events only change tables or make requests. A host that has mixers leaves
this state to them. So the tables of a mixer are what became of empty tables by the events it
has been told and the defaults it has been given, one after the other. What each of these
changes preserves holds of the tables at every moment, amid callbacks, too.
-/
namespace LiveExpr.Mixer

namespace State

variable {σ : Type} {s s' : State σ}

/-- One change of the state of mixers, as they make it themselves. The requests and what belongs to
the extended host are no concern of theirs once they are there. -/
inductive Alters : State σ → State σ → Prop
  | changed {s : State σ} {n : Nat} {m : Mixer} (hm : s.mixers[n]? = some m) (c : Change) :
      Alters s (s.withTables n (c.made m.tables))
  | mailed {s : State σ} (n : Nat) (f : Mailbox Event → Mailbox Event) :
      Alters s { s with mixers := s.mixers.modify n fun m => { m with inbox := f m.inbox } }
  | joined {s : State σ} (adverts removals : Nat) :
      Alters s { s with mixers := s.mixers ++ [⟨.empty, adverts, removals, .empty⟩] }
  | beside {s : State σ} (requests : List ServerRequest) (host : σ) :
      Alters s { s with requests, host }

/-- What natives and events do to the state is among these changes. -/
structure Admits (changes : State σ → State σ → Prop) : Prop where
  changed : ∀ {s : State σ} {n : Nat} {m : Mixer}, s.mixers[n]? = some m →
    ∀ c : Change, changes s (s.withTables n (c.made m.tables))
  requested : ∀ (s : State σ) (r : ServerRequest),
    changes s { s with requests := s.requests ++ [r] }

theorem Alters.admits : Admits (Alters : State σ → State σ → Prop) where
  changed := .changed
  requested _ _ := .beside _ _

/-- The tables of each mixer come from empty ones by changes. -/
def Tabled (s : State σ) : Prop :=
  ∀ (n : Nat) m, s.mixers[n]? = some m → ∃ changes, m.tables = Tables.empty.after changes

theorem Tabled.alters (hs : s.Tabled) (h : s.Alters s') : s'.Tabled := by
  intro k m' hm'
  cases h with
  | @changed n m hm c =>
    obtain ⟨changes, hchanges⟩ := hs n m hm
    obtain ⟨m₀, hm₀, hmodified⟩ := Option.map_eq_some_iff.mp (List.getElem?_modify .. ▸ hm')
    by_cases hk : n = k
    · subst hk
      obtain rfl := Option.some.inj (hm.symm.trans hm₀)
      refine ⟨changes ++ [c], ?_⟩
      rw [← hmodified, if_pos rfl, Tables.after_append_singleton, ← hchanges]
    · rw [if_neg hk] at hmodified
      exact hs k m' (hmodified ▸ hm₀)
  | mailed n f =>
    obtain ⟨m₀, hm₀, hmodified⟩ := Option.map_eq_some_iff.mp (List.getElem?_modify .. ▸ hm')
    have hsame : m'.tables = m₀.tables := by
      rw [← hmodified]
      split <;> rfl
    exact hsame ▸ hs k m₀ hm₀
  | joined adverts removals =>
    rcases List.mem_append.mp (List.mem_of_getElem? hm') with hmem | hmem
    · obtain ⟨l, hl⟩ := List.mem_iff_getElem?.mp hmem
      exact hs l m' hl
    · exact ⟨[], congrArg Mixer.tables (List.mem_singleton.mp hmem)⟩
  | beside requests host => exact hs k m' hm'

theorem Tabled.path (hs : s.Tabled) (h : Relation.ReflTransGen Alters s s') : s'.Tabled := by
  induction h with
  | refl => exact hs
  | tail _ hlast ih => exact ih.alters hlast

end State

variable {C : Host} {α : Type} {s : State C.State}

section Confined

variable {changes : State C.State → State C.State → Prop}

theorem confined_mixer? {n : Nat} {f : Option Mixer → Action (extend C) α}
    (hnone : Action.ConfinedTo (H := extend C) changes s (f none))
    (hsome : ∀ m, s.mixers[n]? = some m →
      Action.ConfinedTo (H := extend C) changes s (f (some m))) :
    Action.ConfinedTo (H := extend C) changes s (mixer? n >>= f) := by
  rintro e rfl
  show Action.ConfinedTo (H := extend C) changes e.host (f (e.host.mixers : List Mixer)[n]?)
  cases hm : (e.host.mixers : List Mixer)[n]? with
  | none => exact hnone
  | some m => exact hsome m hm

variable (hchanges : State.Admits changes)

include hchanges

theorem confined_setTables {n : Nat} {m : Mixer} (hm : s.mixers[n]? = some m) (c : Change) :
    Action.ConfinedTo (H := extend C) changes s (setTables n (c.made m.tables)) :=
  ⟨hchanges.changed hm c, trivial⟩

theorem confined_replaceTables {n : Nat} {m : Mixer} (hm : s.mixers[n]? = some m) (c : Change)
    (found : Bool × Tables) (hfound : found.2 = c.made m.tables) :
    Action.ConfinedTo (H := extend C) changes s (replaceTables n found) := by
  unfold replaceTables
  rw [hfound]
  refine (confined_setTables hchanges hm c).bind fun _ _ => ?_
  split
  · exact .ask _
  · exact .pure _

theorem confined_setDefault (n : Nat) (i : Interface) (name : String) :
    Action.ConfinedTo (H := extend C) changes s (setDefault n i name) :=
  confined_mixer? (.pure _) fun m hm =>
    confined_replaceTables hchanges hm (.fixed i name) (m.tables.setDefault i name true) rfl

theorem confined_apply (n : Nat) (event : Event) :
    Action.ConfinedTo (H := extend C) changes s (apply n event) := by
  refine confined_mixer? (.pure _) fun m hm => ?_
  cases event with
  | updated i d =>
    refine (confined_setTables hchanges hm (.told (.updated i d))).bind fun _ _ => ?_
    refine (Action.ConfinedTo.ask _).bind fun _ _ => ?_
    split
    · exact .forM (fun _ _ => .ask _) _
    · exact .pure _
  | removed i index =>
    dsimp only
    split
    · refine (confined_setTables hchanges hm (.told (.removed i index))).bind fun _ _ => ?_
      exact (Action.ConfinedTo.ask _).bind fun _ _ => .ask _
    · exact .pure _
  | renamed client name =>
    exact confined_replaceTables hchanges hm (.told (.renamed client name))
      (m.tables.rename client name) rfl
  | defaults sink source =>
    exact confined_replaceTables hchanges hm (.told (.defaults sink source))
      (m.tables.setServerDefaults sink source) rfl

theorem confined_command (n : Nat) (text : String) (address : Option String) :
    Action.ConfinedTo (H := extend C) changes s (command n text address) := by
  refine confined_mixer? (.pure _) fun m _ => ?_
  dsimp only
  split
  · exact .pure _
  · exact ⟨hchanges.requested _ _, trivial⟩

omit hchanges in
theorem confined_acknowledge (q : QueueRef (extend C)) :
    Action.ConfinedTo (H := extend C) changes s (acknowledge q) := by
  refine (Action.ConfinedTo.ask _).bind fun item _ => ?_
  cases item with
  | none => exact .pure _
  | some item =>
    refine Action.ConfinedTo.look fun e => ?_
    split
    · exact .pure _
    · split
      · exact .pure _
      · exact .ask _

theorem confined_call (n : Nat) (f : Function) (args : List Value) :
    Action.ConfinedTo (H := extend C) changes s (Mixer.call n f args) := by
  unfold Mixer.call
  dsimp only
  split
  · exact confined_mixer? (.pure _) fun _ _ => .pure _
  · exact confined_mixer? (.pure _) fun _ _ => Action.ConfinedTo.look fun _ => .pure _
  · exact (confined_command hchanges n _ _).bind fun _ _ => .pure _
  · exact (confined_setDefault hchanges n _ _).bind fun _ _ => .pure _
  · exact (confined_setDefault hchanges n _ _).bind fun _ _ => .pure _
  · exact confined_mixer? (.pure _) fun _ _ => (confined_acknowledge _).bind fun _ _ => .pure _
  · exact confined_mixer? (.pure _) fun _ _ => (confined_acknowledge _).bind fun _ _ => .pure _
  · exact .pure _

end Confined

/-- The action leaves the state of the mixers to them. -/
abbrev Discreet (s : State C.State) (a : Action (extend C) α) : Prop :=
  Action.ConfinedTo (H := extend C) State.Alters s a

theorem discreet_pump (n : Nat) : Discreet s (pump n : Action (extend C) Nat) := by
  refine confined_mixer? (.pure _) fun m _ => ?_
  have hdrained : Discreet s (updateMixer n fun m' => { m' with inbox := m.inbox.drain.2 } :
      Action (extend C) Unit) := ⟨.mailed n fun _ => m.inbox.drain.2, trivial⟩
  refine hdrained.bind fun _ _ => Action.ConfinedTo.bind ?_ fun _ _ => .pure _
  exact .forM (fun event _ => confined_apply State.Alters.admits n event) _

theorem discreet_send (n : Nat) (event : Event) :
    Discreet s (send n event : Action (extend C) Unit) :=
  ⟨.mailed n fun inbox => inbox.send event, trivial⟩

theorem discreet_registerAll (n : Nat) (l : List Function) :
    Discreet s (registerAll n l : Action (extend C) Unit) := by
  induction l generalizing s with
  | nil => exact .pure _
  | cons f rest ih => exact (Action.ConfinedTo.ask _).bind fun _ _ => ih

theorem discreet_install :
    Discreet s (install : Action (extend C) (Except (QueueError (Kind C.Kind)) Nat)) := by
  refine (Action.ConfinedTo.ask _).bind fun adverts s => ?_
  cases adverts with
  | error fault => exact .pure _
  | ok adverts =>
    refine (Action.ConfinedTo.ask _).bind fun removals s => ?_
    cases removals with
    | error fault => exact .pure _
    | ok removals =>
      rintro e rfl
      refine ⟨.joined adverts.number removals.number, ?_⟩
      refine (discreet_registerAll _ _).bind fun _ _ => ?_
      exact (Action.ConfinedTo.ask _).bind fun _ _ => .pure _

variable {own : Script C (extend C)}

/-- The host's own code may do anything but alter the state of mixers in ways of its own. -/
theorem confined_script (hown : own.ConfinedTo State.Alters) :
    (script own).ConfinedTo State.Alters where
  native
    | .mixer n f, args, _, _ => confined_call State.Alters.admits n f args
    | .host f, args, c, s => hown.native f args c s
  listener := hown.listener
  task := hown.task
  pump
    | .mixer n _, _ => discreet_pump n
    | .host source, s => hown.pump source s

/-- The engine comes to this state at some moment, and its mixers have altered their state in their
own ways only ever since there were none. -/
structure Reachable (e : Engine (extend C)) : Prop where
  engine : e.Reachable
  altered : ∃ s : State C.State, s.mixers = [] ∧ Relation.ReflTransGen State.Alters s e.host

theorem reachable_create (limits : Limits) (host : C.State) :
    Reachable (C := C) (.create limits (⟨[], [], host⟩ : State C.State)) :=
  ⟨Engine.reachable_create (H := extend C) .., _, rfl, .refl⟩

theorem Reachable.action (hown : own.ConfinedTo State.Alters) {e e' : Engine (extend C)}
    (he : Reachable e) {a : Action (extend C) α} (ha : Discreet e.host a) {rounds depth : Nat}
    {x : α} (hrun : (a.run ((script own).callbacks rounds depth)).run e = some (x, e')) :
    Reachable e' := by
  obtain ⟨w, hs⟩ := he.engine.sound
  obtain ⟨s, hnone, hpath⟩ := he.altered
  have hevolved :=
    ha.evolved Regime.confined_lets ((confined_script hown).keeps rounds depth) hs hrun
  exact ⟨he.engine.action _ hrun, s, hnone, hpath.trans hevolved.path⟩

/-- The tables of every mixer come from empty ones by changes. -/
theorem Reachable.tables {e : Engine (extend C)} (he : Reachable e) {n : Nat} {m : Mixer}
    (hm : (e.host.mixers : List Mixer)[n]? = some m) :
    ∃ changes, m.tables = Tables.empty.after changes := by
  obtain ⟨s, hnone, hpath⟩ := he.altered
  have hempty : s.Tabled := by
    intro k m' hm'
    simp [hnone] at hm'
  exact (hempty.path hpath) n m hm

theorem Reachable.distinct {e : Engine (extend C)} (he : Reachable e) {n : Nat} {m : Mixer}
    (hm : (e.host.mixers : List Mixer)[n]? = some m) : m.tables.Distinct := by
  obtain ⟨changes, hchanges⟩ := he.tables hm
  rw [hchanges]
  exact Tables.distinct_empty.after changes

end LiveExpr.Mixer
