import LiveExpr.Proofs.Quiescence
import LiveExpr.Proofs.Reachability
import Mathlib

/-!
Listeners see nothing stale. A fan-out calls the watches of the expressions before it
calls any listener, and a watch that has been called has dropped the stored value. So
what a listener is given from store was stored after that.
-/
namespace LiveExpr

variable {H : Host} {terms : Terms H} {m m' : Moment H} {x : Handle} {c : Cache} {name : String}
  {id : Ticket} {d d' : List (Note H)}

/-- Whatever is stored for the expression was stored when the journal has grown by `d`. -/
def Renewed (x : Handle) (d : List (Note H)) (s : Store) : Prop :=
  ∀ c v, s.get? x = some c → c.value = some v → Note.stored x v ∈ d

theorem renewed_of_none {s : Store} (hc : s.get? x = some c) (hv : c.value = none) :
    Renewed x ([] : List (Note H)) s := by
  intro c' v hc' hv'
  rw [hc] at hc'
  cases hc'
  rw [hv] at hv'
  cases hv'

theorem Step.renewed (h : Step terms m m') (hm : Sound terms m)
    (hj : m'.engine.journal = d' ++ m.engine.journal) (hr : Renewed x d m.engine.store) :
    Renewed x (d' ++ d) m'.engine.store := by
  intro c' v hc' hv
  rcases h.cache_cases hm hc' with hc | ⟨c, -, rfl⟩ | ⟨-, p, mode, rfl⟩ |
      ⟨c, epoch, u, hc, -, hcomplete, rfl⟩
  · exact List.mem_append_right _ (hr c' v hc hv)
  · cases hv
  · cases hv
  · have hjournal := Engine.complete_journal_eq epoch u hc
    simp only [Engine.completed, Cache.complete] at hv
    split at hv
    · rename_i hstores
      cases hv
      rw [if_pos hstores, ← hcomplete, hj] at hjournal
      rw [List.append_cancel_right (hjournal.trans (List.singleton_append ..).symm)]
      exact List.mem_cons_self
    · exact List.mem_append_right _ (hr c v hc hv)

theorem Steps.renewed (h : Steps terms m m') (hm : Sound terms m)
    (hj : m'.engine.journal = d' ++ m.engine.journal) (hr : Renewed x d m.engine.store) :
    Renewed x (d' ++ d) m'.engine.store := by
  induction h generalizing d' with
  | refl =>
    obtain rfl : d' = [] := List.append_cancel_right hj.symm
    exact hr
  | tail hsteps hstep ih =>
    obtain ⟨d₁, hd₁⟩ := Steps.grows hsteps
    obtain ⟨d₂, hd₂⟩ := hstep.grows
    obtain rfl : d' = d₂ ++ d₁ := by
      refine List.append_cancel_right (hj.symm.trans ?_)
      rw [List.append_assoc, hd₁, hd₂]
    rw [List.append_assoc]
    exact hstep.renewed (hm.steps hsteps) hd₂.symm (ih hd₁.symm)

/-- The watch has been called, and whatever is stored for the expression was stored after that. -/
def Purged (x : Handle) (id : Ticket) (name : String) (d : List (Note H)) (s : Store) : Prop :=
  ∃ late early, d = late ++ Note.called id name :: early ∧ Renewed x late s

/-- A watch that is awaited drops the value in its turn, and what is stored later is renewed. -/
theorem Step.purged (h : Step terms m m') (hm : Sound terms m)
    (hc : m.engine.store.get? x = some c) (hw : (name, id) ∈ c.watches)
    (hj : m'.engine.journal = d' ++ m.engine.journal)
    (hp : id ∈ m.awaited ∨ Purged x id name d m.engine.store) :
    id ∈ m'.awaited ∨ Purged x id name (d' ++ d) m'.engine.store := by
  rcases hp with hid | ⟨late, early, rfl, hr⟩
  · -- Only its own turn takes the watch off the list, and that drops the value.
    have hfind := (hm.tied.watched hc hw).2
    cases h with
    | rested => cases hid
    | began => cases hid
    | @called e w id' s hs hn =>
      refine Or.inl ((List.mem_cons.mp hid).resolve_left ?_)
      rintro rfl
      rw [show e.bus.find? id = _ from hfind] at hs
      cases hs
      exact hn x rfl
    | @dropped e w id' s h hs ht =>
      rcases List.mem_cons.mp hid with rfl | hid
      · rw [show e.bus.find? id = _ from hfind] at hs
        cases hs
        cases ht
        obtain rfl : d' = [.called id name] := List.append_cancel_right hj.symm
        refine Or.inr ⟨[], d, rfl, fun c' v hc' hv => ?_⟩
        simp only [Store.get?_modify, ↓reduceIte] at hc'
        obtain ⟨c₀, -, rfl⟩ := Option.map_eq_some_iff.mp hc'
        cases hv
      · exact Or.inl hid
    | @skipped e w id' hs =>
      refine Or.inl ((List.mem_cons.mp hid).resolve_left ?_)
      rintro rfl
      rw [show e.bus.find? id = _ from hfind] at hs
      cases hs
    | _ => exact Or.inl hid
  · exact Or.inr ⟨d' ++ late, early, by simp, h.renewed hm hj hr⟩

/-- The same over any number of steps after which the expression is still bound. -/
theorem Steps.purged (h : Steps terms m m') (hm : Sound terms m)
    (hc : m.engine.store.get? x = some c) (hw : (name, id) ∈ c.watches) (hid : id ∈ m.awaited)
    (hc' : (m'.engine.store.get? x).isSome) (hj : m'.engine.journal = d ++ m.engine.journal) :
    id ∈ m'.awaited ∨ Purged x id name d m'.engine.store := by
  induction h generalizing d with
  | refl => exact Or.inl hid
  | @tail m₁ m₂ hsteps hstep ih =>
    obtain ⟨early, late, c₁, rfl, hearly, hlate, hc₁, hkept⟩ :=
      Steps.before_last hsteps hstep hm hc hc' hj
    have hpurged := ih (by rw [hc₁]; rfl) hearly
    exact hstep.purged (hm.steps hsteps) hc₁ (hkept _ hw) hlate hpurged

namespace Bus

variable {α : Type} {b : Bus α} {tier : Tier}

theorem find?_of_mem_tierTargets {target : α} (h : (id, target) ∈ b.tierTargets name tier) :
    ∃ s, b.find? id = some s ∧ s.tier = tier := by
  obtain ⟨other, -, hother⟩ := List.mem_filterMap.mp h
  cases hs : b.find? other with
  | none => simp [hs] at hother
  | some s =>
    simp only [hs] at hother
    split at hother
    · cases hother
      exact ⟨s, hs, ‹_›⟩
    · cases hother

/-- When the turn of a listener comes, no invalidator is left. -/
theorem tier_of_mem_after {before after : List (Ticket × α)} {target : α}
    {s : Subscription α} (htargets : b.targets name = before ++ (id, target) :: after)
    (hs : b.find? id = some s) (ht : s.tier = .listen) {other : Ticket}
    (hmem : other ∈ after.map Prod.fst) : ∃ s, b.find? other = some s ∧ s.tier = .listen := by
  obtain ⟨⟨other, target'⟩, hentry, rfl⟩ := List.mem_map.mp hmem
  rcases List.append_eq_append_iff.mp htargets with ⟨l, -, hl⟩ | ⟨l, hl, hrest⟩
  · have hlater : (other, target') ∈ b.tierTargets name .listen := by
      rw [hl]
      exact List.mem_append_right _ (List.mem_cons_of_mem _ hentry)
    exact find?_of_mem_tierTargets hlater
  · cases l with
    | nil =>
      have hlater : (other, target') ∈ b.tierTargets name .listen := by
        rw [← List.nil_append (b.tierTargets name .listen), ← hrest]
        exact List.mem_cons_of_mem _ hentry
      exact find?_of_mem_tierTargets hlater
    | cons first l =>
      cases hrest
      have hfirst : (id, target) ∈ b.tierTargets name .invalidate := by
        rw [hl]
        exact List.mem_append_right _ List.mem_cons_self
      obtain ⟨s', hs', ht'⟩ := find?_of_mem_tierTargets hfirst
      rw [hs] at hs'
      cases hs'
      rw [ht] at ht'
      cases ht'

end Bus

/-- A fan-out has come to the turn of a listener, and none but listeners are left to be called. -/
theorem Engine.listener_turn {regime : Regime H} {call : Callbacks H} (hcall : call.Keeps regime)
    {bus : Bus (Subscriber H)} {e e₁ : Engine H} {s : Subscription (Subscriber H)}
    {before after : List (Ticket × Subscriber H)}
    (hm : Sound regime.terms
      ⟨{ e with bus }.note (.fanOutBegan name), (bus.targets name).map Prod.fst⟩)
    (hd : bus.dispatching = true) (htargets : bus.targets name = before ++ (id, s.target) :: after)
    (hrun : (deliver call name before).run ({ e with bus }.note (.fanOutBegan name)) =
      some ((), e₁))
    (hs : e₁.bus.find? id = some s) (ht : s.tier = .listen) :
    Amid regime name ⟨{ e with bus }.note (.fanOutBegan name), (bus.targets name).map Prod.fst⟩
        ⟨e₁.note (.called id name), after.map Prod.fst⟩ ∧
      ∀ other ∈ after.map Prod.fst, ∃ s, bus.find? other = some s ∧ s.tier = .listen := by
  have hall : Due name (bus.targets name) bus := due_targets hm.tied.bus name
  have hline : (bus.targets name).map Prod.fst =
      before.map Prod.fst ++ id :: after.map Prod.fst := by
    rw [htargets, List.map_append]
    rfl
  rw [htargets] at hall
  rw [hline] at hm ⊢
  have hdue : Due name before bus :=
    ⟨fun entry hentry => hall.made entry (List.mem_append_left _ hentry),
      fun entry hentry => hall.found entry (List.mem_append_left _ hentry)⟩
  have hamid := deliver_amid hcall hm hd hdue hrun
  -- The listener that is called now was there at the beginning.
  have hlistener : (id, s.target) ∈ before ++ (id, s.target) :: after := by simp
  have hfind : bus.find? id = some s :=
    (hamid.steps.later hm).kept id s (hall.made _ hlistener) hs
  obtain ⟨rfl, -⟩ := hall.found _ hlistener s hfind
  have hcalled : Step regime.terms.unread ⟨e₁, id :: after.map Prod.fst⟩
      ⟨e₁.note (.called id s.name), after.map Prod.fst⟩ := by
    refine .called hs fun h htarget => ?_
    obtain ⟨c', hc', hw⟩ := (hm.steps hamid.steps).tied.owned hs htarget
    have hwatch := hs.symm.trans ((hm.steps hamid.steps).tied.watched hc' hw).2
    rw [Option.some_inj.mp hwatch] at ht
    cases ht
  have hturned : Turned regime id s.name (after.map Prod.fst) e₁ (e₁.note (.called id s.name))
      (e₁.note (.called id s.name)) := ⟨.went hcalled rfl rfl, rfl, rfl, rfl, rfl, .refl _⟩
  exact ⟨hamid.trans (hturned.amid hamid.dispatching),
    fun other hmem => Bus.tier_of_mem_after htargets hfind ht hmem⟩

/-- In the fan-out of the name that begins in `e`, some moment while a listener runs. -/
inductive Engine.Listening (script : Script H H) (name : String) (e e' : Engine H) : Prop
  | turn {bus : Bus (Subscriber H)} {rounds depth : Nat} {e₁ : Engine H} {id : Ticket}
      {s : Subscription (Subscriber H)} {before after : List (Ticket × Subscriber H)}
      (began : e.bus.dispatching = true ∧ e.bus.next? = some (name, bus))
      (targets : bus.targets name = before ++ (id, s.target) :: after)
      (delivered : (deliver (script.callbacks rounds depth) name before).run
        ({ e with bus }.note (.fanOutBegan name)) = some ((), e₁))
      (live : e₁.bus.find? id = some s)
      (tier : s.tier = .listen)
      (runs : Steps .any ⟨e₁.note (.called id name), after.map Prod.fst⟩
        ⟨e', after.map Prod.fst⟩) : Listening script name e e'

namespace Engine

theorem Reachable.sound_began {e : Engine H} (he : e.Reachable) {bus : Bus (Subscriber H)}
    (hd : e.bus.dispatching = true) (hnext : e.bus.next? = some (name, bus)) (w : List Ticket) :
    Sound .any ⟨{ e with bus }.note (.fanOutBegan name), w⟩ := by
  obtain ⟨rest, -, rfl⟩ := Bus.next?_eq_some hnext
  obtain ⟨_, hsound⟩ := he.sound
  refine ⟨hsound.tied.line rest _, hsound.binds, fun hf => ?_⟩
  have hboth : e.bus.dispatching = false := hf
  rw [hd] at hboth
  cases hboth

variable {script : Script H H} {e e' : Engine H}

/-- How the fan-out has come there, with none but listeners left to be called. -/
theorem Listening.steps (h : Listening script name e e') (he : e.Reachable) :
    ∃ bus w, e.bus.next? = some (name, bus) ∧
      Steps .any ⟨{ e with bus }.note (.fanOutBegan name), (bus.targets name).map Prod.fst⟩
        ⟨e', w⟩ ∧
      Sound .any ⟨{ e with bus }.note (.fanOutBegan name), (bus.targets name).map Prod.fst⟩ ∧
      ∀ id ∈ w, ∃ s, bus.find? id = some s ∧ s.tier = .listen := by
  obtain @⟨bus, rounds, depth, e₁, id, s, before, after, ⟨hd, hnext⟩, htargets, hbefore, hs, ht,
    hruns⟩ := h
  have hm := he.sound_began hd hnext ((bus.targets name).map Prod.fst)
  have hdispatching : bus.dispatching = true := by
    obtain ⟨rest, -, rfl⟩ := Bus.next?_eq_some hnext
    exact hd
  obtain ⟨hamid, hlisten⟩ := listener_turn (script.keeps_any rounds depth) hm hdispatching htargets
    hbefore hs ht
  exact ⟨bus, after.map Prod.fst, hnext, hamid.steps.trans hruns, hm, hlisten⟩

/-- While a listener runs, the watches of the name have been called. -/
theorem Listening.purged (h : Listening script name e e') (he : e.Reachable)
    (hc : e.store.get? x = some c) {watch : Ticket} (hw : (name, watch) ∈ c.watches) :
    ∃ d, e'.journal = d ++ Note.fanOutBegan name :: e.journal ∧
      ∀ c', e'.store.get? x = some c' →
        c'.program = c.program ∧ Purged x watch name d e'.store := by
  obtain ⟨bus, w, hnext, hsteps, hm, hlisten⟩ := h.steps he
  have hwatch : bus.find? watch = some ⟨name, .invalidate, .cache x⟩ := (hm.tied.watched hc hw).2
  have hawaited : watch ∈ (bus.targets name).map Prod.fst :=
    List.mem_map.mpr ⟨(watch, .cache x), hm.tied.bus.mem_targets.mpr ⟨_, hwatch, rfl, rfl⟩, rfl⟩
  have hover : watch ∉ w := by
    intro hmem
    obtain ⟨s, hs, htier⟩ := hlisten watch hmem
    rw [hwatch] at hs
    cases hs
    cases htier
  obtain ⟨d, hsince⟩ := hsteps.since (x := x) hm (Store.issued_of_get? (s := e.store) hc)
  refine ⟨d, hsince.journal, fun c' hc' => ?_⟩
  refine ⟨(hsince.kept hc hc').program, ?_⟩
  exact (hsteps.purged hm hc hw hawaited (by rw [hc']; rfl) hsince.journal).resolve_left hover

/-- What a read comes to while a listener runs, for an expression that depends on the name. The
value that it finds in store was stored after the watch of the name was called, so not before
the fan-out began. -/
theorem Listening.read_fresh (h : Listening script name e e') (he : e.Reachable)
    (hc : e.store.get? x = some c) (hname : name ∈ c.dependencies) :
    ∃ d, e'.journal = d ++ Note.fanOutBegan name :: e.journal ∧
      ∀ (call : Callbacks H) ctx v e'', (read call x ctx).run e' = some (v, e'') →
        (e'.store.get? x = none ∧ v = .unset) ∨
        ∃ c', e'.store.get? x = some c' ∧
          ((c'.value = none ∧ ∃ outcome e₁,
              (evaluate call c.program [] ctx).run e' = some (outcome, e₁) ∧
                v = reading outcome) ∨
            (c'.value = some v ∧ ∃ watch late early, (name, watch) ∈ c.watches ∧
              d = late ++ Note.called watch name :: early ∧ Note.stored x v ∈ late)) := by
  obtain ⟨watch, hw⟩ := Table.mem_keys.mp (Cache.mem_dependencies.mp hname)
  obtain ⟨d, hd, hpurged⟩ := h.purged he hc hw
  refine ⟨d, hd, fun call ctx v e'' hread => ?_⟩
  cases hc' : e'.store.get? x with
  | none =>
    rw [read_unknown hc'] at hread
    cases hread
    exact Or.inl ⟨rfl, rfl⟩
  | some c' =>
    obtain ⟨hprogram, late, early, hsplit, hrenewed⟩ := hpurged c' hc'
    refine Or.inr ⟨c', rfl, ?_⟩
    cases hv : c'.value with
    | none =>
      rw [read_missed hc' hv, hprogram] at hread
      obtain ⟨⟨outcome, e₁⟩, hrun, hfound⟩ := Option.map_eq_some_iff.mp hread
      cases hfound
      exact Or.inl ⟨rfl, outcome, e₁, hrun, rfl⟩
    | some u =>
      rw [read_stored hc' hv] at hread
      cases hread
      exact Or.inr ⟨rfl, watch, late, early, hw, hsplit, hrenewed _ _ hc' hv⟩

end Engine

namespace Mirror

/-- The function is defined anew, and the fire that announces it is next in the line. -/
def announced : Engine Mirror :=
  ({ opened with
    registry := ⟨opened.registry.entries.set "A" (.user (quoting "new" 2))⟩ } : Engine Mirror).alert
      "A"

/-- The same fan-out after the listener has read the expression. -/
def listening : Engine Mirror :=
  { engine (quoting "new" 2) (.text "new") 1
      (answered (.text "new") ++ Note.called ⟨.host, 2⟩ "A" :: Note.called ⟨.engine, 0⟩ "A" ::
        Note.fanOutBegan "A" :: announced.journal) with
    bus := opened.bus.setDispatching true }

/-- The watch of the expression has had its turn. -/
def dropped : Engine Mirror :=
  { announced with
    bus := opened.bus.setDispatching true
    store := announced.store.modify ⟨0, 0⟩ Cache.invalidate
    journal := .called ⟨.engine, 0⟩ "A" :: .fanOutBegan "A" :: announced.journal }

/-- What the listener finds when it is called. -/
def called : Engine Mirror := dropped.note (.called ⟨.host, 2⟩ "A")

theorem steps_announced : Steps .any ⟨.create .standard (), []⟩ ⟨announced, []⟩ := by
  have hrun : (opening.run (script.callbacks 2 3)).run (.create .standard ()) =
      some ((), opened) := by
    cbv
  have hfrom : From Terms.any.regime [] (opening.run (script.callbacks 2 3)) (.create .standard ()) :=
    from_action (script.keeps_any 2 3) opening.asksOnly_any _
  exact (hfrom.evolved (sound_create ..) hrun).steps.tail (.rebound trivial)

theorem steps_called : Steps .any ⟨announced, []⟩ ⟨called, []⟩ := by
  have hnext : announced.bus.next? = some ("A", opened.bus.setDispatching true) := rfl
  let watch : Subscription (Subscriber Mirror) := ⟨"A", .invalidate, .cache ⟨0, 0⟩⟩
  have hwatch : announced.bus.find? ⟨.engine, 0⟩ = some watch := rfl
  let listener : Subscription (Subscriber Mirror) := ⟨"A", .listen, .listener (⟨0, 0⟩ : Handle)⟩
  have hlistener : dropped.bus.find? ⟨.host, 2⟩ = some listener := rfl
  exact .tail (.tail (.single (.began rfl hnext)) (.dropped hwatch rfl)) (.called hlistener nofun)

theorem listening_listening : Engine.Listening script "A" announced listening := by
  have hlistener : ((script.listener (⟨0, 0⟩ : Handle) "A").run (script.callbacks 2 2)).run called =
      some ((), listening) := by
    cbv
  have hfrom : From Terms.any.regime [] ((script.listener (⟨0, 0⟩ : Handle) "A").run (script.callbacks 2 2))
      called := from_action (script.keeps_any 2 2) (Action.asksOnly_any _) _
  have hsound : Sound .any ⟨called, []⟩ :=
    (sound_create ..).steps (steps_announced.trans steps_called)
  let listener : Subscription (Subscriber Mirror) := ⟨"A", .listen, .listener (⟨0, 0⟩ : Handle)⟩
  have htargets : (opened.bus.setDispatching true).targets "A" =
      [(⟨.engine, 0⟩, .cache ⟨0, 0⟩)] ++ (⟨.host, 2⟩, listener.target) :: [] := rfl
  let begun : Engine Mirror :=
    { announced with bus := opened.bus.setDispatching true }.note (.fanOutBegan "A")
  have hdelivered : (Engine.deliver (script.callbacks 2 3) "A" [(⟨.engine, 0⟩, .cache ⟨0, 0⟩)]).run
      begun = some ((), dropped) := rfl
  exact .turn ⟨rfl, rfl⟩ htargets hdelivered (s := listener) rfl rfl
    (hfrom.evolved hsound hlistener).steps

/-- The expression had a stored value when the fan-out began, but the listener gets the new one,
also when it reads once more. -/
theorem read_fresh_twice :
    ∃ e'' d late early,
      (Engine.read (script.callbacks 2 2) ⟨0, 0⟩ .empty).run listening = some (.text "new", e'') ∧
      listening.journal = d ++ Note.fanOutBegan "A" :: announced.journal ∧
      d = late ++ Note.called ⟨.engine, 0⟩ "A" :: early ∧
      Note.stored ⟨0, 0⟩ (.text "new") ∈ late := by
  have hread : (Engine.read (script.callbacks 2 2) ⟨0, 0⟩ .empty).run listening =
      some (.text "new", listening.note (.answered ⟨0, 0⟩ (.text "new"))) :=
    Engine.read_stored rfl rfl
  have hdependencies : "A" ∈ Cache.dependencies
      { Cache.create program .onDemand with
        value := some (.text "old")
        shown := some (.text "old")
        watches := [("A", ⟨.engine, 0⟩), ("Echo", ⟨.engine, 1⟩)] } :=
    Cache.mem_dependencies.mpr List.mem_cons_self
  obtain ⟨d, hd, hfresh⟩ := Engine.Listening.read_fresh listening_listening
    ⟨_, _, _, steps_announced⟩ (x := ⟨0, 0⟩) rfl hdependencies
  rcases hfresh _ _ _ _ hread with ⟨hnone, -⟩ | ⟨c', hc', ⟨hnone, -⟩ | ⟨-, watch, late, early,
    hwatch, hsplit, hstored⟩⟩
  · cases hnone
  · cases hc'
    cases hnone
  · obtain rfl : watch = ⟨.engine, 0⟩ := by simpa using hwatch
    exact ⟨_, d, late, early, hread, hd, hsplit, hstored⟩

end Mirror

end LiveExpr
