import LiveExpr.Proofs.Freshness

/-!
Who is called by a fan-out. The list of turns is fixed when the fan-out begins: the
subscriptions to the name that there are then, invalidators first, each tier in the
order of subscription. What happens in the meantime can only take away the turn of one
that is removed before it comes.
-/
namespace LiveExpr

variable {H : Host}

namespace Bus

variable {α : Type} {b : Bus α}

theorem Valid.mem_target_ids (hb : b.Valid) {name : String} {id : Ticket} :
    id ∈ (b.targets name).map Prod.fst ↔ ∃ s, b.find? id = some s ∧ s.name = name := by
  constructor
  · intro hid
    obtain ⟨⟨id, target⟩, hmem, rfl⟩ := List.mem_map.mp hid
    obtain ⟨s, hs, hname, -⟩ := hb.mem_targets.mp hmem
    exact ⟨s, hs, hname⟩
  · rintro ⟨s, hs, hname⟩
    exact List.mem_map.mpr ⟨(id, s.target), hb.mem_targets.mpr ⟨s, hs, hname, rfl⟩, rfl⟩

/-- Each list by name is in the order of subscription. -/
def Ordered (b : Bus α) : Prop :=
  ∀ name, (b.idsOf name).Pairwise fun id id' => id.number < id'.number

theorem ordered_empty : (empty : Bus α).Ordered := fun _ => List.Pairwise.nil

theorem Ordered.subscribe (ho : b.Ordered) (hb : b.Valid) (owner : Owner) (name : String)
    (tier : Tier) (target : α) : (b.subscribe owner name tier target).2.Ordered := by
  intro other
  rw [idsOf_subscribe]
  split
  · refine List.pairwise_append.mpr ⟨ho name, List.pairwise_singleton .., fun id hid id' hid' => ?_⟩
    obtain ⟨s, hs, -⟩ := (hb.listed name id).mp hid
    rw [List.mem_singleton.mp hid']
    exact hb.number_lt hs
  · exact ho other

theorem Ordered.unsubscribe (ho : b.Ordered) (id : Ticket) : (b.unsubscribe id).2.Ordered :=
  fun name => (ho name).sublist (b.idsOf_unsubscribe_sublist id name)

/-- Invalidators come before listeners, and in each tier the older subscription comes first. -/
def Before (b : Bus α) (id id' : Ticket) : Prop :=
  ∃ s s', b.find? id = some s ∧ b.find? id' = some s' ∧
    (s.tier = .invalidate ∧ s'.tier = .listen ∨ s.tier = s'.tier ∧ id.number < id'.number)

theorem not_before_self (id : Ticket) : ¬ b.Before id id := by
  rintro ⟨s, s', hs, hs', ⟨hinvalidate, hlisten⟩ | ⟨-, hlt⟩⟩
  · cases hs.symm.trans hs'
    rw [hinvalidate] at hlisten
    cases hlisten
  · exact Nat.lt_irrefl _ hlt

theorem tierTargets_ids (b : Bus α) (name : String) (tier : Tier) :
    (b.tierTargets name tier).map Prod.fst =
      (b.idsOf name).filter fun id => (b.find? id).any fun s => s.tier = tier := by
  rw [tierTargets, List.map_filterMap, ← List.filterMap_eq_filter]
  congr 1
  funext id
  cases hs : b.find? id with
  | none => simp [Option.guard, hs]
  | some s => by_cases htier : s.tier = tier <;> simp [Option.guard, hs, htier]

theorem Ordered.targets (ho : b.Ordered) (name : String) :
    ((b.targets name).map Prod.fst).Pairwise b.Before := by
  have hfound : ∀ {tier id}, id ∈ (b.tierTargets name tier).map Prod.fst →
      ∃ s, b.find? id = some s ∧ s.tier = tier := by
    intro tier id hid
    obtain ⟨⟨id, target⟩, hmem, rfl⟩ := List.mem_map.mp hid
    exact find?_of_mem_tierTargets hmem
  have htier : ∀ tier, ((b.tierTargets name tier).map Prod.fst).Pairwise b.Before := by
    intro tier
    have hnumbers : ((b.tierTargets name tier).map Prod.fst).Pairwise
        fun id id' => id.number < id'.number := by
      rw [tierTargets_ids]
      exact (ho name).filter _
    refine hnumbers.imp_of_mem fun hid hid' hlt => ?_
    obtain ⟨s, hs, ht⟩ := hfound hid
    obtain ⟨s', hs', ht'⟩ := hfound hid'
    exact ⟨s, s', hs, hs', Or.inr ⟨ht.trans ht'.symm, hlt⟩⟩
  rw [Bus.targets, List.map_append]
  refine List.pairwise_append.mpr ⟨htier _, htier _, fun id hid id' hid' => ?_⟩
  obtain ⟨s, hs, ht⟩ := hfound hid
  obtain ⟨s', hs', ht'⟩ := hfound hid'
  exact ⟨s, s', hs, hs', Or.inl ⟨ht, ht'⟩⟩

end Bus

theorem Step.ordered {terms : Terms H} {m m' : Moment H} (h : Step terms m m')
    (hm : Sound terms m) (ho : m.engine.bus.Ordered) : m'.engine.bus.Ordered :=
  h.bus_induction hm ho (fun _ _ hb => hb) (fun _ _ _ _ hv hb => hb.subscribe hv _ _ _ _)
    fun id hb => hb.unsubscribe id

theorem Engine.Reachable.ordered {e : Engine H} (he : e.Reachable) : e.bus.Ordered := by
  obtain ⟨limits, host, w, hsteps⟩ := he
  have hordered : ∀ {m : Moment H}, Steps .any ⟨.create limits host, []⟩ m →
      m.engine.bus.Ordered := by
    intro m hm
    induction hm with
    | refl => exact Bus.ordered_empty
    | tail hsteps hstep ih => exact hstep.ordered ((sound_create limits host).steps hsteps) ih
  exact hordered hsteps

def Note.calledId? : Note H → Option Ticket
  | .called id _ => some id
  | _ => none

/-- The subscriptions that were called, in the order of the notes. -/
def calledIds (notes : List (Note H)) : List Ticket := notes.filterMap Note.calledId?

theorem calledIds_append (notes notes' : List (Note H)) :
    calledIds (notes ++ notes') = calledIds notes ++ calledIds notes' := List.filterMap_append

theorem calledIds_aside {notes : List (Note H)} (h : ∀ n ∈ notes, n.Aside) :
    calledIds notes = [] := by
  refine List.filterMap_eq_nil_iff.mpr fun n hn => ?_
  have haside := h n hn
  cases n <;> first | rfl | exact haside.elim

/-- The subscription whose turn it is in a fan-out, and the engine at that moment. -/
structure Turn (H : Host) where
  id : Ticket
  engine : Engine H

/-- The subscription has not been removed before its turn. -/
def Turn.live (t : Turn H) : Bool := t.engine.bus.isLive t.id

namespace Engine

/-- The delivery to a list of subscriptions, turn by turn. -/
inductive Turns (call : Callbacks H) (name : String) :
    List (Ticket × Subscriber H) → Engine H → List (Turn H) → Engine H → Prop
  | done (e : Engine H) : Turns call name [] e [] e
  | skipped {id : Ticket} {target : Subscriber H} {rest : List (Ticket × Subscriber H)}
      {e e' : Engine H} {turns : List (Turn H)} (hgone : e.bus.isLive id = false)
      (h : Turns call name rest e turns e') :
      Turns call name ((id, target) :: rest) e (⟨id, e⟩ :: turns) e'
  | called {id : Ticket} {target : Subscriber H} {rest : List (Ticket × Subscriber H)}
      {e e₁ e' : Engine H} {turns : List (Turn H)} (hlive : e.bus.isLive id = true)
      (hnotify : (notify call name target).run (e.note (.called id name)) = some ((), e₁))
      (h : Turns call name rest e₁ turns e') :
      Turns call name ((id, target) :: rest) e (⟨id, e⟩ :: turns) e'

variable {call : Callbacks H} {name : String} {l : List (Ticket × Subscriber H)} {e e' : Engine H}
  {turns : List (Turn H)}

theorem turns_of_deliver (hrun : (deliver call name l).run e = some ((), e')) :
    ∃ turns, Turns call name l e turns e' := by
  induction l generalizing e with
  | nil =>
    cases hrun
    exact ⟨[], .done _⟩
  | cons entry rest ih =>
    obtain ⟨id, target⟩ := entry
    unfold deliver at hrun
    rw [run_get_bind] at hrun
    cases hlive : e.bus.isLive id with
    | false =>
      rw [if_neg (by simp [hlive])] at hrun
      obtain ⟨turns, hturns⟩ := ih hrun
      exact ⟨_, .skipped hlive hturns⟩
    | true =>
      rw [if_pos hlive] at hrun
      obtain ⟨⟨⟨⟩, e₁⟩, hnotify, hrest⟩ := Option.bind_eq_some_iff.mp hrun
      obtain ⟨turns, hturns⟩ := ih hrest
      exact ⟨_, .called hlive hnotify hturns⟩

theorem Turns.ids (h : Turns call name l e turns e') :
    turns.map Turn.id = l.map Prod.fst := by
  induction h with
  | done e => rfl
  | skipped _ _ ih => exact congrArg (_ :: ·) ih
  | called _ _ _ ih => exact congrArg (_ :: ·) ih

/-- Called are those whose turn comes while they are live, and in between nobody else is. -/
theorem Turns.called_ids {regime : Regime H} (hcall : call.Keeps regime)
    (h : Turns call name l e turns e') {w : List Ticket}
    (hs : Sound regime.terms ⟨e, l.map Prod.fst ++ w⟩) (hd : e.bus.dispatching = true)
    (hdue : Due name l e.bus) :
    ∃ notes, e'.journal = notes.reverse ++ e.journal ∧
      calledIds notes = (turns.filter Turn.live).map Turn.id := by
  induction h with
  | done e => exact ⟨[], rfl, rfl⟩
  | @skipped id target rest e e' turns hgone h ih =>
    have hstep : Step regime.terms ⟨e, id :: (rest.map Prod.fst ++ w)⟩
        ⟨e, rest.map Prod.fst ++ w⟩ := .skipped (by simpa [Bus.isLive] using hgone)
    obtain ⟨notes, hj, hids⟩ := ih (hs.step hstep) hd hdue.tail
    refine ⟨notes, hj, ?_⟩
    rw [List.filter_cons_of_neg (by simp [Turn.live, hgone])]
    exact hids
  | @called id target rest e e₁ e' turns hlive hnotify h ih =>
    obtain ⟨s, hf⟩ := Option.isSome_iff_exists.mp hlive
    obtain ⟨rfl, rfl⟩ := hdue.found _ List.mem_cons_self s hf
    obtain ⟨e₀, hturned⟩ := notify_turned hcall (w := rest.map Prod.fst ++ w) hs hf hnotify
    have hamid := hturned.amid hd
    have hd₀ : e₀.bus.dispatching = true := (congrArg Bus.dispatching hturned.bus).trans hd
    obtain ⟨asides, hj₁, haside, -⟩ := hturned.evolved.aside hd₀
    obtain ⟨notes, hj, hids⟩ := ih (hs.steps hamid.steps) hamid.dispatching
      (hdue.tail.later (hamid.steps.later hs))
    refine ⟨.called id s.name :: asides ++ notes, ?_, ?_⟩
    · rw [hj, hj₁, hturned.journal]
      simp
    · rw [List.filter_cons_of_pos (show Turn.live ⟨id, e⟩ = true from hlive), List.map_cons, ← hids,
        List.cons_append]
      show id :: calledIds (asides ++ notes) = _
      rw [calledIds_append, calledIds_aside haside, List.nil_append]

/-- A fan-out has one turn for each subscription to the name that is there when it begins, in order,
and calls those that are still there when their turn comes. So it calls none that is made while it
is in progress. -/
theorem fanOut_turns (script : Script H H) (rounds depth : Nat) {bus : Bus (Subscriber H)}
    (he : e.Reachable) (hd : e.bus.dispatching = true) (hn : e.bus.next? = some (name, bus))
    (hrun : (fanOut (script.callbacks rounds depth) name).run { e with bus } = some ((), e')) :
    ∃ turns e₁,
      Turns (script.callbacks rounds depth) name (bus.targets name)
        ({ e with bus }.note (.fanOutBegan name)) turns e₁ ∧
      e' = e₁.note (.fanOutEnded name) ∧
      (∀ id, id ∈ turns.map Turn.id ↔ ∃ s, bus.find? id = some s ∧ s.name = name) ∧
      (turns.map Turn.id).Pairwise bus.Before ∧ (turns.map Turn.id).Nodup ∧
      ∃ notes, e₁.journal = notes.reverse ++ .fanOutBegan name :: e.journal ∧
        calledIds notes = (turns.filter Turn.live).map Turn.id ∧
        ∀ id ∈ calledIds notes, id.number < bus.nextNumber := by
  obtain ⟨⟨⟨⟩, e₁⟩, hdeliver, hended⟩ := Option.bind_eq_some_iff.mp hrun
  cases hended
  obtain ⟨turns, hturns⟩ := turns_of_deliver hdeliver
  have hids : turns.map Turn.id = (bus.targets name).map Prod.fst := hturns.ids
  have hm := he.sound_began hd hn ((bus.targets name).map Prod.fst ++ [])
  have hvalid : bus.Valid := hm.tied.bus
  have hdue : Due name (bus.targets name) bus := due_targets hvalid name
  obtain ⟨hdispatching, hordered⟩ : bus.dispatching = true ∧ bus.Ordered := by
    obtain ⟨rest, -, rfl⟩ := Bus.next?_eq_some hn
    exact ⟨hd, he.ordered⟩
  have hbefore := hordered.targets name
  obtain ⟨notes, hj, hcalled⟩ :=
    hturns.called_ids (script.keeps_any rounds depth) hm hdispatching hdue
  have hmade : ∀ id ∈ calledIds notes, id.number < bus.nextNumber := by
    intro id hid
    have hturn : id ∈ turns.map Turn.id := by
      rw [hcalled] at hid
      exact (List.filter_sublist.map _).subset hid
    rw [hids] at hturn
    obtain ⟨s, hs, -⟩ := hvalid.mem_target_ids.mp hturn
    exact hvalid.number_lt hs
  refine ⟨turns, e₁, hturns, rfl, ?_, ?_, ?_, notes, hj, hcalled, hmade⟩
  · rw [hids]
    exact fun id => hvalid.mem_target_ids
  · rw [hids]
    exact hbefore
  · rw [hids]
    refine hbefore.imp fun {id id'} hlt heq => ?_
    subst heq
    exact Bus.not_before_self id hlt

end Engine

/-- A host with two listeners, of which one ends a subscription and makes another one. -/
def Shifting : Host where
  Function := Empty
  Listener := Bool
  Task := Empty
  Source := Empty
  Kind := Empty
  Item _ := Empty
  State := Unit
  decFunction := inferInstanceAs (DecidableEq Empty)
  decKind := inferInstanceAs (DecidableEq Empty)
  entity := nofun

namespace Shifting

def script : Script Shifting Shifting where
  native := nofun
  listener
    | true, _ => do
      let _ ← Action.ask (.unsubscribe ⟨1⟩)
      let _ ← Action.ask (.subscribe "x" .listen false)
    | false, _ => return
  task := nofun
  pump := nofun

def subscribing : Action Shifting Unit := do
  let _ ← Action.ask (.subscribe "x" .listen true)
  let _ ← Action.ask (.subscribe "x" .listen false)
  let _ ← Action.ask (.subscribe "x" .invalidate false)

def bus : Bus (Subscriber Shifting) :=
  (((Bus.empty.subscribe .host "x" .listen (.listener true)).2.subscribe .host "x" .listen
    (.listener false)).2.subscribe .host "x" .invalidate (.listener false)).2

def subscribed : Engine Shifting := { Engine.create .standard () with bus }

/-- Three listeners wait for a fan-out. -/
def announced : Engine Shifting := subscribed.alert "x"

theorem reachable_announced : announced.Reachable := by
  have hrun : (subscribing.run (script.callbacks 4 2)).run (.create .standard ()) =
      some ((), subscribed) := by
    cbv
  obtain ⟨limits, host, w, hsteps⟩ :=
    (Engine.reachable_create (H := Shifting) .standard ()).action script hrun
  exact ⟨limits, host, w, hsteps.tail (.alerted "x")⟩

def shifted : Engine Shifting :=
  { announced with
    bus := (((bus.unsubscribe ⟨.host, 1⟩).2.subscribe .host "x" .listen
      (.listener false)).2.setDispatching true)
    journal := [.fanOutEnded "x", .called ⟨.host, 0⟩ "x", .called ⟨.host, 2⟩ "x", .fanOutBegan "x",
      .fired "x"] }

/-- The second listener is removed before its turn, and the one that is added gets none. -/
theorem fanOut_turns_shifted :
    ∃ turns : List (Turn Shifting),
      (Engine.fanOut (script.callbacks 4 2) "x").run
        { announced with bus := bus.setDispatching true } = some ((), shifted) ∧
      turns.map Turn.id = [⟨.host, 2⟩, ⟨.host, 0⟩, ⟨.host, 1⟩] ∧
      (turns.filter Turn.live).map Turn.id = [⟨.host, 2⟩, ⟨.host, 0⟩] ∧
      shifted.bus.idsOf "x" = [⟨.host, 0⟩, ⟨.host, 2⟩, ⟨.host, 3⟩] := by
  have hrun : (Engine.fanOut (script.callbacks 4 2) "x").run
      { announced with bus := bus.setDispatching true } = some ((), shifted) := by
    cbv
  have hnext : announced.bus.next? = some ("x", bus.setDispatching true) := rfl
  obtain ⟨turns, e₁, hturns, hended, -, -, -, notes, hj, hcalled, -⟩ :=
    Engine.fanOut_turns script 4 2 reachable_announced rfl hnext hrun
  have hnotes : notes = [.called ⟨.host, 2⟩ "x", .called ⟨.host, 0⟩ "x"] := by
    have hjournal := congrArg Engine.journal hended
    rw [show (e₁.note (.fanOutEnded "x")).journal = .fanOutEnded "x" :: e₁.journal from rfl, hj]
      at hjournal
    have hreverse : [.called ⟨.host, 0⟩ "x", .called ⟨.host, 2⟩ "x"] = notes.reverse :=
      List.append_cancel_right (List.cons_inj_right _ |>.mp hjournal)
    rw [← List.reverse_reverse notes, ← hreverse]
    rfl
  refine ⟨turns, hrun, hturns.ids, ?_, rfl⟩
  rw [← hcalled, hnotes]
  rfl

end Shifting

end LiveExpr
