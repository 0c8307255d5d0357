import LiveExpr.Proofs.Dispatches
import LiveExpr.Proofs.MixerHistories
import Mathlib

/-!
The inboxes of mixers. All that is done to a mixer leaves its inbox alone or adds to
it, except that a pump takes all events that are there and applies them one after the
other. So a dispatch takes two kinds of things in the order in which they were sent:
the messages, and from each mixer the events.
-/
namespace LiveExpr.Mixer

namespace State

variable {σ : Type} (s s' : State σ)

/-- The events that wait for the mixer with the number. -/
def inbox (n : Nat) : List Event := ((s.mixers[n]?).map fun m => m.inbox.pending).getD []

def emptied (n : Nat) : State σ :=
  { s with mixers := s.mixers.modify n fun m => { m with inbox := .empty } }

/-- What waits keeps its place. -/
def Extends : Prop := ∀ n, s.inbox n <+: s'.inbox n

variable {s s'}

theorem Extends.of_eq (h : ∀ n, s'.inbox n = s.inbox n) : s.Extends s' := by
  intro n
  rw [h]

theorem Extends.of_reflTransGen (h : Relation.ReflTransGen Extends s s') : s.Extends s' := by
  induction h with
  | refl => exact .of_eq fun _ => rfl
  | tail _ hlast ih => exact fun n => (ih n).trans (hlast n)

theorem inbox_modify (n k : Nat) (f : Mixer → Mixer) :
    { s with mixers := s.mixers.modify n f }.inbox k =
      ((s.mixers[k]?).map fun m => (if n = k then f m else m).inbox.pending).getD [] := by
  unfold inbox
  rw [List.getElem?_modify]
  cases s.mixers[k]? <;> simp

/-- Whatever is done to a mixer, its inbox is all that counts. -/
theorem Extends.modify {n : Nat} {f : Mixer → Mixer}
    (hf : ∀ m, m.inbox.pending <+: (f m).inbox.pending) :
    s.Extends { s with mixers := s.mixers.modify n f } := by
  intro k
  rw [inbox_modify]
  unfold inbox
  cases s.mixers[k]? with
  | none => exact List.prefix_rfl
  | some m =>
    by_cases h : n = k
    · simpa [h] using hf m
    · simp [h]

end State

variable {C : Host} {α β : Type}

/-- The action keeps all that waits for a mixer. -/
structure Adds (a : Action (extend C) α) : Prop where
  changes : a.ChangesOnly State.Extends

theorem Adds.bind {a : Action (extend C) α} {f : α → Action (extend C) β} (ha : Adds a)
    (hf : ∀ x, Adds (f x)) : Adds (a >>= f) := ⟨ha.changes.bind fun x => (hf x).changes⟩

theorem Adds.ask (r : Request (extend C)) : Adds (ask r) := ⟨fun _ => trivial⟩

/-- The host's own natives, listeners and tasks keep all that waits for a mixer. Its sources may do
as they like. -/
structure KeepsInboxes (own : Script C (extend C)) : Prop where
  native : ∀ f args c, Adds (own.native f args c)
  listener : ∀ l name, Adds (own.listener l name)
  task : ∀ t, Adds (own.task t)

variable {own : Script C (extend C)} {rounds depth : Nat} {w : List Ticket}
  {e e' : Engine (extend C)}

/-- What natives and events do to mixers leaves their inboxes alone. -/
theorem State.extends_admits {σ : Type} : Admits (Extends : State σ → State σ → Prop) where
  changed _ _ := .modify fun _ => List.prefix_rfl
  requested _ _ := .of_eq fun _ => rfl

theorem KeepsInboxes.obeys (hown : KeepsInboxes own) :
    (script own).Obeys (.mail State.Extends) where
  native
    | .mixer n f, args, _ =>
      Action.ConfinedTo.obeys Regime.mail_lets fun _ => confined_call State.extends_admits n f args
    | .host f, args, c => (hown.native f args c).changes.obeys
  listener l name := (hown.listener l name).changes.obeys
  task t := (hown.task t).changes.obeys
  pump s := Action.pumps_mail s _

theorem KeepsInboxes.keeps_mail (hown : KeepsInboxes own) (rounds depth : Nat) :
    ((script own).callbacks rounds depth).Keeps (.mail State.Extends) :=
  hown.obeys.callbacks_keep (fun _ _ => ⟨trivial, trivial⟩) depth

/-- From a state that may be reached, what waits for a mixer stays unless there is a dispatch. -/
theorem KeepsInboxes.kept (hown : KeepsInboxes own) {a : Action (extend C) α} {x : α}
    (ha : Adds a) (hs : Sound .any ⟨e, w⟩)
    (hrun : (a.run ((script own).callbacks rounds depth)).run e = some (x, e')) :
    Mailed State.Extends e e' :=
  ((ha.changes.obeys.runs (hown.keeps_mail rounds depth) w e).evolved hs hrun).path

/-- A pump: the events that were there are applied. Unless there is a dispatch amid that, what has
been sent in the meantime is left. -/
structure Pumped (call : Callbacks (extend C)) (n : Nat) (e : Engine (extend C))
    (events : List (Handling (extend C) Event Unit)) (e' : Engine (extend C)) : Prop where
  applied : Handled (fun event => (apply n event).run call)
    { e with host := State.emptied e.host n } events e'
  waiting : events.map Handling.item = State.inbox e.host n
  left : (∀ piece ∈ events, Undispatched piece.before piece.after) → ∀ piece ∈ events,
    State.inbox piece.before.host n <+: State.inbox piece.after.host n ∧
      State.inbox piece.after.host n <+: State.inbox e'.host n

theorem State.emptied_unknown {σ : Type} {s : State σ} {n : Nat} (h : s.mixers[n]? = none) :
    s.emptied n = s ∧ s.inbox n = [] := by
  obtain ⟨mixers, requests, host⟩ := s
  refine ⟨?_, by simp [inbox, h]⟩
  simp only [emptied, State.mk.injEq, and_true]
  exact List.modify_eq_self (List.getElem?_eq_none_iff.mp h)

theorem handled_of_pump {call : Callbacks (extend C)} {n count : Nat}
    (hrun : ((pump n).run call).run e = some (count, e')) :
    ∃ events, Handled (fun event => (apply n event).run call)
        { e with host := State.emptied e.host n } events e' ∧
      events.map Handling.item = State.inbox e.host n ∧ count = events.length := by
  obtain ⟨moves, hgoes⟩ := Action.goes_of_run hrun
  have hfound := goes_mixer? hgoes
  cases hm : (e.host.mixers : List Mixer)[n]? with
  | none =>
    rw [hm] at hfound
    cases hfound
    obtain ⟨hsame, hempty⟩ := State.emptied_unknown hm
    rw [hsame, hempty]
    exact ⟨[], .nil _, rfl, rfl⟩
  | some m =>
    rw [hm] at hfound
    have hinbox : State.inbox e.host n = m.inbox.pending := by
      simp [State.inbox, hm]
    cases hfound with
    | @change _ _ _ _ moves _ hfound =>
      have hrest : (m.inbox.pending.forM (apply n) >>= fun _ =>
          pure m.inbox.pending.length : Action (extend C) Nat).Goes call
            { e with host := State.emptied e.host n } moves count e' := hfound
      obtain ⟨early, late, y, e₁, -, happlied, hend⟩ := hrest.of_bind
      cases hend
      have hforM := happlied.run
      rw [Action.run_forM] at hforM
      obtain ⟨events, hevents, hitems⟩ := handled_of_forM hforM
      refine ⟨events, hevents, hitems.trans hinbox.symm, ?_⟩
      rw [← List.length_map Handling.item, hitems]

theorem pump_run (hown : KeepsInboxes own) (hs : Sound .any ⟨e, w⟩) {n count : Nat}
    (hrun : ((pump n).run ((script own).callbacks rounds depth)).run e = some (count, e')) :
    ∃ events, Pumped ((script own).callbacks rounds depth) n e events e' ∧
      count = events.length := by
  obtain ⟨events, hevents, hitems, hcount⟩ := handled_of_pump hrun
  have hemptied : Step .any ⟨e, w⟩ ⟨{ e with host := State.emptied e.host n }, w⟩ := .passed ..
  have hs₀ := hs.step hemptied
  have hobeys (event : Event) :
      (apply n event : Action (extend C) Unit).Obeys (.mail State.Extends) :=
    Action.ConfinedTo.obeys Regime.mail_lets fun _ => confined_apply State.extends_admits n event
  have hfrom (event : Event) (e₀ : Engine (extend C)) :
      From (.mail State.Extends) w ((apply n event).run ((script own).callbacks rounds depth)) e₀ :=
    (hobeys event).runs (hown.keeps_mail rounds depth) w e₀
  refine ⟨events, ⟨hevents, hitems, fun hn => ?_⟩, hcount⟩
  have hkept : ∀ piece ∈ events,
      State.inbox piece.before.host n <+: State.inbox piece.after.host n := by
    intro piece hmem
    have hbefore := (hevents.around hfrom hs₀ hmem).1
    have hafter := (hfrom _ _).evolved (hs₀.steps hbefore.steps) (hevents.run hmem)
    exact State.Extends.of_reflTransGen (hafter.path.kept (hn piece hmem)).2 n
  obtain ⟨-, hleft⟩ := hevents.joins (fun e => State.inbox e.host n) hkept
  exact fun piece hmem => ⟨hkept piece hmem, hleft piece hmem⟩

theorem inbox_send {call : Callbacks (extend C)} {n : Nat} {event : Event}
    (hn : n < (e.host.mixers : List Mixer).length)
    (hrun : ((send n event).run call).run e = some ((), e')) :
    State.inbox e'.host n = State.inbox e.host n ++ [event] := by
  cases hrun
  have hm := List.getElem?_eq_getElem hn
  refine (State.inbox_modify (s := e.host) n n _).trans ?_
  simp [State.inbox, hm, Mailbox.send]

/-- What comes of all that is sent from a state on. -/
structure Delivers (own : Script C (extend C)) (rounds depth : Nat) (e : Engine (extend C)) :
    Prop where
  /-- A dispatch takes the messages that are there, and each mixer that it pumps takes the events
  that are there then. They are counted. -/
  dispatch : ∀ {count e'},
    (Engine.dispatch ((script own).callbacks rounds depth)).run e = some (count, e') →
    ∃ messages between sources,
      Engine.Dispatch ((script own).callbacks rounds depth) e messages between sources e' ∧
      count = e.mailbox.pending.length + (sources.map Handling.result).sum ∧
      ∀ piece ∈ sources, ∀ n u, piece.item = .mixer n u → ∃ inner events, depth = inner + 1 ∧
        Pumped ((script own).callbacks rounds inner) n (piece.before.note (.pumped piece.item))
          events piece.after ∧ piece.result = events.length
  /-- Whatever the host does without a dispatch, messages and events wait in the order of
  sending. -/
  sending : ∀ {α : Type} {a : Action (extend C) α} {moves x e'}, Adds a →
    a.Goes ((script own).callbacks rounds depth) e moves x e' → Undispatched e e' →
    (∃ sent, e'.mailbox.pending = e.mailbox.pending ++ sent ∧ (posts moves).Sublist sent) ∧
      State.Extends e.host e'.host
  /-- An event that is sent comes last. -/
  last : ∀ {n event e'}, n < (e.host.mixers : List Mixer).length →
    ((send n event).run ((script own).callbacks rounds depth)).run e = some ((), e') →
    State.inbox e'.host n = State.inbox e.host n ++ [event]
  /-- Over any number of dispatches each message is delivered once or waits still. -/
  account : ∀ {sent delivered e'},
    Engine.Looped ((script own).callbacks rounds depth) e sent delivered e' →
    ∃ joined, e.mailbox.pending ++ joined = delivered ++ e'.mailbox.pending ∧ sent.Sublist joined

theorem pumped_piece (hown : KeepsInboxes own) (hs : Sound .any ⟨e, w⟩) {n count : Nat}
    {s : (extend C).Source} {u : Unit} (hsource : s = .mixer n u)
    (hrun : (Engine.pumpSource ((script own).callbacks rounds depth) s).run e = some (count, e')) :
    ∃ inner events, depth = inner + 1 ∧
      Pumped ((script own).callbacks rounds inner) n (e.note (.pumped s)) events e' ∧
        count = events.length := by
  subst hsource
  cases depth with
  | zero => cases hrun
  | succ inner =>
    have hnoted : Step .any ⟨e, w⟩ ⟨e.note (.pumped (.mixer n u)), w⟩ := .noted trivial
    obtain ⟨events, hpumped, hcount⟩ := pump_run hown (hs.step hnoted) hrun
    exact ⟨inner, events, rfl, hpumped, hcount⟩

/-- Messages and events are delivered in the order of sending, each once, and those that are sent
while others are delivered are left for later. -/
theorem KeepsInboxes.delivers (hown : KeepsInboxes own) (rounds depth : Nat)
    (he : e.Reachable) : Delivers own rounds depth e := by
  obtain ⟨w, hs⟩ := he.sound
  refine ⟨fun {count e'} hrun => ?_, fun {α a moves x e'} ha hgoes hn => ?_, inbox_send,
    fun h => h.account hs⟩
  · obtain ⟨messages, between, sources, hdispatch, hcount⟩ := Engine.dispatch_run hs hrun
    refine ⟨messages, between, sources, hdispatch, hcount, fun piece hmem n u hsource => ?_⟩
    exact pumped_piece hown (hdispatch.sound_source hs hmem) hsource (hdispatch.pumped.run hmem)
  · exact ⟨hgoes.posts_kept hs hn,
      State.Extends.of_reflTransGen ((hown.kept ha hs hgoes.run).kept hn).2⟩

end LiveExpr.Mixer

namespace LiveExpr

/-- A host whose tasks have names. Each of them sends a message with its name and adds a source. -/
def Chatty : Host where
  Function := Empty
  Listener := Empty
  Task := String
  Source := Unit
  Kind := Empty
  Item _ := Empty
  State := Unit
  decFunction := inferInstanceAs (DecidableEq Empty)
  decKind := inferInstanceAs (DecidableEq Empty)
  entity := nofun

namespace Chatty

open Mixer

def own : Script Chatty (extend Chatty) where
  native := nofun
  listener := nofun
  task name := do
    ask (.post (.fire name))
    ask (.addSource (.host ()))
  pump _ := pure 2

theorem keepsInboxes_own : KeepsInboxes own where
  native := nofun
  listener := nofun
  task _ := .bind (.ask _) fun _ => .ask _

/-- One mixer, for which two events wait. The second one overrules the first. -/
def chatting : State Unit :=
  ⟨[⟨.empty, 0, 1, ⟨[.defaults "usb" "mic", .defaults "hdmi" "mic"]⟩⟩], [], ()⟩

def preparing : Action (extend Chatty) Unit := do
  ask (C := Chatty) (.post (.task "first"))
  ask (C := Chatty) (.post (.task "second"))
  ask (C := Chatty) (.addSource (.mixer 0 ()))

def prepared : Engine (extend Chatty) :=
  { Engine.create .standard chatting with
    mailbox := ⟨[.task "first", .task "second"]⟩
    sources := [.mixer 0 ()] }

theorem reachable_prepared : prepared.Reachable := by
  have hrun : (preparing.run ((Mixer.script own).callbacks 4 2)).run (.create .standard chatting) =
      some ((), prepared) := rfl
  exact (Engine.reachable_create (H := extend Chatty) .standard chatting).action _ hrun

/-- Two messages, two events of the mixer, and two of each source that a message has added. What the
messages send is left, in their order. -/
theorem delivers_prepared :
    ∃ e' messages between sources,
      (Engine.dispatch ((Mixer.script own).callbacks 4 3)).run prepared = some (8, e') ∧
      Engine.Dispatch ((Mixer.script own).callbacks 4 3) prepared messages between sources e' ∧
      messages.map Handling.item = [.task "first", .task "second"] ∧
      8 = 2 + (sources.map Handling.result).sum ∧
      e'.mailbox.pending = [.fire "first", .fire "second"] ∧
      e'.sources = [.mixer 0 (), .host (), .host ()] ∧
      State.inbox e'.host 0 = [] ∧
      (e'.host.mixers : List Mixer).map (fun m => m.tables.sink.defaultName) = [some "hdmi"] := by
  have hdelivers := keepsInboxes_own.delivers 4 3 reachable_prepared
  have hended : ((Engine.dispatch ((Mixer.script own).callbacks 4 3)).run prepared).map
      (fun found => (found.1, found.2.mailbox.pending, found.2.sources,
        State.inbox found.2.host 0,
        (found.2.host.mixers : List Mixer).map fun m => m.tables.sink.defaultName)) =
      some (8, [.fire "first", .fire "second"], [.mixer 0 (), .host (), .host ()], [],
        [some "hdmi"]) := by
    cbv
  obtain ⟨⟨count, e'⟩, hrun, hfound⟩ := Option.map_eq_some_iff.mp hended
  simp only [Prod.mk.injEq] at hfound
  obtain ⟨rfl, hlater, hsources, hinbox, hdefaults⟩ := hfound
  obtain ⟨messages, between, sources, hdispatch, hcount, -⟩ := hdelivers.dispatch hrun
  exact ⟨e', messages, between, sources, hrun, hdispatch, hdispatch.waiting, hcount, hlater,
    hsources, hinbox, hdefaults⟩

end Chatty

end LiveExpr
