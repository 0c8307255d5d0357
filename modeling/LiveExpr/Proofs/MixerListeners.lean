import LiveExpr.Proofs.ListenerCalls
import LiveExpr.Proofs.MixerRuns
import Mathlib

/-!
What a listener reads while an event of the sound server is applied. Once the fire of the
queries has been issued, nothing is stored any more that was right before the change of the
tables only. For all events but one this is the first fire that is issued. A removal is
announced in its queue before, and a listener to that may read what was stored before.
-/
namespace LiveExpr

namespace Mixer

variable {C : Host} {α : Type} {own : Script C (extend C)}

/-- With every event but a removal, no request is made while a fire is owed but that fire. -/
def prompt (own : Script C (extend C)) (event : Event) : Prop → Request (extend C) → Prop :=
  fun owed r => (terms own).Allows r ∧
    (owed → r = .fire "Mixer" ∨ ∃ i index, event = .removed i index)

theorem tidy_apply_prompt (n : Nat) (event : Event) (s : State C.State) :
    Tidy (prompt own event) False s (apply n event : Action (extend C) Unit) := by
  have hliberal : Liberal (prompt own event) :=
    ⟨fun _ => ⟨trivial, fun _ => Or.inl rfl⟩,
      fun hr => ⟨(liberal_allowed own).others hr, False.elim⟩⟩
  exact tidy_apply hliberal n fun i index h _ _ _ => ⟨trivial, fun _ => Or.inr ⟨i, index, h⟩⟩

section ComesTo

variable {allows : Prop → Request (extend C) → Prop} {owed : Prop} {a : Action (extend C) α}
  {call : Callbacks (extend C)} {e e' : Engine (extend C)} {w : List Ticket}
  {r : Request (extend C)} {n : Nat} {m : Mixer}

/-- When the action comes to a request, all that has been changed has been announced by then, except
for what is still owed. -/
theorem Tidy.comesTo (hallows : ∀ {owed r}, allows owed r → (terms own).Allows r)
    (hcall : call.Keeps (regime own)) (ha : Tidy allows owed e.host a) (h : a.ComesTo call e r e')
    (hs : Sound (terms own) ⟨e, w⟩) (hu : Upheld own owed ⟨e, w⟩) :
    Evolved (terms own).regime w e e' ∧ ∃ owed', allows owed' r ∧ Upheld own owed' ⟨e', w⟩ := by
  induction h generalizing owed with
  | here => exact ⟨.refl _, owed, ha.1, hu⟩
  | @request r r' next e e₁ e' reply hr _ ih =>
    have hanswer := (from_answer hcall (hallows ha.1) e).evolved hs hr
    have hanswered : Upheld own (False ∨ (owed ∧ r ≠ .fire "Mixer")) ⟨e₁, w⟩ :=
      Upheld.answered hcall hs (hallows ha.1) hr (hu.mono Or.inr)
    obtain ⟨hevolved, hrest⟩ := ih (ha.2 reply e₁.host) (hs.steps hanswer.steps)
      (hanswered.mono fun h => h.resolve_left id)
    exact ⟨hanswer.plain.trans hevolved, hrest⟩
  | look _ ih => exact ih (ha _ rfl) hs hu
  | @change f next e e' r _ ih =>
    have hchanged : Evolved (terms own).regime w e { e with host := f e.host } := .passed trivial
    obtain ⟨hevolved, hrest⟩ := ih ha (hs.steps hchanged.steps) (hu.change (f e.host))
    exact ⟨hchanged.trans hevolved, hrest⟩

/-- Once the mixer is looked up, the action is that of the mixer found. -/
theorem comesTo_mixer? {f : Option Mixer → Action (extend C) α}
    (h : (f (e.host.mixers : List Mixer)[n]?).ComesTo call e r e') :
    (mixer? n >>= f).ComesTo call e r e' := .look h

/-- When a device is told of, the tables are replaced and then the fire is issued. -/
theorem comesTo_update (hm : (e.host.mixers : List Mixer)[n]? = some m) (i : Interface)
    (d : Device) :
    (apply n (.updated i d)).ComesTo call e (.fire "Mixer")
      { e with host := State.withTables e.host n (m.tables.update i d) } := by
  refine comesTo_mixer? ?_
  rw [hm]
  exact .change (.here ..)

/-- When a device is removed, the tables are replaced and then the removal is put into its queue. -/
theorem comesTo_removal (hm : (e.host.mixers : List Mixer)[n]? = some m) {i : Interface}
    {index : UInt32} (hi : ((m.tables.get i).get? index).isSome) :
    (apply n (.removed i index)).ComesTo call e
      (.append (removalQueue m) (⟨i.identifier index⟩ : Removal))
      { e with host := State.withTables e.host n (m.tables.remove i index) } := by
  refine comesTo_mixer? ?_
  rw [hm]
  dsimp only
  rw [if_pos hi]
  exact .change (.here ..)

end ComesTo

/-- While an event is applied to a mixer, a listener is called that only reads, and it comes to a
read of an expression. -/
inductive Heard (own : Script C (extend C)) (rounds depth : Nat) (n : Nat) (event : Event)
    (e : Engine (extend C)) (r : Request (extend C)) (name : String) (x : Handle) (c : Context)
    (e' : Engine (extend C)) : Prop
  | amid {e₁ e₂ e₃ : Engine (extend C)} {l : C.Listener}
      (comes : (apply n event).ComesTo ((script own).callbacks rounds (depth + 1)) e r e₁)
      (raises : Engine.Raises r e₁ e₂)
      (calls : Engine.Calls ((script own).callbacks rounds (depth + 1)) e₂ name l e₃)
      (reads : (own.listener l name).OnlyReads)
      (reading : (own.listener l name).ComesTo ((script own).callbacks rounds depth) e₃
        (.read x c) e') : Heard own rounds depth n event e r name x c e'

variable {rounds depth n : Nat} {event : Event} {e e' : Engine (extend C)}
  {r : Request (extend C)} {name : String} {x : Handle} {ctx : Context}

/-- What is stored when the listener reads is right, or it is going to be dropped because of a fire
that waits in the line. -/
theorem Heard.upheld (hown : Orderly own) (h : Heard own rounds depth n event e r name x ctx e')
    (he : Runs own e) (hr : ∀ i index, event = .removed i index → r = .fire "Mixer") :
    ∃ after, Sound (terms own) ⟨e', after⟩ ∧ Upheld own False ⟨e', after⟩ ∧
      ∀ id ∈ after, ∀ s, e'.bus.find? id = some s → s.tier = .listen := by
  obtain @⟨e₁, e₂, e₃, l, hcomes, hraises, hcalls, hreads, hread⟩ := h
  have hsettled := he.settled hown
  have hcall := keeps_regime hown rounds (depth + 1)
  obtain ⟨hevolved, owed, hprompt, hu₁⟩ := Tidy.comesTo And.left hcall
    (tidy_apply_prompt n event e.host) hcomes hsettled.sound hsettled.upheld
  have hs₁ := hsettled.sound.steps hevolved.steps
  obtain ⟨hpath, hsteps⟩ : (regime own).path ⟨e₁, []⟩ ⟨e₂, []⟩ ∧
      Steps (terms own) ⟨e₁, []⟩ ⟨e₂, []⟩ := hraises.path
  have hs₂ := hs₁.steps hsteps
  -- The fire is issued at the latest with this request.
  have hu₂ : Upheld own False ⟨e₂, []⟩ := by
    by_cases hfire : r = .fire "Mixer"
    · subst hfire
      cases hraises
      exact hu₁.alert
    · have hpaid : ¬ owed := by
        intro howed
        rcases hprompt.2 howed with heq | ⟨i, index, hremoved⟩
        · exact hfire heq
        · exact hfire (hr i index hremoved)
      exact (hpath hs₁).2 _ (hu₁.mono hpaid)
  have hd₂ : e₂.bus.dispatching = true := by
    cases hraises <;> rfl
  obtain ⟨after, hpath₃, hs₃, hlisten⟩ := hcalls.reached hcall hs₂ hd₂
  have hinner := hread.evolved (keeps_regime hown rounds depth) hreads hs₃
  have hs' := hs₃.steps hinner.steps
  refine ⟨after, hs', (hinner.path hs₃).2 _ ((hpath₃ hs₂).2 _ hu₂), fun id hid s hs => ?_⟩
  obtain ⟨hmade, htier⟩ := hlisten id hid
  exact htier s ((hinner.steps.later hs₃).kept id s hmade hs)

/-- A stored value is right if none but listeners are left to be called and no name that the
expression watches waits in the line. -/
theorem Upheld.current {after : List Ticket} (hu : Upheld own False ⟨e, after⟩)
    (hs : Sound (terms own) ⟨e, after⟩)
    (hlisten : ∀ id ∈ after, ∀ s, e.bus.find? id = some s → s.tier = .listen) {c : Cache}
    {v : Value} (hc : e.store.get? x = some c) (hv : c.value = some v)
    (hnames : ∀ other ∈ c.dependencies, other ∉ e.bus.pending ∧
      (IsQuery (e.registry.resolve other) → other = "Mixer")) :
    ∃ names, (evaluate (e.registry.environment (value own e.host)) e.limits c.program []).run =
      .ok ⟨v, names, false⟩ := by
  have hmem : ∀ {other id}, (other, id) ∈ c.watches → other ∈ c.dependencies := fun hid =>
    Cache.mem_dependencies.mpr (Table.mem_keys.mpr ⟨_, hid⟩)
  rcases hu x c v hc hv with
    ⟨names, heval, -⟩ | ⟨other, id, hid, hpending | hawaited⟩ | ⟨other, id, hid, hexcuse⟩
  · exact ⟨names, heval⟩
  · exact ((hnames other (hmem hid)).1 hpending).elim
  · cases hlisten id hawaited _ (hs.tied.watched hc hid).2
  · unfold excuse at hexcuse
    split at hexcuse
    · exact hexcuse.elim
    · rename_i hne
      exact (hne ((hnames other (hmem hid)).2 hexcuse)).elim

/-- The listener reads what the program of the expression comes to at that moment, unless the event
is a removal and its own fire has not been issued yet, or a name that the expression watches waits
in the line. -/
theorem Heard.read_eq_evaluation_amid (hown : Orderly own) (he : Runs own e)
    (h : Heard own rounds depth n event e r name x ctx e')
    (hr : ∀ i index, event = .removed i index → r = .fire "Mixer") {c : Cache}
    (hc : e'.store.get? x = some c)
    (hnames : ∀ other ∈ c.dependencies, other ∉ e'.bus.pending ∧
      (IsQuery (e'.registry.resolve other) → other = "Mixer")) (rounds' depth' : Nat) :
    ((Engine.read ((script own).callbacks rounds' (depth' + 1)) x ctx).run e').map Prod.fst =
        ((Engine.evaluate ((script own).callbacks rounds' (depth' + 1)) c.program [] ctx).run
          e').map (fun found => Engine.reading found.1) ∧
      ∀ v, c.value = some v → ∃ names host,
        (Engine.evaluate ((script own).callbacks rounds' (depth' + 1)) c.program [] ctx).run e' =
          some (.ok ⟨v, names, false⟩, { e' with host }) := by
  obtain ⟨after, hs, hu, hlisten⟩ := h.upheld hown he hr
  have hbinds : ∀ other f, e'.registry.resolve other = .native f true → Pure own f :=
    fun other f hb => pure_of_binds (hb ▸ hs.binds other)
  have hstored : ∀ v, c.value = some v → ∃ names host,
      (Engine.evaluate ((script own).callbacks rounds' (depth' + 1)) c.program [] ctx).run e' =
        some (.ok ⟨v, names, false⟩, { e' with host }) := by
    intro v hv
    obtain ⟨names, heval⟩ := hu.current hs hlisten hc hv hnames
    exact ⟨names, Engine.evaluate_of_functional (callbacks_compute hown ..)
      (callbacks_return hown ..) hbinds heval rfl⟩
  refine ⟨?_, hstored⟩
  cases hv : c.value with
  | none => exact Engine.read_value hc hv
  | some v =>
    obtain ⟨names, host, heval⟩ := hstored v hv
    rw [Engine.read_stored hc hv, heval]
    rfl

end Mixer

/-- A host whose listeners read an expression twice. -/
def Attentive : Host where
  Function := Empty
  Listener := Handle
  Task := Empty
  Source := Empty
  Kind := Empty
  Item _ := Empty
  State := Unit
  decFunction := inferInstanceAs (DecidableEq Empty)
  decKind := inferInstanceAs (DecidableEq Empty)
  entity := nofun

namespace Attentive

open Mixer

variable {α : Type} {a : Action (extend Attentive) α} {e : Engine (extend Attentive)}

def own : Script Attentive (extend Attentive) where
  native := nofun
  listener x _ := do
    let _ ← ask (.read x .empty)
    let _ ← ask (.read x .empty)
  task := nofun
  pump := nofun

def calls : Callbacks (extend Attentive) := (Mixer.script own).callbacks 4 3

/-- Asks whether the sink is mute. -/
def asking : Program :=
  ⟨Instruction.encode (.pushText "sink-mute") ++ Instruction.encode (.pushText "usb") ++
    Instruction.encode (.call "Mixer" 2), 0⟩

/-- There is a sink, and an expression that asks about it. A listener reads the expression when the
sink is removed, and when there are other answers. -/
def opening : Action (extend Attentive) Unit := do
  apply 0 (.updated .sink Bare.speakers)
  let x ← ask (.bind asking .onDemand)
  let _ ← ask (C := Attentive) (.subscribe "mixer_removed" .listen x)
  let _ ← ask (C := Attentive) (.subscribe "Mixer" .listen x)

def ended (a : Action (extend Attentive) α) (e : Engine (extend Attentive)) :
    Engine (extend Attentive) :=
  ((a.run calls).run e).elim e Prod.snd

def created : Engine (extend Attentive) := .create .standard (⟨[], [], ()⟩ : State Unit)

def installed : Engine (extend Attentive) := ended install created

def opened : Engine (extend Attentive) := ended opening installed

/-- The engine after a first read of the expression. -/
def known : Engine (extend Attentive) :=
  (opened.conclude ⟨0, 0⟩ 0 (.ok ⟨.boolean false, ["Mixer"], false⟩)).note
    (.answered ⟨0, 0⟩ (.boolean false))

theorem run_ended (h : ((a.run calls).run e).isSome) :
    ∃ x, (a.run calls).run e = some (x, ended a e) := by
  obtain ⟨⟨x, e'⟩, hrun⟩ := Option.isSome_iff_exists.mp h
  refine ⟨x, ?_⟩
  unfold ended
  rw [hrun]
  rfl

theorem orderly_own : Orderly own where
  native := nofun
  listener _ _ _ :=
    tidy_ask_bind trivial (fun _ _ => tidy_ask_bind trivial (fun _ _ => tidy_pure ()) nofun) nofun
  task := nofun
  pump := nofun

theorem tidy_opening (s : State Unit) : Tidy (allowed own) False s opening :=
  (tidy_apply (liberal_allowed own) 0 fun _ _ _ _ _ _ => trivial).bind fun _ _ =>
    tidy_ask_bind trivial (fun _ _ => tidy_ask_bind trivial
      (fun _ _ => tidy_ask_bind trivial (fun _ _ => tidy_pure ()) nofun) nofun) nofun

def query : Behavior (Native (extend Attentive)) := .native (.host (.mixer 0 .query)) true

/-- All that the program does is to call the native. -/
theorem asking_pure (g : Native (extend Attentive) → List Value → Value) :
    (evaluate ((⟨[("Mixer", query)]⟩ : Registry _).environment g) .standard asking []).run =
      .ok ⟨g (.host (.mixer 0 .query)) [.text "sink-mute", .text "usb"], ["Mixer"], false⟩ := by
  cbv

theorem asking_run {v : Value} (hl : e.limits = .standard)
    (hq : e.registry.resolve "Mixer" = query)
    (hv : State.answer e.host 0 "sink-mute" (some "usb") = v) (rounds depth : Nat) (c : Context) :
    (Engine.evaluate ((Mixer.script own).callbacks rounds (depth + 1)) asking [] c).run e =
      some (.ok ⟨v, ["Mixer"], false⟩, e) := by
  have heval : (evaluate (e.registry.environment fun _ => State.reply e.host 0) e.limits
      asking []).run = .ok ⟨v, ["Mixer"], false⟩ := by
    rw [hl, ← hv]
    refine Dependencies.evaluate_agrees (asking_pure fun _ => State.reply e.host 0)
      fun name hname => ?_
    cases List.mem_singleton.mp hname
    exact ⟨hq, fun _ _ _ => rfl⟩
  refine evaluate_queries_run heval (fun name hname f deterministic hb => ?_) c
  cases List.mem_singleton.mp hname
  cases hq.symm.trans hb
  rfl

/-- The mixer once it has been told of the sink. -/
def present : Mixer := ⟨Tables.empty.update .sink Bare.speakers, 0, 1, .empty⟩

theorem answer_present {s : State Unit} (hs : s.mixers[0]? = some present) :
    s.answer 0 "sink-mute" (some "usb") = .boolean false := by
  rw [Bare.answer_mute hs]
  cbv

theorem read_opened :
    (Engine.read calls ⟨0, 0⟩ .empty).run opened = some (.boolean false, known) := by
  have hc : opened.store.get? ⟨0, 0⟩ = some (.create asking .onDemand) := by
    cbv
  have hl : opened.limits = .standard := by
    cbv
  have hq : opened.registry.resolve "Mixer" = query := by
    cbv
  have hm : (opened.host.mixers : List Mixer)[0]? = some present := by
    cbv
  have heval : (Engine.evaluate calls asking [] .empty).run opened =
      some (.ok ⟨.boolean false, ["Mixer"], false⟩, opened) :=
    asking_run hl hq (answer_present hm) ..
  exact Engine.read_of_evaluate hc rfl heval

theorem resolve_created (name : String) :
    created.registry.resolve name ≠ .native (.host (.mixer 0 .query)) true := by
  simp only [created, Engine.create, Registry.resolve, Engine.builtins, Table.get?]
  split_ifs <;> simp

theorem runs_known : Runs own known := by
  have hinstall : ((install.run calls).run created).isSome := by
    cbv
  have hopening : ((opening.run calls).run installed).isSome := by
    cbv
  obtain ⟨_, hinstalled⟩ := run_ended hinstall
  obtain ⟨_, hopened⟩ := run_ended hopening
  have hread : ((ask (C := Attentive) (.read ⟨0, 0⟩ .empty)).run calls).run opened =
      some (.boolean false, known) := by
    show (Engine.read calls ⟨0, 0⟩ .empty >>= fun v => pure v).run opened = _
    rw [bind_pure, read_opened]
  have hruns : Runs own opened :=
    .operated (.installed (.created ..) resolve_created hinstalled) (tidy_opening _) hopened
  exact hruns.operated (tidy_ask (.read ..) trivial) hread

/-- The bus of that engine. -/
def told : Bus (Subscriber (extend Attentive)) :=
  ⟨[(⟨.host, 0⟩, ⟨"mixer_removed", .listen, .listener (⟨0, 0⟩ : Handle)⟩),
      (⟨.host, 1⟩, ⟨"Mixer", .listen, .listener (⟨0, 0⟩ : Handle)⟩),
      (⟨.engine, 2⟩, ⟨"Mixer", .invalidate, .cache ⟨0, 0⟩⟩)],
    [("mixer_removed", [⟨.host, 0⟩]), ("Mixer", [⟨.host, 1⟩, ⟨.engine, 2⟩])], 3, [], false⟩

/-- The expression once it has been read. -/
def settled : Cache :=
  { Cache.create asking .onDemand with
    value := some (.boolean false)
    shown := some (.boolean false)
    watches := [("Mixer", ⟨.engine, 2⟩)] }

/-- What is known of that engine. -/
structure Ready (e : Engine (extend Attentive)) : Prop where
  bus : e.bus = told
  cache : e.store.get? ⟨0, 0⟩ = some settled
  mixer : (e.host.mixers : List Mixer)[0]? = some present
  limits : e.limits = .standard
  query : e.registry.resolve "Mixer" = query
  removals : (e.queues.at? (removalQueue present)).map Queue.trigger = some "mixer_removed"

theorem ready_known : Ready known := by
  constructor <;> cbv

theorem only_reads (x : Handle) (name : String) : (own.listener x name).OnlyReads :=
  ⟨trivial, fun _ => ⟨trivial, fun _ => trivial⟩⟩

/-- The engine when the only fire that has been issued is being fanned out. -/
def fanning (e : Engine (extend Attentive)) (name : String) : Engine (extend Attentive) :=
  { e.alert name with bus := { told with dispatching := true } }.note (.fanOutBegan name)

theorem next_alert (hb : e.bus = told) (name : String) :
    (e.alert name).bus.next? = some (name, { told with dispatching := true }) := by
  show Bus.next? ((e.bus.enqueue name).setDispatching true) = _
  rw [hb]
  rfl

theorem calls_removal {call : Callbacks (extend Attentive)} (hb : e.bus = told) :
    Engine.Calls call (e.alert "mixer_removed") "mixer_removed" (⟨0, 0⟩ : Handle)
      ((fanning e "mixer_removed").note (.called ⟨.host, 0⟩ "mixer_removed")) := by
  let s : Subscription (Subscriber (extend Attentive)) :=
    ⟨"mixer_removed", .listen, .listener (⟨0, 0⟩ : Handle)⟩
  have htargets : told.targets "mixer_removed" = [] ++ (⟨.host, 0⟩, s.target) :: [] := rfl
  exact .turn (.here _) (next_alert hb _) htargets rfl rfl rfl rfl

/-- The expression is told first. -/
def dropped (e : Engine (extend Attentive)) : Engine (extend Attentive) :=
  let e₁ := (fanning e "Mixer").note (.called ⟨.engine, 2⟩ "Mixer")
  { e₁ with store := e₁.store.modify ⟨0, 0⟩ Cache.invalidate }

theorem calls_query {call : Callbacks (extend Attentive)} (hb : e.bus = told) :
    Engine.Calls call (e.alert "Mixer") "Mixer" (⟨0, 0⟩ : Handle)
      ((dropped e).note (.called ⟨.host, 1⟩ "Mixer")) := by
  let s : Subscription (Subscriber (extend Attentive)) :=
    ⟨"Mixer", .listen, .listener (⟨0, 0⟩ : Handle)⟩
  have htargets : told.targets "Mixer" =
      [(⟨.engine, 2⟩, .cache ⟨0, 0⟩)] ++ (⟨.host, 1⟩, s.target) :: [] := rfl
  exact .turn (.here _) (next_alert hb _) htargets rfl rfl rfl rfl

theorem mixer_withTables (hm : (e.host.mixers : List Mixer)[0]? = some present) (tables : Tables) :
    (State.withTables e.host 0 tables).mixers[0]? = some { present with tables } := by
  show ((e.host.mixers : List Mixer).modify 0 fun m => { m with tables })[0]? = _
  rw [List.getElem?_modify, hm]
  rfl

theorem Ready.reads_stale (h : Ready e) : ∃ e',
    Heard own 4 2 0 (.removed .sink 3) e
      (.append (removalQueue present) (⟨Interface.sink.identifier 3⟩ : Removal))
      "mixer_removed" ⟨0, 0⟩ .empty e' ∧
    e'.store.get? ⟨0, 0⟩ = some settled ∧ e'.bus.pending = [] ∧
    ((Engine.read calls ⟨0, 0⟩ .empty).run e').map Prod.fst = some (.boolean false) ∧
    ((Engine.evaluate calls asking [] .empty).run e').map (fun found => Engine.reading found.1) =
      some .unset := by
  obtain ⟨content, hcontent, htrigger⟩ := Option.map_eq_some_iff.mp h.removals
  have hsink : ((present.tables.get .sink).get? 3).isSome := by
    cbv
  let item : Removal := ⟨Interface.sink.identifier 3⟩
  let e₁ : Engine (extend Attentive) :=
    { e with host := State.withTables e.host 0 (present.tables.remove .sink 3) }
  let e₂ : Engine (extend Attentive) :=
    { e₁ with queues := e₁.queues.update (removalQueue present) (content.put item) }
  have hraises :
      Engine.Raises (.append (removalQueue present) item) e₁ (e₂.alert "mixer_removed") := by
    rw [← htrigger]
    exact .append (e := e₁) hcontent item
  have hanswer : State.answer e₁.host 0 "sink-mute" (some "usb") = .unset := by
    rw [Bare.answer_mute (mixer_withTables h.mixer _)]
    cbv
  let e' := (fanning e₂ "mixer_removed").note (.called ⟨.host, 0⟩ "mixer_removed")
  have hread : (Engine.read calls ⟨0, 0⟩ .empty).run e' =
      some (.boolean false, e'.note (.answered ⟨0, 0⟩ (.boolean false))) :=
    Engine.read_stored (e := e') h.cache rfl
  have heval : (Engine.evaluate calls asking [] .empty).run e' =
      some (.ok ⟨.unset, ["Mixer"], false⟩, e') :=
    asking_run (e := e') h.limits h.query hanswer ..
  refine ⟨e', .amid (comesTo_removal h.mixer hsink) hraises (calls_removal h.bus) (only_reads ..)
    (.here ..), h.cache, rfl, ?_, ?_⟩
  · rw [hread]
    rfl
  · rw [heval]
    rfl

/-- The sink is removed. At its turn a listener to that only reads, and yet the stored value that it
reads is not the one the program comes to. -/
theorem reads_stale_after_removal :
    Orderly own ∧ Runs own known ∧ known.bus.dispatching = false ∧ ∃ e',
      Heard own 4 2 0 (.removed .sink 3) known
        (.append (removalQueue present) (⟨Interface.sink.identifier 3⟩ : Removal))
        "mixer_removed" ⟨0, 0⟩ .empty e' ∧
      e'.store.get? ⟨0, 0⟩ = some settled ∧ e'.bus.pending = [] ∧
      ((Engine.read calls ⟨0, 0⟩ .empty).run e').map Prod.fst = some (.boolean false) ∧
      ((Engine.evaluate calls settled.program [] .empty).run e').map
        (fun found => Engine.reading found.1) = some .unset :=
  ⟨orderly_own, runs_known, (runs_known.settled orderly_own).rested, ready_known.reads_stale⟩

/-- The same sink, but mute. -/
def muted : Device := { Bare.speakers with mute := true }

theorem Ready.hears_muted (h : Ready e) : ∃ e' c,
    Heard own 4 2 0 (.updated .sink muted) e (.fire "Mixer") "Mixer" ⟨0, 0⟩ .empty e' ∧
    e'.store.get? ⟨0, 0⟩ = some c ∧ c.value = some (.boolean true) ∧
    c.dependencies = ["Mixer"] ∧ e'.bus.pending = [] := by
  let e₁ : Engine (extend Attentive) :=
    { e with host := State.withTables e.host 0 (present.tables.update .sink muted) }
  let e₂ := (dropped e₁).note (.called ⟨.host, 1⟩ "Mixer")
  have hc : e₂.store.get? ⟨0, 0⟩ = some settled.invalidate := by
    show (e.store.modify ⟨0, 0⟩ Cache.invalidate).get? ⟨0, 0⟩ = _
    rw [Store.get?_modify, h.cache]
    rfl
  have hanswer : State.answer e₁.host 0 "sink-mute" (some "usb") = .boolean true := by
    rw [Bare.answer_mute (mixer_withTables h.mixer _)]
    cbv
  have heval : (Engine.evaluate ((Mixer.script own).callbacks 4 2) asking [] .empty).run e₂ =
      some (.ok ⟨.boolean true, ["Mixer"], false⟩, e₂) :=
    asking_run (e := e₂) h.limits h.query hanswer ..
  let e' := (e₂.conclude ⟨0, 0⟩ 1 (.ok ⟨.boolean true, ["Mixer"], false⟩)).note
    (.answered ⟨0, 0⟩ (.boolean true))
  have hread : (Engine.read ((Mixer.script own).callbacks 4 2) ⟨0, 0⟩ .empty).run e₂ =
      some (.boolean true, e') :=
    Engine.read_of_evaluate hc rfl heval
  let e₃ := e₂.note (.ran ⟨0, 0⟩)
  let c : Cache :=
    { settled with value := some (.boolean true), shown := some (.boolean true), epoch := 1 }
  have hc' : e'.store.get? ⟨0, 0⟩ = some c := by
    show (e₃.complete ⟨0, 0⟩ 1 _).store.get? _ = _
    rw [Engine.complete_store (e := e₃) _ _ hc, Store.get?_modify, if_pos rfl]
    show (e₂.store.get? _).map _ = _
    rw [hc]
    rfl
  have hb' : e'.bus.pending = [] := by
    show (e₃.complete ⟨0, 0⟩ 1 _).bus.pending = _
    rw [Engine.complete_bus (e := e₃) _ _ hc]
    rfl
  have hdependencies : c.dependencies = ["Mixer"] := by
    cbv
  exact ⟨e', c, .amid (comesTo_update h.mixer .sink muted) (.fire ..) (calls_query h.bus)
    (only_reads ..) (.request hread (.here ..)), hc', rfl, hdependencies, hb'⟩

/-- The listener hears that the sink is mute, and when it reads for the second time the answer has
been stored. -/
theorem read_eq_evaluation_amid_muted : ∃ e' c,
    Heard own 4 2 0 (.updated .sink muted) known (.fire "Mixer") "Mixer" ⟨0, 0⟩ .empty e' ∧
    e'.store.get? ⟨0, 0⟩ = some c ∧ c.value = some (.boolean true) ∧
    ∃ names host, (Engine.evaluate calls c.program [] .empty).run e' =
      some (.ok ⟨.boolean true, names, false⟩, { e' with host }) := by
  obtain ⟨e', c, hheard, hc, hv, hdependencies, hpending⟩ := ready_known.hears_muted
  have hnames : ∀ other ∈ c.dependencies, other ∉ e'.bus.pending ∧
      (IsQuery (e'.registry.resolve other) → other = "Mixer") := by
    intro other hother
    rw [hdependencies] at hother
    rw [hpending]
    exact ⟨List.not_mem_nil, fun _ => List.mem_singleton.mp hother⟩
  obtain ⟨-, hstored⟩ :=
    Heard.read_eq_evaluation_amid orderly_own runs_known hheard nofun hc hnames 4 2
  exact ⟨e', c, hheard, hc, hv, hstored _ hv⟩

end Attentive

end LiveExpr
