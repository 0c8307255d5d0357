import LiveExpr.Proofs.FanOuts
import LiveExpr.Proofs.Handlings

/-!
Every request that an engine answers and every callback is made of deeds and keeps to a
regime, as far as the natives that are registered keep to the terms and the host's own
code keeps to the regime. So what each transition preserves holds at every moment of
every run.
-/
namespace LiveExpr

variable {H : Host} {regime : Regime H} {w : List Ticket}

namespace Engine

variable {call : Callbacks H}

section Fires

variable (hcall : call.Keeps regime)

include hcall

/-- Rebinding a name and announcing it are one transition. -/
theorem announced_evolved {name : String} {b : Behavior (Native H)} (hb : regime.terms.binds b)
    {e e' : Engine H} (hs : Sound regime.terms ⟨e, w⟩)
    (hrun : (fire call name).run { e with registry := ⟨e.registry.entries.set name b⟩ } =
      some ((), e')) : Evolved regime w e e' :=
  settle_evolved hcall hs (.went (.rebound hb) rfl rfl) rfl rfl rfl
    (fun _ => Registry.contains_set_of_contains) hrun

theorem from_register (name : String) {b : Behavior (Native H)} (hb : regime.terms.binds b)
    (e : Engine H) : From regime w (register call name b) e := by
  refine ⟨fun hs {_ e'} hrun => ?_⟩
  have hrest : (if (e.registry.replace name b).1 then fire call name else pure () : Run H Unit).run
      { e with registry := (e.registry.replace name b).2 } = some ((), e') := hrun
  cases hchanged : (e.registry.replace name b).1 with
  | true =>
    rw [hchanged] at hrest
    exact announced_evolved hcall hb hs hrest
  | false =>
    have hlooked : Step regime.terms.unread ⟨e, w⟩
        ⟨{ e with registry := (e.registry.replace name b).2 }, w⟩ :=
      .looked (Registry.resolve_replace hchanged)
    rw [hchanged] at hrest
    cases hrest
    exact .step hlooked rfl rfl (fun _ => Registry.contains_set_of_contains) ⟨rfl, rfl⟩ rfl

theorem from_unregister (name : String) (e : Engine H) :
    From regime w (unregister call name) e := by
  refine ⟨fun hs {a e'} hrun => ?_⟩
  unfold unregister at hrun
  rw [run_get_bind] at hrun
  by_cases hbound : e.registry.isBound name
  · rw [show e.registry.unregister name = (true, ⟨e.registry.entries.set name .unbound⟩) from
      if_pos hbound] at hrun
    have hfired :
        ((fire call name).run { e with registry := ⟨e.registry.entries.set name .unbound⟩ }).bind
          (fun found => some (true, found.2)) = some (a, e') := hrun
    obtain ⟨⟨⟨⟩, e₁⟩, hfire, hrest⟩ := Option.bind_eq_some_iff.mp hfired
    cases hrest
    exact announced_evolved hcall regime.terms.unbound hs hfire
  · rw [show e.registry.unregister name = (false, e.registry) from if_neg hbound] at hrun
    cases hrun
    exact .refl e

omit hcall in
theorem opened_evolved {e : Engine H} {queues : Directory H} {name trigger : String} {k : H.Kind}
    {q : QueueRef H} (h : e.queues.openQueue name trigger k = .ok (q, queues)) :
    Evolved regime w e { e with queues } := by
  rcases Directory.openQueue_eq_ok h with rfl | ⟨numbers, rfl⟩
  · exact .refl e
  · exact .silent (.opened ..) rfl (fun _ h => h) (regime.takes_nil e) ⟨rfl, rfl⟩ rfl

omit hcall in
theorem popped_evolved {e : Engine H} {name : String} {n : Nat} {q : KindQueue H}
    (h : e.queues.named? name = some (n, q)) :
    Evolved regime w e { e with queues := e.queues.replace n q.pop.2 } :=
  .silent (.popped (Directory.named?_eq_some h)) rfl (fun _ h => h) (by simp [Regime.Takes])
    ⟨rfl, rfl⟩ rfl

theorem from_append (q : QueueRef H) (item : H.Item q.kind) (e : Engine H) :
    From regime w (append call q item) e := by
  unfold append
  refine from_get ?_
  cases hq : e.queues.at? q with
  | none => exact from_pure _
  | some content =>
    have hput : Deed regime.terms ⟨e, w⟩ [.put q.number q.kind item]
        ⟨{ e with queues := e.queues.update q (content.put item) }, w⟩ :=
      .put (Directory.at?_eq_some.mp hq) item
    have ht : regime.Takes e [.put q.number q.kind item] := by simp [Regime.Takes]
    exact from_modify_bind (.silent hput rfl (fun _ h => h) ht ⟨rfl, rfl⟩ rfl) (from_fire hcall ..)

theorem from_appendNamed (name : String) (k : H.Kind) (item : H.Item k) (e : Engine H) :
    From regime w (appendNamed call name k item) e := by
  unfold appendNamed
  refine from_get ?_
  cases hopen : e.queues.openQueue name name k with
  | error fault => exact from_pure _
  | ok found =>
    obtain ⟨q, queues⟩ := found
    dsimp only
    split
    · refine from_modify_bind (opened_evolved hopen) ?_
      exact from_bind (from_append hcall ..) fun _ _ => from_pure _
    · exact from_pure _

theorem from_acknowledge (name : String) (e : Engine H) :
    From regime w (acknowledge call name) e := by
  unfold acknowledge
  refine from_get ?_
  cases hq : e.queues.named? name with
  | none => exact from_pure _
  | some found =>
    refine from_modify_bind (popped_evolved hq) ?_
    split
    · exact from_bind (from_fire hcall ..) fun _ _ => from_pure _
    · exact from_pure _

theorem from_deliverMessage (m : Message H) (e : Engine H) :
    From regime w (deliverMessage call m) e := by
  refine from_modify_bind (.note (n := .delivered m) trivial rfl rfl rfl) ?_
  cases m with
  | fire name => exact from_fire hcall ..
  | task t => exact hcall.task ..

theorem deliverMessage_notes {m : Message H} {e e' : Engine H} (hs : Sound regime.terms ⟨e, w⟩)
    (hrun : (deliverMessage call m).run e = some ((), e')) :
    .delivered m :: e.journal <:+ e'.journal := by
  have hnoted : Step regime.terms ⟨e, w⟩ ⟨e.note (.delivered m), w⟩ := .noted trivial
  have hs' := hs.step hnoted
  cases m with
  | fire name => exact ((from_fire hcall ..).evolved hs' hrun).steps.grows
  | task t => exact ((hcall.task ..).evolved hs' hrun).steps.grows

/-- The messages that were there are delivered, and each delivery is noted. -/
theorem messages_evolved {work : List (Handling H (Message H) Unit)} {e e' : Engine H}
    (hs : Sound regime.terms ⟨e, w⟩) (h : Handled (deliverMessage call) e work e') :
    ∃ d, e'.journal = d ++ e.journal ∧ ∀ m ∈ work.map Handling.item, .delivered m ∈ d := by
  obtain ⟨d, hd⟩ := (h.evolved (from_deliverMessage hcall) hs).steps.grows
  refine ⟨d, hd.symm, fun m hm => ?_⟩
  obtain ⟨piece, hpiece, rfl⟩ := List.mem_map.mp hm
  obtain ⟨hbefore, hafter⟩ := h.around (from_deliverMessage hcall) hs hpiece
  obtain ⟨early, hearly⟩ := hbefore.steps.grows
  obtain ⟨amid, hamid⟩ := deliverMessage_notes hcall (hs.steps hbefore.steps) (h.run hpiece)
  obtain ⟨late, hlate⟩ := hafter.steps.grows
  have hsplit : d = late ++ (amid ++ .delivered piece.item :: early) := by
    refine List.append_cancel_right (hd.trans ?_)
    rw [← hlate, ← hamid, ← hearly]
    simp
  simp [hsplit]

theorem from_dispatch (e : Engine H) : From regime w (dispatch call) e := by
  refine ⟨fun hs {count e'} hrun => ?_⟩
  have hdrained : Step regime.terms.unread ⟨e, w⟩ ⟨{ e with mailbox := .empty }, w⟩ := .passed ..
  have hs₀ := hs.step hdrained.of_unread
  obtain ⟨⟨⟨⟩, e₁⟩, hmessages, hrest⟩ := Option.bind_eq_some_iff.mp hrun
  obtain ⟨⟨counts, e₂⟩, hsources, hdone⟩ := Option.bind_eq_some_iff.mp hrest
  cases hdone
  obtain ⟨messages, hmessages, hitems⟩ := handled_of_forM hmessages
  obtain ⟨sources, hsources, -, -⟩ := handled_of_mapM hsources
  have hdelivered := hmessages.evolved (from_deliverMessage hcall) hs₀
  have hpumped := hsources.evolved (fun s e => hcall.pump s w e) (hs₀.steps hdelivered.steps)
  obtain ⟨d, hd, hmem⟩ := messages_evolved hcall hs₀ hmessages
  obtain ⟨d', hd'⟩ := hpumped.steps.grows
  have hall := hdelivered.trans hpumped
  obtain ⟨log, hcourse⟩ := hall.course
  have hjournal : e'.journal = (d' ++ d) ++ e.journal := by
    rw [← hd', hd, List.append_assoc]
  refine ⟨⟨_, (Course.single (.went hdrained rfl rfl)).trans hcourse⟩, ?_, hall.dispatching,
    hall.aside⟩
  refine regime.drained hall.path hjournal fun m hm => List.mem_append_right _ (hmem m ?_)
  rw [hitems]
  exact hm

theorem from_builtin (b : Builtin) (args : List Value) (e : Engine H) :
    From regime w (builtin call b args) e := by
  have hread : (argQueue args : Run H _).run e =
      some ((textArg args 0).bind fun name => (e.queues.named? name).map Prod.snd, e) := by
    unfold argQueue
    cases textArg args 0 <;> rfl
  cases b with
  | queueGet => exact from_read hread (from_pure _)
  | queueLength =>
    refine from_read hread ?_
    cases (textArg args 0).bind fun name => (e.queues.named? name).map Prod.snd with
    | none => exact from_pure _
    | some q => exact from_pure _
  | queueAck =>
    unfold builtin
    cases textArg args 0 with
    | none => exact from_pure _
    | some name => exact from_bind (from_acknowledge hcall ..) fun _ _ => from_pure _

end Fires

theorem from_lookup (name : String) (e : Engine H) : From regime w (lookup name) e :=
  from_get (from_modify_bind (.step (.looked (e.registry.resolve_lookup name)) rfl rfl
    (fun _ => Registry.contains_lookup_of_contains) ⟨rfl, rfl⟩ rfl) (from_pure _))

theorem from_subscribe (name : String) (tier : Tier) {target : Subscriber H}
    (hn : ∀ h, target ≠ .cache h) (e : Engine H) :
    From regime w (subscribe name tier target) e :=
  from_get (from_modify_bind (.step (.subscribed name tier hn) rfl rfl (fun _ h => h) ⟨rfl, rfl⟩ rfl)
    (from_pure _))

theorem from_unsubscribe (id : SubscriptionId) (e : Engine H) :
    From regime w (unsubscribe id) e := by
  refine from_get (from_modify_bind (.step (.unsubscribed id) rfl rfl (fun _ h => h) ?_ rfl) (from_pure _))
  exact ⟨Bus.dispatching_unsubscribe .., Bus.pending_unsubscribe ..⟩

theorem from_openQueue (name trigger : String) (k : H.Kind) (e : Engine H) :
    From regime w (openQueue name trigger k) e := by
  unfold openQueue
  refine from_get ?_
  cases hopen : e.queues.openQueue name trigger k with
  | error fault => exact from_pure _
  | ok found => exact from_modify_bind (opened_evolved hopen) (from_pure _)

theorem from_take (q : QueueRef H) (e : Engine H) : From regime w (take q) e := by
  unfold take
  refine from_get ?_
  cases hq : e.queues.at? q with
  | none => exact from_pure _
  | some content =>
    have hpopped : Deed regime.terms ⟨e, w⟩ [.popped q.number]
        ⟨{ e with queues := e.queues.update q content.pop.2 }, w⟩ :=
      .popped (Directory.at?_eq_some.mp hq)
    have ht : regime.Takes e [.popped q.number] := by simp [Regime.Takes]
    exact from_modify_bind (.silent hpopped rfl (fun _ h => h) ht ⟨rfl, rfl⟩ rfl) (from_pure _)

theorem from_popNamed (name : String) (e : Engine H) : From regime w (popNamed name) e := by
  unfold popNamed
  refine from_get ?_
  cases hq : e.queues.named? name with
  | none => exact from_pure _
  | some found => exact from_modify_bind (popped_evolved hq) (from_pure _)

theorem from_removeQueue (name : String) (e : Engine H) : From regime w (removeQueue name) e :=
  from_get (from_modify_bind (.step (.passed ..) rfl rfl (fun _ h => h) ⟨rfl, rfl⟩ rfl) (from_pure _))

end Engine

/-- A native that is registered has to keep to the terms. -/
def Terms.Allows (terms : Terms H) : Request H → Prop
  | .registerNative _ f deterministic => terms.binds (.native (.host f) deterministic)
  | _ => True

open Engine in
theorem from_answer {call : Callbacks H} (hcall : call.Keeps regime) {r : Request H}
    (hr : regime.terms.Allows r) (e : Engine H) : From regime w (answer call r) e := by
  cases r with
  | bind p mode => exact from_bind_request hcall ..
  | unbind h => exact from_unbind ..
  | read h c => exact from_read_request hcall ..
  | refresh => exact from_refresh hcall ..
  | evaluate p args c => exact from_evaluate hcall ..
  | registerNative name f deterministic => exact from_register hcall _ hr _
  | registerUser name p => exact from_register hcall _ (regime.terms.user p) _
  | unregister name => exact from_unregister hcall ..
  | lookup name => exact from_lookup ..
  | subscribe name tier l => exact from_subscribe _ _ (by simp) _
  | bindAction name p => exact from_subscribe _ _ (by simp) _
  | unsubscribe id => exact from_unsubscribe ..
  | fire name => exact from_fire hcall ..
  | openQueue name trigger k => exact from_openQueue ..
  | appendNamed name k item => exact from_appendNamed hcall ..
  | append q item => exact from_append hcall ..
  | take q => exact from_take ..
  | popNamed name => exact from_popNamed ..
  | acknowledge name => exact from_acknowledge hcall ..
  | removeQueue name => exact from_removeQueue ..
  | post m => exact from_modify (.passed (regime.posted e w m))
  | addSource s => exact from_modify (.passed (regime.added e w s))
  | dispatch => exact from_dispatch hcall _

/-- Whatever the callbacks are, if they keep to the regime, so does the action. -/
structure Action.Obeys {α : Type} (regime : Regime H) (a : Action H α) : Prop where
  runs : ∀ {call : Callbacks H}, call.Keeps regime → ∀ w e, From regime w (a.run call) e

namespace Action.Obeys

variable {α β : Type}

theorem pure (x : α) : (Action.pure x).Obeys regime := ⟨fun _ _ _ => from_pure x⟩

theorem request {r : Request H} {next : r.Reply → Action H α} (hr : regime.terms.Allows r)
    (h : ∀ reply, (next reply).Obeys regime) : (Action.request r next).Obeys regime :=
  ⟨fun hcall w e => from_bind (from_answer hcall hr e) fun {reply _} _ _ =>
    (h reply).runs hcall w _⟩

theorem look {next : Engine H → Action H α} (h : ∀ e, (next e).Obeys regime) :
    (Action.look next).Obeys regime :=
  ⟨fun hcall w e => from_get ((h _).runs hcall w e)⟩

theorem change {f : H.State → H.State} {next : Action H α}
    (hf : ∀ e w, regime.path ⟨e, w⟩ ⟨{ e with host := f e.host }, w⟩) (h : next.Obeys regime) :
    (Action.change f next).Obeys regime :=
  ⟨fun hcall w e => from_modify_bind (.passed (hf e w)) (h.runs hcall w _)⟩

end Action.Obeys

/-- A source is asked for its events only after that is noted. -/
def Action.Pumps (regime : Regime H) (s : H.Source) (a : Action H Nat) : Prop :=
  ∀ {call : Callbacks H}, call.Keeps regime → ∀ w e,
    From regime w (do
      Engine.write (.pumped s)
      a.run call) e

theorem Action.Obeys.pumps {a : Action H Nat} (h : a.Obeys regime) (s : H.Source) :
    a.Pumps regime s :=
  fun hcall w _ => from_modify_bind (.note (n := .pumped s) trivial rfl rfl rfl) (h.runs hcall w _)

structure Script.Obeys (regime : Regime H) (script : Script H H) : Prop where
  native : ∀ f args c, (script.native f args c).Obeys regime
  listener : ∀ l name, (script.listener l name).Obeys regime
  task : ∀ t, (script.task t).Obeys regime
  pump : ∀ s, (script.pump s).Pumps regime s

/-- What holds of all evaluations is all that the callbacks of a script need to keep to the regime,
however deep they nest. -/
theorem Script.Obeys.callbacks_keep {script : Script H H} (hs : script.Obeys regime)
    {rounds : Nat}
    (hcompletes : ∀ {depth p c e v e'}, (∀ name, regime.terms.binds (e.registry.resolve name)) →
      (Engine.evaluate (script.callbacks rounds depth) p [] c).run e = some (.ok v, e') →
      regime.terms.completes e'.registry e'.limits p v ∧ regime.completes e' p v) (depth : Nat) :
    (script.callbacks rounds depth).Keeps regime := by
  -- By induction on the depth: what a callback runs is called with the callbacks one level down.
  induction depth with
  | zero =>
    refine ⟨?native, ?listener, ?task, ?pump, hcompletes⟩
    case native => exact fun _ _ _ _ _ => ⟨fun _ {_ _} hrun => by cases hrun⟩
    case listener => exact fun _ _ _ _ => ⟨fun _ {_ _} hrun => by cases hrun⟩
    case task => exact fun _ _ _ => ⟨fun _ {_ _} hrun => by cases hrun⟩
    case pump => exact fun _ _ _ => ⟨fun _ {_ _} hrun => by cases hrun⟩
  | succ depth ih =>
    refine ⟨fun f args c w e => ?native, fun l name w e => (hs.listener l name).runs ih w e,
      fun t w e => (hs.task t).runs ih w e, fun s w e => hs.pump s ih w e, hcompletes⟩
    case native =>
      cases f with
      | builtin b => exact Engine.from_builtin ih ..
      | host f => exact (hs.native f args c).runs ih w e

/-- Whatever the answers are, and whatever the host sees, it only ever makes such requests. -/
def Action.AsksOnly {α : Type} (P : Request H → Prop) : Action H α → Prop
  | .pure _ => True
  | .request r next => P r ∧ ∀ reply, (next reply).AsksOnly P
  | .look next => ∀ e, (next e).AsksOnly P
  | .change _ next => next.AsksOnly P

structure Script.AsksOnly (P : Request H → Prop) (script : Script H H) : Prop where
  native : ∀ f args c, (script.native f args c).AsksOnly P
  listener : ∀ l name, (script.listener l name).AsksOnly P
  task : ∀ t, (script.task t).AsksOnly P
  pump : ∀ s, (script.pump s).AsksOnly P

section Terms

variable {terms : Terms H}

/-- Where the host may change its state as it likes, its requests are all that counts. -/
theorem Action.AsksOnly.obeys {α : Type} {a : Action H α} (ha : a.AsksOnly regime.terms.Allows)
    (hchange : ∀ e w (f : H.State → H.State),
      regime.path ⟨e, w⟩ ⟨{ e with host := f e.host }, w⟩) : a.Obeys regime := by
  induction a with
  | pure a => exact .pure a
  | request r next ih => exact .request ha.1 fun reply => ih reply (ha.2 reply)
  | look next ih => exact .look fun e => ih e (ha e)
  | change f next ih => exact .change (fun e w => hchange e w f) (ih ha)

theorem Script.AsksOnly.obeys {script : Script H H} (hs : script.AsksOnly regime.terms.Allows)
    (hchange : ∀ e w (f : H.State → H.State),
      regime.path ⟨e, w⟩ ⟨{ e with host := f e.host }, w⟩) :
    script.Obeys regime where
  native f args c := (hs.native f args c).obeys hchange
  listener l name := (hs.listener l name).obeys hchange
  task t := (hs.task t).obeys hchange
  pump s := ((hs.pump s).obeys hchange).pumps s

theorem from_action {α : Type} {call : Callbacks H} (hcall : call.Keeps terms.regime)
    {a : Action H α} (ha : a.AsksOnly terms.Allows) (e : Engine H) :
    From terms.regime w (a.run call) e :=
  (ha.obeys fun _ _ _ => trivial).runs hcall w e

/-- What is asked of the evaluations is all that the callbacks need to keep to the terms. -/
theorem Script.callbacks_keep {script : Script H H} (hs : script.AsksOnly terms.Allows)
    {rounds : Nat}
    (hcompletes : ∀ {depth p c e v e'}, (∀ name, terms.binds (e.registry.resolve name)) →
      (Engine.evaluate (script.callbacks rounds depth) p [] c).run e = some (.ok v, e') →
      terms.completes e'.registry e'.limits p v) (depth : Nat) :
    (script.callbacks rounds depth).Keeps terms.regime :=
  (hs.obeys fun _ _ _ => trivial).callbacks_keep
    (fun hbinds hrun => ⟨hcompletes hbinds hrun, trivial⟩) depth

end Terms

end LiveExpr
