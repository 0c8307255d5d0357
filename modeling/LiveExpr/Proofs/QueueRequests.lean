import LiveExpr.Proofs.Moves
import LiveExpr.Proofs.QueueNames

/-!
What a run does to the queues. A request for a queue does what it does to the directory before
anything is fired. Whatever is done besides, amid a fire, a read or a dispatch, goes back to such
requests too, by the host's own code or by a program that acknowledges. So to the queues a run is as
good as a list of requests: those of the action in order, each followed by what it has led to.
-/
namespace LiveExpr

variable {H : Host} {α β : Type}

/-- Requests that have to do with queues. -/
def Request.OnQueues : Request H → Prop
  | .openQueue _ _ _ => True
  | .appendNamed _ _ _ => True
  | .append _ _ => True
  | .take _ => True
  | .popNamed _ => True
  | .acknowledge _ => True
  | .removeQueue _ => True
  | _ => False

theorem Directory.asked_of_not_onQueues {d : Directory H} {r : Request H} (hr : ¬ r.OnQueues) :
    d.asked r = d := by
  cases r with
  | openQueue | appendNamed | append | take | popNamed | acknowledge | removeQueue =>
    exact (hr trivial).elim
  | _ => rfl

namespace Engine

section Requeues

variable {call : Callbacks H} {e : Engine H} {operation : Run H α} {reply : α}

theorem requeues_self (hrun : operation.run e = some (reply, e)) :
    Requeues call operation e e.queues none reply := ⟨hrun⟩

theorem openQueue_ok {name trigger : String} {k : H.Kind} {q : QueueRef H} {queues : Directory H}
    (h : e.queues.openQueue name trigger k = .ok (q, queues)) :
    (openQueue name trigger k).run e = some (.ok q, { e with queues }) := by
  unfold openQueue
  rw [run_get_bind, h]
  rfl

theorem openQueue_error {name trigger : String} {k : H.Kind} {fault : QueueError H.Kind}
    (h : e.queues.openQueue name trigger k = .error fault) :
    (openQueue name trigger k).run e = some (.error fault, e) := by
  unfold openQueue
  rw [run_get_bind, h]
  rfl

theorem openQueue_requeues (name trigger : String) (k : H.Kind) (e : Engine H) :
    ∃ reply, Requeues call (openQueue name trigger k) e (e.queues.opened name trigger k) none
      reply := by
  unfold Directory.opened
  cases hopen : e.queues.openQueue name trigger k with
  | error fault => exact ⟨.error fault, requeues_self (openQueue_error hopen)⟩
  | ok found => exact ⟨.ok found.1, ⟨openQueue_ok hopen⟩⟩

theorem appendNamed_requeues_asked (name : String) (k : H.Kind) (item : H.Item k) (e : Engine H) :
    ∃ name? reply, Requeues call (appendNamed call name k item) e
      (e.queues.putNamed name k item) name? reply := by
  cases hnamed : e.queues.named? name with
  | none =>
    rw [Directory.putNamed_new hnamed]
    exact ⟨_, _, appendNamed_requeues_new hnamed k item⟩
  | some found =>
    obtain ⟨n, kind, content⟩ := found
    by_cases hk : kind = k
    · subst hk
      have hat : e.queues.at? ⟨kind, n⟩ = some content :=
        Directory.at?_eq_some.mpr (Directory.named?_eq_some hnamed)
      rw [Directory.putNamed_known (q := ⟨kind, n⟩) hnamed]
      exact ⟨_, _, appendNamed_requeues (Directory.openQueue_known hnamed name) hat item⟩
    · rw [Directory.putNamed_mismatch hnamed hk]
      exact ⟨_, _, appendNamed_refused hnamed hk item⟩

theorem append_requeues_asked (q : QueueRef H) (item : H.Item q.kind) (e : Engine H) :
    ∃ name?, Requeues call (append call q item) e (e.queues.putAt q item) name? () := by
  cases hq : e.queues.at? q with
  | none =>
    unfold Directory.putAt
    rw [hq]
    refine ⟨none, requeues_self ?_⟩
    unfold append
    rw [run_get_bind, hq]
    rfl
  | some content =>
    rw [Directory.putAt_some hq]
    exact ⟨_, append_requeues hq item⟩

theorem take_requeues_asked (q : QueueRef H) (e : Engine H) :
    ∃ reply, Requeues call (take q) e (e.queues.takeAt q) none reply := by
  cases hq : e.queues.at? q with
  | none =>
    unfold Directory.takeAt
    rw [hq]
    refine ⟨none, requeues_self ?_⟩
    unfold take
    rw [run_get_bind, hq]
    rfl
  | some content =>
    rw [Directory.takeAt_some hq]
    exact ⟨_, take_requeues hq⟩

theorem popNamed_requeues_asked (name : String) (e : Engine H) :
    ∃ reply, Requeues call (popNamed name) e (e.queues.dropNamed name) none reply := by
  cases hnamed : e.queues.named? name with
  | none =>
    unfold Directory.dropNamed
    rw [hnamed]
    exact ⟨false, popNamed_requeues_unknown hnamed⟩
  | some found =>
    rw [Directory.dropNamed_some hnamed]
    exact ⟨_, popNamed_requeues hnamed⟩

theorem acknowledge_requeues_asked (name : String) (e : Engine H) :
    ∃ name? reply, Requeues call (acknowledge call name) e (e.queues.dropNamed name) name?
      reply := by
  cases hnamed : e.queues.named? name with
  | none =>
    unfold Directory.dropNamed
    rw [hnamed]
    exact ⟨none, false, acknowledge_requeues_unknown hnamed⟩
  | some found =>
    rw [Directory.dropNamed_some hnamed]
    exact ⟨_, _, acknowledge_requeues hnamed⟩

/-- Such a request does to the queues what it does, and then there is at most a fire. -/
theorem answer_requeues {r : Request H} (hr : r.OnQueues) (e : Engine H) :
    ∃ name? reply, Requeues call (answer call r) e (e.queues.asked r) name? reply := by
  cases r with
  | openQueue name trigger k => exact ⟨none, openQueue_requeues name trigger k e⟩
  | appendNamed name k item => exact appendNamed_requeues_asked name k item e
  | append q item =>
    obtain ⟨name?, happend⟩ := append_requeues_asked q item e
    exact ⟨name?, (), happend⟩
  | take q => exact ⟨none, take_requeues_asked q e⟩
  | popNamed name => exact ⟨none, popNamed_requeues_asked name e⟩
  | acknowledge name => exact acknowledge_requeues_asked name e
  | removeQueue name => exact ⟨none, _, ⟨rfl⟩⟩
  | _ => exact hr.elim

end Requeues

/-- Wherever the run comes to, all that has been done to the queues are such requests. -/
structure Asks (P : Request H → Prop) (m : Run H α) : Prop where
  log : ∀ {e a e'}, m.run e = some (a, e') →
    ∃ log, (∀ r ∈ log, P r) ∧ e'.queues = e.queues.after log

namespace Asks

variable {P : Request H → Prop} {m : Run H α}

theorem of_queues (h : ∀ {e a e'}, m.run e = some (a, e') → e'.queues = e.queues) : Asks P m :=
  ⟨fun hrun => ⟨[], List.forall_mem_nil _, h hrun⟩⟩

theorem pure (a : α) : Asks P (pure a : Run H α) := .of_queues fun hrun => by
  cases hrun
  rfl

theorem get : Asks P (get : Run H (Engine H)) := .of_queues fun hrun => by
  cases hrun
  rfl

theorem failure : Asks P (failure : Run H α) := .of_queues fun hrun => by cases hrun

theorem modify {g : Engine H → Engine H} (hg : ∀ e, (g e).queues = e.queues) :
    Asks P (modify g : Run H Unit) := .of_queues fun {e _ _} hrun => by
  cases hrun
  exact hg e

theorem bind {f : α → Run H β} (hm : Asks P m) (hf : ∀ a, Asks P (f a)) : Asks P (m >>= f) := by
  refine ⟨fun {e b e''} hrun => ?_⟩
  obtain ⟨⟨a, e'⟩, hfirst, hrest⟩ := Option.bind_eq_some_iff.mp hrun
  obtain ⟨log, hlog, hqueues⟩ := hm.log hfirst
  obtain ⟨log', hlog', hqueues'⟩ := (hf a).log hrest
  refine ⟨log ++ log', fun r hr => (List.mem_append.mp hr).elim (hlog r) (hlog' r), ?_⟩
  rw [Directory.after_append, ← hqueues, hqueues']

theorem ite {m' : Run H α} {c : Prop} [Decidable c] (hm : Asks P m) (hm' : Asks P m') :
    Asks P (if c then m else m') := by
  split
  · exact hm
  · exact hm'

theorem forM {f : β → Run H Unit} (hf : ∀ x, Asks P (f x)) (l : List β) : Asks P (l.forM f) := by
  induction l with
  | nil => exact .pure ()
  | cons x rest ih => exact (hf x).bind fun _ => ih

theorem mapM {f : β → Run H α} (hf : ∀ x, Asks P (f x)) (l : List β) : Asks P (l.mapM f) := by
  induction l with
  | nil => exact .pure []
  | cons x rest ih =>
    rw [List.mapM_cons]
    exact (hf x).bind fun _ => ih.bind fun _ => .pure _

end Asks

end Engine

/-- What callbacks do to the queues is asked for in this way. -/
structure Callbacks.Ask (P : Request H → Prop) (call : Callbacks H) : Prop where
  native : ∀ f args c, Engine.Asks P (call.native f args c)
  listener : ∀ l name, Engine.Asks P (call.listener l name)
  task : ∀ t, Engine.Asks P (call.task t)
  pump : ∀ s, Engine.Asks P (call.pump s)

namespace Engine

variable {P : Request H → Prop} {call : Callbacks H} (hcall : call.Ask P)

theorem conclude_queues (e : Engine H) (h : Handle) (began : Nat)
    (outcome : Except Fault Evaluation) : (e.conclude h began outcome).queues = e.queues := by
  cases outcome with
  | error fault => rfl
  | ok v => exact complete_queues ..

include hcall

theorem asks_machine_call (c : Context) (limits : Limits) (s : Machine) (next : Nat)
    (name : String) (args : List Value) :
    Asks P (s.call (environment call c) limits next name args) := by
  unfold Machine.call
  refine .bind (.bind .get fun _ => .pure _) fun behavior => ?_
  cases behavior with
  | unbound => exact .pure _
  | native f deterministic => exact .bind (hcall.native f args c) fun _ => .pure _
  | user p => exact .pure _

theorem asks_machine_run (c : Context) (limits : Limits) (steps : Nat) (s : Machine) :
    Asks P (s.run (environment call c) limits steps) := by
  induction steps generalizing s with
  | zero => exact .pure _
  | succ steps ih =>
    have hstep : Asks P (s.step (environment call c) limits) := by
      unfold Machine.step
      split
      · exact .pure _
      · exact asks_machine_call hcall ..
    refine .bind hstep fun p => ?_
    cases p with
    | running t => exact ih t
    | finished outcome => exact .pure _

theorem asks_evaluate (p : Program) (args : List Value) (c : Context) :
    Asks P (evaluate call p args c) := .bind .get fun _ => asks_machine_run hcall ..

theorem asks_read (h : Handle) (c : Context) : Asks P (read call h c) := by
  have hvalue : Asks P (valueOf call h c) := by
    unfold valueOf
    refine .bind .get fun e => ?_
    split
    · exact .pure _
    · split
      · exact .pure _
      · refine .bind (asks_evaluate hcall ..) fun outcome => ?_
        exact .bind (.modify fun e => e.conclude_queues ..) fun _ => .pure _
  exact .bind hvalue fun _ => .bind (.modify fun _ => rfl) fun _ => .pure _

theorem asks_bind (p : Program) (mode : Mode) : Asks P (bind call p mode) := by
  refine .bind .get fun e => .bind (.modify fun _ => rfl) fun _ => ?_
  exact .ite (.bind (asks_read hcall ..) fun _ => .pure _) (.pure _)

theorem asks_refreshAll (handles : List Handle) : Asks P (refreshAll call handles) := by
  induction handles with
  | nil => exact .pure _
  | cons h rest ih =>
    exact .bind .get fun _ => .bind (asks_read hcall ..) fun _ => .bind ih fun _ => .pure _

theorem asks_deliver (name : String) (targets : List (Ticket × Subscriber H)) :
    Asks P (deliver call name targets) := by
  induction targets with
  | nil => exact .pure _
  | cons subscription rest ih =>
    obtain ⟨id, target⟩ := subscription
    have hnotify : Asks P (notify call name target) := by
      cases target with
      | cache h => exact .modify fun _ => rfl
      | action p => exact .bind (asks_evaluate hcall ..) fun _ => .pure _
      | listener l => exact hcall.listener l name
    refine .bind .get fun e => .ite ?_ ih
    exact .bind (.modify fun _ => rfl) fun _ => .bind hnotify fun _ => ih

theorem asks_fanOut (name : String) : Asks P (fanOut call name) :=
  .bind (.modify fun _ => rfl) fun _ => .bind .get fun _ =>
    .bind (asks_deliver hcall ..) fun _ => .modify fun _ => rfl

theorem asks_drain (rounds : Nat) : Asks P (drain call rounds) := by
  induction rounds with
  | zero => exact .failure
  | succ rounds ih =>
    refine .bind .get fun e => ?_
    split
    · exact .modify fun _ => rfl
    · exact .bind (.modify fun _ => rfl) fun _ => .bind (asks_fanOut hcall _) fun _ => ih

theorem asks_fire (name : String) : Asks P (fire call name) := by
  refine .bind (.modify fun _ => rfl) fun _ => .bind .get fun e => .ite (.pure _) ?_
  exact .bind (.modify fun _ => rfl) fun _ => asks_drain hcall _

theorem asks_register (name : String) (b : Behavior (Native H)) :
    Asks P (register call name b) :=
  .bind .get fun _ => .bind (.modify fun _ => rfl) fun _ => .ite (asks_fire hcall name) (.pure _)

theorem asks_unregister (name : String) : Asks P (unregister call name) :=
  .bind .get fun _ => .bind (.modify fun _ => rfl) fun _ =>
    .ite (.bind (asks_fire hcall name) fun _ => .pure _) (.pure _)

omit hcall in
theorem asks_unbind (h : Handle) : Asks P (unbind h : Run H Bool) := by
  refine .bind .get fun e => ?_
  split
  split
  · exact .pure _
  · exact .bind (.modify fun _ => rfl) fun _ => .pure _

theorem asks_dispatch : Asks P (dispatch call) := by
  have hmessage : ∀ m, Asks P (deliverMessage call m) := by
    intro m
    refine .bind (.modify fun _ => rfl) fun _ => ?_
    cases m with
    | fire name => exact asks_fire hcall name
    | task t => exact hcall.task t
  have hpump : ∀ s, Asks P (pumpSource call s) := fun s =>
    .bind (.modify fun _ => rfl) fun _ => hcall.pump s
  exact .bind .get fun _ => .bind (.modify fun _ => rfl) fun _ =>
    .bind (.forM hmessage _) fun _ => .bind .get fun _ => .bind (.mapM hpump _) fun _ => .pure _

/-- What is done to the queues meanwhile is done by those who are called. -/
theorem asks_answer_other {r : Request H} (hr : ¬ r.OnQueues) : Asks P (answer call r) := by
  cases r with
  | bind p mode => exact asks_bind hcall p mode
  | unbind h => exact asks_unbind h
  | read h c => exact asks_read hcall h c
  | refresh => exact .bind .get fun _ => asks_refreshAll hcall _
  | evaluate p args c => exact asks_evaluate hcall p args c
  | registerNative name f deterministic => exact asks_register hcall ..
  | registerUser name p => exact asks_register hcall ..
  | unregister name => exact asks_unregister hcall name
  | lookup name => exact .bind .get fun _ => .bind (.modify fun _ => rfl) fun _ => .pure _
  | subscribe name tier l => exact .bind .get fun _ => .bind (.modify fun _ => rfl) fun _ => .pure _
  | bindAction name p => exact .bind .get fun _ => .bind (.modify fun _ => rfl) fun _ => .pure _
  | unsubscribe id => exact .bind .get fun _ => .bind (.modify fun _ => rfl) fun _ => .pure _
  | fire name => exact asks_fire hcall name
  | post m => exact .modify fun _ => rfl
  | addSource s => exact .modify fun _ => rfl
  | dispatch => exact asks_dispatch hcall
  | _ => exact (hr trivial).elim

/-- First the request does what it asks for. All else is done by those who are called then. -/
theorem answer_log {r : Request H} {e e' : Engine H} {reply : r.Reply}
    (hrun : (answer call r).run e = some (reply, e')) :
    ∃ log, (∀ r' ∈ log, P r') ∧ e'.queues = (e.queues.asked r).after log := by
  by_cases hr : r.OnQueues
  · obtain ⟨name?, reply', hrequeues⟩ : ∃ name? reply,
        Requeues call (answer call r) e (e.queues.asked r) name? reply := answer_requeues hr e
    rw [hrequeues.run] at hrun
    obtain ⟨⟨⟨⟩, e₁⟩, hfire, heq⟩ := Option.map_eq_some_iff.mp hrun
    obtain ⟨-, rfl⟩ := Prod.mk.inj heq
    have hfires : Asks P (fire? call name?) := by
      cases name? with
      | none => exact .pure _
      | some name => exact asks_fire hcall name
    exact hfires.log hfire
  · rw [Directory.asked_of_not_onQueues hr]
    exact (asks_answer_other hcall hr).log hrun

theorem asks_answer {r : Request H} (hP : P r) : Asks P (answer call r) := by
  refine ⟨fun {e _ e'} hrun => ?_⟩
  obtain ⟨log, hlog, hqueues⟩ := answer_log hcall hrun
  exact ⟨r :: log, List.forall_mem_cons.mpr ⟨hP, hlog⟩, hqueues⟩

/-- Programs do nothing to the queues but acknowledge. -/
theorem asks_builtin (hP : ∀ name, P (.acknowledge name)) (b : Builtin) (args : List Value) :
    Asks P (builtin call b args) := by
  have hread : Asks P (argQueue args : Run H (Option (KindQueue H))) := by
    unfold argQueue
    cases textArg args 0 with
    | none => exact .pure _
    | some name => exact .bind .get fun _ => .pure _
  cases b with
  | queueGet => exact .bind hread fun _ => .pure _
  | queueLength =>
    refine .bind hread fun found => ?_
    cases found with
    | none => exact .pure _
    | some queue => exact .pure _
  | queueAck =>
    unfold builtin
    cases textArg args 0 with
    | none => exact .pure _
    | some name =>
      exact .bind (asks_answer hcall (hP name)) fun _ => .pure _

end Engine

variable {P : Request H → Prop}

theorem Action.AsksOnly.asks {call : Callbacks H} (hcall : call.Ask P) {a : Action H α}
    (ha : a.AsksOnly P) : Engine.Asks P (a.run call) := by
  induction a with
  | pure x => exact .pure x
  | request r next ih =>
    exact .bind (Engine.asks_answer hcall ha.1) fun reply => ih reply (ha.2 reply)
  | look next ih => exact .bind .get fun e => ih e.unwritten (ha e.unwritten)
  | change f next ih => exact .bind (.modify fun _ => rfl) fun _ => ih ha

/-- However deep callbacks nest, they ask for no more than the script and the programs do. -/
theorem Script.AsksOnly.ask {script : Script H H} (hs : script.AsksOnly P)
    (hP : ∀ name, P (.acknowledge name)) (rounds depth : Nat) :
    (script.callbacks rounds depth).Ask P := by
  induction depth with
  | zero => exact ⟨fun _ _ _ => .failure, fun _ _ => .failure, fun _ => .failure, fun _ => .failure⟩
  | succ depth ih =>
    refine ⟨fun f args c => ?_, fun l name => (hs.listener l name).asks ih,
      fun t => (hs.task t).asks ih, fun s => (hs.pump s).asks ih⟩
    cases f with
    | builtin b => exact Engine.asks_builtin ih hP b args
    | host f => exact (hs.native f args c).asks ih

/-- The requests of the moves in order, each of them followed by those that it has led to. -/
inductive Unfolds (P : Request H → Prop) : List (Move H) → List (Request H) → Prop
  | nil : Unfolds P [] []
  | asked (r : Request H) {inner : List (Request H)} (hinner : ∀ r' ∈ inner, P r')
      {moves : List (Move H)} {log : List (Request H)} (h : Unfolds P moves log) :
      Unfolds P (.asked r :: moves) (r :: (inner ++ log))
  | changed (before after : H.State) {moves : List (Move H)} {log : List (Request H)}
      (h : Unfolds P moves log) : Unfolds P (.changed before after :: moves) log

theorem Action.Goes.unfolds {call : Callbacks H} (hcall : call.Ask P) {a : Action H α}
    {e e' : Engine H} {moves : List (Move H)} {x : α} (h : a.Goes call e moves x e') :
    ∃ log, Unfolds P moves log ∧ e'.queues = e.queues.after log := by
  induction h with
  | pure => exact ⟨[], .nil, rfl⟩
  | request hr _ ih =>
    obtain ⟨inner, hinner, hqueues⟩ := Engine.answer_log hcall hr
    obtain ⟨log, hlog, hrest⟩ := ih
    refine ⟨_, .asked _ hinner hlog, ?_⟩
    rw [hrest, hqueues, ← Directory.after_append]
    rfl
  | look _ ih => exact ih
  | change _ ih =>
    obtain ⟨log, hlog, hrest⟩ := ih
    exact ⟨log, .changed _ _ hlog, hrest⟩

end LiveExpr
