import LiveExpr.Proofs.Reads
import LiveExpr.Proofs.Regimes

/-!
Runs are made of deeds and keep to a regime, provided that callbacks do. An operation
leaves the fan-out in progress, if there is one, where it is, and begins none itself as
long as one is in progress. Here it is shown of evaluations, and of all that is done with bound
expressions.
-/
namespace LiveExpr

variable {H : Host} {α β : Type}

/-- Notes of what leaves the fan-out in progress where it is. -/
def Note.Aside : Note H → Prop
  | .called _ _ => False
  | .fanOutBegan _ => False
  | .fanOutEnded _ => False
  | _ => True

def Note.firedName? : Note H → Option String
  | .fired name => some name
  | _ => none

/-- The names that were fired, in the order of the notes. -/
def firedNames (notes : List (Note H)) : List String := notes.filterMap Note.firedName?

theorem firedNames_append (notes notes' : List (Note H)) :
    firedNames (notes ++ notes') = firedNames notes ++ firedNames notes' := List.filterMap_append

/-- The journal has grown by notes of one sort, and what was fired has joined the line. -/
def Grown (P : Note H → Prop) (e e' : Engine H) : Prop :=
  ∃ notes, e'.journal = notes.reverse ++ e.journal ∧ (∀ n ∈ notes, P n) ∧
    e'.bus.pending = e.bus.pending ++ firedNames notes

namespace Grown

variable {P Q : Note H → Prop} {e e' e'' : Engine H}

theorem none (hj : e'.journal = e.journal) (hp : e'.bus.pending = e.bus.pending) :
    Grown P e e' :=
  ⟨[], hj, by simp, hp.trans (List.append_nil _).symm⟩

theorem one {n : Note H} (hn : P n) (hf : n.firedName? = Option.none)
    (hj : e'.journal = n :: e.journal) (hp : e'.bus.pending = e.bus.pending) : Grown P e e' :=
  ⟨[n], hj, by simpa using hn, by simp [firedNames, hf, hp]⟩

theorem trans (h : Grown P e e') (h' : Grown P e' e'') : Grown P e e'' := by
  obtain ⟨notes, hj, hn, hp⟩ := h
  obtain ⟨notes', hj', hn', hp'⟩ := h'
  refine ⟨notes ++ notes', ?_, fun n hmem => ?_, ?_⟩
  · rw [hj', hj, List.reverse_append, List.append_assoc]
  · exact (List.mem_append.mp hmem).elim (hn n) (hn' n)
  · rw [hp', hp, firedNames_append, List.append_assoc]

theorem mono (h : Grown P e e') (hPQ : ∀ n, P n → Q n) : Grown Q e e' := by
  obtain ⟨notes, hj, hn, hp⟩ := h
  exact ⟨notes, hj, fun n hmem => hPQ n (hn n hmem), hp⟩

end Grown

/-- What an operation does to an engine while a fan-out has yet to come to the subscriptions `w`. -/
structure Evolved (regime : Regime H) (w : List Ticket) (e e' : Engine H) : Prop where
  course : ∃ log, Course regime.terms ⟨e, w⟩ log ⟨e', w⟩
  path : regime.path ⟨e, w⟩ ⟨e', w⟩
  dispatching : e'.bus.dispatching = e.bus.dispatching
  /-- Amid a fan-out nobody is called. -/
  aside : e.bus.dispatching = true → Grown Note.Aside e e'

namespace Evolved

variable {regime : Regime H} {w : List Ticket} {e e' e'' : Engine H}

theorem steps (h : Evolved regime w e e') : Steps regime.terms ⟨e, w⟩ ⟨e', w⟩ := by
  obtain ⟨log, hcourse⟩ := h.course
  exact hcourse.steps

theorem refl (e : Engine H) : Evolved regime w e e where
  course := ⟨[], .refl⟩
  path := regime.refl _
  dispatching := rfl
  aside := fun _ => .none rfl rfl

theorem trans (h : Evolved regime w e e') (h' : Evolved regime w e' e'') :
    Evolved regime w e e'' where
  course := by
    obtain ⟨log, hcourse⟩ := h.course
    obtain ⟨log', hcourse'⟩ := h'.course
    exact ⟨log' ++ log, hcourse.trans hcourse'⟩
  path := regime.trans h.path h'.path
  dispatching := h'.dispatching.trans h.dispatching
  aside := fun hd => (h.aside hd).trans (h'.aside (h.dispatching.trans hd))

/-- A deed at the end of what has been done so far. -/
theorem deed {log : List (Entry H)} (h : Evolved regime w e e')
    (hdeed : Deed regime.terms ⟨e', w⟩ log ⟨e'', w⟩) (hr : Ensues ⟨e, w⟩ ⟨e', w⟩ log ⟨e'', w⟩)
    (ht : regime.Takes e' log) (hd : e''.bus.dispatching = e'.bus.dispatching)
    (hg : Grown Note.Aside e' e'') : Evolved regime w e e'' where
  course := by
    obtain ⟨log', hcourse⟩ := h.course
    exact ⟨log ++ log', hcourse.tail hdeed⟩
  path := regime.deed h.path hdeed hr ht
  dispatching := hd.trans h.dispatching
  aside := fun hdispatching => (h.aside hdispatching).trans hg

/-- A deed of which the journal says nothing. -/
theorem silent {log : List (Entry H)} (h : Deed regime.terms ⟨e, w⟩ log ⟨e', w⟩)
    (ho : e'.outside = e.outside)
    (he : ∀ name, e.registry.contains name = true → e'.registry.contains name = true)
    (ht : regime.Takes e log)
    (hb : e'.bus.dispatching = e.bus.dispatching ∧ e'.bus.pending = e.bus.pending)
    (hj : e'.journal = e.journal) : Evolved regime w e e' := by
  have hnone := h.ran_nil hj
  have hr : Ensues ⟨e, w⟩ ⟨e, w⟩ log ⟨e', w⟩ :=
    ⟨ho, he, by rw [hnone]; exact congrArg programRuns hj, by simp [hnone]⟩
  exact (refl e).deed h hr ht hb.1 (.none hj hb.2)

theorem step (h : Step regime.terms.unread ⟨e, w⟩ ⟨e', w⟩)
    (hq : e'.queues.queues = e.queues.queues) (ho : e'.outside = e.outside)
    (he : ∀ name, e.registry.contains name = true → e'.registry.contains name = true)
    (hb : e'.bus.dispatching = e.bus.dispatching ∧ e'.bus.pending = e.bus.pending)
    (hj : e'.journal = e.journal) : Evolved regime w e e' :=
  silent (.went h hq (congrArg answers hj)) ho he (regime.takes_nil _) hb hj

/-- Messages, sources and the host's own state may change at any time, if the regime allows it. -/
theorem passed {mailbox : Mailbox (Message H)} {sources : List H.Source} {host : H.State}
    (h : regime.path ⟨e, w⟩ ⟨{ e with mailbox, sources, host }, w⟩) :
    Evolved regime w e { e with mailbox, sources, host } where
  course := ⟨[], .single (.went (.passed ..) rfl rfl)⟩
  path := h
  dispatching := rfl
  aside := fun _ => .none rfl rfl

/-- A note of anything but a read. -/
theorem note {n : Note H} (hn : n.Aside) (hf : n.firedName? = none) (ha : n.answer? = none)
    (hr : n.ran? = none) : Evolved regime w e (e.note n) := by
  have hpassing : n.Passing := by
    cases n <;> trivial
  have hanswers : answers (e.note n).journal = answers e.journal := List.filterMap_cons_none ha
  have hruns : programRuns (e.note n).journal = programRuns e.journal :=
    List.filterMap_cons_none hr
  exact (refl e).deed (.went (.noted hpassing) rfl hanswers) (.plain rfl rfl rfl hruns)
    (regime.takes_nil _) rfl (.one hn hf rfl rfl)

/-- Amid a fan-out no other one begins. -/
theorem quiet (h : Evolved regime w e e') (hd : e.bus.dispatching = true) :
    ∃ d, e'.journal = d ++ e.journal ∧ ∀ name, .fanOutBegan name ∉ d := by
  obtain ⟨notes, hj, hn, -⟩ := h.aside hd
  exact ⟨notes.reverse, hj, fun name hmem => hn _ (List.mem_reverse.mp hmem)⟩

end Evolved

/-- Wherever the run comes to from a sound state, it has been made of steps. -/
structure From (regime : Regime H) (w : List Ticket) (m : Run H α) (e : Engine H) : Prop where
  evolved : Sound regime.terms ⟨e, w⟩ → ∀ {a e'}, m.run e = some (a, e') → Evolved regime w e e'

section From

variable {regime : Regime H} {w : List Ticket} {e : Engine H}

theorem from_pure (a : α) : From regime w (pure a : Run H α) e := by
  refine ⟨fun _ {_ _} h => ?_⟩
  cases h
  exact .refl e

theorem from_bind {m : Run H α} {f : α → Run H β} (hm : From regime w m e)
    (hf : ∀ {a e'}, Sound regime.terms ⟨e, w⟩ → m.run e = some (a, e') → From regime w (f a) e') :
    From regime w (m >>= f) e := by
  refine ⟨fun hs {b e''} h => ?_⟩
  rw [StateT.run_bind] at h
  obtain ⟨⟨a, e'⟩, hrun, hrest⟩ := Option.bind_eq_some_iff.mp h
  have hfirst := hm.evolved hs hrun
  exact hfirst.trans ((hf hs hrun).evolved (hs.steps hfirst.steps) hrest)

/-- A computation that only reads. -/
theorem from_read {m : Run H α} {f : α → Run H β} {a : α} (hm : m.run e = some (a, e))
    (hf : From regime w (f a) e) : From regime w (m >>= f) e := by
  refine ⟨fun hs {b e'} h => ?_⟩
  rw [StateT.run_bind, hm] at h
  exact hf.evolved hs h

theorem from_get {f : Engine H → Run H β} (hf : From regime w (f e) e) :
    From regime w (get >>= f) e := from_read rfl hf

theorem from_modify {g : Engine H → Engine H} (hg : Evolved regime w e (g e)) :
    From regime w (modify g : Run H Unit) e := by
  refine ⟨fun _ {_ _} h => ?_⟩
  cases h
  exact hg

theorem from_modify_bind {g : Engine H → Engine H} {f : Unit → Run H β}
    (hg : Evolved regime w e (g e)) (hf : From regime w (f ()) (g e)) :
    From regime w (modify g >>= f) e := by
  refine from_bind (from_modify hg) fun _ h => ?_
  cases h
  exact hf

end From

/-- What is asked of callbacks, and of the evaluations in which natives are called back. -/
structure Callbacks.Keeps (regime : Regime H) (call : Callbacks H) : Prop where
  native : ∀ f args c w e, From regime w (call.native f args c) e
  listener : ∀ l name w e, From regime w (call.listener l name) e
  task : ∀ t w e, From regime w (call.task t) e
  pump : ∀ s w e, From regime w (Engine.pumpSource call s) e
  completes : ∀ {p c e v e'}, (∀ name, regime.terms.binds (e.registry.resolve name)) →
    (Engine.evaluate call p [] c).run e = some (.ok v, e') →
      regime.terms.completes e'.registry e'.limits p v ∧ regime.completes e' p v

namespace Engine

variable {regime : Regime H} {call : Callbacks H} (hcall : call.Keeps regime) {w : List Ticket}

include hcall

theorem from_machine_call (c : Context) (limits : Limits) (s : Machine) (next : Nat)
    (name : String) (args : List Value) (e : Engine H) :
    From regime w (s.call (environment call c) limits next name args) e := by
  unfold Machine.call
  refine from_read (a := e.registry.resolve name) rfl ?_
  cases e.registry.resolve name with
  | unbound => exact from_pure _
  | native f deterministic =>
    exact from_bind (hcall.native f args c w e) fun _ _ => from_pure _
  | user p => exact from_pure _

theorem from_machine_run (c : Context) (limits : Limits) (steps : Nat) (s : Machine)
    (e : Engine H) : From regime w (s.run (environment call c) limits steps) e := by
  induction steps generalizing s e with
  | zero => exact from_pure _
  | succ steps ih =>
    have hstep : From regime w (s.step (environment call c) limits) e := by
      unfold Machine.step
      split
      · exact from_pure _
      · exact from_machine_call hcall ..
    refine from_bind hstep fun {p e'} _ _ => ?_
    cases p with
    | running t => exact ih t e'
    | finished outcome => exact from_pure _

theorem from_evaluate (p : Program) (args : List Value) (c : Context) (e : Engine H) :
    From regime w (evaluate call p args c) e :=
  from_get (from_machine_run hcall ..)

omit hcall in
/-- What a run of the program leaves behind for a read is noted aside. -/
theorem conclude_aside {e : Engine H} (ht : Tied e.bus e.store) (h : Handle) (began : Nat)
    (outcome : Except Fault Evaluation) :
    (e.conclude h began outcome).bus.dispatching = e.bus.dispatching ∧
      Grown Note.Aside e (e.conclude h began outcome) := by
  have hran : Grown Note.Aside e (e.note (.ran h)) :=
    .one (n := .ran h) trivial rfl rfl rfl
  cases outcome with
  | error fault => exact ⟨rfl, hran⟩
  | ok v =>
    have hb := complete_dispatching (e := e.note (.ran h)) ht h began v
    refine ⟨hb.1, hran.trans ?_⟩
    rcases (e.note (.ran h)).complete_journal h began v with hj | hj
    · exact .none hj hb.2
    · exact .one (n := .stored h v.value) trivial rfl hj hb.2

omit hcall in
theorem grown_answered (e : Engine H) (h : Handle) (v : Value) :
    Grown Note.Aside e (e.note (.answered h v)) := .one (n := .answered h v) trivial rfl rfl rfl

/-- A read comes to its answer and is answered with it. -/
theorem read_evolved {h : Handle} {c : Context} {v : Value} {e e' : Engine H}
    (hs : Sound regime.terms ⟨e, w⟩) (hrun : (read call h c).run e = some (v, e')) :
    ∃ e₁ a, Evolved regime w e e₁ ∧ Deed regime.terms ⟨e₁, w⟩ [.read h a] ⟨e', w⟩ ∧ a.value = v ∧
      Evolved regime w e e' := by
  cases hc : e.store.get? h with
  | none =>
    rw [read_unknown hc] at hrun
    cases hrun
    have hdeed : Deed regime.terms ⟨e, w⟩ [.read h .unbound] ⟨e.note (.answered h .unset), w⟩ :=
      .unknown hc
    have hr : Ensues ⟨e, w⟩ ⟨e, w⟩ [.read h .unbound] ⟨e.note (.answered h .unset), w⟩ :=
      .plain rfl rfl rfl rfl
    have ht : regime.Takes e [.read h .unbound] := by simp [Regime.Takes]
    exact ⟨e, _, .refl e, hdeed, rfl, (Evolved.refl e).deed hdeed hr ht rfl (grown_answered ..)⟩
  | some cache =>
    cases hv : cache.value with
    | some u =>
      rw [read_stored hc hv] at hrun
      cases hrun
      have hdeed : Deed regime.terms ⟨e, w⟩ [.read h (.stored v)] ⟨e.note (.answered h v), w⟩ :=
        .found hc hv
      have hr : Ensues ⟨e, w⟩ ⟨e, w⟩ [.read h (.stored v)] ⟨e.note (.answered h v), w⟩ :=
        .plain rfl rfl rfl rfl
      have ht : regime.Takes e [.read h (.stored v)] := by simp [Regime.Takes]
      exact ⟨e, _, .refl e, hdeed, rfl, (Evolved.refl e).deed hdeed hr ht rfl (grown_answered ..)⟩
    | none =>
      rw [read_missed hc hv] at hrun
      obtain ⟨⟨outcome, e₁⟩, heval, hfound⟩ := Option.map_eq_some_iff.mp hrun
      cases hfound
      have hevolved := (from_evaluate hcall ..).evolved hs heval
      obtain ⟨d, hsince⟩ := hevolved.steps.since hs (Store.issued_of_get? hc)
      -- Much may have happened while the program ran, but if the handle is bound, it is to this.
      have hcompletes : ∀ u, outcome = .ok u → ∀ c', e₁.store.get? h = some c' →
          regime.terms.completes e₁.registry e₁.limits c'.program u ∧
            regime.completes e₁ c'.program u := by
        rintro u rfl c' hc'
        rw [(hsince.kept hc hc').program]
        exact hcall.completes hs.binds heval
      have hdeed : Deed regime.terms ⟨e₁, w⟩ [.read h (.ran outcome)]
          ⟨(e₁.conclude h cache.epoch outcome).note (.answered h (reading outcome)), w⟩ :=
        .ran cache.epoch hsince.issued fun u hu c' hc' => (hcompletes u hu c' hc').1
      have ht : regime.Takes e₁ [.read h (.ran outcome)] := by
        intro h' u c' hmem hc'
        cases List.mem_singleton.mp hmem
        exact (hcompletes u rfl c' hc').2
      have hr : Ensues ⟨e, w⟩ ⟨e₁, w⟩ [.read h (.ran outcome)]
          ⟨(e₁.conclude h cache.epoch outcome).note (.answered h (reading outcome)), w⟩ := by
        refine ⟨outside_conclude .., fun name hname => ?_, programRuns_conclude .., fun x hx => ?_⟩
        · show (e₁.conclude h cache.epoch outcome).registry.contains name = true
          rw [conclude_registry]
          exact hname
        · obtain rfl := List.mem_singleton.mp hx
          exact ⟨cache, hc, hv⟩
      obtain ⟨hd, hg⟩ := conclude_aside (hs.steps hevolved.steps).tied h cache.epoch outcome
      exact ⟨e₁, _, hevolved, hdeed, rfl,
        hevolved.deed hdeed hr ht hd (hg.trans (grown_answered ..))⟩

theorem from_read_request (h : Handle) (c : Context) (e : Engine H) :
    From regime w (read call h c) e := by
  refine ⟨fun hs {_ _} hrun => ?_⟩
  obtain ⟨-, -, -, -, -, hevolved⟩ := read_evolved hcall hs hrun
  exact hevolved

theorem from_bind_request (p : Program) (mode : Mode) (e : Engine H) :
    From regime w (bind call p mode) e := by
  unfold bind
  refine from_get ?_
  have hstep : Step regime.terms.unread ⟨e, w⟩
      ⟨{ e with store := (e.store.insert (.create p mode)).2 }, w⟩ := .inserted p mode
  cases hi : e.store.insert (.create p mode) with
  | mk h store =>
    rw [hi] at hstep
    refine from_modify_bind (.step hstep rfl rfl (fun _ h => h) ⟨rfl, rfl⟩ rfl) ?_
    split
    · exact from_bind (from_read_request hcall ..) fun _ _ => from_pure _
    · exact from_pure _

theorem from_refreshAll (handles : List Handle) (e : Engine H) :
    From regime w (refreshAll call handles) e := by
  induction handles generalizing e with
  | nil => exact from_pure _
  | cons h rest ih =>
    unfold refreshAll
    refine from_get ?_
    refine from_bind (from_read_request hcall ..) fun {_ e'} _ _ => ?_
    refine from_bind (ih e') fun _ _ => ?_
    exact from_pure _

theorem from_refresh (e : Engine H) : From regime w (refresh call) e :=
  from_get (from_refreshAll hcall ..)

omit hcall in
theorem from_unbind (h : Handle) (e : Engine H) : From regime w (unbind h) e := by
  unfold unbind
  refine from_get ?_
  cases hc : e.store.get? h with
  | none =>
    have hremoved : e.store.remove h = (none, e.store) := by
      simp only [Store.remove, hc]
    rw [hremoved]
    exact from_pure _
  | some c =>
    have hremoved : e.store.remove h = (some c, (e.store.remove h).2) := by
      simp only [Store.remove, hc]
    rw [hremoved]
    refine from_modify_bind (.step (.unbound hc) rfl rfl (fun _ h => h) ?_ rfl) (from_pure _)
    exact unwatch_line c.watches e.bus

end Engine

end LiveExpr
