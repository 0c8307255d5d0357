import LiveExpr.Proofs.Histories
import LiveExpr.Proofs.PureRefreshes
import LiveExpr.Proofs.Quiescence
import Mathlib

/-!
What a refresh reports. It reads the eager expressions without a stored value one after
the other, and compares each answer with the value that the last completed evaluation of
the expression had. An evaluation that fails is not compared with later, and an
expression that is gone when its turn comes is always reported.
-/
namespace LiveExpr

variable {H : Host}

/-- The evaluation that the read has completed. -/
def Answer.completed? : Answer → Option Evaluation
  | .ran (.ok v) => some v
  | _ => none

def Entry.reading? (x : Handle) : Entry H → Option Answer
  | .read h a => if h = x then some a else none
  | _ => none

/-- The answers to the reads of an expression, newest first. -/
def readings (x : Handle) (log : List (Entry H)) : List Answer :=
  log.filterMap (Entry.reading? x)

theorem completions_eq (x : Handle) (log : List (Entry H)) :
    completions x log = (readings x log).filterMap Answer.completed? := by
  rw [completions, readings, List.filterMap_filterMap]
  congr 1
  funext entry
  cases entry with
  | read h a =>
    by_cases hx : h = x
    · rcases a with _ | _ | _ | _ <;>
        simp [Entry.completion?, Entry.reading?, hx, Answer.completed?]
    · rcases a with _ | _ | _ | _ <;> simp [Entry.completion?, Entry.reading?, hx]
  | put => rfl
  | popped => rfl

/-- One read of a refresh, with the engine and the log that it finds. -/
structure Visit (H : Host) where
  handle : Handle
  before : Engine H
  log : List (Entry H)
  answer : Answer

/-- Reads one after the other, each under the log of those before it. -/
inductive Visits (call : Callbacks H) (w : List Ticket) :
    List (Entry H) → Engine H → List (Visit H) → Engine H → Prop
  | nil {log e} : Visits call w log e [] e
  | cons {log e h a e' new visits e''}
      (hread : (Engine.read call h .empty).run e = some (a.value, e'))
      (hcourse : Course .listing ⟨e, w⟩ (.read h a :: new) ⟨e', w⟩)
      (hrest : Visits call w (Entry.read h a :: new ++ log) e' visits e'') :
      Visits call w log e (⟨h, e, log, a⟩ :: visits) e''

namespace Visit

def bound (visit : Visit H) : Bool := visit.before.store.contains visit.handle

/-- The last evaluation of the expression that was completed before. -/
def last (visit : Visit H) : Option Evaluation := (completions visit.handle visit.log).head?

/-- The answer to the most recent earlier read of the expression. -/
def previous (visit : Visit H) : Option Answer := (readings visit.handle visit.log).head?

/-- The expression is gone, or its last completed evaluation had another value, or there is none. -/
def reported (visit : Visit H) : Bool :=
  !visit.bound || Engine.differs (visit.last.map Evaluation.value) visit.answer.value

theorem reported_eq (visit : Visit H) {w : List Ticket}
    (h : History visit.log ⟨visit.before, w⟩) :
    visit.reported = Engine.differs
      ((visit.before.store.get? visit.handle).bind Cache.shown) visit.answer.value := by
  unfold reported bound Store.contains
  cases hc : visit.before.store.get? visit.handle with
  | none => rfl
  | some c => rw [last, ← (h.recorded hc).shown]; rfl

/-- When the most recent earlier read has completed an evaluation, that is the last one. -/
theorem last_of_previous {visit : Visit H} {v : Evaluation}
    (h : visit.previous = some (.ran (.ok v))) : visit.last = some v := by
  obtain ⟨rest, hreadings⟩ := List.head?_eq_some_iff.mp h
  rw [last, completions_eq, hreadings]
  rfl

/-- A bound expression is reported for another value than that of the last completed evaluation. -/
theorem reported_of_last {visit : Visit H} (hb : visit.bound = true) {v : Value}
    (h : visit.last.map Evaluation.value = some v) :
    visit.reported = !(v == visit.answer.value) := by
  rw [reported, hb, h]
  rfl

end Visit

/-- The log of each visit is that of the engine it finds. -/
theorem Visits.history {call : Callbacks H} {log : List (Entry H)} {w : List Ticket}
    {e e' : Engine H} {visits : List (Visit H)} (hvisits : Visits call w log e visits e')
    (h : History log ⟨e, w⟩) : ∀ visit ∈ visits, History visit.log ⟨visit.before, w⟩ := by
  induction hvisits with
  | nil => exact nofun
  | cons hread hcourse hrest ih =>
    rintro visit (_ | ⟨_, hmem⟩)
    · exact h
    · exact ih (h.course hcourse) visit hmem

namespace Engine

variable {log : List (Entry H)} {w : List Ticket} {e e' : Engine H} {call : Callbacks H}

theorem refreshAll_visits (hcall : call.Keeps Terms.listing.regime) {handles changed : List Handle}
    (h : History log ⟨e, w⟩) (hrun : (refreshAll call handles).run e = some (changed, e')) :
    ∃ visits, Visits call w log e visits e' ∧ visits.map Visit.handle = handles ∧
      changed = (visits.filter Visit.reported).map Visit.handle := by
  induction handles generalizing log e changed with
  | nil =>
    cases hrun
    exact ⟨[], .nil, rfl, rfl⟩
  | cons x rest ih =>
    unfold refreshAll at hrun
    rw [run_get_bind, StateT.run_bind] at hrun
    obtain ⟨⟨v, e₂⟩, hread, hrest⟩ := Option.bind_eq_some_iff.mp hrun
    rw [StateT.run_bind] at hrest
    obtain ⟨⟨changed', e₃⟩, hreads, hdone⟩ := Option.bind_eq_some_iff.mp hrest
    cases hdone
    -- What the program did before the answer came belongs to the history of the visits after it.
    obtain ⟨e₁, a, hevolved, hdeed, rfl, -⟩ := read_evolved hcall h.sound hread
    obtain ⟨new, hcourse⟩ := hevolved.course
    have hwhole : Course .listing ⟨e, w⟩ (.read x a :: new) ⟨e₂, w⟩ := hcourse.tail hdeed
    obtain ⟨visits, hvisits, hhandles, hchanged⟩ := ih (h.course hwhole) hreads
    refine ⟨⟨x, e, log, a⟩ :: visits, .cons hread hwhole hvisits, by simp [hhandles], ?_⟩
    have hreported := Visit.reported_eq ⟨x, e, log, a⟩ h
    dsimp only at hreported ⊢
    rw [← hreported, List.filter_cons]
    split
    · rw [List.map_cons, ← hchanged]
    · exact hchanged

end Engine

/-- A refresh reads the eager expressions without a value, and reports those that are gone or whose
value is not that of their last completed evaluation. That is the value of the most recent read
when this read completed an evaluation, or was given the value of the last one from store. With
nothing to do but compute, a second refresh reports what fails. -/
theorem History.refresh_reports {log : List (Entry H)} {e : Engine H} {w : List Ticket}
    (h : History log ⟨e, w⟩) (script : Script H H) (rounds depth : Nat) :
    (∀ x, x ∈ e.store.staleHandles ↔
      ∃ c, e.store.get? x = some c ∧ c.mode = .eager ∧ c.value = none) ∧
    (∀ changed e', (Engine.refresh (script.callbacks rounds depth)).run e = some (changed, e') →
      ∃ visits, Visits (script.callbacks rounds depth) w log e visits e' ∧
        visits.map Visit.handle = e.store.staleHandles ∧
        changed = (visits.filter Visit.reported).map Visit.handle ∧
        ∀ visit ∈ visits,
          answers visit.before.journal = visit.log.filterMap Entry.answer? ∧
          (visit.bound = true →
            (∀ v, visit.previous = some (.ran (.ok v)) →
              visit.reported = !(v.value == visit.answer.value)) ∧
            ∀ v, visit.previous = some (.stored v) → visit.last.map Evaluation.value = some v →
              visit.reported = !(v == visit.answer.value))) ∧
    (e.Steady script →
      ∃ changed e₁ again e₂,
        (Engine.refresh (script.callbacks rounds (depth + 1))).run e = some (changed, e₁) ∧
        (Engine.refresh (script.callbacks rounds (depth + 1))).run e₁ = some (again, e₂) ∧
        ∀ x, x ∈ again ↔ ∃ c fault, e.store.get? x = some c ∧ c.mode = .eager ∧
          c.value = none ∧ script.outcome e.registry e.limits c.program = .error fault ∧
          Engine.differs c.shown .unset = true) := by
  refine ⟨fun _ => Store.mem_staleHandles, fun changed e' hrun => ?_, Engine.refresh_twice _ _⟩
  obtain ⟨visits, hvisits, hhandles, hchanged⟩ :=
    Engine.refreshAll_visits (script.keeps_listing rounds depth) h hrun
  refine ⟨visits, hvisits, hhandles, hchanged, fun visit hmem => ?_⟩
  have hlog := (hvisits.history h visit hmem).answers_journal
  refine ⟨hlog, fun hb => ⟨fun v hv => ?_, fun v _ hv => ?_⟩⟩
  · exact Visit.reported_of_last hb (by rw [Visit.last_of_previous hv]; rfl)
  · exact Visit.reported_of_last hb hv

namespace Mirror

/-- What the native computes. -/
def echo : Native Mirror → List Value → Value
  | .builtin _, _ => .unset
  | .host _, args => args.headD .unset

theorem computes_echo (f : Unit) : ∃ g, script.Computes f g :=
  ⟨fun args => args.headD .unset, fun _ _ => .pure⟩

theorem value_eq_echo : script.value = echo := by
  funext f args
  cases f with
  | builtin b => rfl
  | host f =>
    have hreturns := Script.computes_value (computes_echo f) args .empty
    generalize script.value (.host f) args = v at hreturns ⊢
    cases hreturns
    rfl

def failing : Program := ⟨Instruction.encode .pop, 2⟩

/-- Binds an expression that calls a function of the user, and one whose program fails. -/
def polling : Action Mirror Unit := do
  Action.ask (.registerNative "Echo" () false)
  Action.ask (.registerUser "A" (quoting "old" 1))
  let _ ← Action.ask (.bind program .eager)
  let _ ← Action.ask (.bind failing .eager)

def echoed : Evaluation := ⟨.text "old", ["A", "Echo"], true⟩

/-- The native is called nondeterministic, so that no value is stored. -/
def unsettled : Cache :=
  { Cache.create program .eager with
    shown := some (.text "old")
    volatile := true
    watches := [("A", ⟨.engine, 0⟩), ("Echo", ⟨.engine, 1⟩)] }

def polled : Engine Mirror :=
  let watchingA := (Bus.empty.subscribe .engine "A" .invalidate (.cache ⟨0, 0⟩)).2
  { Engine.create .standard () with
    journal := .answered ⟨1, 0⟩ .unset :: .ran ⟨1, 0⟩ :: .answered ⟨0, 0⟩ (.text "old") ::
      .ran ⟨0, 0⟩ :: (fired "A" [] ++ fired "Echo" [])
    bus := (watchingA.subscribe .engine "Echo" .invalidate (.cache ⟨0, 0⟩)).2
    registry := ⟨Engine.builtins ++
      [("Echo", .native (.host ()) false), ("A", .user (quoting "old" 1))]⟩
    store := ⟨[⟨0, some unsettled⟩, ⟨0, some (.create failing .eager)⟩], []⟩ }

/-- The same after one more read of the first expression. -/
def reread : Engine Mirror :=
  (polled.conclude ⟨0, 0⟩ 0 (.ok echoed)).note (.answered ⟨0, 0⟩ (.text "old"))

theorem outcome_program :
    script.outcome reread.registry .standard program = .ok echoed := by
  unfold Script.outcome
  rw [value_eq_echo]
  cbv

theorem outcome_failing (r : Registry (Native Mirror)) :
    script.outcome r .standard failing = .error ⟨0, .stackUnderflow⟩ := by
  unfold Script.outcome
  cbv

theorem callsPure_program : script.CallsPure reread.registry .standard program := by
  have hcalled : Dependencies.called script.value .standard program [] reread.registry =
      ["A", "Echo"] := by
    rw [value_eq_echo]
    cbv
  intro name hname f deterministic hf
  rw [hcalled] at hname
  obtain rfl | rfl : name = "A" ∨ name = "Echo" := by simpa using hname
  · have huser : reread.registry.resolve "A" = .user (quoting "old" 1) := by cbv
    rw [huser] at hf
    cases hf
  · have hnative : reread.registry.resolve "Echo" = .native (.host ()) false := by cbv
    rw [hnative] at hf
    cases hf
    exact computes_echo ()

theorem callsPure_failing (r : Registry (Native Mirror)) : script.CallsPure r .standard failing := by
  have hcalled : Dependencies.called script.value .standard failing [] r = [] := by
    cbv
  intro name hname
  rw [hcalled] at hname
  exact absurd hname List.not_mem_nil

theorem staleHandles_reread : reread.store.staleHandles = [⟨0, 0⟩, ⟨1, 0⟩] := by
  cbv

theorem steady_reread : reread.Steady script where
  pure := by
    intro x hx c hc
    rw [staleHandles_reread] at hx
    obtain rfl | rfl : x = ⟨0, 0⟩ ∨ x = ⟨1, 0⟩ := by simpa using hx
    · cases hc
      exact callsPure_program
    · cases hc
      exact callsPure_failing _
  self := by
    intro x hx c hc v hv
    rw [staleHandles_reread] at hx
    obtain rfl | rfl : x = ⟨0, 0⟩ ∨ x = ⟨1, 0⟩ := by simpa using hx
    · cases hc
      cases outcome_program.symm.trans hv
      rfl
    · cases hc
      cases (outcome_failing _).symm.trans hv

theorem history_reread :
    ∃ log, History (.read ⟨0, 0⟩ (.ran (.ok echoed)) :: log) ⟨reread, []⟩ := by
  have hrun : (polling.run (script.callbacks 2 3)).run (.create .standard ()) =
      some ((), polled) := by
    cbv
  obtain ⟨log, hpolled⟩ := (history_create (H := Mirror) .standard ()).action script hrun
  have hread : Deed .listing ⟨polled, []⟩ [.read ⟨0, 0⟩ (.ran (.ok echoed))] ⟨reread, []⟩ :=
    .ran 0 (Store.issued_of_get? (c := unsettled) rfl) fun v hv c _ => by
      cases hv
      show ["A", "Echo"].Nodup
      decide
  exact ⟨_, hpolled.course (.single hread)⟩

/-- The value of the first expression has not changed since the last read, and it is not reported.
The program of the other fails, which is reported each time. -/
theorem refresh_reports_failing :
    ∃ log visit visits e₁ again e₂,
      Visits (script.callbacks 2 3) [] log reread (visit :: visits) e₁ ∧
      visit.handle = ⟨0, 0⟩ ∧ visit.previous = some (.ran (.ok echoed)) ∧
      visit.reported = false ∧
      (Engine.refresh (script.callbacks 2 3)).run e₁ = some (again, e₂) ∧
      ∀ x, x ∈ again ↔ x = ⟨1, 0⟩ := by
  obtain ⟨log, hlog⟩ := history_reread
  obtain ⟨-, -, htwice⟩ := History.refresh_reports hlog script 2 2
  obtain ⟨changed, e₁, again, e₂, hrun, hrerun, hagain⟩ := htwice steady_reread
  obtain ⟨-, hvisits, -⟩ := History.refresh_reports hlog script 2 3
  obtain ⟨visits, hvisits, hhandles, -, hreported⟩ := hvisits changed e₁ hrun
  rw [staleHandles_reread] at hhandles
  cases hvisits with
  | nil => cases hhandles
  | @cons _ _ x a e' new visits _ hread hcourse hrest =>
    obtain rfl : x = ⟨0, 0⟩ := (List.cons.inj hhandles).1
    have hvalue : ((Engine.read (script.callbacks 2 3) ⟨0, 0⟩ .empty).run reread).map Prod.fst =
        some (.text "old") := by
      cbv
    rw [hread] at hvalue
    obtain ⟨-, hbound⟩ := hreported ⟨⟨0, 0⟩, reread, _, a⟩ List.mem_cons_self
    have hunchanged := (hbound rfl).1 echoed rfl
    refine ⟨_, _, visits, e₁, again, e₂, .cons hread hcourse hrest, rfl, rfl, ?_, hrerun,
      fun x => ?_⟩
    · rw [hunchanged, show a.value = .text "old" from Option.some_inj.mp hvalue]
      rfl
    · rw [hagain]
      constructor
      · rintro ⟨c, fault, hc, hmode, hv, hfault, -⟩
        have hx := Store.mem_staleHandles.mpr ⟨c, hc, hmode, hv⟩
        rw [staleHandles_reread] at hx
        obtain rfl | rfl : x = ⟨0, 0⟩ ∨ x = ⟨1, 0⟩ := by simpa using hx
        · cases hc
          cases outcome_program.symm.trans hfault
        · rfl
      · rintro rfl
        exact ⟨_, _, rfl, rfl, rfl, outcome_failing _, rfl⟩

/-- The engine after an expression has been bound whose program fails. -/
def failed : Engine Mirror :=
  { Engine.create .standard () with
    journal := [.answered ⟨0, 0⟩ .unset, .ran ⟨0, 0⟩]
    store := ⟨[⟨0, some (.create failing .eager)⟩], []⟩ }

/-- The only read so far was unset and so are all that follow, as there is nothing that could
change. Both refreshes report the expression nevertheless. -/
theorem refresh_repeats_unset :
    ∃ e e₁ e₂ : Engine Mirror, script.Reaches e ∧ e.Steady script ∧
      answers e.journal = [(⟨0, 0⟩, .unset)] ∧
      (Engine.refresh (script.callbacks 2 3)).run e = some ([⟨0, 0⟩], e₁) ∧
      answers e₁.journal = [(⟨0, 0⟩, .unset), (⟨0, 0⟩, .unset)] ∧
      e₁.store.contains ⟨0, 0⟩ = true ∧ (Value.unset == Value.unset) = true ∧
      (Engine.refresh (script.callbacks 2 3)).run e₁ = some ([⟨0, 0⟩], e₂) := by
  let e₁ : Engine Mirror :=
    { failed with journal := .answered ⟨0, 0⟩ .unset :: .ran ⟨0, 0⟩ :: failed.journal }
  have hbind : ((Action.ask (.bind failing .eager)).run (script.callbacks 2 3)).run
      (.create .standard ()) = some (⟨0, 0⟩, failed) := by
    cbv
  have hcreated : script.Reaches (.create .standard ()) := .created (H := Mirror) .standard ()
  have hallowed : (Action.ask (.bind failing .eager)).AsksOnly script.Sincere :=
    ⟨trivial, fun _ => trivial⟩
  have hsteady : failed.Steady script := by
    refine ⟨fun x hx c hc => ?_, fun x hx c hc v hv => ?_⟩
    all_goals
      rw [show failed.store.staleHandles = [⟨0, 0⟩] by cbv, List.mem_singleton] at hx
      subst hx
      cases hc
    · exact callsPure_failing _
    · cases (outcome_failing _).symm.trans hv
  refine ⟨failed, e₁, { e₁ with journal := .answered ⟨0, 0⟩ .unset :: .ran ⟨0, 0⟩ :: e₁.journal },
    hcreated.operated hallowed hbind, hsteady, rfl, ?_, rfl, rfl, rfl, ?_⟩
  · cbv
  · cbv

end Mirror

end LiveExpr
