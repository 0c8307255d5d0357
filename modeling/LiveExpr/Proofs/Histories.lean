import LiveExpr.Proofs.Reachability
import LiveExpr.Proofs.Sessions

/-!
Engines together with the log of all that has been done to them, under a host of which
nothing is known. The log determines what an expression remembers: the value that it
shows is that of the last completed evaluation, and it depends on the names that its
completed evaluations list.
-/
namespace LiveExpr

variable {H : Host}

/-- Nothing is known of natives. Evaluations list each name that they called once. -/
def Terms.listing : Terms H where
  binds _ := True
  completes _ _ _ v := v.dependencies.Nodup
  unbound := trivial
  user _ := trivial
  nondeterministic _ := trivial

theorem Action.asksOnly_listing {α : Type} (a : Action H α) :
    a.AsksOnly (Terms.listing : Terms H).Allows := a.asksOnly_any

theorem Script.keeps_listing (script : Script H H) (rounds depth : Nat) :
    (script.callbacks rounds depth).Keeps Terms.listing.regime :=
  callbacks_keep
    ⟨fun _ _ _ => Action.asksOnly_listing _, fun _ _ => Action.asksOnly_listing _,
      fun _ => Action.asksOnly_listing _, fun _ => Action.asksOnly_listing _⟩
    (fun _ hrun => Engine.evaluate_nodup hrun) depth

/-- The log, newest first, of what has been done to a new engine by this moment. -/
def History (log : List (Entry H)) (m : Moment H) : Prop :=
  ∃ limits host, Course .listing ⟨.create limits host, []⟩ log m

variable {log log' entries : List (Entry H)} {m m' : Moment H} {x : Handle} {c' : Cache}

theorem history_create (limits : Limits) (host : H.State) :
    History [] ⟨.create limits host, []⟩ := ⟨limits, host, .refl⟩

namespace History

theorem sound (h : History log m) : Sound .listing m := by
  obtain ⟨limits, host, hcourse⟩ := h
  exact (sound_create limits host).steps hcourse.steps

theorem course (h : History log m) (hc : Course .listing m log' m') : History (log' ++ log) m' := by
  obtain ⟨limits, host, hcourse⟩ := h
  exact ⟨limits, host, hcourse.trans hc⟩

/-- The log has all answers that the journal has. -/
theorem answers_journal (h : History log m) :
    answers m.engine.journal = log.filterMap Entry.answer? := by
  obtain ⟨limits, host, hcourse⟩ := h
  rw [hcourse.answers]
  exact List.append_nil _

theorem evolved {e e' : Engine H} {w : List Ticket} (h : History log ⟨e, w⟩)
    (he : Evolved Terms.listing.regime w e e') : ∃ log', History (log' ++ log) ⟨e', w⟩ := by
  obtain ⟨log', hcourse⟩ := he.course
  exact ⟨log', h.course hcourse⟩

/-- What the host's own code does to an engine is in the log. -/
theorem action {α : Type} {e e' : Engine H} {w : List Ticket} (h : History log ⟨e, w⟩)
    (script : Script H H) {rounds depth : Nat} {a : Action H α} {x : α}
    (hrun : (a.run (script.callbacks rounds depth)).run e = some (x, e')) :
    ∃ log', History (log' ++ log) ⟨e', w⟩ :=
  h.evolved ((from_action (script.keeps_listing rounds depth) a.asksOnly_listing e).evolved h.sound
    hrun)

/-- What can be said of every entry of the log and what it did. -/
theorem induction {P : List (Entry H) → Moment H → Prop}
    (hcreate : ∀ limits host, P [] ⟨.create limits host, []⟩)
    (hdeed : ∀ {log entries m m'}, History log m → Deed .listing m entries m' → P log m →
      P (entries ++ log) m') (h : History log m) : P log m := by
  obtain ⟨limits, host, hcourse⟩ := h
  induction hcourse with
  | refl => exact hcreate limits host
  | tail hcourse hd ih => exact hdeed ⟨limits, host, hcourse⟩ hd ih

end History

/-- The evaluation of the expression that an entry says has been completed. -/
def Entry.completion? (x : Handle) : Entry H → Option Evaluation
  | .read h (.ran (.ok v)) => if h = x then some v else none
  | _ => none

/-- The completed evaluations of an expression, newest first. -/
def completions (x : Handle) (log : List (Entry H)) : List Evaluation :=
  log.filterMap (Entry.completion? x)

theorem completions_append (x : Handle) (log' log : List (Entry H)) :
    completions x (log' ++ log) = completions x log' ++ completions x log := List.filterMap_append

theorem completions_cons_ok (x : Handle) (v : Evaluation) (log : List (Entry H)) :
    completions x (.read x (.ran (.ok v)) :: log) = v :: completions x log := by
  simp [completions, Entry.completion?]

/-- A deed leaves the cache as it was, or drops its value, or the cache is new, or an evaluation of
the expression has been completed. -/
theorem Deed.cache_cases {terms : Terms H} (h : Deed terms m entries m') (hm : Sound terms m)
    (hc' : m'.engine.store.get? x = some c') :
    (completions x entries = [] ∧
      ∃ c, m.engine.store.get? x = some c ∧ (c' = c ∨ c' = c.invalidate)) ∨
    (¬ m.engine.store.Issued x ∧ completions x entries = [] ∧ ∃ p mode, c' = .create p mode) ∨
    ∃ c began v, m.engine.store.get? x = some c ∧ completions x entries = [v] ∧
      terms.completes m.engine.registry m.engine.limits c.program v ∧
      c' = Engine.completed x began v c m.engine.bus := by
  cases h with
  | went hstep hq hj =>
    have hm' : Sound terms.unread m := ⟨hm.tied, hm.binds, hm.idle⟩
    rcases hstep.cache_cases hm' hc' with hc | ⟨c, hc, rfl⟩ | hnew | ⟨c, began, v, hc, hv, -⟩
    · exact Or.inl ⟨rfl, c', hc, Or.inl rfl⟩
    · exact Or.inl ⟨rfl, c, hc, Or.inr rfl⟩
    · exact Or.inr (Or.inl ⟨hnew.1, rfl, hnew.2⟩)
    · exact hv.elim
  | opened => exact Or.inl ⟨rfl, c', hc', Or.inl rfl⟩
  | put => exact Or.inl ⟨rfl, c', hc', Or.inl rfl⟩
  | popped => exact Or.inl ⟨rfl, c', hc', Or.inl rfl⟩
  | unknown => exact Or.inl ⟨rfl, c', hc', Or.inl rfl⟩
  | found => exact Or.inl ⟨rfl, c', hc', Or.inl rfl⟩
  | @ran e w h began outcome hi hv =>
    cases outcome with
    | error fault => exact Or.inl ⟨rfl, c', hc', Or.inl rfl⟩
    | ok v =>
      rcases Engine.complete_cases hc' with ⟨hx, hc⟩ | ⟨rfl, c, hc, hcompleted⟩
      · refine Or.inl ⟨?_, c', hc, Or.inl rfl⟩
        simp [completions, Entry.completion?, Ne.symm hx]
      · exact Or.inr (Or.inr ⟨c, began, v, hc, completions_cons_ok x v [], hv v rfl c hc, hcompleted⟩)

/-- Only programs of expressions are run, bound ones or such as have been unbound since. -/
theorem Deed.issued {terms : Terms H} (h : Deed terms m entries m')
    (hv : completions x entries ≠ []) : m.engine.store.Issued x := by
  cases h with
  | @ran e w h began outcome hi hok =>
    by_cases hx : h = x
    · exact hx ▸ hi
    · refine (hv ?_).elim
      cases outcome <;> simp [completions, Entry.completion?, hx]
  | _ => exact (hv rfl).elim

theorem Steps.issued {terms : Terms H} (h : Steps terms m m') (hm : Sound terms m)
    (hi : m.engine.store.Issued x) : m'.engine.store.Issued x := by
  obtain ⟨d, hsince⟩ := h.since hm hi
  exact hsince.issued

theorem History.issued (h : History log m) (hv : completions x log ≠ []) :
    m.engine.store.Issued x := by
  refine h.induction (P := fun log m => completions x log ≠ [] → m.engine.store.Issued x)
    (fun _ _ hv => (hv rfl).elim) (fun {log entries m m'} h hd ih hv => ?_) hv
  refine hd.steps.issued h.sound ?_
  rw [completions_append] at hv
  cases hentries : completions x entries with
  | nil =>
    rw [hentries] at hv
    exact ih hv
  | cons v rest => exact hd.issued (by simp [hentries])

/-- What an expression remembers of its evaluations, the newest of which is the first. -/
structure Cache.Recorded (c : Cache) (evaluations : List Evaluation) : Prop where
  shown : c.shown = evaluations.head?.map Evaluation.value
  distinct : c.watches.keys.Nodup
  dependencies : ∀ name, name ∈ c.dependencies ↔ ∃ v ∈ evaluations, name ∈ v.dependencies

namespace Cache.Recorded

variable {c : Cache} {evaluations : List Evaluation}

theorem create (p : Program) (mode : Mode) : (Cache.create p mode).Recorded [] where
  shown := rfl
  distinct := List.nodup_nil
  dependencies := by simp [Cache.dependencies, Cache.create, Table.keys, Names.sorted]

theorem invalidate (h : c.Recorded evaluations) : c.invalidate.Recorded evaluations :=
  ⟨h.shown, h.distinct, h.dependencies⟩

theorem completed (h : c.Recorded evaluations) {v : Evaluation} (hv : v.dependencies.Nodup)
    (began : Nat) (b : Bus (Subscriber H)) :
    (Engine.completed x began v c b).Recorded (v :: evaluations) := by
  have hkeys : (Engine.completed x began v c b).watches.keys =
      c.watches.keys ++ Engine.unwatched c v := by
    show (c.watches ++ (Engine.watch x (Engine.unwatched c v) b).1).keys = _
    rw [Table.keys, List.map_append]
    exact congrArg (c.watches.keys ++ ·) (Engine.watch_keys ..)
  have hmem : ∀ name, name ∈ Engine.unwatched c v ↔
      name ∈ v.dependencies ∧ name ∉ c.watches.keys := by
    intro name
    rw [Engine.unwatched, List.mem_filter, Bool.not_eq_true', ← Bool.not_eq_true,
      Table.contains_iff]
  refine ⟨rfl, ?_, fun name => ?_⟩
  · rw [hkeys, List.nodup_append]
    refine ⟨h.distinct, hv.filter _, ?_⟩
    rintro name hold _ hnew rfl
    exact ((hmem name).mp hnew).2 hold
  · have hold := h.dependencies name
    rw [Cache.mem_dependencies] at hold
    rw [Cache.mem_dependencies, hkeys, List.mem_append, hmem]
    simp only [List.mem_cons, exists_eq_or_imp, ← hold]
    tauto

end Cache.Recorded

/-- What holds of every bound expression and its completed evaluations, if it holds of new ones and
is kept when the value is dropped or an evaluation is taken in. -/
theorem History.cache_induction {P : Cache → List Evaluation → Prop}
    (hcreate : ∀ p mode, P (.create p mode) [])
    (hinvalidate : ∀ {c evaluations}, P c evaluations → P c.invalidate evaluations)
    (hcompleted : ∀ {c evaluations} {v : Evaluation} (began : Nat) (b : Bus (Subscriber H)),
      v.dependencies.Nodup → P c evaluations →
        P (Engine.completed x began v c b) (v :: evaluations))
    (h : History log m) {c : Cache} (hc : m.engine.store.get? x = some c) :
    P c (completions x log) := by
  refine h.induction
    (P := fun log m => ∀ c, m.engine.store.get? x = some c → P c (completions x log))
    (fun _ _ c hc => by cases hc) (fun {log entries m m'} h hd ih c' hc' => ?_) c hc
  rw [completions_append]
  rcases hd.cache_cases h.sound hc' with ⟨hnone, c, hc, hc'⟩ | ⟨hnew, hnone, p, mode, rfl⟩ |
      ⟨c, began, v, hc, hentries, hv, rfl⟩
  · rw [hnone, List.nil_append]
    rcases hc' with rfl | rfl
    · exact ih _ hc
    · exact hinvalidate (ih _ hc)
  · have hlog : completions x log = [] := by
      by_contra hne
      exact hnew (h.issued hne)
    rw [hnone, hlog]
    exact hcreate p mode
  · rw [hentries]
    exact hcompleted began _ hv (ih _ hc)

theorem History.recorded (h : History log m) {c : Cache} (hc : m.engine.store.get? x = some c) :
    c.Recorded (completions x log) :=
  h.cache_induction (P := Cache.Recorded) .create .invalidate
    (fun began _ hv hrecorded => hrecorded.completed hv began _) hc

/-- The flag of an expression is that of its last completed evaluation. -/
theorem History.volatile_eq (h : History log m) {c : Cache}
    (hc : m.engine.store.get? x = some c) :
    c.volatile = (completions x log).head?.any Evaluation.volatile :=
  h.cache_induction
    (P := fun c evaluations => c.volatile = evaluations.head?.any Evaluation.volatile)
    (fun _ _ => rfl) (fun hflag => hflag) (fun _ _ _ _ => rfl) hc

end LiveExpr
