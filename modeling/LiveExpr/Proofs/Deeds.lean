import LiveExpr.Proofs.Lifetimes

/-!
What is done to the bound expressions and the queues of an engine, as a log. A deed is
an elementary transition or a read that is answered, and the log has an entry for every
read, every item that is appended to a queue and every removal of a front item. An
evaluation is taken in only when the read for which the program ran is answered.
-/
namespace LiveExpr

variable {H : Host}

/-- Where the answer to a read is from. -/
inductive Answer where
  | unbound
  | stored (v : Value)
  /-- The program has run for the read. -/
  | ran (outcome : Except Fault Evaluation)

def Answer.value : Answer → Value
  | .unbound => .unset
  | .stored v => v
  | .ran outcome => Engine.reading outcome

/-- An entry of the log. Queues go by their number. -/
inductive Entry (H : Host) where
  | read (h : Handle) (a : Answer)
  | put (n : Nat) (k : H.Kind) (item : H.Item k)
  | popped (n : Nat)

def Note.answer? : Note H → Option (Handle × Value)
  | .answered h v => some (h, v)
  | _ => none

/-- The answers to reads of which a part of the journal knows. -/
def answers (notes : List (Note H)) : List (Handle × Value) := notes.filterMap Note.answer?

theorem answers_append (notes notes' : List (Note H)) :
    answers (notes ++ notes') = answers notes ++ answers notes' := List.filterMap_append

def Entry.answer? : Entry H → Option (Handle × Value)
  | .read h a => some (h, a.value)
  | _ => none

def Note.ran? : Note H → Option Handle
  | .ran h => some h
  | _ => none

/-- The expressions whose programs have run for reads, as a part of the journal has it. -/
def programRuns (notes : List (Note H)) : List Handle := notes.filterMap Note.ran?

theorem programRuns_append (notes notes' : List (Note H)) :
    programRuns (notes ++ notes') = programRuns notes ++ programRuns notes' :=
  List.filterMap_append

def Entry.ran? : Entry H → Option Handle
  | .read h (.ran _) => some h
  | _ => none

/-- The same, but that no evaluation is taken in. -/
def Terms.unread (terms : Terms H) : Terms H := { terms with completes := fun _ _ _ _ => False }

variable {terms : Terms H} {m m' m'' : Moment H}

theorem Step.of_unread (h : Step terms.unread m m') : Step terms m m' := by
  cases h with
  | passed => exact .passed ..
  | noted hn => exact .noted hn
  | looked hr => exact .looked hr
  | alerted name => exact .alerted name
  | rebound hb => exact .rebound hb
  | rested hp => exact .rested hp
  | began hd hn => exact .began hd hn
  | called hs hn => exact .called hs hn
  | dropped hs ht => exact .dropped hs ht
  | skipped hs => exact .skipped hs
  | inserted p mode => exact .inserted p mode
  | unbound hc => exact .unbound hc
  | subscribed name tier hn => exact .subscribed name tier hn
  | unsubscribed id => exact .unsubscribed id
  | completed h epoch hv => exact .completed h epoch fun c hc => (hv c hc).elim

inductive Deed (terms : Terms H) : Moment H → List (Entry H) → Moment H → Prop
  | went {m m' : Moment H} (h : Step terms.unread m m')
      (hq : m'.engine.queues.queues = m.engine.queues.queues)
      (hj : answers m'.engine.journal = answers m.engine.journal) : Deed terms m [] m'
  | opened {e w} (trigger : String) (k : H.Kind) (numbers : Table Nat) :
      Deed terms ⟨e, w⟩ []
        ⟨{ e with queues := ⟨e.queues.queues ++ [⟨k, .empty trigger⟩], numbers⟩ }, w⟩
  | put {e w n k content} (hn : e.queues.queues[n]? = some ⟨k, content⟩) (item : H.Item k) :
      Deed terms ⟨e, w⟩ [.put n k item]
        ⟨{ e with queues := e.queues.replace n ⟨k, content.put item⟩ }, w⟩
  | popped {e w n k content} (hn : e.queues.queues[n]? = some ⟨k, content⟩) :
      Deed terms ⟨e, w⟩ [.popped n]
        ⟨{ e with queues := e.queues.replace n ⟨k, content.pop.2⟩ }, w⟩
  | unknown {e w h} (hc : e.store.get? h = none) :
      Deed terms ⟨e, w⟩ [.read h .unbound] ⟨e.note (.answered h .unset), w⟩
  | found {e w h c v} (hc : e.store.get? h = some c) (hv : c.value = some v) :
      Deed terms ⟨e, w⟩ [.read h (.stored v)] ⟨e.note (.answered h v), w⟩
  | ran {e w h} (began : Nat) {outcome : Except Fault Evaluation} (hi : e.store.Issued h)
      (hv : ∀ v, outcome = .ok v → ∀ c, e.store.get? h = some c →
        terms.completes e.registry e.limits c.program v) :
      Deed terms ⟨e, w⟩ [.read h (.ran outcome)]
        ⟨(e.conclude h began outcome).note (.answered h (Engine.reading outcome)), w⟩

theorem Deed.steps {log : List (Entry H)} (h : Deed terms m log m') : Steps terms m m' := by
  have hpassed : ∀ {e : Engine H} {w} queues, Steps terms ⟨e, w⟩ ⟨{ e with queues }, w⟩ :=
    fun {e} {_} queues => .single (.passed queues e.mailbox e.sources e.host)
  cases h with
  | went h => exact .single h.of_unread
  | opened => exact hpassed _
  | put => exact hpassed _
  | popped => exact hpassed _
  | unknown => exact .single (.noted trivial)
  | found => exact .single (.noted trivial)
  | @ran e w h began outcome hi hv =>
    have hran : Step terms ⟨e, w⟩ ⟨e.note (.ran h), w⟩ := .noted trivial
    cases outcome with
    | error fault => exact .tail (.single hran) (.noted trivial)
    | ok v => exact .tail (.tail (.single hran) (.completed h began (hv v rfl))) (.noted trivial)

/-- Any number of deeds, with the log of them, newest first. -/
inductive Course (terms : Terms H) (m : Moment H) : List (Entry H) → Moment H → Prop
  | refl : Course terms m [] m
  | tail {m' m'' : Moment H} {log entries : List (Entry H)} (h : Course terms m log m')
      (hd : Deed terms m' entries m'') : Course terms m (entries ++ log) m''

namespace Course

variable {log log' : List (Entry H)}

theorem single (h : Deed terms m log m') : Course terms m log m' := by
  have hcourse := Course.refl.tail h
  rwa [List.append_nil] at hcourse

theorem trans (h : Course terms m log m') (h' : Course terms m' log' m'') :
    Course terms m (log' ++ log) m'' := by
  induction h' with
  | refl => exact h
  | tail _ hd ih =>
    rw [List.append_assoc]
    exact ih.tail hd

theorem steps (h : Course terms m log m') : Steps terms m m' := by
  induction h with
  | refl => exact .refl
  | tail _ hd ih => exact ih.trans hd.steps

end Course

theorem Engine.conclude_registry (e : Engine H) (x : Handle) (began : Nat)
    (outcome : Except Fault Evaluation) : (e.conclude x began outcome).registry = e.registry := by
  cases outcome with
  | error fault => rfl
  | ok v => exact complete_registry ..

theorem Engine.conclude_limits (e : Engine H) (x : Handle) (began : Nat)
    (outcome : Except Fault Evaluation) : (e.conclude x began outcome).limits = e.limits := by
  cases outcome with
  | error fault => rfl
  | ok v => exact complete_limits ..

/-- Of the end of a run the journal has a note, and perhaps one of the value that is stored. -/
theorem Engine.journal_conclude (e : Engine H) (h : Handle) (began : Nat)
    (outcome : Except Fault Evaluation) :
    (e.conclude h began outcome).journal = .ran h :: e.journal ∨
      ∃ v, (e.conclude h began outcome).journal = .stored h v :: .ran h :: e.journal := by
  cases outcome with
  | error fault => exact Or.inl rfl
  | ok v => exact ((e.note (.ran h)).complete_journal h began v).imp_right fun hj => ⟨_, hj⟩

theorem Engine.answers_conclude (e : Engine H) (h : Handle) (began : Nat)
    (outcome : Except Fault Evaluation) :
    answers (e.conclude h began outcome).journal = answers e.journal := by
  rcases e.journal_conclude h began outcome with hj | ⟨v, hj⟩
  · rw [hj]
    rfl
  · rw [hj]
    rfl

theorem Engine.programRuns_conclude (e : Engine H) (h : Handle) (began : Nat)
    (outcome : Except Fault Evaluation) :
    programRuns (e.conclude h began outcome).journal = h :: programRuns e.journal := by
  rcases e.journal_conclude h began outcome with hj | ⟨v, hj⟩
  · rw [hj]
    rfl
  · rw [hj]
    rfl

/-- The log has all answers that the journal has, in the same order. -/
theorem Deed.answers {log : List (Entry H)} (h : Deed terms m log m') :
    LiveExpr.answers m'.engine.journal =
      log.filterMap Entry.answer? ++ LiveExpr.answers m.engine.journal := by
  cases h with
  | went _ _ hj => exact hj
  | opened => rfl
  | put => rfl
  | popped => rfl
  | unknown => rfl
  | found => rfl
  | @ran e w h began outcome hi hv =>
    exact congrArg ((h, Engine.reading outcome) :: ·) (e.answers_conclude h began outcome)

/-- Where nothing is noted no program has run for a read. -/
theorem Deed.ran_nil {log : List (Entry H)} (h : Deed terms m log m')
    (hj : m'.engine.journal = m.engine.journal) : log.filterMap Entry.ran? = [] := by
  have hanswers := h.answers
  rw [hj] at hanswers
  have hnone := List.filterMap_eq_nil_iff.mp (List.append_left_eq_self.mp hanswers.symm)
  refine List.filterMap_eq_nil_iff.mpr fun entry hentry => ?_
  have hanswer := hnone entry hentry
  cases entry with
  | read h a => cases hanswer
  | put => rfl
  | popped => rfl

theorem Course.answers {log : List (Entry H)} (h : Course terms m log m') :
    LiveExpr.answers m'.engine.journal =
      log.filterMap Entry.answer? ++ LiveExpr.answers m.engine.journal := by
  induction h with
  | refl => rfl
  | tail _ hd ih => rw [hd.answers, ih, List.filterMap_append, List.append_assoc]

end LiveExpr
