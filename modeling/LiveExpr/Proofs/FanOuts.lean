import LiveExpr.Proofs.Runs

/-!
Fires. A fan-out calls the subscriptions that were there when it began and still are,
one after the other, and the outermost fire works through the whole line. Any other
fire is over when it has joined the line.
-/
namespace LiveExpr

variable {H : Host}

/-- Notes of a fan-out of the name, after its beginning and before its end. -/
def Note.Within (name : String) : Note H → Prop
  | .called _ other => other = name
  | .fanOutBegan _ => False
  | .fanOutEnded _ => False
  | _ => True

/-- A part of a fan-out of the name. Nobody is called for another name. -/
structure Amid (regime : Regime H) (name : String) (m m' : Moment H) : Prop where
  course : ∃ log, Course regime.terms m log m'
  path : regime.path m m'
  dispatching : m'.engine.bus.dispatching = true
  within : Grown (Note.Within name) m.engine m'.engine

namespace Amid

variable {regime : Regime H} {name : String} {m m' m'' : Moment H}

theorem steps (h : Amid regime name m m') : Steps regime.terms m m' := by
  obtain ⟨log, hcourse⟩ := h.course
  exact hcourse.steps

theorem refl (hd : m.engine.bus.dispatching = true) : Amid regime name m m where
  course := ⟨[], .refl⟩
  path := regime.refl m
  dispatching := hd
  within := .none rfl rfl

theorem trans (h : Amid regime name m m') (h' : Amid regime name m' m'') :
    Amid regime name m m'' where
  course := by
    obtain ⟨log, hcourse⟩ := h.course
    obtain ⟨log', hcourse'⟩ := h'.course
    exact ⟨log' ++ log, hcourse.trans hcourse'⟩
  path := regime.trans h.path h'.path
  dispatching := h'.dispatching
  within := h.within.trans h'.within

/-- The turn of a subscription that has been removed. -/
theorem skipped {e : Engine H} {w w' : List Ticket} (hd : e.bus.dispatching = true)
    (hstep : Step regime.terms.unread ⟨e, w⟩ ⟨e, w'⟩) : Amid regime name ⟨e, w⟩ ⟨e, w'⟩ where
  course := ⟨[], .single (.went hstep rfl rfl)⟩
  path := regime.went (.went hstep rfl rfl) (.plain rfl rfl rfl rfl)
  dispatching := hd
  within := .none rfl rfl

theorem evolved {e e' : Engine H} {w : List Ticket} (hd : e.bus.dispatching = true)
    (h : Evolved regime w e e') : Amid regime name ⟨e, w⟩ ⟨e', w⟩ where
  course := h.course
  path := h.path
  dispatching := h.dispatching.trans hd
  within := (h.aside hd).mono fun n hn => by cases n <;> trivial

end Amid

/-- The turn of a subscription that is still there: it is called, which drops a stored value if it
is the subscription of an expression, and then something may happen. -/
structure Turned (regime : Regime H) (id : Ticket) (name : String) (w : List Ticket)
    (e e₁ e' : Engine H) : Prop where
  deed : Deed regime.terms ⟨e, id :: w⟩ [] ⟨e₁, w⟩
  outside : e₁.outside = e.outside
  registry : e₁.registry = e.registry
  bus : e₁.bus = e.bus
  journal : e₁.journal = .called id name :: e.journal
  evolved : Evolved regime w e₁ e'

theorem Turned.path {regime : Regime H} {id : Ticket} {name : String} {w : List Ticket}
    {e e₁ e' : Engine H} (h : Turned regime id name w e e₁ e') :
    regime.path ⟨e, id :: w⟩ ⟨e₁, w⟩ := by
  refine regime.went h.deed (.plain h.outside h.registry rfl ?_)
  show programRuns e₁.journal = programRuns e.journal
  rw [h.journal]
  rfl

theorem Turned.amid {regime : Regime H} {id : Ticket} {name : String} {w : List Ticket}
    {e e₁ e' : Engine H} (h : Turned regime id name w e e₁ e') (hd : e.bus.dispatching = true) :
    Amid regime name ⟨e, id :: w⟩ ⟨e', w⟩ := by
  have hd' : e₁.bus.dispatching = true := (congrArg Bus.dispatching h.bus).trans hd
  have hwithin : (Note.called id name : Note H).Within name := rfl
  have hcalled : Amid regime name ⟨e, id :: w⟩ ⟨e₁, w⟩ := by
    refine ⟨⟨_, .single h.deed⟩, h.path, hd', ?_⟩
    exact .one hwithin rfl h.journal (congrArg Bus.pending h.bus)
  exact hcalled.trans (.evolved hd' h.evolved)

/-- What the journal says of one fan-out. -/
structure FanOut (H : Host) where
  name : String
  /-- What is noted between the beginning and the end. -/
  body : List (Note H)
  within : ∀ n ∈ body, n.Within name

/-- All its notes, oldest first. -/
def FanOut.notes (f : FanOut H) : List (Note H) :=
  .fanOutBegan f.name :: f.body ++ [.fanOutEnded f.name]

theorem FanOut.firedNames_notes (f : FanOut H) : firedNames f.notes = firedNames f.body := by
  show firedNames (f.body ++ [.fanOutEnded f.name]) = _
  rw [firedNames_append]
  exact List.append_nil _

/-- The line has been worked through: one fan-out for each name that stood in it or joined it in the
meantime, in the order of the line. -/
structure Drained (regime : Regime H) (e e' : Engine H) : Prop where
  course : ∃ log, Course regime.terms ⟨e, []⟩ log ⟨e', []⟩
  path : regime.path ⟨e, []⟩ ⟨e', []⟩
  idle : e'.Idle
  fanOuts : ∃ fans : List (FanOut H),
    e'.journal = (fans.flatMap FanOut.notes).reverse ++ e.journal ∧
    fans.map FanOut.name = e.bus.pending ++ firedNames (fans.flatMap FanOut.notes)

namespace Engine

variable {regime : Regime H} {call : Callbacks H} (hcall : call.Keeps regime) {w : List Ticket}

include hcall

theorem notify_turned {e e' : Engine H} {id : Ticket} {s : Subscription (Subscriber H)}
    (hs : Sound regime.terms ⟨e, id :: w⟩) (hf : e.bus.find? id = some s)
    (hrun : (notify call s.name s.target).run (e.note (.called id s.name)) = some ((), e')) :
    ∃ e₁, Turned regime id s.name w e e₁ e' := by
  have hrest : (∀ h, s.target ≠ .cache h) →
      From regime w (notify call s.name s.target) (e.note (.called id s.name)) →
      ∃ e₁, Turned regime id s.name w e e₁ e' := by
    intro hn hfrom
    have hcalled : Step regime.terms.unread ⟨e, id :: w⟩ ⟨e.note (.called id s.name), w⟩ :=
      .called hf hn
    exact ⟨_, .went hcalled rfl rfl, rfl, rfl, rfl, rfl,
      hfrom.evolved (hs.step hcalled.of_unread) hrun⟩
  cases ht : s.target with
  | cache h =>
    rw [ht] at hrun
    cases hrun
    exact ⟨_, .went (.dropped hf ht) rfl rfl, rfl, rfl, rfl, rfl, .refl _⟩
  | action p =>
    refine hrest (by simp [ht]) ?_
    rw [ht]
    exact from_bind (from_evaluate hcall ..) fun _ _ => from_pure _
  | listener l =>
    refine hrest (by simp [ht]) ?_
    rw [ht]
    exact hcall.listener ..

omit hcall in
/-- Whom a fan-out has yet to call: subscriptions to its name that were there when it began. -/
structure Due (name : String) (l : List (Ticket × Subscriber H)) (b : Bus (Subscriber H)) :
    Prop where
  made : ∀ entry ∈ l, entry.1.number < b.nextNumber
  found : ∀ entry ∈ l, ∀ s, b.find? entry.1 = some s → s.name = name ∧ s.target = entry.2

omit hcall in
theorem Due.later {name : String} {l : List (Ticket × Subscriber H)} {b b' : Bus (Subscriber H)}
    (hd : Due name l b) (hl : b.Later b') : Due name l b' where
  made := fun entry hentry => Nat.lt_of_lt_of_le (hd.made entry hentry) hl.numbers
  found := fun entry hentry s hs =>
    hd.found entry hentry s (hl.kept _ s (hd.made entry hentry) hs)

omit hcall in
theorem Due.tail {name : String} {entry : Ticket × Subscriber H}
    {rest : List (Ticket × Subscriber H)} {b : Bus (Subscriber H)}
    (hd : Due name (entry :: rest) b) : Due name rest b :=
  ⟨fun other hother => hd.made other (.tail _ hother),
    fun other hother => hd.found other (.tail _ hother)⟩

/-- The subscriptions `w` come after those that are delivered to here. -/
theorem deliver_amid {name : String} {l : List (Ticket × Subscriber H)} {e e' : Engine H}
    (hs : Sound regime.terms ⟨e, l.map Prod.fst ++ w⟩) (hd : e.bus.dispatching = true)
    (hdue : Due name l e.bus) (hrun : (deliver call name l).run e = some ((), e')) :
    Amid regime name ⟨e, l.map Prod.fst ++ w⟩ ⟨e', w⟩ := by
  induction l generalizing e with
  | nil =>
    cases hrun
    exact .refl hd
  | cons entry rest ih =>
    obtain ⟨id, target⟩ := entry
    -- What is left to do when the turn of the first subscription is over.
    have hgoOn : ∀ {e₁ : Engine H},
        Amid regime name ⟨e, id :: (rest.map Prod.fst ++ w)⟩ ⟨e₁, rest.map Prod.fst ++ w⟩ →
        (deliver call name rest).run e₁ = some ((), e') →
        Amid regime name ⟨e, id :: (rest.map Prod.fst ++ w)⟩ ⟨e', w⟩ := by
      intro e₁ hamid hrest
      have hlater := hamid.steps.later hs
      exact hamid.trans (ih (hs.steps hamid.steps) hamid.dispatching (hdue.tail.later hlater) hrest)
    unfold deliver at hrun
    rw [run_get_bind] at hrun
    cases hf : e.bus.find? id with
    | none =>
      rw [if_neg (by simp [Bus.isLive, hf])] at hrun
      exact hgoOn (.skipped hd (.skipped hf)) hrun
    | some s =>
      rw [if_pos (by simp [Bus.isLive, hf])] at hrun
      obtain ⟨rfl, rfl⟩ := hdue.found _ List.mem_cons_self s hf
      obtain ⟨⟨⟨⟩, e₁⟩, hnotify, hrest⟩ := Option.bind_eq_some_iff.mp hrun
      obtain ⟨_, hturned⟩ := notify_turned hcall hs hf hnotify
      exact hgoOn (hturned.amid hd) hrest

omit hcall in
theorem due_targets {b : Bus (Subscriber H)} (hb : b.Valid) (name : String) :
    Due name (b.targets name) b where
  made := by
    rintro ⟨id, target⟩ hmem
    obtain ⟨s, hs, -, -⟩ := hb.mem_targets.mp hmem
    exact hb.number_lt hs
  found := by
    rintro ⟨id, target⟩ hmem s hs
    obtain ⟨s', hs', hname, htarget⟩ := hb.mem_targets.mp hmem
    rw [hs] at hs'
    cases hs'
    exact ⟨hname, htarget⟩

/-- One fan-out, from taking its name out of the line to its end. -/
theorem fanOut_course {name : String} {bus : Bus (Subscriber H)} {e e' : Engine H}
    (hs : Sound regime.terms ⟨e, []⟩) (hd : e.bus.dispatching = true)
    (hn : e.bus.next? = some (name, bus))
    (hrun : (fanOut call name).run { e with bus } = some ((), e')) :
    (∃ log, Course regime.terms ⟨e, []⟩ log ⟨e', []⟩) ∧ regime.path ⟨e, []⟩ ⟨e', []⟩ ∧
      e'.bus.dispatching = true ∧
      ∃ f : FanOut H, f.name = name ∧ e'.journal = f.notes.reverse ++ e.journal ∧
        name :: e'.bus.pending = e.bus.pending ++ firedNames f.notes := by
  have hbegan : Deed regime.terms ⟨e, []⟩ []
      ⟨{ e with bus }.note (.fanOutBegan name), (bus.targets name).map Prod.fst ++ []⟩ := by
    rw [List.append_nil]
    exact .went (.began hd hn) rfl rfl
  have hs' := hs.steps hbegan.steps
  obtain ⟨rest, hpending, rfl⟩ := Bus.next?_eq_some hn
  obtain ⟨⟨⟨⟩, e₁⟩, hdeliver, hended⟩ := Option.bind_eq_some_iff.mp hrun
  cases hended
  have hamid := deliver_amid hcall hs' hd (due_targets hs'.tied.bus name) hdeliver
  obtain ⟨body, hj, hwithin, hp⟩ := hamid.within
  obtain ⟨log, hcourse⟩ := hamid.course
  have hended : Deed regime.terms ⟨e₁, []⟩ [] ⟨e₁.note (.fanOutEnded name), []⟩ :=
    .went (.noted trivial) rfl rfl
  have hpath := regime.trans (regime.went hbegan (.plain rfl rfl rfl rfl))
    (regime.trans hamid.path (regime.went hended (.plain rfl rfl rfl rfl)))
  refine ⟨⟨_, ((Course.single hbegan).trans hcourse).tail hended⟩, hpath, hamid.dispatching,
    ⟨name, body, hwithin⟩, rfl, ?_, ?_⟩
  · show .fanOutEnded name :: e₁.journal = _
    rw [show e₁.journal = _ from hj]
    simp [FanOut.notes, note]
  · show name :: e₁.bus.pending = _
    rw [show e₁.bus.pending = _ from hp, hpending, FanOut.firedNames_notes]
    rfl

theorem drain_drained (rounds : Nat) {e e' : Engine H} (hs : Sound regime.terms ⟨e, []⟩)
    (hd : e.bus.dispatching = true) (hrun : (drain call rounds).run e = some ((), e')) :
    Drained regime e e' := by
  induction rounds generalizing e with
  | zero => cases hrun
  | succ rounds ih =>
    unfold drain at hrun
    rw [run_get_bind] at hrun
    cases hn : e.bus.next? with
    | none =>
      rw [hn] at hrun
      cases hrun
      have hp := Bus.next?_eq_none hn
      have hrested : Deed regime.terms ⟨e, []⟩ []
          ⟨{ e with bus := e.bus.setDispatching false }, []⟩ := .went (.rested hp) rfl rfl
      exact ⟨⟨[], .single hrested⟩, regime.went hrested (.plain rfl rfl rfl rfl),
        ⟨rfl, hp⟩, [], rfl, by simp [hp, firedNames]⟩
    | some found =>
      obtain ⟨name, bus⟩ := found
      rw [hn] at hrun
      -- One fan-out takes the first name from the line and adds behind it what is fired meanwhile.
      obtain ⟨⟨⟨⟩, e₁⟩, hfanOut, hrest⟩ := Option.bind_eq_some_iff.mp hrun
      obtain ⟨⟨log, hcourse⟩, hpath, hd', f, rfl, hj, hp⟩ := fanOut_course hcall hs hd hn hfanOut
      obtain ⟨⟨log', hcourse'⟩, hpath', hidle, fans, hj', hp'⟩ :=
        ih (hs.steps hcourse.steps) hd' hrest
      refine ⟨⟨log' ++ log, hcourse.trans hcourse'⟩, regime.trans hpath hpath', hidle, f :: fans,
        ?_, ?_⟩
      · rw [hj', hj, List.flatMap_cons, List.reverse_append, List.append_assoc]
      · rw [List.map_cons, hp', List.flatMap_cons, firedNames_append, ← List.append_assoc, ← hp,
          List.cons_append]

omit hcall in
theorem alert_of_dispatching {e : Engine H} (name : String) (hd : e.bus.dispatching = true) :
    e.alert name = e.announce name := by
  simp only [alert, Bus.setDispatching, announce, Bus.enqueue, note, hd]

omit hcall in
/-- If something is in progress, nothing is left to do for the fire that has joined the line. -/
theorem settle_deferred {e : Engine H} (name : String) (hd : e.bus.dispatching = true) :
    (settle call).run (e.announce name) = some ((), e.announce name) := by
  unfold settle
  rw [run_get_bind, if_pos (show (e.announce name).bus.dispatching = true from hd)]
  rfl

omit hcall in
/-- If nothing is in progress, the fire that has joined the line has to work through it. -/
theorem settle_begins {e : Engine H} (name : String) (hd : e.bus.dispatching = false) :
    (settle call).run (e.announce name) = (drain call call.rounds).run (e.alert name) := by
  unfold settle
  rw [run_get_bind, if_neg (show ¬ (e.announce name).bus.dispatching = true by
    rw [show (e.announce name).bus.dispatching = false from hd]
    exact Bool.false_ne_true)]
  rfl

/-- The rest of a fire, when the fire has joined the line. Either it is over then, or the line is
worked through. -/
theorem settle_cases {name : String} {e e' : Engine H}
    (hs : Sound regime.terms ⟨e.alert name, w⟩) (hidle : e.bus.dispatching = false → w = [])
    (hrun : (settle call).run (e.announce name) = some ((), e')) :
    (e.bus.dispatching = true ∧ e' = e.alert name) ∨
      (e.bus.dispatching = false ∧ w = [] ∧ Drained regime (e.alert name) e') := by
  cases hd : e.bus.dispatching with
  | true =>
    rw [settle_deferred name hd] at hrun
    cases hrun
    exact Or.inl ⟨rfl, (alert_of_dispatching name hd).symm⟩
  | false =>
    rw [settle_begins name hd] at hrun
    obtain rfl := hidle hd
    exact Or.inr ⟨rfl, rfl, drain_drained hcall call.rounds hs rfl hrun⟩

/-- The fire has joined the line together with what it announces. -/
theorem settle_evolved {name : String} {e₀ e e' : Engine H}
    (hs : Sound regime.terms ⟨e₀, w⟩) (halert : Deed regime.terms ⟨e₀, w⟩ [] ⟨e.alert name, w⟩)
    (hb : e.bus = e₀.bus) (hj : e.journal = e₀.journal) (ho : e.outside = e₀.outside)
    (he : ∀ name, e₀.registry.contains name = true → e.registry.contains name = true)
    (hrun : (settle call).run (e.announce name) = some ((), e')) : Evolved regime w e₀ e' := by
  have hr : Ensues ⟨e₀, w⟩ ⟨e₀, w⟩ [] ⟨e.alert name, w⟩ :=
    ⟨ho, he, congrArg (fun notes => programRuns (.fired name :: notes)) hj, by simp⟩
  have hidle : e.bus.dispatching = false → w = [] := fun hd => (hs.idle (hb ▸ hd)).1
  rcases settle_cases hcall (hs.steps halert.steps) hidle hrun with
    ⟨hd, rfl⟩ | ⟨hd, rfl, hdrained⟩
  · refine (Evolved.refl e₀).deed halert hr (regime.takes_nil _) ?_
      ⟨[.fired name], ?_, by simp [Note.Aside], ?_⟩
    · rw [alert_of_dispatching name hd]
      show e.bus.dispatching = e₀.bus.dispatching
      rw [hb]
    · exact congrArg (Note.fired name :: ·) hj
    · show e.bus.pending ++ [name] = e₀.bus.pending ++ [name]
      rw [hb]
  · have hrested : e₀.bus.dispatching = false := hb ▸ hd
    obtain ⟨log, hcourse⟩ := hdrained.course
    refine ⟨⟨log ++ [], (Course.single halert).trans hcourse⟩,
      regime.trans (regime.went halert hr) hdrained.path,
      hdrained.idle.1.trans hrested.symm, fun htrue => ?_⟩
    rw [hrested] at htrue
    cases htrue

/-- What comes after a fire has joined the line. -/
theorem fire_path {name : String} {e e' : Engine H} (hs : Sound regime.terms ⟨e, w⟩)
    (hrun : (fire call name).run e = some ((), e')) :
    regime.path ⟨e.alert name, w⟩ ⟨e', w⟩ := by
  have halert : Step regime.terms ⟨e, w⟩ ⟨e.alert name, w⟩ := .alerted name
  rcases settle_cases hcall (hs.step halert) (fun hd => (hs.idle hd).1) hrun with
    ⟨-, rfl⟩ | ⟨-, rfl, hdrained⟩
  · exact regime.refl _
  · exact hdrained.path

theorem from_fire (name : String) (e : Engine H) : From regime w (fire call name) e :=
  ⟨fun hs {_ _} hrun =>
    settle_evolved hcall hs (.went (.alerted name) rfl rfl) rfl rfl rfl (fun _ h => h) hrun⟩

end Engine

end LiveExpr
