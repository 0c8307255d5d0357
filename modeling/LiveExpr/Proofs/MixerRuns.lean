import LiveExpr.Proofs.MixerQueries

/-!
What a host does that has mixers. Its own code may do anything but leave a fire owed, and
it may only call those natives deterministic that compute their results. Then whatever it
does leaves right what was right, and from a new engine on, one operation after the other,
all stored values are right.
-/
namespace LiveExpr

theorem Evolved.plain {H : Host} {regime : Regime H} {w : List Ticket} {e e' : Engine H}
    (h : Evolved regime w e e') : Evolved regime.terms.regime w e e' :=
  ⟨h.course, trivial, h.dispatching, h.aside⟩

namespace Mixer

variable {C : Host} {α : Type} {own : Script C (extend C)}

/-- The regime under which all that is upheld stays so. -/
def regime (own : Script C (extend C)) : Regime (extend C) where
  terms := terms own
  completes e p v := v.volatile = false →
    (evaluate (e.registry.environment (value own e.host)) e.limits p []).run = .ok v
  path m m' := Sound (terms own) m → Sound (terms own) m' ∧
    ∀ owed, Upheld own owed m → Upheld own owed m'
  refl _ hs := ⟨hs, fun _ hu => hu⟩
  trans h h' hs := by
    obtain ⟨hs₁, hu₁⟩ := h hs
    obtain ⟨hs₂, hu₂⟩ := h' hs₁
    exact ⟨hs₂, fun owed hu => hu₂ owed (hu₁ owed hu)⟩
  deed hp h hr ht hs := by
    obtain ⟨hs₁, hu₁⟩ := hp hs
    exact ⟨hs₁.steps h.steps, fun owed hu => (hu₁ owed hu).deed hs₁ h hr.outside ht⟩
  posted _ _ _ hs := ⟨hs.step (.passed ..), fun _ hu => hu⟩
  added _ _ _ hs := ⟨hs.step (.passed ..), fun _ hu => hu⟩
  drained h _ _ hs := h (hs.step (.passed ..))

/-- Requests that keep to the terms may be made whether or not a fire is owed. -/
def allowed (own : Script C (extend C)) : Prop → Request (extend C) → Prop :=
  fun _ r => (terms own).Allows r

theorem liberal_allowed (own : Script C (extend C)) : Liberal (allowed own) where
  fire _ := trivial
  others {r} hr := by
    cases r with
    | registerNative name f deterministic => exact hr.elim
    | _ => trivial

section Tidy

variable {allows : Prop → Request (extend C) → Prop} {owed : Prop} {a : Action (extend C) α}
  {call : Callbacks (extend C)} {e e' : Engine (extend C)} {w : List Ticket} {x : α}

/-- When the request is answered the fire is no longer owed if this was the request. -/
theorem Upheld.answered (hcall : call.Keeps (regime own)) (hs : Sound (terms own) ⟨e, w⟩)
    {r : Request (extend C)} {reply : r.Reply} (hr : (terms own).Allows r)
    (hrun : (Engine.answer call r).run e = some (reply, e')) {before : Prop}
    (hu : Upheld own (before ∨ owed) ⟨e, w⟩) :
    Upheld own (before ∨ (owed ∧ r ≠ .fire "Mixer")) ⟨e', w⟩ := by
  by_cases hfire : r = .fire "Mixer"
  · subst hfire
    have halerted : Step (terms own) ⟨e, w⟩ ⟨e.alert "Mixer", w⟩ := .alerted "Mixer"
    have hpath := Engine.fire_path hcall hs hrun
    exact ((hpath (hs.step halerted)).2 False hu.alert).mono False.elim
  · have hpath := ((from_answer hcall hr e).evolved hs hrun).path
    exact ((hpath hs).2 _ hu).mono (Or.imp_right fun howed => ⟨howed, hfire⟩)

theorem Tidy.evolved (hallows : ∀ {owed r}, allows owed r → (terms own).Allows r)
    (hcall : call.Keeps (regime own)) (ha : Tidy allows owed e.host a)
    (hs : Sound (terms own) ⟨e, w⟩) (hrun : (a.run call).run e = some (x, e')) :
    Evolved (terms own).regime w e e' ∧
      ∀ before, Upheld own (before ∨ owed) ⟨e, w⟩ → Upheld own before ⟨e', w⟩ := by
  induction a generalizing owed e with
  | pure y =>
    cases hrun
    exact ⟨.refl _, fun before hu => hu.mono fun h => h.resolve_right ha⟩
  | request r next ih =>
    obtain ⟨⟨reply, e₁⟩, hr, hrest⟩ := Option.bind_eq_some_iff.mp hrun
    have hanswer := (from_answer hcall (hallows ha.1) e).evolved hs hr
    obtain ⟨hevolved, hlater⟩ := ih reply (ha.2 reply e₁.host) (hs.steps hanswer.steps) hrest
    exact ⟨hanswer.plain.trans hevolved,
      fun before hu => hlater before (hu.answered hcall hs (hallows ha.1) hr)⟩
  | look next ih => exact ih e.unwritten (ha e.unwritten rfl) hs hrun
  | change f next ih =>
    have hchanged : Evolved (terms own).regime w e { e with host := f e.host } := .passed trivial
    obtain ⟨hevolved, hlater⟩ := ih ha (hs.steps hchanged.steps) hrun
    exact ⟨hchanged.trans hevolved,
      fun before hu => hlater before ((hu.change (f e.host)).mono or_assoc.mp)⟩

theorem Tidy.obeys (hallows : ∀ {owed r}, allows owed r → (terms own).Allows r)
    (ha : ∀ s, Tidy allows False s a) : a.Obeys (regime own) := by
  refine ⟨fun hcall w e => ⟨fun hs {x e'} hrun => ?_⟩⟩
  obtain ⟨hevolved, hlater⟩ := Tidy.evolved hallows hcall (ha e.host) hs hrun
  exact ⟨hevolved.course,
    fun hs => ⟨hs.steps hevolved.steps, fun owed hu => hlater owed (hu.mono Or.inl)⟩,
    hevolved.dispatching, hevolved.aside⟩

/-- An action that only computes changes nothing that queries answer, since it makes no fire. -/
theorem Tidy.returns (h : a.Returns x) (ha : Tidy allows owed e.host a)
    (call : Callbacks (extend C)) :
    ¬ owed ∧ ∃ host, (a.run call).run e = some (x, { e with host }) ∧
      ¬ State.Differs e.host host := by
  induction h generalizing owed e with
  | pure => exact ⟨ha, e.host, rfl, State.not_differs_self _⟩
  | look _ ih => exact ih e.unwritten (ha e.unwritten rfl)
  | @change f next h ih =>
    obtain ⟨hno, host, hrun, hsame⟩ := ih (e := { e with host := f e.host }) ha
    obtain ⟨howed, hdiffers⟩ := not_or.mp hno
    exact ⟨howed, host, hrun, State.not_differs_trans hdiffers hsame⟩

end Tidy

/-- The host's own code announces all that it changes about mixers, and calls only those natives
deterministic that compute their results. -/
structure Orderly (own : Script C (extend C)) : Prop where
  native : ∀ f args c s, Tidy (allowed own) False s (own.native f args c)
  listener : ∀ l name s, Tidy (allowed own) False s (own.listener l name)
  task : ∀ t s, Tidy (allowed own) False s (own.task t)
  pump : ∀ source s, Tidy (allowed own) False s (own.pump source)

namespace Orderly

theorem native_tidy (hown : Orderly own) (f : (extend C).Function) (args : List Value) (c : Context)
    (s : State C.State) : Tidy (allowed own) False s ((script own).native f args c) := by
  cases f with
  | mixer n f => exact tidy_call (liberal_allowed own) n f args
  | host f => exact hown.native f args c s

theorem obeys (hown : Orderly own) : (script own).Obeys (regime own) where
  native f args c := Tidy.obeys id fun s => hown.native_tidy f args c s
  listener l name := Tidy.obeys id fun s => hown.listener l name s
  task t := Tidy.obeys id fun s => hown.task t s
  pump source := by
    refine Action.Obeys.pumps (Tidy.obeys id fun s => ?_) source
    cases source with
    | mixer n u => exact tidy_pump (liberal_allowed own) n fun _ _ _ => trivial
    | host source => exact hown.pump source s

end Orderly

theorem call_query_run (n : Nat) (args : List Value) (call : Callbacks (extend C))
    (e : Engine (extend C)) :
    ((Mixer.call n .query args).run call).run e = some (State.reply e.host n args, e) := by
  unfold Mixer.call State.reply
  dsimp only
  cases args[0]?.bind Value.text? with
  | none => rfl
  | some question => exact query_run n question (args[1]?.bind Value.text?)

section Queries

variable {e : Engine (extend C)} {rounds depth n : Nat}

variable (own) in
theorem query_compute : ((script own).callbacks rounds (depth + 1)).Compute
    (fun f => f = .host (.mixer n .query)) (fun s _ => State.reply s n) Eq := by
  refine ⟨?_, fun h => by rw [h]⟩
  rintro _ rfl args c e v e' hrun
  cases (call_query_run n args _ e).symm.trans hrun
  exact ⟨rfl, e.host, rfl, rfl⟩

variable (own) in
theorem query_return : ((script own).callbacks rounds (depth + 1)).Return
    fun f => f = .host (.mixer n .query) := by
  rintro _ rfl args c e
  exact Option.isSome_of_mem (call_query_run n args _ e)

/-- An evaluation that only queries a mixer leaves the engine as it is. -/
theorem evaluate_queries_run {p : Program} {v : Evaluation}
    (heval : (evaluate (e.registry.environment fun _ => State.reply e.host n) e.limits p []).run =
      .ok v)
    (honly : ∀ name ∈ v.dependencies, ∀ f deterministic,
      e.registry.resolve name = .native f deterministic → f = .host (.mixer n .query))
    (c : Context) :
    (Engine.evaluate ((script own).callbacks rounds (depth + 1)) p [] c).run e =
      some (.ok v, e) := by
  rw [Dependencies.dependencies_eq heval] at honly
  obtain ⟨host, hrun, hnear⟩ := Engine.evaluate_computed (query_compute own) (query_return own)
    (c := c) fun name hname => honly name (List.mem_eraseDups.mpr hname)
  rw [Relation.reflTransGen_eq_self] at hnear
  cases hnear
  rw [hrun, heval]

end Queries

section Callbacks

variable (hown : Orderly own) (rounds depth : Nat)

include hown

/-- What it comes to if a native is called back that computes its results. -/
theorem native_computed {f : Native (extend C)} (hf : Pure own f) (args : List Value) (c : Context)
    (e : Engine (extend C)) :
    ∃ host, (((script own).callbacks rounds (depth + 1)).native f args c).run e =
        some (value own e.host f args, { e with host }) ∧
      ¬ State.Differs e.host host := by
  by_cases hquery : ∃ n, f = .host (.mixer n .query)
  · obtain ⟨n, rfl⟩ := hquery
    exact ⟨e.host, call_query_run n args _ e, State.not_differs_self _⟩
  · have hpure : (script own).Pure f := by
      unfold Pure at hf
      split at hf
      · exact (hquery ⟨_, rfl⟩).elim
      · exact hf
    have hvalue : value own e.host f = (script own).value f := by
      unfold value
      split
      · exact (hquery ⟨_, rfl⟩).elim
      · rfl
    cases f with
    | builtin b => exact hpure.elim
    | host f =>
      obtain ⟨-, host, hrun, hsame⟩ := Tidy.returns (Script.computes_value hpure args c)
        (hown.native_tidy f args c e.host) ((script own).callbacks rounds depth)
      rw [hvalue]
      exact ⟨host, hrun, hsame⟩

theorem callbacks_compute :
    ((script own).callbacks rounds depth).Compute (Pure own) (value own)
      fun s s' => ¬ State.Differs s s' := by
  refine ⟨fun {f} hf {args c e v e'} hrun => ?_, value_congr⟩
  cases depth with
  | zero => cases hrun
  | succ depth =>
    obtain ⟨host, hcomputed, hsame⟩ := native_computed hown rounds depth hf args c e
    rw [hcomputed] at hrun
    cases hrun
    exact ⟨rfl, host, rfl, hsame⟩

theorem callbacks_return :
    ((script own).callbacks rounds (depth + 1)).Return (Pure own) := by
  intro f hf args c e
  obtain ⟨host, hcomputed, -⟩ := native_computed hown rounds depth hf args c e
  rw [hcomputed]
  rfl

theorem keeps_regime : ((script own).callbacks rounds depth).Keeps (regime own) :=
  hown.obeys.callbacks_keep (fun hbinds hrun => ⟨trivial, Engine.evaluate_functional
    (callbacks_compute hown ..) (fun name _ hb => pure_of_binds (hb ▸ hbinds name)) hrun⟩) depth

end Callbacks

section Install

variable {e e' : Engine (extend C)} {w : List Ticket}

theorem openQueue_run {name trigger : String} {k : (extend C).Kind}
    {opened : Except (QueueError (extend C).Kind) (QueueRef (extend C))}
    (hrun : (Engine.openQueue name trigger k).run e = some (opened, e')) :
    ∃ queues, e' = { e with queues } := by
  unfold Engine.openQueue at hrun
  rw [Engine.run_get_bind] at hrun
  cases hopen : e.queues.openQueue name trigger k with
  | error fault =>
    rw [hopen] at hrun
    cases hrun
    exact ⟨e.queues, rfl⟩
  | ok found =>
    rw [hopen] at hrun
    cases hrun
    exact ⟨found.2, rfl⟩

theorem tidy_registerAll (n : Nat) (l : List Function) (s : State C.State) :
    Tidy (allowed own) False s (registerAll n l : Action (extend C) Unit) := by
  induction l generalizing s with
  | nil => exact tidy_pure ()
  | cons f rest ih =>
    refine tidy_ask_bind ?_ (fun _ s' => ih s') nofun
    cases f <;> trivial

theorem tidy_registering (n : Nat) (s : State C.State) :
    Tidy (allowed own) False s (do
      registerAll n Function.all
      ask (.addSource (.mixer n ()))
      return .ok n : Action (extend C) (Except (QueueError (Kind C.Kind)) Nat)) :=
  (tidy_registerAll n _ s).bind fun _ _ =>
    (tidy_ask (.addSource (.mixer n ())) trivial).bind fun _ _ => tidy_pure _

/-- One mixer more, of which no native has been registered yet. -/
theorem Upheld.joined (hu : Upheld own False ⟨e, w⟩) {s : State C.State} (hs : e.host = s)
    (hnew : ∀ name, e.registry.resolve name ≠ .native (.host (.mixer s.mixers.length .query)) true)
    (m : Mixer) :
    Upheld own False ⟨{ e with host := { s with mixers := s.mixers ++ [m] } }, w⟩ := by
  subst hs
  intro h c v hc hv
  rcases hu h c v hc hv with ⟨names, heval, hnames⟩ | hdoomed | hexcused
  · refine Or.inl ⟨names, Dependencies.evaluate_agrees heval fun name hname => ?_, hnames⟩
    refine ⟨rfl, fun f deterministic hb => ?_⟩
    -- No query is one of the new mixer, and all others are answered as before.
    by_cases hquery : ∃ n, f = .host (.mixer n .query)
    · obtain ⟨n, rfl⟩ := hquery
      have hne : n ≠ (e.host.mixers : List Mixer).length := by
        rintro rfl
        cases deterministic with
        | true => exact hnew name hb
        | false => exact Dependencies.deterministic_of_mem heval rfl hname _ hb
      have hfound :
          ((e.host.mixers : List Mixer) ++ [m])[n]? = (e.host.mixers : List Mixer)[n]? := by
        grind
      show State.reply _ n = State.reply _ n
      funext args
      simp only [State.reply, State.answer]
      rw [hfound]
    · exact value_of_not_query fun n hf => hquery ⟨n, hf⟩
  · exact Or.inr (Or.inl hdoomed)
  · exact Or.inr (Or.inr hexcused)

end Install

/-- The engines to which one operation after another leads, from a new one. To install a mixer is
another operation, for a mixer that is not known yet. -/
inductive Runs (own : Script C (extend C)) : Engine (extend C) → Prop
  | created (limits : Limits) (host : State C.State) : Runs own (.create limits host)
  | operated {α : Type} {a : Action (extend C) α} {x : α} {rounds depth : Nat}
      {e e' : Engine (extend C)} (he : Runs own e) (ha : Tidy (allowed own) False e.host a)
      (hrun : (a.run ((script own).callbacks rounds depth)).run e = some (x, e')) : Runs own e'
  | installed {installed : Except (QueueError (Kind C.Kind)) Nat} {rounds depth : Nat}
      {e e' : Engine (extend C)} (he : Runs own e)
      (hnew : ∀ name, e.registry.resolve name ≠
        .native (.host (.mixer (e.host.mixers : List Mixer).length .query)) true)
      (hrun : (install.run ((script own).callbacks rounds depth)).run e = some (installed, e')) :
      Runs own e'

/-- Between operations all stored values are right. -/
structure Settled (own : Script C (extend C)) (e : Engine (extend C)) : Prop where
  sound : Sound (terms own) ⟨e, []⟩
  rested : e.bus.dispatching = false
  upheld : Upheld own False ⟨e, []⟩

section Settled

variable {e e' : Engine (extend C)} (hown : Orderly own) {rounds depth : Nat}

theorem settled_create (limits : Limits) (host : State C.State) :
    Settled own (.create limits host) := by
  refine ⟨sound_create (H := extend C) limits host, rfl, fun h c v hc => ?_⟩
  simp [Engine.create, Store.get?, Store.empty] at hc

theorem Settled.queues (h : Settled own e) (queues : Directory (extend C)) :
    Settled own { e with queues } :=
  ⟨h.sound.step (.passed ..), h.rested, h.upheld⟩

include hown

theorem Settled.operated (h : Settled own e) {a : Action (extend C) α} {x : α}
    (ha : Tidy (allowed own) False e.host a)
    (hrun : (a.run ((script own).callbacks rounds depth)).run e = some (x, e')) :
    Settled own e' := by
  obtain ⟨hevolved, hlater⟩ := Tidy.evolved id (keeps_regime hown rounds depth) ha h.sound hrun
  exact ⟨h.sound.steps hevolved.steps, hevolved.dispatching.trans h.rested,
    hlater False (h.upheld.mono False.elim)⟩

theorem Settled.installed (h : Settled own e) {installed : Except (QueueError (Kind C.Kind)) Nat}
    (hnew : ∀ name, e.registry.resolve name ≠
      .native (.host (.mixer (e.host.mixers : List Mixer).length .query)) true)
    (hrun : (install.run ((script own).callbacks rounds depth)).run e = some (installed, e')) :
    Settled own e' := by
  obtain ⟨moves, hgoes⟩ := Action.goes_of_run hrun
  cases hgoes with
  | @request _ _ _ e₁ _ adverts _ _ hopen hgoes =>
    obtain ⟨queues, rfl⟩ := openQueue_run hopen
    cases adverts with
    | error fault =>
      cases hgoes
      exact h.queues queues
    | ok adverts =>
      cases hgoes with
      | @request _ _ _ e₂ _ removals _ _ hopen hgoes =>
        obtain ⟨queues', rfl⟩ := openQueue_run hopen
        have hopened : Settled own { e with queues := queues' } := h.queues queues'
        cases removals with
        | error fault =>
          cases hgoes
          exact hopened
        | ok removals =>
          cases hgoes with
          | look hgoes =>
            cases hgoes with
            | change hgoes =>
              have hjoined : Settled own { e with
                  queues := queues'
                  host := { e.host with mixers := (e.host.mixers : List Mixer) ++
                    [⟨.empty, adverts.number, removals.number, .empty⟩] } } :=
                ⟨hopened.sound.step (.passed ..), h.rested, hopened.upheld.joined rfl hnew _⟩
              exact hjoined.operated hown (tidy_registering ..) hgoes.run

theorem Runs.settled (he : Runs own e) : Settled own e := by
  induction he with
  | created limits host => exact settled_create limits host
  | operated _ ha hrun ih => exact ih.operated hown ha hrun
  | installed _ hnew hrun ih => exact ih.installed hown hnew hrun

end Settled

end Mixer

end LiveExpr
