import LiveExpr.Proofs.Coherence
import LiveExpr.Proofs.MixerChanges

/-!
Stored answers to queries. The native for queries is called deterministic although its
answers change with the tables of the mixer. What makes up for it is the fire of its name
after each change. As long as that fire is owed, a stored value may be wrong of which the
expression watches the name, and no other one.
-/
namespace LiveExpr.Mixer

variable {C : Host} {α : Type}

namespace State

variable {σ : Type} (s : State σ)

/-- What the native for queries comes to. -/
def reply (n : Nat) (args : List Value) : Value :=
  match args[0]?.bind Value.text? with
  | none => .unset
  | some question => s.answer n question (args[1]?.bind Value.text?)

variable {s} {s' s'' : State σ}

theorem reply_congr (h : ¬ s.Differs s') : s'.reply = s.reply := by
  funext n args
  unfold reply
  split
  · rfl
  · exact (not_not.mp fun hne => h ⟨n, _, _, hne⟩).symm

theorem not_differs_self (s : State σ) : ¬ s.Differs s := fun ⟨_, _, _, hne⟩ => hne rfl

theorem not_differs_trans (h : ¬ s.Differs s') (h' : ¬ s'.Differs s'') : ¬ s.Differs s'' := by
  rintro ⟨n, question, address, hne⟩
  refine h' ⟨n, question, address, fun heq => h ⟨n, question, address, fun heq' => ?_⟩⟩
  exact hne (heq'.trans heq)

end State

/-- A native for queries that is called deterministic. -/
def IsQuery (b : Behavior (Native (extend C))) : Prop :=
  ∃ n, b = .native (.host (.mixer n .query)) true

section Values

variable (own : Script C (extend C))

/-- Natives that compute their results, queries from the tables and all others from their arguments
alone. -/
def Pure : Native (extend C) → Prop
  | .host (.mixer _ .query) => True
  | f => (script own).Pure f

noncomputable def value (s : State C.State) : Native (extend C) → List Value → Value
  | .host (.mixer n .query) => s.reply n
  | f => (script own).value f

/-- Natives are called deterministic only if they compute their results. -/
def terms : Terms (extend C) where
  binds
    | .native f true => Pure own f
    | _ => True
  completes _ _ _ _ := True
  unbound := trivial
  user _ := trivial
  nondeterministic _ := trivial

variable {own} {s s' : State C.State}

theorem pure_of_binds {f : Native (extend C)} (hf : (terms own).binds (.native f true)) :
    Pure own f := hf

theorem value_congr (h : ¬ s.Differs s') : value own s' = value own s := by
  funext f
  unfold value
  rw [State.reply_congr h]

theorem value_of_not_query {f : Native (extend C)} (hf : ∀ n, f ≠ .host (.mixer n .query)) :
    value own s' f = value own s f := by
  unfold value
  split
  · exact (hf _ rfl).elim
  · rfl

end Values

/-- What excuses a wrong value: that the expression watches a name under which queries are made,
for their own name only as long as its fire is owed. -/
def excuse (owed : Prop) (name : String) (b : Behavior (Native (extend C))) : Prop :=
  if name = "Mixer" then owed else IsQuery b

theorem excuse_mono {owed owed' : Prop} {name : String} {b : Behavior (Native (extend C))}
    (ho : owed → owed') (h : excuse owed name b) : excuse owed' name b := by
  unfold excuse at h ⊢
  split
  · rename_i hname
    exact ho (by rwa [if_pos hname] at h)
  · rename_i hname
    rwa [if_neg hname] at h

/-- All stored values are right that are not excused. -/
def Upheld (own : Script C (extend C)) (owed : Prop) (m : Moment (extend C)) : Prop :=
  Coherent (excuse owed) (value own m.engine.host) m

section Upheld

variable {own : Script C (extend C)} {owed owed' : Prop} {m m' : Moment (extend C)}
  {e : Engine (extend C)} {w : List Ticket}

theorem Upheld.mono (hu : Upheld own owed m) (ho : owed → owed') : Upheld own owed' m := by
  intro h c v hc hv
  exact (hu h c v hc hv).imp_right
    (Or.imp_right fun hexcused => hexcused.mono_excuse fun _ _ => excuse_mono ho)

theorem Upheld.deed {log : List (Entry (extend C))} (hu : Upheld own owed m)
    (hm : Sound (terms own) m) (h : Deed (terms own) m log m')
    (ho : m'.engine.outside = m.engine.outside)
    (hv : ∀ h v c, .read h (.ran (.ok v)) ∈ log → m.engine.store.get? h = some c →
      v.volatile = false →
        (evaluate (m.engine.registry.environment (value own m.engine.host)) m.engine.limits
          c.program []).run = .ok v) : Upheld own owed m' := by
  have hhost : m'.engine.host = m.engine.host := congrArg (fun outside => outside.2.2) ho
  unfold Upheld
  rw [hhost]
  exact Coherent.deed hm hu h hv

/-- An evaluation that makes no query comes out the same whatever the tables hold. -/
theorem evaluate_of_tables {r : Registry (Native (extend C))} {limits : Limits} {p : Program}
    {s s' : State C.State} {v : Value} {names : List String}
    (h : (evaluate (r.environment (value own s)) limits p []).run = .ok ⟨v, names, false⟩)
    (hnames : ∀ name ∈ names, ¬ IsQuery (r.resolve name)) :
    (evaluate (r.environment (value own s')) limits p []).run = .ok ⟨v, names, false⟩ := by
  refine Dependencies.evaluate_agrees h fun name hname => ⟨rfl, fun f deterministic hb => ?_⟩
  refine value_of_not_query fun n hf => hnames name hname ⟨n, ?_⟩
  subst hf
  cases deterministic with
  | true => exact hb
  | false => exact (Dependencies.deterministic_of_mem h rfl hname _ hb).elim

/-- A change of the host's state. If it changes what queries answer, the fire is owed. -/
theorem Upheld.change (hu : Upheld own owed ⟨e, w⟩) (host : State C.State) :
    Upheld own (owed ∨ State.Differs e.host host) ⟨{ e with host }, w⟩ := by
  intro h c v hc hv
  by_cases hdiffers : State.Differs e.host host
  · rcases hu h c v hc hv with ⟨names, heval, hnames⟩ | hdoomed | hexcused
    · by_cases hquery : ∃ name ∈ names, name = "Mixer" ∨ IsQuery (e.registry.resolve name)
      · obtain ⟨name, hname, hmade⟩ := hquery
        obtain ⟨id, hid⟩ := hnames name hname
        refine Or.inr (Or.inr ⟨name, id, hid, ?_⟩)
        unfold excuse
        split
        · exact Or.inr hdiffers
        · exact hmade.resolve_left ‹_›
      · refine Or.inl ⟨names, evaluate_of_tables heval fun name hname hmade => ?_, hnames⟩
        exact hquery ⟨name, hname, Or.inr hmade⟩
    · exact Or.inr (Or.inl hdoomed)
    · exact Or.inr (Or.inr (hexcused.mono_excuse fun _ _ => excuse_mono Or.inl))
  · have hsame : Upheld own owed ⟨{ e with host }, w⟩ := by
      unfold Upheld
      rw [show value own (Moment.mk { e with host } w).engine.host = value own e.host from
        value_congr hdiffers]
      exact hu
    exact hsame.mono Or.inl h c v hc hv

/-- The fire that is owed. -/
theorem Upheld.alert (hu : Upheld own owed ⟨e, w⟩) : Upheld own False ⟨e.alert "Mixer", w⟩ := by
  have hline : ∀ name ∈ e.bus.pending, name ∈ e.bus.pending ++ ["Mixer"] :=
    fun name hmem => List.mem_append_left _ hmem
  intro h c v hc hv
  rcases hu h c v hc hv with hcurrent | hdoomed | ⟨name, id, hid, hexcuse⟩
  · exact Or.inl (hcurrent.of_eq rfl rfl rfl fun _ hmem => hmem)
  · exact Or.inr (Or.inl (hdoomed.mono (fun _ hmem => hmem) hline fun _ hmem => hmem))
  · by_cases hname : name = "Mixer"
    · subst hname
      exact Or.inr (Or.inl ⟨_, id, hid, Or.inl (List.mem_append_right _ List.mem_cons_self)⟩)
    · refine Or.inr (Or.inr ⟨name, id, hid, ?_⟩)
      unfold excuse at hexcuse ⊢
      rw [if_neg hname] at hexcuse ⊢
      exact hexcuse

end Upheld

end LiveExpr.Mixer
