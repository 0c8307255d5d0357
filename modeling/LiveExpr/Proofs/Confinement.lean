import LiveExpr.Proofs.Reachability

/-!
Hosts that change their state in given ways only. What an action does to the state may depend on
what it has seen of it, so the ways are those from a state on. If a regime lets the state be
changed in these ways, then whatever is confined to them keeps to the regime.
-/
namespace LiveExpr

variable {H : Host} {α β : Type} {changes : H.State → H.State → Prop}

/-- From this state of the host on, the action changes it in the given ways only. What others have
done by the time that a request is answered does not count. -/
def Action.ConfinedTo (changes : H.State → H.State → Prop) : H.State → Action H α → Prop
  | _, .pure _ => True
  | _, .request _ next => ∀ reply s, ConfinedTo changes s (next reply)
  | s, .look next => ∀ e, e.host = s → ConfinedTo changes s (next e)
  | s, .change f next => changes s (f s) ∧ ConfinedTo changes (f s) next

/-- The regime lets the host's own state be changed in these ways, and has nothing against any
request. -/
structure Regime.Lets (changes : H.State → H.State → Prop) (regime : Regime H) : Prop where
  allows : ∀ r, regime.terms.Allows r
  path : ∀ {e : Engine H} {w s}, changes e.host s → regime.path ⟨e, w⟩ ⟨{ e with host := s }, w⟩

namespace Action.ConfinedTo

variable {s : H.State} {a : Action H α}

theorem pure (x : α) : ConfinedTo changes s (pure x : Action H α) := trivial

theorem bind {f : α → Action H β} (ha : ConfinedTo changes s a)
    (hf : ∀ x s', ConfinedTo changes s' (f x)) : ConfinedTo changes s (a >>= f) := by
  induction a generalizing s with
  | pure x => exact hf x s
  | request r next ih => exact fun reply s' => ih reply (ha reply s')
  | look next ih => exact fun e he => ih e (ha e he)
  | change g next ih => exact ⟨ha.1, ih ha.2⟩

theorem ask (r : Request H) : ConfinedTo changes s (Action.ask r) := fun _ _ => trivial

theorem look {next : Engine H → Action H α} (h : ∀ e, ConfinedTo changes s (next e)) :
    ConfinedTo changes s (Action.engine >>= next) := fun e _ => h e

theorem forM {f : β → Action H Unit} (hf : ∀ x s, ConfinedTo changes s (f x)) (l : List β) :
    ConfinedTo changes s (l.forM f) := by
  induction l generalizing s with
  | nil => exact pure _
  | cons x rest ih => exact (hf x s).bind fun _ _ => ih

theorem evolved {regime : Regime H} (hregime : regime.Lets changes) {call : Callbacks H}
    (hcall : call.Keeps regime) {w : List Ticket} {e e' : Engine H} {x : α}
    (ha : ConfinedTo changes e.host a) (hs : Sound regime.terms ⟨e, w⟩)
    (hrun : (a.run call).run e = some (x, e')) : Evolved regime w e e' := by
  induction a generalizing e with
  | pure y =>
    cases hrun
    exact .refl _
  | request r next ih =>
    obtain ⟨⟨reply, e₁⟩, hr, hrest⟩ := Option.bind_eq_some_iff.mp hrun
    have hanswer := (from_answer (w := w) hcall (hregime.allows r) e).evolved hs hr
    exact hanswer.trans (ih reply (ha reply e₁.host) (hs.steps hanswer.steps) hrest)
  | look next ih => exact ih e.unwritten (ha e.unwritten rfl) hs hrun
  | change f next ih =>
    have hchanged : Evolved regime w e { e with host := f e.host } :=
      .passed (hregime.path ha.1)
    exact hchanged.trans (ih ha.2 (hs.steps hchanged.steps) hrun)

theorem obeys {regime : Regime H} (hregime : regime.Lets changes)
    (ha : ∀ s, ConfinedTo changes s a) : a.Obeys regime :=
  ⟨fun hcall _ e => ⟨fun hs {_ _} hrun => (ha e.host).evolved hregime hcall hs hrun⟩⟩

end Action.ConfinedTo

/-- The regime under which the host's own state is changed in the given ways only. -/
def Regime.confined (changes : H.State → H.State → Prop) : Regime H where
  terms := .any
  completes _ _ _ := True
  path m m' := Relation.ReflTransGen changes m.engine.host m'.engine.host
  refl _ := .refl
  trans := .trans
  deed hp _ hr _ := by
    have hhost := congrArg (Prod.snd ∘ Prod.snd) hr.outside
    dsimp only [Function.comp_apply, Engine.outside] at hhost
    rwa [hhost]
  posted _ _ _ := .refl
  added _ _ _ := .refl
  drained h _ _ := h

theorem Regime.confined_lets : (Regime.confined changes).Lets changes where
  allows := Terms.allows_any
  path h := .single h

structure Script.ConfinedTo (changes : H.State → H.State → Prop) {C : Host} (script : Script C H) :
    Prop where
  native : ∀ f args c s, Action.ConfinedTo changes s (script.native f args c)
  listener : ∀ l name s, Action.ConfinedTo changes s (script.listener l name)
  task : ∀ t s, Action.ConfinedTo changes s (script.task t)
  pump : ∀ source s, Action.ConfinedTo changes s (script.pump source)

theorem Script.ConfinedTo.keeps {script : Script H H} (hs : script.ConfinedTo changes)
    (rounds depth : Nat) : (script.callbacks rounds depth).Keeps (.confined changes) := by
  have hobeys : script.Obeys (.confined changes) :=
    ⟨fun f args c => Action.ConfinedTo.obeys Regime.confined_lets (hs.native f args c),
      fun l name => Action.ConfinedTo.obeys Regime.confined_lets (hs.listener l name),
      fun t => Action.ConfinedTo.obeys Regime.confined_lets (hs.task t),
      fun source => (Action.ConfinedTo.obeys Regime.confined_lets (hs.pump source)).pumps _⟩
  exact hobeys.callbacks_keep (fun _ _ => ⟨trivial, trivial⟩) depth

end LiveExpr
