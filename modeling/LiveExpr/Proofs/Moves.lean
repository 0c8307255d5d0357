import LiveExpr.Proofs.Reads

/-!
What an action does itself in a run: the requests that it makes and its changes of the
host's own state, in order. What the engine does to answer a request, with all that the
callbacks do in it, is not among the moves of the action.
-/
namespace LiveExpr

variable {H : Host} {α β : Type}

inductive Move (H : Host) where
  | asked (r : Request H)
  | changed (before after : H.State)

namespace Action

/-- The run of the action that begins in one engine ends in another one, with these moves. -/
inductive Goes (call : Callbacks H) :
    Action H α → Engine H → List (Move H) → α → Engine H → Prop
  | pure (x : α) (e : Engine H) : Goes call (.pure x) e [] x e
  | request {r : Request H} {next : r.Reply → Action H α} {e e₁ e' : Engine H} {reply : r.Reply}
      {moves : List (Move H)} {x : α} (hr : (Engine.answer call r).run e = some (reply, e₁))
      (h : Goes call (next reply) e₁ moves x e') :
      Goes call (.request r next) e (.asked r :: moves) x e'
  | look {next : Engine H → Action H α} {e e' : Engine H} {moves : List (Move H)} {x : α}
      (h : Goes call (next e.unwritten) e moves x e') : Goes call (.look next) e moves x e'
  | change {f : H.State → H.State} {next : Action H α} {e e' : Engine H}
      {moves : List (Move H)} {x : α} (h : Goes call next { e with host := f e.host } moves x e') :
      Goes call (.change f next) e (.changed e.host (f e.host) :: moves) x e'

variable {call : Callbacks H} {a : Action H α} {e e' e'' : Engine H} {moves : List (Move H)}
  {x y : α}

theorem Goes.run (h : a.Goes call e moves x e') : (a.run call).run e = some (x, e') := by
  induction h with
  | pure x e => rfl
  | request hr _ ih =>
    show ((Engine.answer call _ >>= fun reply => _) : Run H α).run _ = _
    rw [StateT.run_bind, hr]
    exact ih
  | look _ ih => exact ih
  | change _ ih => exact ih

theorem run_bind (call : Callbacks H) (a : Action H α) (f : α → Action H β) :
    (a >>= f).run call = a.run call >>= fun x => (f x).run call := by
  induction a with
  | pure x => exact (pure_bind ..).symm
  | request r next ih =>
    show (Engine.answer call r >>= fun reply => (next reply >>= f).run call) =
      (Engine.answer call r >>= fun reply => (next reply).run call) >>= fun x => (f x).run call
    rw [bind_assoc]
    exact congrArg _ (funext ih)
  | look next ih =>
    show (get >>= fun e => (next e.unwritten >>= f).run call) =
      (get >>= fun e => (next e.unwritten).run call) >>= fun x => (f x).run call
    rw [bind_assoc]
    exact congrArg _ (funext fun e => ih e.unwritten)
  | change g next ih =>
    show (modify (fun e => { e with host := g e.host }) >>= fun _ => (next >>= f).run call) =
      (modify (fun e => { e with host := g e.host }) >>= fun _ => next.run call) >>=
        fun x => (f x).run call
    rw [bind_assoc, ih]

theorem run_forM (call : Callbacks H) (f : α → Action H Unit) (l : List α) :
    (l.forM f).run call = l.forM fun x => (f x).run call := by
  induction l with
  | nil => rfl
  | cons x rest ih =>
    rw [List.forM_eq_forM, List.forM_cons, List.forM_eq_forM, List.forM_cons, run_bind]
    exact congrArg _ (funext fun _ => ih)

/-- Every run has its moves. -/
theorem goes_of_run (h : (a.run call).run e = some (x, e')) :
    ∃ moves, a.Goes call e moves x e' := by
  induction a generalizing e with
  | pure y =>
    cases h
    exact ⟨[], .pure _ _⟩
  | request r next ih =>
    obtain ⟨⟨reply, e₁⟩, hr, hrest⟩ := Option.bind_eq_some_iff.mp h
    obtain ⟨moves, hmoves⟩ := ih reply hrest
    exact ⟨_, .request hr hmoves⟩
  | look next ih =>
    obtain ⟨moves, hmoves⟩ := ih e.unwritten h
    exact ⟨moves, .look hmoves⟩
  | change f next ih =>
    obtain ⟨moves, hmoves⟩ := ih h
    exact ⟨_, .change hmoves⟩

theorem Goes.of_bind {b : α → Action H β} {y : β} (h : (a >>= b).Goes call e moves y e'') :
    ∃ early late x e', moves = early ++ late ∧ a.Goes call e early x e' ∧
      (b x).Goes call e' late y e'' := by
  induction a generalizing e moves with
  | pure x => exact ⟨[], moves, x, e, rfl, .pure x e, h⟩
  | request r next ih =>
    cases h with
    | request hr h =>
      obtain ⟨early, late, x, e', rfl, hearly, hlate⟩ := ih _ h
      exact ⟨_, late, x, e', rfl, .request hr hearly, hlate⟩
  | look next ih =>
    cases h with
    | look h =>
      obtain ⟨early, late, x, e', rfl, hearly, hlate⟩ := ih _ h
      exact ⟨early, late, x, e', rfl, .look hearly, hlate⟩
  | change f next ih =>
    cases h with
    | change h =>
      obtain ⟨early, late, x, e', rfl, hearly, hlate⟩ := ih h
      exact ⟨_, late, x, e', rfl, .change hearly, hlate⟩

/-- A run of the action comes to a request, which finds the engine given last. -/
inductive ComesTo (call : Callbacks H) : Action H α → Engine H → Request H → Engine H → Prop
  | here (r : Request H) (next : r.Reply → Action H α) (e : Engine H) :
      ComesTo call (.request r next) e r e
  | request {r r' : Request H} {next : r.Reply → Action H α} {e e₁ e' : Engine H}
      {reply : r.Reply} (hr : (Engine.answer call r).run e = some (reply, e₁))
      (h : ComesTo call (next reply) e₁ r' e') : ComesTo call (.request r next) e r' e'
  | look {next : Engine H → Action H α} {e e' : Engine H} {r : Request H}
      (h : ComesTo call (next e.unwritten) e r e') : ComesTo call (.look next) e r e'
  | change {f : H.State → H.State} {next : Action H α} {e e' : Engine H} {r : Request H}
      (h : ComesTo call next { e with host := f e.host } r e') :
      ComesTo call (.change f next) e r e'

end Action

end LiveExpr
