import LiveExpr.Proofs.Operations

/-!
The states that an engine comes to under a host of which nothing is known. They include
those amid a callback or a fan-out, since a state is reached by elementary transitions.
-/
namespace LiveExpr

variable {H : Host}

/-- No more is known of natives and evaluations than that there are some. -/
def Terms.any : Terms H where
  binds _ := True
  completes _ _ _ _ := True
  unbound := trivial
  user _ := trivial
  nondeterministic _ := trivial

theorem Terms.allows_any (r : Request H) : (Terms.any : Terms H).Allows r := by
  cases r <;> trivial

theorem Action.asksOnly_any {α : Type} (a : Action H α) :
    a.AsksOnly (Terms.any : Terms H).Allows := by
  induction a with
  | pure a => trivial
  | request r next ih => exact ⟨Terms.allows_any r, ih⟩
  | look next ih => exact ih
  | change f next ih => exact ih

theorem Script.keeps_any (script : Script H H) (rounds depth : Nat) :
    (script.callbacks rounds depth).Keeps Terms.any.regime :=
  callbacks_keep
    ⟨fun _ _ _ => Action.asksOnly_any _, fun _ _ => Action.asksOnly_any _,
      fun _ => Action.asksOnly_any _, fun _ => Action.asksOnly_any _⟩
    (fun _ _ => trivial) depth

/-- The engine comes to this state at some moment, be it amid callbacks. -/
def Engine.Reachable (e : Engine H) : Prop :=
  ∃ limits host w, Steps .any ⟨.create limits host, []⟩ ⟨e, w⟩

theorem Engine.reachable_create (limits : Limits) (host : H.State) :
    (Engine.create limits host).Reachable := ⟨limits, host, [], .refl⟩

theorem Engine.Reachable.sound {e : Engine H} (he : e.Reachable) : ∃ w, Sound .any ⟨e, w⟩ := by
  obtain ⟨limits, host, w, hsteps⟩ := he
  exact ⟨w, (sound_create limits host).steps hsteps⟩

/-- What the host's own code does to an engine leads from reachable states to reachable states. -/
theorem Engine.Reachable.action {α : Type} {e e' : Engine H} (he : e.Reachable)
    (script : Script H H) {rounds depth : Nat} {a : Action H α} {x : α}
    (hrun : (a.run (script.callbacks rounds depth)).run e = some (x, e')) : e'.Reachable := by
  obtain ⟨limits, host, w, hsteps⟩ := he
  have hs : Sound .any ⟨e, w⟩ := (sound_create limits host).steps hsteps
  have hfrom : From Terms.any.regime w (a.run (script.callbacks rounds depth)) e :=
    from_action (script.keeps_any rounds depth) a.asksOnly_any e
  exact ⟨limits, host, w, hsteps.trans (hfrom.evolved hs hrun).steps⟩

end LiveExpr
