import LiveExpr.Proofs.FanOutOrder

/-!
What the operations on a registry announce. An operation makes its name stand for
something, and the name fires exactly if that is something else than what it stood for
before. Two behaviors are the same only if they are one native with one flag, or copies
of one program; a name without an entry stands for nothing, like one that is unbound.
-/
namespace LiveExpr

variable {H : Host}

/-- What the name of an operation on the registry stands for when the operation is over. -/
def Request.binding? (r : Registry (Native H)) : Request H → Option (String × Behavior (Native H))
  | .registerNative name f deterministic => some (name, .native (.host f) deterministic)
  | .registerUser name p => some (name, .user p)
  | .unregister name => some (name, .unbound)
  | .lookup name => some (name, r.resolve name)
  | _ => none

namespace Engine

/-- The operation makes the name stand for `b` and leaves all other names as they are. If the name
stood for something else before, what is left to do after that is a fire of it. -/
structure Rebinds (call : Callbacks H) (q : Request H) (name : String) (b : Behavior (Native H))
    (e : Engine H) (registry : Registry (Native H)) : Prop where
  resolve : ∀ other, registry.resolve other = if other = name then b else e.registry.resolve other
  entries : ∀ other, e.registry.contains other = true → registry.contains other = true
  fired : e.registry.resolve name ≠ b → ((answer call q).run e).map Prod.snd =
    ((fire call name).run { e with registry }).map Prod.snd
  silent : e.registry.resolve name = b → ((answer call q).run e).map Prod.snd =
    some { e with registry }

variable {call : Callbacks H} {e e' : Engine H} {name : String} {b : Behavior (Native H)}
  {registry : Registry (Native H)} {q : Request H}

theorem rebinds_of_run (changed : Bool)
    (hrun : ((answer call q).run e).map Prod.snd =
      ((if changed then fire call name else pure () : Run H Unit).run
        { e with registry }).map Prod.snd)
    (hchanged : changed = true ↔ e.registry.resolve name ≠ b)
    (hresolve : ∀ other,
      registry.resolve other = if other = name then b else e.registry.resolve other)
    (hentries : ∀ other, e.registry.contains other = true → registry.contains other = true) :
    Rebinds call q name b e registry where
  resolve := hresolve
  entries := hentries
  fired hne := by rw [hrun, if_pos (hchanged.mpr hne)]
  silent heq := by
    rw [hrun, if_neg fun htrue => hchanged.mp htrue heq]
    rfl

theorem unregister_run (call : Callbacks H) (name : String) (e : Engine H) :
    (unregister call name).run e =
      ((if (e.registry.unregister name).1 then fire call name else pure () : Run H Unit).run
        { e with registry := (e.registry.unregister name).2 }).map fun found =>
          ((e.registry.unregister name).1, found.2) := by
  unfold unregister
  rw [run_get_bind]
  obtain ⟨changed, registry⟩ := e.registry.unregister name
  cases changed with
  | false => rfl
  | true =>
    show ((fire call name).run { e with registry }).bind (fun found => some (true, found.2)) = _
    exact Option.map_eq_bind.symm

/-- Each operation on the registry rebinds its name. -/
theorem answer_rebinds (hq : q.binding? e.registry = some (name, b)) :
    ∃ registry, Rebinds call q name b e registry := by
  cases q with
  | registerNative other f deterministic =>
    cases hq
    exact ⟨_, rebinds_of_run _ rfl (Registry.replace_changes_iff (by simp))
      (e.registry.resolve_set name · _) fun _ => Registry.contains_set_of_contains⟩
  | registerUser other p =>
    cases hq
    exact ⟨_, rebinds_of_run _ rfl (Registry.replace_changes_iff (by simp))
      (e.registry.resolve_set name · _) fun _ => Registry.contains_set_of_contains⟩
  | unregister other =>
    cases hq
    refine ⟨_, rebinds_of_run _ ?_ Registry.unregister_changes_iff
      (e.registry.resolve_unregister name) fun _ => Registry.contains_unregister_of_contains⟩
    rw [show (answer call (.unregister name)).run e = _ from unregister_run .., Option.map_map]
    rfl
  | lookup other =>
    cases hq
    refine ⟨(e.registry.lookup name).2, rebinds_of_run false rfl (by simp)
      (fun other => ?_) fun _ => Registry.contains_lookup_of_contains⟩
    rw [Registry.resolve_lookup]
    split
    · rename_i heq
      rw [heq]
    · rfl
  | _ => cases hq

/-- The fire of the name is the only one outside of fan-outs, and there are none if there is no such
fire or if a fan-out is in progress already. -/
theorem Rebinds.announced (h : Rebinds call q name b e registry)
    (hcall : call.Keeps Terms.any.regime) {w : List Ticket} (hs : Sound .any ⟨e, w⟩)
    {reply : q.Reply} (hrun : (answer call q).run e = some (reply, e')) {d : List (Note H)}
    (hj : e'.journal = d.reverse ++ e.journal) :
    (e.registry.resolve name = b → d = []) ∧
      (e.registry.resolve name ≠ b → ∃ fans : List (FanOut H),
        d = .fired name :: fans.flatMap FanOut.notes ∧ (e.bus.dispatching = true → fans = [])) := by
  have hreverse : ∀ notes : List (Note H), e'.journal = notes.reverse ++ e.journal → d = notes :=
    fun _ hnotes => List.reverse_inj.mp (List.append_cancel_right (hj.symm.trans hnotes))
  refine ⟨fun heq => hreverse [] ?_, fun hne => ?_⟩
  · have hsilent := h.silent heq
    rw [hrun] at hsilent
    cases hsilent
    rfl
  · have hfired := h.fired hne
    rw [hrun] at hfired
    obtain ⟨⟨⟨⟩, e₁⟩, hfire, rfl⟩ := Option.map_eq_some_iff.mp hfired.symm
    have hs' : Sound .any ⟨{ e with registry }, w⟩ := ⟨hs.tied, fun _ => trivial, hs.idle⟩
    obtain ⟨fans, hjournal, hnone⟩ := fire_announced hcall hs' hfire
    exact ⟨fans, hreverse _ hjournal, hnone⟩

end Engine

/-- The regime under which names keep their entries. -/
def Regime.entries : Regime H where
  terms := .any
  completes _ _ _ := True
  path m m' := ∀ name, m.engine.registry.contains name = true →
    m'.engine.registry.contains name = true
  refl _ _ h := h
  trans h h' name hname := h' name (h name hname)
  deed h _ hr _ name hname := hr.entries name (h name hname)
  posted _ _ _ _ h := h
  added _ _ _ _ h := h
  drained h _ _ := h

theorem Action.run_entries {α : Type} (a : Action H α) (script : Script H H) {rounds depth : Nat}
    {e e' : Engine H} (he : e.Reachable) {x : α}
    (hrun : (a.run (script.callbacks rounds depth)).run e = some (x, e')) {name : String}
    (hname : e.registry.contains name = true) : e'.registry.contains name = true := by
  obtain ⟨w, hs⟩ := he.sound
  have hobeys : ∀ {β : Type} (a : Action H β), a.Obeys .entries :=
    fun a => a.asksOnly_any.obeys fun _ _ _ _ h => h
  have hscript : script.Obeys .entries :=
    ⟨fun _ _ _ => hobeys _, fun _ _ => hobeys _, fun _ => hobeys _, fun s => (hobeys _).pumps s⟩
  have hkeeps : (script.callbacks rounds depth).Keeps .entries :=
    hscript.callbacks_keep (fun _ _ => ⟨trivial, trivial⟩) depth
  exact (((hobeys a).runs hkeeps w e).evolved hs hrun).path name hname

namespace Engine

/-- An operation on the registry fires its name once if the name comes to stand for something else,
and fires nothing otherwise. The fire finds the name as it is from then on. Looking a name up and
resolving it agree, and entries last through anything that is done to the engine. -/
theorem registry_fires_exactly (script : Script H H) (rounds depth : Nat) {e : Engine H}
    (he : e.Reachable) :
    (∀ {q : Request H} {name : String} {b : Behavior (Native H)},
      q.binding? e.registry = some (name, b) →
      (∃ registry, Rebinds (script.callbacks rounds depth) q name b e registry) ∧
      ∀ {reply : q.Reply} {e' : Engine H},
        (answer (script.callbacks rounds depth) q).run e = some (reply, e') →
        ∀ {d : List (Note H)}, e'.journal = d.reverse ++ e.journal →
          (e.registry.resolve name = b → d = []) ∧
          (e.registry.resolve name ≠ b → ∃ fans : List (FanOut H),
            d = .fired name :: fans.flatMap FanOut.notes ∧
            (e.bus.dispatching = true → fans = []))) ∧
    (∀ {name : String} {reply : Bool} {e' : Engine H},
      (answer (script.callbacks rounds depth) (.unregister name)).run e = some (reply, e') →
        (reply = true ↔ e.registry.resolve name ≠ .unbound)) ∧
    (∀ name, (answer (script.callbacks rounds depth) (.lookup name)).run e =
        some (e.registry.resolve name, { e with registry := (e.registry.lookup name).2 }) ∧
      ∀ other, (e.registry.lookup name).2.resolve other = e.registry.resolve other) ∧
    (∀ name c, ((environment (script.callbacks rounds depth) c).resolve name).run e =
      some (e.registry.resolve name, e)) ∧
    ∀ {α : Type} {a : Action H α} {x : α} {e' : Engine H},
      (a.run (script.callbacks rounds depth)).run e = some (x, e') →
      ∀ {name : String}, e.registry.contains name = true → e'.registry.contains name = true := by
  obtain ⟨w, hs⟩ := he.sound
  refine ⟨fun {q name b} hq => ?_, fun {name reply e'} hrun => ?_,
    fun name => ⟨?_, e.registry.resolve_lookup name⟩, fun _ _ => rfl,
    fun {α a x e'} hrun _ hname => a.run_entries script he hrun hname⟩
  · have hanswer : ∃ registry, Rebinds (script.callbacks rounds depth) q name b e registry :=
      answer_rebinds hq
    obtain ⟨registry, hrebinds⟩ := hanswer
    exact ⟨⟨registry, hrebinds⟩, fun hrun _ hj =>
      hrebinds.announced (script.keeps_any rounds depth) hs hrun hj⟩
  · rw [show (answer (script.callbacks rounds depth) (.unregister name)).run e = _ from
      unregister_run ..] at hrun
    obtain ⟨found, -, hreply⟩ := Option.map_eq_some_iff.mp hrun
    cases hreply
    exact Registry.unregister_changes_iff
  · show some ((e.registry.lookup name).1, _) = _
    rw [Registry.lookup_fst]
    rfl

end Engine

namespace Nested

def program : Program := ⟨.empty, 0⟩

/-- The outer name comes to stand for a program. Its listener fires two other names meanwhile. -/
theorem registry_fires_exactly_nested :
    ∃ e' : Engine Nested,
      (Engine.answer (script.callbacks 4 2) (.registerUser "outer" program)).run subscribed =
        some ((), e') ∧
      e'.journal = notes.reverse ++ subscribed.journal ∧
      (∃ fans : List (FanOut Nested), notes = .fired "outer" :: fans.flatMap FanOut.notes) ∧
      e'.registry.contains "QueueAck" = true ∧
      ∃ reply, (Engine.answer (script.callbacks 4 2) (.unregister "outer")).run subscribed =
          some (reply, subscribed) ∧
        (reply = true ↔ subscribed.registry.resolve "outer" ≠ .unbound) := by
  let e' : Engine Nested :=
    { subscribed with
      registry := ⟨Engine.builtins ++ [("outer", .user program)]⟩
      journal := notes.reverse }
  have hrun : (Engine.answer (script.callbacks 4 2) (.registerUser "outer" program)).run
      subscribed = some ((), e') := by
    cbv
  have hunregistered : (Engine.answer (script.callbacks 4 2) (.unregister "outer")).run
      subscribed = some (false, subscribed) := by
    cbv
  obtain ⟨hbinding, hreply, -, -, hentries⟩ :=
    Engine.registry_fires_exactly script 4 2 reachable_subscribed
  have hbefore : subscribed.registry.resolve "outer" = .unbound := by
    cbv
  have hne : subscribed.registry.resolve "outer" ≠ .user program := by
    rw [hbefore]
    intro h
    cases h
  obtain ⟨fans, hnotes, -⟩ :=
    ((hbinding (q := .registerUser "outer" program) rfl).2 hrun (List.append_nil _).symm).2 hne
  have hentry : e'.registry.contains "QueueAck" = true :=
    hentries (a := Action.ask (.registerUser "outer" program)) hrun rfl
  exact ⟨e', hrun, (List.append_nil _).symm, ⟨fans, hnotes⟩, hentry, false, hunregistered,
    hreply hunregistered⟩

end Nested

end LiveExpr
