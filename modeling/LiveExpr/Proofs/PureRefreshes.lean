import LiveExpr.Proofs.Functional

/-!
Refreshes that do no more than compute, as the natives that are called are functions of
their arguments. What each program comes to is known beforehand, and reading one
expression leaves the others as they are. So a refresh can be said in one equation for
each expression, and a second one right after the first finds what the first has left.
-/
namespace LiveExpr

variable {H : Host}

/-- What a program comes to when natives are no more than the functions that they compute. -/
noncomputable def Script.outcome (script : Script H H) (r : Registry (Native H)) (l : Limits)
    (p : Program) : Except Fault Evaluation := (evaluate (r.environment script.value) l p []).run

/-- The program calls no native that does more than compute. -/
def Script.CallsPure (script : Script H H) (r : Registry (Native H)) (l : Limits) (p : Program) :
    Prop :=
  ∀ name ∈ Dependencies.called script.value l p [] r, ∀ f deterministic,
    r.resolve name = .native f deterministic → script.Pure f

/-- What has become of a cache without a value when the program has run for it. -/
structure Cache.Settled (c : Cache) (outcome : Except Fault Evaluation) (c' : Cache) : Prop where
  program : c'.program = c.program
  failed : ∀ fault, outcome = .error fault → c' = c
  shown : ∀ v, outcome = .ok v → c'.shown = some v.value

namespace Engine

variable {e : Engine H} {x : Handle} {c : Cache}

theorem conclude_other {y : Handle} (hy : y ≠ x) (began : Nat)
    (outcome : Except Fault Evaluation) :
    (e.conclude x began outcome).store.get? y = e.store.get? y := by
  cases outcome with
  | error fault => rfl
  | ok v =>
    show ((e.note (.ran x)).complete x began v).store.get? y = _
    cases hc : e.store.get? x with
    | none =>
      rw [complete_unknown (e := e.note (.ran x)) began v hc]
      rfl
    | some c =>
      rw [complete_store (e := e.note (.ran x)) began v hc, Store.get?_modify, if_neg hy]
      rfl

theorem conclude_settled (hc : e.store.get? x = some c) (outcome : Except Fault Evaluation) :
    ∃ c', (e.conclude x c.epoch outcome).store.get? x = some c' ∧ c.Settled outcome c' := by
  cases outcome with
  | error fault => exact ⟨c, hc, rfl, fun _ _ => rfl, nofun⟩
  | ok v =>
    show ∃ c', ((e.note (.ran x)).complete x c.epoch v).store.get? x = some c' ∧ _
    have hran : (e.note (.ran x)).store.get? x = some c := hc
    rw [complete_store (e := e.note (.ran x)) c.epoch v hc, Store.get?_modify, if_pos rfl, hran]
    refine ⟨completed x c.epoch v c e.bus, rfl, rfl, nofun, ?_⟩
    rintro _ ⟨⟩
    rfl

variable {script : Script H H} {rounds depth : Nat} {r : Registry (Native H)} {l : Limits}

/-- What a refresh of the handles does when the programs do nothing but compute. -/
structure Refreshed (script : Script H H) (r : Registry (Native H)) (l : Limits)
    (handles : List Handle) (e : Engine H) (changed : List Handle) (e' : Engine H) : Prop where
  registry : e'.registry = r
  limits : e'.limits = l
  other : ∀ x, x ∉ handles → e'.store.get? x = e.store.get? x
  settled : ∀ x ∈ handles, ∀ c, e.store.get? x = some c →
    ∃ c', e'.store.get? x = some c' ∧ c.Settled (script.outcome r l c.program) c'
  changed : ∀ x, x ∈ changed ↔ x ∈ handles ∧ ∃ c, e.store.get? x = some c ∧
    differs c.shown (reading (script.outcome r l c.program)) = true

/-- Refreshing other handles after that. -/
theorem Refreshed.append {handles handles' changed changed' : List Handle} {e₁ e₂ : Engine H}
    (h : Refreshed script r l handles e changed e₁)
    (h' : Refreshed script r l handles' e₁ changed' e₂) (hd : ∀ x ∈ handles', x ∉ handles) :
    Refreshed script r l (handles ++ handles') e (changed ++ changed') e₂ where
  registry := h'.registry
  limits := h'.limits
  other := by
    intro x hx
    obtain ⟨hfirst, hlater⟩ := not_or.mp (List.mem_append.not.mp hx)
    exact (h'.other x hlater).trans (h.other x hfirst)
  settled := by
    intro x hx c hc
    by_cases hlater : x ∈ handles'
    · exact h'.settled x hlater c ((h.other x (hd x hlater)).trans hc)
    · obtain ⟨c', hc', hsettled⟩ :=
        h.settled x ((List.mem_append.mp hx).resolve_right hlater) c hc
      exact ⟨c', (h'.other x hlater).trans hc', hsettled⟩
  changed := by
    intro x
    rw [List.mem_append, List.mem_append, h.changed, h'.changed, or_and_right]
    refine or_congr_right (and_congr_right fun hlater => ?_)
    rw [h.other x (hd x hlater)]

/-- A read of an expression that calls nothing that does more than compute. -/
theorem read_computed (hr : e.registry = r) (hl : e.limits = l) (hc : e.store.get? x = some c)
    (hv : c.value = none) (hpure : script.CallsPure r l c.program) (ctx : Context) :
    ∃ e', (read (script.callbacks rounds (depth + 1)) x ctx).run e =
        some (reading (script.outcome r l c.program), e') ∧
      Refreshed script r l [x] e
        (if differs c.shown (reading (script.outcome r l c.program)) then [x] else []) e' := by
  subst hr hl
  let outcome := script.outcome e.registry e.limits c.program
  obtain ⟨host, hrun, -⟩ : ∃ host,
      (evaluate (script.callbacks rounds (depth + 1)) c.program [] ctx).run e =
        some (outcome, { e with host }) ∧ _ :=
    evaluate_computed (script.callbacks_compute ..) (script.callbacks_return ..) hpure
  let e₁ : Engine H := { e with host }
  refine ⟨(e₁.conclude x c.epoch outcome).note (.answered x (reading outcome)),
    read_of_evaluate hc hv hrun, conclude_registry .., conclude_limits .., fun y hy => ?_,
    fun y hy c' hc' => ?_, fun y => ?_⟩
  · exact conclude_other (e := e₁) (List.mem_singleton.not.mp hy) c.epoch outcome
  · obtain rfl := List.mem_singleton.mp hy
    obtain rfl : c = c' := Option.some_inj.mp (hc.symm.trans hc')
    exact conclude_settled (e := e₁) hc outcome
  · rw [List.mem_singleton]
    split
    · rename_i hd
      rw [List.mem_singleton]
      exact ⟨by rintro rfl; exact ⟨rfl, c, hc, hd⟩, And.left⟩
    · rename_i hd
      refine iff_of_false List.not_mem_nil ?_
      rintro ⟨rfl, c', hc', hd'⟩
      obtain rfl : c = c' := Option.some_inj.mp (hc.symm.trans hc')
      exact hd hd'

theorem refreshAll_computed {handles : List Handle} (hnodup : handles.Nodup) (hr : e.registry = r)
    (hl : e.limits = l) (hstale : ∀ x ∈ handles, ∃ c, e.store.get? x = some c ∧ c.value = none ∧
      script.CallsPure r l c.program) :
    ∃ changed e', (refreshAll (script.callbacks rounds (depth + 1)) handles).run e =
      some (changed, e') ∧ Refreshed script r l handles e changed e' := by
  induction handles generalizing e with
  | nil => exact ⟨[], e, rfl, hr, hl, fun _ _ => rfl, by simp, by simp⟩
  | cons x rest ih =>
    obtain ⟨hx, hrest⟩ := List.nodup_cons.mp hnodup
    obtain ⟨c, hc, hv, hpure⟩ := hstale x List.mem_cons_self
    have hread : ∃ e₁, (read (script.callbacks rounds (depth + 1)) x .empty).run e =
        some (reading (script.outcome r l c.program), e₁) ∧
      Refreshed script r l [x] e
        (if differs c.shown (reading (script.outcome r l c.program)) then [x] else []) e₁ :=
      read_computed hr hl hc hv hpure .empty
    obtain ⟨e₁, hread, hfirst⟩ := hread
    -- The read leaves the other caches as they were, so there is a program to run for each of them.
    have hne : ∀ y ∈ rest, y ∉ [x] := fun y hy heq => hx (List.mem_singleton.mp heq ▸ hy)
    obtain ⟨changed, e', hrun, hlater⟩ := ih hrest hfirst.registry hfirst.limits fun y hy => by
      rw [hfirst.other y (hne y hy)]
      exact hstale y (List.mem_cons_of_mem _ hy)
    refine ⟨_, e', ?_, hfirst.append hlater hne⟩
    unfold refreshAll
    rw [run_get_bind, StateT.run_bind, hread, hc]
    show ((refreshAll (script.callbacks rounds (depth + 1)) rest).run e₁).bind _ = _
    rw [hrun]
    show some (ite (differs c.shown _ = true) _ _, e') = some (ite _ _ _ ++ changed, e')
    by_cases hd : differs c.shown (reading (script.outcome r l c.program)) = true
    · rw [if_pos hd, if_pos hd]
      rfl
    · rw [if_neg hd, if_neg hd]
      rfl

/-- All that a refresh has to do is compute, and no value is unequal to itself. -/
structure Steady (script : Script H H) (e : Engine H) : Prop where
  pure : ∀ x ∈ e.store.staleHandles, ∀ c, e.store.get? x = some c →
    script.CallsPure e.registry e.limits c.program
  self : ∀ x ∈ e.store.staleHandles, ∀ c, e.store.get? x = some c → ∀ v,
    script.outcome e.registry e.limits c.program = .ok v → (v.value == v.value) = true

theorem Steady.refresh (h : Steady script e) (rounds depth : Nat) :
    ∃ changed e', (Engine.refresh (script.callbacks rounds (depth + 1))).run e =
      some (changed, e') ∧
      Refreshed script e.registry e.limits e.store.staleHandles e changed e' :=
  refreshAll_computed e.store.nodup_staleHandles rfl rfl fun x hx => by
    obtain ⟨c, hc, hmode, hv⟩ := Store.mem_staleHandles.mp hx
    exact ⟨c, hc, hv, h.pure x hx c hc⟩

namespace Refreshed

variable {changed again : List Handle} {e₁ e₂ : Engine H}
  (h : Refreshed script e.registry e.limits e.store.staleHandles e changed e₁)

include h

/-- Expressions without a value after a refresh had none before it. -/
theorem stale_before {c₁ : Cache} (hx : x ∈ e₁.store.staleHandles)
    (hc₁ : e₁.store.get? x = some c₁) :
    x ∈ e.store.staleHandles ∧ ∃ c, e.store.get? x = some c ∧
      c.Settled (script.outcome e.registry e.limits c.program) c₁ := by
  by_cases hold : x ∈ e.store.staleHandles
  · obtain ⟨c, hc, -⟩ := Store.mem_staleHandles.mp hold
    obtain ⟨c', hc', hsettled⟩ := h.settled x hold c hc
    obtain rfl : c₁ = c' := Option.some_inj.mp (hc₁.symm.trans hc')
    exact ⟨hold, c, hc, hsettled⟩
  · rw [Store.mem_staleHandles, h.other x hold] at hx
    exact absurd (Store.mem_staleHandles.mpr hx) hold

theorem steady (hsteady : Steady script e) : Steady script e₁ where
  pure := by
    intro x hx c₁ hc₁
    obtain ⟨hold, c, hc, hsettled⟩ := h.stale_before hx hc₁
    rw [h.registry, h.limits, hsettled.program]
    exact hsteady.pure x hold c hc
  self := by
    intro x hx c₁ hc₁
    obtain ⟨hold, c, hc, hsettled⟩ := h.stale_before hx hc₁
    rw [h.registry, h.limits, hsettled.program]
    exact hsteady.self x hold c hc

/-- A refresh right after the first reports what fails and what has been shown otherwise. -/
theorem mem_again (hsteady : Steady script e)
    (h' : Refreshed script e₁.registry e₁.limits e₁.store.staleHandles e₁ again e₂) :
    x ∈ again ↔ ∃ c fault, e.store.get? x = some c ∧ c.mode = .eager ∧ c.value = none ∧
      script.outcome e.registry e.limits c.program = .error fault ∧
      differs c.shown .unset = true := by
  rw [h'.changed, h.registry, h.limits]
  constructor
  · rintro ⟨hx, c₁, hc₁, hd⟩
    obtain ⟨hold, c, hc, hsettled⟩ := h.stale_before hx hc₁
    rw [hsettled.program] at hd
    cases hout : script.outcome e.registry e.limits c.program with
    | error fault =>
      rw [hsettled.failed fault hout, hout] at hd
      obtain ⟨c', hc', hmode, hv⟩ := Store.mem_staleHandles.mp hold
      obtain rfl : c = c' := Option.some_inj.mp (hc.symm.trans hc')
      exact ⟨c, fault, hc, hmode, hv, hout, hd⟩
    | ok v =>
      -- The second run comes to the value that the first has left as the one shown.
      rw [hsettled.shown v hout, hout] at hd
      have hself := hsteady.self x hold c hc v hout
      simp [differs, reading, hself] at hd
  · rintro ⟨c, fault, hc, hmode, hv, hout, hd⟩
    have hold := Store.mem_staleHandles.mpr ⟨c, hc, hmode, hv⟩
    obtain ⟨c', hc', hsettled⟩ := h.settled x hold c hc
    obtain rfl := hsettled.failed fault hout
    refine ⟨Store.mem_staleHandles.mpr ⟨_, hc', hmode, hv⟩, _, hc', ?_⟩
    rw [hout]
    exact hd

end Refreshed

/-- Two refreshes one right after the other. The second reports the expressions whose program
fails, unless the last completed evaluation was unset. -/
theorem refresh_twice (rounds depth : Nat) (hsteady : Steady script e) :
    ∃ changed e₁ again e₂,
      (refresh (script.callbacks rounds (depth + 1))).run e = some (changed, e₁) ∧
      (refresh (script.callbacks rounds (depth + 1))).run e₁ = some (again, e₂) ∧
      ∀ x, x ∈ again ↔ ∃ c fault, e.store.get? x = some c ∧ c.mode = .eager ∧ c.value = none ∧
        script.outcome e.registry e.limits c.program = .error fault ∧
        differs c.shown .unset = true := by
  obtain ⟨changed, e₁, hrun, hfirst⟩ := hsteady.refresh rounds depth
  obtain ⟨again, e₂, hrerun, hlater⟩ := (hfirst.steady hsteady).refresh rounds depth
  exact ⟨changed, e₁, again, e₂, hrun, hrerun, fun x => hfirst.mem_again hsteady hlater⟩

end Engine

end LiveExpr
