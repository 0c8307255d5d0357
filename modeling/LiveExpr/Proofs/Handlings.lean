import LiveExpr.Proofs.Runs

/-!
Working through a list. Each piece of work finds the engine as the one before it has
left it, and what becomes of the whole is put together from what becomes of each piece.
-/
namespace LiveExpr

variable {H : Host} {α β : Type}

/-- A piece of work, with its result and the engines before and after it. -/
structure Handling (H : Host) (α β : Type) where
  item : α
  before : Engine H
  result : β
  after : Engine H

/-- One piece of work after the other. -/
inductive Handled (f : α → Run H β) : Engine H → List (Handling H α β) → Engine H → Prop
  | nil (e : Engine H) : Handled f e [] e
  | cons {h : Handling H α β} {rest : List (Handling H α β)} {e' : Engine H}
      (hrun : (f h.item).run h.before = some (h.result, h.after))
      (hrest : Handled f h.after rest e') : Handled f h.before (h :: rest) e'

theorem handled_of_mapM {f : α → Run H β} {l : List α} {results : List β} {e e' : Engine H}
    (hrun : (l.mapM f).run e = some (results, e')) :
    ∃ work, Handled f e work e' ∧ work.map Handling.item = l ∧
      work.map Handling.result = results := by
  induction l generalizing e results with
  | nil =>
    cases hrun
    exact ⟨[], .nil _, rfl, rfl⟩
  | cons a rest ih =>
    rw [List.mapM_cons, StateT.run_bind] at hrun
    obtain ⟨⟨b, e₁⟩, hfirst, hothers⟩ := Option.bind_eq_some_iff.mp hrun
    rw [StateT.run_bind] at hothers
    obtain ⟨⟨bs, e₂⟩, hrest, hdone⟩ := Option.bind_eq_some_iff.mp hothers
    cases hdone
    obtain ⟨work, hwork, hitems, hresults⟩ := ih hrest
    exact ⟨⟨a, e, b, e₁⟩ :: work, .cons (h := ⟨a, e, b, e₁⟩) hfirst hwork, by simp [hitems],
      by simp [hresults]⟩

theorem handled_of_forM {f : α → Run H Unit} {l : List α} {e e' : Engine H}
    (hrun : (l.forM f).run e = some ((), e')) :
    ∃ work, Handled f e work e' ∧ work.map Handling.item = l := by
  induction l generalizing e with
  | nil =>
    cases hrun
    exact ⟨[], .nil _, rfl⟩
  | cons a rest ih =>
    rw [List.forM_eq_forM, List.forM_cons, StateT.run_bind] at hrun
    obtain ⟨⟨⟨⟩, e₁⟩, hfirst, hrest⟩ := Option.bind_eq_some_iff.mp hrun
    obtain ⟨work, hwork, hitems⟩ := ih hrest
    exact ⟨⟨a, e, (), e₁⟩ :: work, .cons (h := ⟨a, e, (), e₁⟩) hfirst hwork, by simp [hitems]⟩

namespace Handled

variable {f : α → Run H β} {work : List (Handling H α β)} {e e' : Engine H}

theorem run (h : Handled f e work e') {piece : Handling H α β} (hmem : piece ∈ work) :
    (f piece.item).run piece.before = some (piece.result, piece.after) := by
  induction h with
  | nil => cases hmem
  | cons hrun _ ih =>
    rcases List.mem_cons.mp hmem with rfl | hmem
    · exact hrun
    · exact ih hmem

/-- What only joins a list as long as one piece of work is done only joins it all the time. -/
theorem joins {γ : Type} (g : Engine H → List γ) (h : Handled f e work e')
    (hg : ∀ piece ∈ work, g piece.before <+: g piece.after) :
    g e <+: g e' ∧ ∀ piece ∈ work, g piece.after <+: g e' := by
  induction h with
  | nil => exact ⟨List.prefix_rfl, nofun⟩
  | @cons first rest e' _ _ ih =>
    obtain ⟨hwhole, hrest⟩ := ih fun piece hmem => hg piece (List.mem_cons_of_mem _ hmem)
    refine ⟨(hg first List.mem_cons_self).trans hwhole, fun piece hmem => ?_⟩
    rcases List.mem_cons.mp hmem with rfl | hmem
    · exact hwhole
    · exact hrest piece hmem

variable {regime : Regime H} {w : List Ticket} (hf : ∀ a e, From regime w (f a) e)

include hf

theorem evolved (h : Handled f e work e') (hs : Sound regime.terms ⟨e, w⟩) :
    Evolved regime w e e' := by
  induction h with
  | nil e => exact .refl e
  | cons hrun _ ih =>
    have hfirst := (hf _ _).evolved hs hrun
    exact hfirst.trans (ih (hs.steps hfirst.steps))

/-- A piece of work with what comes before it and what comes after it. -/
theorem around (h : Handled f e work e') (hs : Sound regime.terms ⟨e, w⟩)
    {piece : Handling H α β} (hmem : piece ∈ work) :
    Evolved regime w e piece.before ∧ Evolved regime w piece.after e' := by
  induction h with
  | nil => cases hmem
  | @cons first rest e' hrun hrest ih =>
    have hfirst := (hf _ _).evolved hs hrun
    have hs' := hs.steps hfirst.steps
    rcases List.mem_cons.mp hmem with rfl | hmem
    · exact ⟨.refl _, hrest.evolved hf hs'⟩
    · obtain ⟨hbefore, hafter⟩ := ih hs' hmem
      exact ⟨hfirst.trans hbefore, hafter⟩

end Handled

end LiveExpr
