import LiveExpr.Proofs.Freshness
import LiveExpr.Proofs.Histories
import LiveExpr.Proofs.StaleValues
import Mathlib

/-!
What a volatile evaluation leaves behind. It stores nothing, but it does not drop either
what other evaluations of the same expression have stored while it ran. So the next read
runs the program unless it finds such a value, although the expression is flagged
volatile then.
-/
namespace LiveExpr

variable {H : Host} {log log' : List (Entry H)} {m m' : Moment H} {x : Handle} {c' : Cache}

/-- As long as no evaluation of the expression is completed, nothing is stored for it. -/
theorem Course.value_before {terms : Terms H} (h : Course terms m log m') (hm : Sound terms m)
    (hnone : completions x log = []) (hc' : m'.engine.store.get? x = some c') {u : Value}
    (hu : c'.value = some u) : ∃ c, m.engine.store.get? x = some c ∧ c.value = some u := by
  induction h generalizing c' with
  | refl => exact ⟨c', hc', hu⟩
  | tail hcourse hd ih =>
    rw [completions_append, List.append_eq_nil_iff] at hnone
    obtain ⟨hentries, hlog⟩ := hnone
    rcases hd.cache_cases (hm.steps hcourse.steps) hc' with ⟨-, c, hc, rfl | rfl⟩ |
        ⟨-, -, p, mode, rfl⟩ | ⟨c, began, v, -, hcompletion, -⟩
    · exact ih hlog hc hu
    · cases hu
    · cases hu
    · rw [hentries] at hcompletion
      cases hcompletion

namespace Engine

theorem conclude_volatile {e : Engine H} (began : Nat) {v : Evaluation} (hv : v.volatile = true)
    (hc' : (e.conclude x began (.ok v)).store.get? x = some c') :
    ∃ c, e.store.get? x = some c ∧ c'.value = c.value := by
  rcases complete_cases (e := e.note (.ran x)) hc' with ⟨hx, -⟩ | ⟨-, c, hc, rfl⟩
  · exact (hx rfl).elim
  · refine ⟨c, hc, ?_⟩
    simp [completed, Cache.complete, hv]

end Engine

/-- A read whose evaluation is volatile leaves what is in store by then, which other evaluations of
the expression have stored while it ran. Until the next one is completed, the expression stays
flagged, and a read of it runs the program if that value is gone or was never there. -/
theorem History.read_volatile {e e₁ : Engine H} {w : List Ticket} (h : History log ⟨e, w⟩)
    (script : Script H H) (rounds depth : Nat) {c : Cache} (hc : e.store.get? x = some c)
    (hnone : c.value = none) (ctx : Context) {v : Evaluation}
    (heval : (Engine.evaluate (script.callbacks rounds depth) c.program [] ctx).run e =
      some (.ok v, e₁)) (hv : v.volatile = true) :
    ∃ d during e', e₁.journal = d ++ e.journal ∧
      (Engine.read (script.callbacks rounds depth) x ctx).run e = some (v.value, e') ∧
      Course .listing ⟨e, w⟩ (.read x (.ran (.ok v)) :: during) ⟨e', w⟩ ∧
      (∀ c', e'.store.get? x = some c' → ∃ c₁, e₁.store.get? x = some c₁ ∧ c'.value = c₁.value) ∧
      ∀ log' m', Course .listing ⟨e', w⟩ log' m' → completions x log' = [] →
        ∀ c', m'.engine.store.get? x = some c' →
          c'.volatile = true ∧
          (∀ u, c'.value = some u → Note.stored x u ∈ d ∧
            ∀ call ctx', (Engine.read call x ctx').run m'.engine =
              some (u, m'.engine.note (.answered x u))) ∧
          (c'.value = none → ∀ call ctx', (Engine.read call x ctx').run m'.engine =
            ((Engine.evaluate call c.program [] ctx').run m'.engine).map fun found =>
              (Engine.reading found.1,
                (found.2.conclude x c'.epoch found.1).note
                  (.answered x (Engine.reading found.1)))) := by
  have hevolved :=
    (Engine.from_evaluate (script.keeps_listing rounds depth) ..).evolved h.sound heval
  obtain ⟨during, hduring⟩ := hevolved.course
  obtain ⟨d, hsince⟩ := hduring.steps.since h.sound (Store.issued_of_get? hc)
  let e' := (e₁.conclude x c.epoch (.ok v)).note (.answered x v.value)
  have hread : Deed .listing ⟨e₁, w⟩ [.read x (.ran (.ok v))] ⟨e', w⟩ :=
    .ran c.epoch hsince.issued fun u hu _ _ => by
      cases hu
      exact Engine.evaluate_nodup heval
  have hcourse : Course .listing ⟨e, w⟩ (.read x (.ran (.ok v)) :: during) ⟨e', w⟩ :=
    hduring.tail hread
  -- There was no value at the beginning, so the journal knows of all that is stored at the end.
  have hrenewed : Renewed x (d ++ []) e₁.store :=
    Steps.renewed hduring.steps h.sound hsince.journal (renewed_of_none hc hnone)
  rw [List.append_nil] at hrenewed
  refine ⟨d, during, e', hsince.journal, Engine.read_of_evaluate hc hnone heval, hcourse,
    fun c' hc' => Engine.conclude_volatile c.epoch hv hc', fun log' m' hlater hidle c' hc' => ?_⟩
  have hwhole := hcourse.trans hlater
  have hprogram : c'.program = c.program := by
    obtain ⟨_, hkept⟩ := hwhole.steps.since h.sound (Store.issued_of_get? hc)
    obtain ⟨c₀, hc₀, hc₀'⟩ := hkept.cache c' hc'
    rw [hc] at hc₀
    cases hc₀
    exact hc₀'.program
  have hcompletions : completions x (log' ++ .read x (.ran (.ok v)) :: during ++ log) =
      v :: completions x (during ++ log) := by
    rw [List.append_assoc, completions_append, hidle, List.nil_append, List.cons_append,
      completions_cons_ok]
  refine ⟨?_, fun u hu => ⟨?_, fun call ctx' => Engine.read_stored hc' hu⟩,
    fun hmissing call ctx' => hprogram ▸ Engine.read_missed hc' hmissing⟩
  · rw [(h.course hwhole).volatile_eq hc', hcompletions]
    exact hv
  · obtain ⟨c₂, hc₂, hu₂⟩ := hlater.value_before (h.sound.steps hcourse.steps) hidle hc' hu
    obtain ⟨c₁, hc₁, hvalue⟩ := Engine.conclude_volatile c.epoch hv hc₂
    exact hrenewed c₁ u hc₁ (hvalue ▸ hu₂)

namespace Fickle

/-- The first native now reads the expression after it has bound its own name to the second. -/
def rereading : Script Fickle Fickle where
  native
    | true, _, _ => do
      Action.ask (.registerNative "A" false true)
      let _ ← Action.ask (.read ⟨0, 0⟩ .empty)
      return .text "old"
    | false, _, _ => return .text "new"
  listener := nofun
  task := nofun
  pump := nofun

/-- Binds the name to one of the natives as a nondeterministic one, and an expression to call it. -/
def unsettling (native : Bool) : Action Fickle Unit := do
  Action.ask (.registerNative "A" native false)
  let _ ← Action.ask (.bind program .onDemand)

def unsettled (native : Bool) : Engine Fickle :=
  { engine native fresh .empty (fired []) with
    registry := ⟨Engine.builtins ++ [("A", .native (.host native) false)]⟩ }

theorem history_unsettled (native : Bool) : ∃ log, History log ⟨unsettled native, []⟩ := by
  have hrun : ((unsettling native).run (rereading.callbacks 2 2)).run (.create .standard ()) =
      some ((), unsettled native) := by
    cases native
    · cbv
    · cbv
  obtain ⟨log, hlog⟩ := (history_create (H := Fickle) .standard ()).action rereading hrun
  exact ⟨_, hlog⟩

/-- The second native reads nothing, so that nothing is stored and every read runs the program. -/
theorem read_volatile_unstored :
    ∃ e' c',
      (Engine.read (rereading.callbacks 2 2) ⟨0, 0⟩ .empty).run (unsettled false) =
        some (.text "new", e') ∧
      e'.store.get? ⟨0, 0⟩ = some c' ∧ c'.volatile = true ∧ c'.value = none ∧
      ((Engine.read (rereading.callbacks 2 2) ⟨0, 0⟩ .empty).run e').map Prod.fst =
        ((Engine.evaluate (rereading.callbacks 2 2) program [] .empty).run e').map
          fun found => Engine.reading found.1 := by
  obtain ⟨log, hlog⟩ := history_unsettled false
  have heval : (Engine.evaluate (rereading.callbacks 2 2) program [] .empty).run
      (unsettled false) = some (.ok ⟨.text "new", ["A"], true⟩, unsettled false) := by
    cbv
  obtain ⟨d, during, e', hj, hread, -, -, hlater⟩ :=
    History.read_volatile hlog rereading 2 2 (x := ⟨0, 0⟩) (c := fresh) rfl rfl .empty heval rfl
  have hd : d = [] := List.append_cancel_right hj.symm
  subst hd
  have hbound : ((Engine.read (rereading.callbacks 2 2) ⟨0, 0⟩ .empty).run (unsettled false)).map
      (fun found => found.2.store.contains ⟨0, 0⟩) = some true := by
    cbv
  rw [hread] at hbound
  obtain ⟨c', hc'⟩ := Option.isSome_iff_exists.mp (Option.some_inj.mp hbound)
  obtain ⟨hflag, hstored, hmissing⟩ := hlater [] ⟨e', []⟩ .refl rfl c' hc'
  have hnone : c'.value = none :=
    Option.eq_none_iff_forall_ne_some.mpr fun u hu => List.not_mem_nil (hstored u hu).1
  refine ⟨e', c', hread, hc', hflag, hnone, ?_⟩
  rw [hmissing hnone, Option.map_map]
  rfl

/-- The engine after a read of the expression that calls the first native. -/
def misled : Engine Fickle :=
  engine false
    { fresh with
      value := some (.text "new")
      shown := some (.text "old")
      volatile := true
      watches := [("A", ⟨.engine, 0⟩)] }
    watchful
    (.answered ⟨0, 0⟩ (.text "old") :: .ran ⟨0, 0⟩ :: .answered ⟨0, 0⟩ (.text "new") ::
      .stored ⟨0, 0⟩ (.text "new") :: .ran ⟨0, 0⟩ :: (fired [] ++ fired []))

/-- The last completed evaluation was volatile, and yet there is a stored value under the flag. The
next read gives it and runs nothing. -/
theorem stored_although_volatile :
    ∃ (e e' : Engine Fickle) (log : List (Entry Fickle)) (c : Cache) (v : Evaluation),
      History log ⟨e, []⟩ ∧ e.bus.dispatching = false ∧ e.store.get? ⟨0, 0⟩ = some c ∧
      (completions ⟨0, 0⟩ log).head? = some v ∧ v.volatile = true ∧
      c.volatile = true ∧ c.value = some (.text "new") ∧
      (Engine.read (rereading.callbacks 2 2) ⟨0, 0⟩ .empty).run e = some (.text "new", e') ∧
      e'.journal = .answered ⟨0, 0⟩ (.text "new") :: e.journal := by
  obtain ⟨log, hlog⟩ := history_unsettled true
  have hread : ((Action.ask (.read ⟨0, 0⟩ .empty)).run (rereading.callbacks 2 2)).run
      (unsettled true) = some (.text "old", misled) := by
    cbv
  obtain ⟨during, hmisled⟩ := hlog.action rereading hread
  have hflag := hmisled.volatile_eq (x := ⟨0, 0⟩) rfl
  cases hlast : (completions ⟨0, 0⟩ (during ++ log)).head? with
  | none =>
    rw [hlast] at hflag
    cases hflag
  | some v =>
    rw [hlast] at hflag
    exact ⟨misled, misled.note (.answered ⟨0, 0⟩ (.text "new")), _, _, v, hmisled, rfl, rfl, hlast,
      hflag.symm, rfl, rfl, Engine.read_stored rfl rfl, rfl⟩

end Fickle

end LiveExpr
