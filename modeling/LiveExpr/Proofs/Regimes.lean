import LiveExpr.Proofs.Deeds

/-!
What may be asked of all that is done to an engine, besides that it is made of deeds: a
relation between an earlier and a later moment. It has to be kept to by every deed and
by what only concerns messages and sources. The changes that the host makes to its own
state are another matter, since it depends on the host whether these keep to it. A deed
is looked at together with what was done before it, because a read at its end tells
nothing of the moment at which it began.
-/
namespace LiveExpr

variable {H : Host}

/-- What deeds leave as it is. -/
def Engine.outside (e : Engine H) : Mailbox (Message H) × List H.Source × H.State :=
  (e.mailbox, e.sources, e.host)

/-- What else is known of a deed, and of the moment `m` at which began what ends with it. Names keep
their entries, the journal has each run of a program for a read, and such a read begins at `m` and
finds no stored value. -/
structure Ensues (m m' : Moment H) (log : List (Entry H)) (m'' : Moment H) : Prop where
  outside : m''.engine.outside = m'.engine.outside
  entries : ∀ name, m'.engine.registry.contains name = true →
    m''.engine.registry.contains name = true
  noted : programRuns m''.engine.journal =
    log.filterMap Entry.ran? ++ programRuns m'.engine.journal
  missed : ∀ h ∈ log.filterMap Entry.ran?,
    ∃ c, m.engine.store.get? h = some c ∧ c.value = none

/-- A deed that runs no program for a read and leaves the names as they are. -/
theorem Ensues.plain {m m' m'' : Moment H} {log : List (Entry H)}
    (ho : m''.engine.outside = m'.engine.outside) (hr : m''.engine.registry = m'.engine.registry)
    (hl : log.filterMap Entry.ran? = [])
    (hj : programRuns m''.engine.journal = programRuns m'.engine.journal) :
    Ensues m m' log m'' where
  outside := ho
  entries := fun _ hname => hr ▸ hname
  noted := by rw [hl, hj, List.nil_append]
  missed := by simp [hl]

structure Regime (H : Host) where
  terms : Terms H
  /-- How the evaluations come out that are taken in, given the engine at that moment. -/
  completes : Engine H → Program → Evaluation → Prop
  path : Moment H → Moment H → Prop
  refl : ∀ m, path m m
  trans : ∀ {m m' m''}, path m m' → path m' m'' → path m m''
  deed : ∀ {m m' log m''}, path m m' → Deed terms m' log m'' → Ensues m m' log m'' →
    (∀ h v c, .read h (.ran (.ok v)) ∈ log → m'.engine.store.get? h = some c →
      completes m'.engine c.program v) → path m m''
  posted : ∀ e w m, path ⟨e, w⟩ ⟨{ e with mailbox := e.mailbox.send m }, w⟩
  added : ∀ e w s, path ⟨e, w⟩ ⟨{ e with sources := e.sources ++ [s] }, w⟩
  /-- A mailbox is emptied only in order to deliver what was in it. -/
  drained : ∀ {e e' w d}, path ⟨{ e with mailbox := .empty }, w⟩ ⟨e', w⟩ →
    e'.journal = d ++ e.journal → (∀ m ∈ e.mailbox.pending, .delivered m ∈ d) → path ⟨e, w⟩ ⟨e', w⟩

namespace Regime

/-- The evaluations come out as they should, of which the log says that they are taken in. -/
def Takes (regime : Regime H) (e : Engine H) (log : List (Entry H)) : Prop :=
  ∀ h v c, .read h (.ran (.ok v)) ∈ log → e.store.get? h = some c → regime.completes e c.program v

theorem takes_nil (regime : Regime H) (e : Engine H) : regime.Takes e [] := by
  intro h v c hmem
  cases hmem

/-- A deed of which the log says nothing. -/
theorem went (regime : Regime H) {m m' : Moment H} (h : Deed regime.terms m [] m')
    (hr : Ensues m m [] m') : regime.path m m' :=
  regime.deed (regime.refl m) h hr (regime.takes_nil m.engine)

end Regime

/-- Nothing is asked but what the terms ask. -/
@[reducible]
def Terms.regime (terms : Terms H) : Regime H where
  terms
  completes _ _ _ := True
  path _ _ := True
  refl _ := trivial
  trans _ _ := trivial
  deed _ _ _ _ := trivial
  posted _ _ _ := trivial
  added _ _ _ := trivial
  drained _ _ _ := trivial

theorem Engine.outside_complete (e : Engine H) (h : Handle) (began : Nat) (v : Evaluation) :
    (e.complete h began v).outside = e.outside := by
  unfold complete
  split
  · rfl
  · dsimp only
    split <;> rfl

theorem Engine.outside_conclude (e : Engine H) (h : Handle) (began : Nat)
    (outcome : Except Fault Evaluation) : (e.conclude h began outcome).outside = e.outside := by
  cases outcome with
  | error fault => rfl
  | ok v => exact outside_complete (e.note (.ran h)) h began v

end LiveExpr
