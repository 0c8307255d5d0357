import LiveExpr.Proofs.Coherence
import LiveExpr.Proofs.Reads

/-!
Between operations nothing is on its way any more, so that reading a bound expression
comes to what running its program comes to. The natives that are called deterministic
have to be; all other code of the host may do what it likes, at any time.
-/
namespace LiveExpr

variable {H : Host}

/-- The engines to which one operation after another leads, from a new one. -/
inductive Script.Reaches (script : Script H H) : Engine H → Prop
  | created (limits : Limits) (host : H.State) : script.Reaches (.create limits host)
  | operated {e e' : Engine H} {α : Type} {a : Action H α} {x : α} {rounds depth : Nat}
      (he : script.Reaches e) (ha : a.AsksOnly script.Sincere)
      (hrun : (a.run (script.callbacks rounds depth)).run e = some (x, e')) : script.Reaches e'

namespace Script

variable {script : Script H H} {e : Engine H}

theorem Reaches.steps (he : script.Reaches e) (hs : script.AsksOnly script.Sincere) :
    (∃ limits host, Steps script.terms ⟨.create limits host, []⟩ ⟨e, []⟩) ∧
      e.bus.dispatching = false := by
  induction he with
  | created limits host => exact ⟨⟨limits, host, .refl⟩, rfl⟩
  | @operated e e' α a x rounds depth he ha hrun ih =>
    obtain ⟨⟨limits, host, hsteps⟩, hd⟩ := ih
    have hallows : a.AsksOnly script.terms.Allows := by
      rw [script.allows_eq]
      exact ha
    have hfrom : From script.terms.regime [] (a.run (script.callbacks rounds depth)) e :=
      from_action (keeps_terms hs rounds depth) hallows e
    have hevolved := hfrom.evolved ((sound_create limits host).steps hsteps) hrun
    exact ⟨⟨limits, host, hsteps.trans hevolved.steps⟩, hevolved.dispatching.trans hd⟩

/-- No name is an excuse. -/
theorem coherent_create (limits : Limits) (host : H.State) :
    Coherent (fun _ _ => False) script.value ⟨.create limits host, []⟩ := by
  intro h c v hc
  simp [Engine.create, Store.get?, Store.empty] at hc

/-- With an empty line no stored value is doomed. -/
theorem Reaches.current (he : script.Reaches e) (hs : script.AsksOnly script.Sincere) {h : Handle}
    {c : Cache} {v : Value} (hc : e.store.get? h = some c) (hv : c.value = some v) :
    Current script.value e c v := by
  obtain ⟨⟨limits, host, hsteps⟩, hd⟩ := he.steps hs
  have hsound := (sound_create limits host).steps hsteps
  have hcoherent := (coherent_create limits host).steps (sound_create limits host) hsteps
  rcases hcoherent h c v hc hv with hcurrent | ⟨name, id, -, hpending | hawaited⟩ | ⟨-, -, -, hno⟩
  · exact hcurrent
  · rw [show e.bus.pending = [] from (hsound.idle hd).2] at hpending
    cases hpending
  · cases hawaited
  · exact hno.elim

/-- The program of an expression with a stored value calls no native that could do anything, so
that it comes to that value. -/
theorem Reaches.evaluate_stored (he : script.Reaches e) (hs : script.AsksOnly script.Sincere)
    {h : Handle} {c : Cache} {v : Value} (hc : e.store.get? h = some c) (hv : c.value = some v)
    (rounds depth : Nat) :
    ∃ names host,
      (Engine.evaluate (script.callbacks rounds (depth + 1)) c.program [] .empty).run e =
        some (.ok ⟨v, names, false⟩, { e with host }) := by
  obtain ⟨names, hcurrent, -⟩ := he.current hs hc hv
  obtain ⟨⟨limits, host, hsteps⟩, -⟩ := he.steps hs
  have hbinds := ((sound_create limits host).steps hsteps).binds
  have hpure : ∀ name f, e.registry.resolve name = .native f true → script.Pure f :=
    fun name f hb => pure_of_binds (hb ▸ hbinds name)
  exact ⟨names, Engine.evaluate_of_functional (callbacks_compute ..) (callbacks_return ..) hpure
    hcurrent rfl⟩

/-- Reading a bound expression comes to what running its program comes to. If a value is stored,
the program would run without a fault and change nothing but the host's own state. -/
theorem Reaches.read_eq_evaluation (hs : script.AsksOnly script.Sincere) (he : script.Reaches e)
    {h : Handle} {c : Cache} (hc : e.store.get? h = some c) (rounds depth : Nat) :
    ((Engine.read (script.callbacks rounds (depth + 1)) h .empty).run e).map Prod.fst =
        ((Engine.evaluate (script.callbacks rounds (depth + 1)) c.program [] .empty).run e).map
          (fun found => Engine.reading found.1) ∧
      ∀ v, c.value = some v →
        (Engine.read (script.callbacks rounds (depth + 1)) h .empty).run e =
            some (v, e.note (.answered h v)) ∧
          ∃ names host,
            (Engine.evaluate (script.callbacks rounds (depth + 1)) c.program [] .empty).run e =
              some (.ok ⟨v, names, false⟩, { e with host }) := by
  have hstored := fun v (hv : c.value = some v) =>
    he.evaluate_stored hs hc hv rounds depth
  refine ⟨?_, fun v hv => ⟨Engine.read_stored hc hv, hstored v hv⟩⟩
  cases hv : c.value with
  | none => exact Engine.read_value hc hv
  | some v =>
    obtain ⟨names, host, heval⟩ := hstored v hv
    rw [Engine.read_stored hc hv, heval]
    rfl

end Script

/-- A host with one native, which returns its first argument, and with listeners that read an
expression. -/
def Mirror : Host where
  Function := Unit
  Listener := Handle
  Task := Empty
  Source := Empty
  Kind := Empty
  Item _ := Empty
  State := Unit
  decFunction := inferInstanceAs (DecidableEq Unit)
  decKind := inferInstanceAs (DecidableEq Empty)
  entity := nofun

namespace Mirror

def script : Script Mirror Mirror where
  native _ args _ := return args.headD .unset
  listener h _ := do
    let _ ← Action.ask (.read h .empty)
  task := nofun
  pump := nofun

theorem asksOnly_sincere : script.AsksOnly script.Sincere where
  native _ _ _ := trivial
  listener _ _ := ⟨trivial, fun _ => trivial⟩
  task := nofun
  pump := nofun

def quoting (s : String) (id : Nat) : Program :=
  ⟨Instruction.encode (.pushText s) ++ Instruction.encode (.call "Echo" 1), id⟩

def program : Program := ⟨Instruction.encode (.call "A" 0), 0⟩

/-- Binds an expression that calls a function of the user, and has it read by a listener. -/
def opening : Action Mirror Unit := do
  Action.ask (.registerNative "Echo" () true)
  Action.ask (.registerUser "A" (quoting "old" 1))
  let h ← Action.ask (.bind program .onDemand)
  let _ ← Action.ask (.read h .empty)
  let _ ← Action.ask (.subscribe "A" .listen h)

/-- The function is defined anew. -/
def renewal : Action Mirror Unit := Action.ask (.registerUser "A" (quoting "new" 2))

def engine (a : Program) (v : Value) (epoch : Nat) (journal : List (Note Mirror)) : Engine Mirror :=
  let watchingA := (Bus.empty.subscribe .engine "A" .invalidate (.cache ⟨0, 0⟩)).2
  let watchingBoth := (watchingA.subscribe .engine "Echo" .invalidate (.cache ⟨0, 0⟩)).2
  let c : Cache :=
    { Cache.create program .onDemand with
      value := some v
      shown := some v
      epoch
      watches := [("A", ⟨.engine, 0⟩), ("Echo", ⟨.engine, 1⟩)] }
  { Engine.create .standard () with
    journal
    bus := (watchingBoth.subscribe .host "A" .listen (.listener (⟨0, 0⟩ : Handle))).2
    registry := ⟨Engine.builtins ++ [("Echo", .native (.host ()) true), ("A", .user a)]⟩
    store := ⟨[⟨0, some c⟩], []⟩ }

def fired (name : String) (during : List (Note Mirror)) : List (Note Mirror) :=
  .fanOutEnded name :: during ++ [.fanOutBegan name, .fired name]

def answered (v : Value) : List (Note Mirror) :=
  [.answered ⟨0, 0⟩ v, .stored ⟨0, 0⟩ v, .ran ⟨0, 0⟩]

def opened : Engine Mirror :=
  engine (quoting "old" 1) (.text "old") 0
    (answered (.text "old") ++ fired "A" [] ++ fired "Echo" [])

def renewed : Engine Mirror :=
  engine (quoting "new" 2) (.text "new") 1
    (fired "A" (answered (.text "new") ++ [.called ⟨.host, 2⟩ "A", .called ⟨.engine, 0⟩ "A"]) ++
      opened.journal)

theorem reaches_renewed : script.Reaches renewed := by
  have hopened : (opening.run (script.callbacks 2 3)).run (.create .standard ()) =
      some ((), opened) := by
    cbv
  have hrenewed : (renewal.run (script.callbacks 2 3)).run opened = some ((), renewed) := by
    cbv
  have hcomputes : ∃ g, script.Computes () g := ⟨fun args => args.headD .unset, fun _ _ => .pure⟩
  have hopening : opening.AsksOnly script.Sincere :=
    ⟨hcomputes, fun _ => ⟨trivial, fun _ => ⟨trivial, fun _ => ⟨trivial, fun _ =>
      ⟨trivial, fun _ => trivial⟩⟩⟩⟩⟩
  have hrenewal : renewal.AsksOnly script.Sincere := ⟨trivial, fun _ => trivial⟩
  have hcreated : script.Reaches (.create .standard ()) := .created (H := Mirror) .standard ()
  have hreaches : script.Reaches opened := hcreated.operated hopening hopened
  exact hreaches.operated hrenewal hrenewed

/-- The listener has read the expression amid the fire, and what was stored then is right. -/
theorem read_eq_evaluation_renewed :
    ∃ e' e'' names,
      (Engine.read (script.callbacks 2 3) ⟨0, 0⟩ .empty).run renewed = some (.text "new", e') ∧
        (Engine.evaluate (script.callbacks 2 3) program [] .empty).run renewed =
          some (.ok ⟨.text "new", names, false⟩, e'') := by
  obtain ⟨-, hstored⟩ :=
    Script.Reaches.read_eq_evaluation asksOnly_sincere reaches_renewed (h := ⟨0, 0⟩) rfl 2 2
  obtain ⟨hread, names, host, heval⟩ := hstored (.text "new") rfl
  exact ⟨_, _, names, hread, heval⟩

end Mirror

end LiveExpr
