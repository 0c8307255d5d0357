import LiveExpr.Proofs.QueueRequests

/-!
Names and references. Until a name is removed, whoever asks for its queue is given the same
reference, and it makes no difference whether an item is appended or taken by the one or by the
other. Who asks for another kind is refused, and nothing else comes of that. Once the name is
removed, the references that are out are all that leads to the queue.
-/
namespace LiveExpr

variable {H : Host}

/-- The name is that of a queue of another kind, and the fault says so. -/
def Directory.Mismatch (d : Directory H) (name : String) (k : H.Kind)
    (fault : QueueError H.Kind) : Prop :=
  ∃ n queue, d.named? name = some (n, queue) ∧ queue.kind ≠ k ∧
    fault = .kindMismatch name queue.kind k

namespace Engine

/-- The name and the reference lead to one queue. -/
structure Shares (call : Callbacks H) (e : Engine H) (name : String) (q : QueueRef H) : Prop where
  found : ∀ content, e.queues.named? name = some (q.number, ⟨q.kind, content⟩) ↔
    e.queues.at? q = some content
  typed : ∀ k, e.queues.typed? name k = if q.kind = k then some q else none
  /-- The trigger that is asked for does not matter. -/
  opened : ∀ trigger, (answer call (.openQueue name trigger q.kind)).run e = some (.ok q, e)
  appended : ∀ item, (answer call (.appendNamed name q.kind item)).run e =
    ((answer call (.append q item)).run e).map fun done => (.ok (), done.2)
  popped : (answer call (.popNamed name)).run e =
    ((answer call (.take q)).run e).map fun done => (done.1.isSome, done.2)
  acknowledged : e.queues.asked (.acknowledge name) = e.queues.asked (.take q)

/-- What comes of requests for queues, given the queues that there are. -/
structure QueueNames (call : Callbacks H) (e : Engine H) : Prop where
  asked : ∀ {r : Request H}, r.OnQueues →
    ∃ name? reply, Requeues call (answer call r) e (e.queues.asked r) name? reply
  created : ∀ {name}, e.queues.named? name = none → ∀ trigger k,
    let queues := e.queues.add name ⟨k, .empty trigger⟩
    (answer call (.openQueue name trigger k)).run e =
      some (.ok ⟨k, e.queues.queues.length⟩, { e with queues }) ∧
    queues.Holds name ⟨k, e.queues.queues.length⟩ trigger
  /-- A queue that is made by an append has its own name as trigger. -/
  createdByAppend : ∀ {name}, e.queues.named? name = none → ∀ k item,
    let queues := e.queues.asked (.appendNamed name k item)
    queues = e.queues.add name ⟨k, ⟨name, [item]⟩⟩ ∧
    queues.Holds name ⟨k, e.queues.queues.length⟩ name
  obtained : ∀ {name trigger k q e'},
    (answer call (.openQueue name trigger k)).run e = some (.ok q, e') →
      q.kind = k ∧ ∃ trigger, e'.queues.Holds name q trigger
  shared : ∀ {name q trigger}, e.queues.Holds name q trigger → Shares call e name q
  refused : ∀ name trigger k fault e',
    (answer call (.openQueue name trigger k)).run e = some (.error fault, e') ↔
      e' = e ∧ e.queues.Mismatch name k fault
  appendRefused : ∀ name k item fault e',
    (answer call (.appendNamed name k item)).run e = some (.error fault, e') ↔
      e' = e ∧ e.queues.Mismatch name k fault
  removed : ∀ name, (e.queues.asked (.removeQueue name)).named? name = none

section Names

variable {call : Callbacks H} {e e' : Engine H} {name trigger : String} {k : H.Kind}
  {q : QueueRef H} {fault : QueueError H.Kind}

theorem openQueue_refused : (openQueue name trigger k).run e = some (.error fault, e') ↔
    e' = e ∧ e.queues.Mismatch name k fault := by
  constructor
  · intro hrun
    cases hnamed : e.queues.named? name with
    | none =>
      rw [openQueue_ok (Directory.openQueue_new hnamed trigger k)] at hrun
      cases hrun
    | some found =>
      obtain ⟨n, queue⟩ := found
      by_cases hk : queue.kind = k
      · subst hk
        rw [openQueue_ok (Directory.openQueue_known hnamed trigger)] at hrun
        cases hrun
      · rw [openQueue_error (Directory.openQueue_mismatch hnamed hk trigger)] at hrun
        cases hrun
        exact ⟨rfl, n, queue, hnamed, hk, rfl⟩
  · rintro ⟨rfl, n, queue, hnamed, hk, rfl⟩
    exact openQueue_error (Directory.openQueue_mismatch hnamed hk trigger)

theorem Requeues.reply_eq {α : Type} {operation : Run H α} {queues : Directory H}
    {name? : Option String} {reply x : α} (h : Requeues call operation e queues name? reply)
    (hrun : operation.run e = some (x, e')) : x = reply := by
  rw [h.run] at hrun
  obtain ⟨found, -, heq⟩ := Option.map_eq_some_iff.mp hrun
  exact (Prod.mk.inj heq).1.symm

theorem appendNamed_error {item : H.Item k} :
    (appendNamed call name k item).run e = some (.error fault, e') ↔
      e' = e ∧ e.queues.Mismatch name k fault := by
  constructor
  · intro hrun
    cases hnamed : e.queues.named? name with
    | none =>
      have hreply := (appendNamed_requeues_new hnamed k item).reply_eq hrun
      cases hreply
    | some found =>
      obtain ⟨n, kind, content⟩ := found
      by_cases hk : kind = k
      · subst hk
        have hat : e.queues.at? ⟨kind, n⟩ = some content :=
          Directory.at?_eq_some.mpr (Directory.named?_eq_some hnamed)
        have hopen := Directory.openQueue_known hnamed name
        have hreply := (appendNamed_requeues hopen hat item).reply_eq hrun
        cases hreply
      · rw [(appendNamed_refused hnamed hk item).silent] at hrun
        cases hrun
        exact ⟨rfl, n, _, hnamed, hk, rfl⟩
  · rintro ⟨rfl, n, queue, hnamed, hk, rfl⟩
    exact (appendNamed_refused hnamed hk item).silent

theorem shares (h : e.queues.Holds name q trigger) : Shares call e name q := by
  obtain ⟨items, hnamed⟩ := h
  have hat : e.queues.at? q = some ⟨trigger, items⟩ :=
    Directory.at?_eq_some.mpr (Directory.named?_eq_some hnamed)
  have hopen : ∀ trigger, e.queues.openQueue name trigger q.kind = .ok (q, e.queues) :=
    Directory.openQueue_known hnamed
  refine ⟨fun content => Directory.Holds.found ⟨items, hnamed⟩, fun k => ?typed,
    fun trigger => openQueue_ok (hopen trigger), fun item => ?appended, ?popped,
    (Directory.dropNamed_some hnamed).trans (Directory.takeAt_some hat).symm⟩
  case typed =>
    unfold Directory.typed?
    rw [hnamed]
    by_cases hk : q.kind = k
    · subst hk
      rw [if_pos rfl]
      exact if_pos rfl
    · rw [if_neg hk]
      exact if_neg hk
  case appended =>
    have hnamed' : (appendNamed call name q.kind item).run e = _ :=
      (appendNamed_requeues (hopen name) hat item).run
    have happend : (append call q item).run e = _ := (append_requeues hat item).run
    show (appendNamed call name q.kind item).run e =
      ((append call q item).run e).map fun done => (.ok (), done.2)
    rw [hnamed', happend, Option.map_map]
    rfl
  case popped =>
    have hpop : (popNamed name).run e = _ :=
      (popNamed_requeues hnamed : Requeues call ..).silent
    have htake : (take q).run e = _ := (take_requeues hat : Requeues call ..).silent
    show (popNamed name).run e = ((take q).run e).map fun done => (done.1.isSome, done.2)
    rw [hpop, htake]
    cases items with
    | nil => rfl
    | cons item rest => rfl

theorem queueNames (call : Callbacks H) (e : Engine H) : QueueNames call e where
  asked hr := answer_requeues hr e
  created hnone trigger k :=
    ⟨openQueue_ok (Directory.openQueue_new hnone trigger k), e.queues.holds_add ..⟩
  createdByAppend {name} hnone k item := by
    have hmade : e.queues.asked (.appendNamed name k item) =
        e.queues.add name ⟨k, ⟨name, [item]⟩⟩ := Directory.putNamed_new hnone item
    dsimp only
    rw [hmade]
    exact ⟨rfl, e.queues.holds_add ..⟩
  obtained {name trigger k q e'} hrun := by
    cases hopen : e.queues.openQueue name trigger k with
    | error fault =>
      have hrefused := (openQueue_error hopen).symm.trans hrun
      cases hrefused
    | ok found =>
      obtain ⟨q', queues⟩ := found
      have hok := (openQueue_ok hopen).symm.trans hrun
      cases hok
      exact Directory.holds_of_openQueue hopen
  shared := shares
  refused _ _ _ _ _ := openQueue_refused
  appendRefused _ _ _ _ _ := appendNamed_error
  removed name := by
    show (e.queues.numbers.erase name).get? name >>= _ = none
    rw [Table.get?_erase, if_pos rfl]
    rfl

end Names

end Engine

/-- A name stands for one queue from the request that makes it to the request that removes the name.
Whoever asks for it is given the same reference, and what is done by the one is done by the other.
Requests for another kind, and no others, are refused, and then nothing happens at all. Without its
name the queue belongs to those who refer to it. All that a run does to the queues is what its own
requests do to them and those of whom it calls, one after the other. -/
theorem queue_names_lasting {H : Host} (script : Script H H) (rounds depth : Nat) :
    (∀ e : Engine H, Engine.QueueNames (script.callbacks rounds depth) e) ∧
    (∀ {P : Request H → Prop}, script.AsksOnly P → (∀ name, P (.acknowledge name)) →
      ∀ {α : Type} {a : Action H α} {e x e'},
        (a.run (script.callbacks rounds depth)).run e = some (x, e') →
          ∃ moves log, a.Goes (script.callbacks rounds depth) e moves x e' ∧
            Unfolds P moves log ∧ e'.queues = e.queues.after log) ∧
    ∀ log : List (Request H), (Directory.empty.after log).Lasting := by
  refine ⟨Engine.queueNames _, fun {P} hs hP {α a e x e'} hrun => ?_, Directory.lasting_after⟩
  obtain ⟨moves, hgoes⟩ := Action.goes_of_run hrun
  obtain ⟨log, hlog, hqueues⟩ := hgoes.unfolds (hs.ask hP rounds depth)
  exact ⟨moves, log, hgoes, hlog, hqueues⟩

/-- A host that queues two kinds of items. -/
def Pantry : Host where
  Function := Empty
  Listener := Empty
  Task := Empty
  Source := Empty
  Kind := Bool
  Item _ := Nat × String
  State := Unit
  decFunction := inferInstanceAs (DecidableEq Empty)
  decKind := inferInstanceAs (DecidableEq Bool)
  entity _ := ⟨fun x y => x.1 == y.1, fun _ _ => none⟩

namespace Pantry

def glass : Pantry.Kind := true

def tin : Pantry.Kind := false

def script : Script Pantry Pantry := ⟨nofun, nofun, nofun, nofun⟩

/-- The shelf is made for glasses, and there is a tin that does not fit in. -/
def storing : Action Pantry Unit := do
  let _ ← Action.ask (.openQueue "shelf" "shelved" glass)
  Action.ask (.append ⟨glass, 0⟩ (1, "plums"))
  let _ ← Action.ask (.appendNamed "shelf" tin (7, "beans"))

def shelf : QueueRef Pantry := ⟨glass, 0⟩

def plums : Queue (Pantry.Item glass) := ⟨"shelved", [(1, "plums")]⟩

def stored : Engine Pantry :=
  { Engine.create .standard () with
    queues := ⟨[⟨glass, plums⟩], [("shelf", 0)]⟩
    journal := [.fanOutEnded "shelved", .fanOutBegan "shelved", .fired "shelved"] }

/-- The shelf is refused to those who ask for tins. When its name has been removed and given to a
shelf for tins, the old one takes in what those put in who still refer to it. -/
theorem queue_names_lasting_shelved :
    (Engine.answer (script.callbacks 2 2) (.openQueue "shelf" "shelved" tin)).run stored =
        some (.error (.kindMismatch "shelf" glass tin), stored) ∧
      (Engine.answer (script.callbacks 2 2) (.openQueue "shelf" "other" glass)).run stored =
        some (.ok shelf, stored) ∧
      (∃ moves log, storing.Goes (script.callbacks 2 2) (.create .standard ()) moves () stored ∧
        Unfolds (fun r => ∃ name, r = .acknowledge name) moves log ∧
        stored.queues = Directory.empty.after log) ∧
      ((stored.queues.asked (.removeQueue "shelf")).after
          [.appendNamed "shelf" tin (7, "beans"), .append shelf (2, "pears"),
            .popNamed "shelf"]).Detached shelf ⟨"shelved", [(1, "plums"), (2, "pears")]⟩ := by
  obtain ⟨hnames, hruns, hlasting⟩ := queue_names_lasting script 2 2
  have hnamed : stored.queues.named? "shelf" = some (0, ⟨glass, plums⟩) := rfl
  have hholds : stored.queues.Holds "shelf" shelf "shelved" := ⟨_, hnamed⟩
  have hat : stored.queues.at? shelf = some plums := Directory.at?_eq_some.mpr rfl
  have hrun : (storing.run (script.callbacks 2 2)).run (.create .standard ()) =
      some ((), stored) := by
    cbv
  have hscript : script.AsksOnly fun r => ∃ name, r = .acknowledge name :=
    ⟨fun f => Empty.elim f, fun l => Empty.elim l, fun t => Empty.elim t, fun s => Empty.elim s⟩
  obtain ⟨moves, log, hgoes, hlog, hqueues⟩ := hruns hscript (fun name => ⟨name, rfl⟩) hrun
  have hdetached := (hlasting log).detached (hqueues ▸ hholds) (hqueues ▸ hat)
    [.appendNamed "shelf" tin (7, "beans"), .append shelf (2, "pears"), .popNamed "shelf"]
  refine ⟨((hnames stored).refused ..).mpr ⟨rfl, 0, _, hnamed, by decide, rfl⟩,
    ((hnames stored).shared hholds).opened "other", ⟨moves, log, hgoes, hlog, hqueues⟩, ?_⟩
  rw [hqueues]
  exact hdetached

end Pantry

end LiveExpr
