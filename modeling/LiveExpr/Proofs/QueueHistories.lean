import LiveExpr.Proofs.Histories
import LiveExpr.Proofs.QueueOrder
import Mathlib

/-!
The queues of an engine against its log. What the log says was done to a queue is all
that was ever done to it, be it by those who were told of an append.
-/
namespace LiveExpr

variable {H : Host}

/-- What the entry says was done to the queue. -/
def Entry.operation? (n : Nat) (k : H.Kind) : Entry H → Option (Queue.Operation (H.Item k))
  | .put n' k' item =>
    if n' = n then if hk : k' = k then some (.put (hk ▸ item)) else none else none
  | .popped n' => if n' = n then some .pop else none
  | .read _ _ => none

/-- The operations on one queue, oldest first. -/
def operations (n : Nat) (k : H.Kind) (log : List (Entry H)) :
    List (Queue.Operation (H.Item k)) :=
  (log.filterMap (Entry.operation? n k)).reverse

variable {log entries : List (Entry H)} {m m' : Moment H} {n : Nat} {k : H.Kind}

theorem operations_append (n : Nat) (k : H.Kind) (entries log : List (Entry H)) :
    operations n k (entries ++ log) = operations n k log ++ operations n k entries := by
  simp [operations]

theorem operations_put (n : Nat) (k : H.Kind) (item : H.Item k) :
    operations n k [.put n k item] = [.put item] := by
  simp [operations, Entry.operation?]

theorem operations_popped (n : Nat) (k : H.Kind) :
    operations n k [(.popped n : Entry H)] = [.pop] := by
  simp [operations, Entry.operation?]

/-- The entry is about another queue. -/
theorem operations_put_other {n' : Nat} (hn : n' ≠ n) {k' : H.Kind} (item : H.Item k') :
    operations n k [.put n' k' item] = [] := by
  simp [operations, Entry.operation?, hn]

theorem operations_popped_other {n' : Nat} (hn : n' ≠ n) :
    operations n k [(.popped n' : Entry H)] = [] := by
  simp [operations, Entry.operation?, hn]

/-- Each queue has been made by the operations on it, and there were none before it was there. -/
structure Directory.Recorded (d : Directory H) (log : List (Entry H)) : Prop where
  absent : ∀ n k, d.queues[n]? = none → operations n k log = []
  items : ∀ n k q, d.queues[n]? = some ⟨k, q⟩ → q.items = Queue.contents (operations n k log)

namespace Directory.Recorded

variable {d : Directory H}

theorem opened (h : d.Recorded log) (trigger : String) (k : H.Kind) (numbers : Table Nat) :
    (⟨d.queues ++ [⟨k, .empty trigger⟩], numbers⟩ : Directory H).Recorded log where
  absent := by
    intro n k' hn
    refine h.absent n k' (List.getElem?_eq_none ?_)
    have hle := List.getElem?_eq_none_iff.mp hn
    rw [List.length_append] at hle
    exact Nat.le_of_add_right_le hle
  items := by
    intro n k' q hq
    rcases Nat.lt_or_ge n d.queues.length with hlt | hge
    · rw [List.getElem?_append_left hlt] at hq
      exact h.items n k' q hq
    · have hbound := (List.getElem?_eq_some_iff.mp hq).1
      rw [List.length_append, List.length_singleton] at hbound
      obtain rfl : n = d.queues.length := by omega
      rw [List.getElem?_concat_length] at hq
      cases hq
      rw [h.absent _ _ (List.getElem?_eq_none hge)]
      rfl

/-- An operation is done to one queue, and the log has an entry about that one. -/
theorem replace (h : d.Recorded log) {n : Nat} {k : H.Kind} {content content' : Queue (H.Item k)}
    (hn : d.queues[n]? = some ⟨k, content⟩) {entry : Entry H} {op : Queue.Operation (H.Item k)}
    (hop : operations n k [entry] = [op]) (hitems : content'.items = Queue.perform content.items op)
    (hother : ∀ n' k', n ≠ n' → operations n' k' [entry] = []) :
    (d.replace n ⟨k, content'⟩).Recorded ([entry] ++ log) where
  absent := by
    intro n' k' hn'
    have hne : n ≠ n' := by
      rintro rfl
      rw [Directory.replace, List.getElem?_set_self (List.getElem?_eq_some_iff.mp hn).1] at hn'
      cases hn'
    rw [Directory.replace, List.getElem?_set_ne hne] at hn'
    rw [operations_append, h.absent n' k' hn', hother n' k' hne]
    rfl
  items := by
    intro n' k' q hq
    rw [operations_append]
    by_cases hne : n = n'
    · subst hne
      rw [Directory.replace, List.getElem?_set_self (List.getElem?_eq_some_iff.mp hn).1] at hq
      cases hq
      rw [hop, Queue.contents_append, hitems, h.items n k content hn]
    · rw [Directory.replace, List.getElem?_set_ne hne] at hq
      rw [hother n' k' hne, List.append_nil]
      exact h.items n' k' q hq

end Directory.Recorded

theorem Deed.queues_recorded {terms : Terms H} (h : Deed terms m entries m')
    (hr : m.engine.queues.Recorded log) : m'.engine.queues.Recorded (entries ++ log) := by
  have hread : ∀ {x a}, m.engine.queues.Recorded ([Entry.read x a] ++ log) :=
    fun {_ _} => ⟨hr.absent, hr.items⟩
  cases h with
  | went _ hq => exact ⟨fun n k => hq ▸ hr.absent n k, fun n k q => hq ▸ hr.items n k q⟩
  | opened trigger k numbers => exact hr.opened trigger k numbers
  | put hn item =>
    exact hr.replace hn (operations_put ..) rfl fun _ _ hne => operations_put_other hne item
  | popped hn =>
    exact hr.replace hn (operations_popped ..) rfl fun _ _ hne => operations_popped_other hne
  | unknown => exact hread
  | found => exact hread
  | @ran e w h began outcome hi hv =>
    cases outcome with
    | error fault => exact hread
    | ok v =>
      show ((e.note (.ran h)).complete h began v).queues.Recorded _
      rw [Engine.complete_queues]
      exact hread

theorem History.queues_recorded (h : History log m) : m.engine.queues.Recorded log :=
  h.induction (P := fun log m => m.engine.queues.Recorded log)
    (fun _ _ => ⟨fun _ _ _ => rfl, fun _ _ _ hq => by cases hq⟩)
    fun _ hd hr => hd.queues_recorded hr

namespace Engine

variable {e e' : Engine H} {w : List Ticket} {q : Queue (H.Item k)}

/-- An append is in the log before all that its fire leads to. -/
theorem append_history (h : History log ⟨e, w⟩) (hq : e.queues.queues[n]? = some ⟨k, q⟩)
    (script : Script H H) {rounds depth : Nat} {item : H.Item k}
    (hrun : (append (script.callbacks rounds depth) ⟨k, n⟩ item).run e = some ((), e')) :
    ∃ log', History (log' ++ Entry.put n k item :: log) ⟨e', w⟩ := by
  unfold append at hrun
  rw [run_get_bind, Directory.at?_eq_some.mpr hq] at hrun
  have hput : History (.put n k item :: log)
      ⟨{ e with queues := e.queues.replace n ⟨k, q.put item⟩ }, w⟩ :=
    h.course (.single (.put hq item))
  exact hput.evolved ((from_fire (script.keeps_listing rounds depth) ..).evolved hput.sound hrun)

theorem take_history (h : History log ⟨e, w⟩) (hq : e.queues.queues[n]? = some ⟨k, q⟩) :
    ∃ e', (take ⟨k, n⟩).run e = some (q.pop.1, e') ∧ History (.popped n :: log) ⟨e', w⟩ := by
  refine ⟨_, ?_, h.course (.single (.popped hq))⟩
  unfold take
  rw [run_get_bind, Directory.at?_eq_some.mpr hq]
  rfl

end Engine

/-- Whatever is appended to a queue and taken from it, no two of its items describe one entity, each
is the latest that was appended for its entity, and they stand in the order in which their entities
came in. In an engine the history of a queue is what the log says was done to it, also by those who
are told of an append. -/
theorem queue_orderly (k : H.Kind)
    (hsame : Equivalence fun x y : H.Item k => Entity.same x y = true) :
    (∀ (q : Queue (H.Item k)) (ops : List (Queue.Operation (H.Item k))),
      q.items = Queue.contents ops →
        Queue.Orderly ops q.items ∧ Queue.TakesEarliest ops q ∧
        (∀ item, (q.put item).items = Queue.contents (ops ++ [Queue.Operation.put item])) ∧
        q.pop.2.items = Queue.contents (ops ++ [Queue.Operation.pop])) ∧
    ∀ (log : List (Entry H)) (e : Engine H) (w : List Ticket) (n : Nat) (q : Queue (H.Item k)),
      History log ⟨e, w⟩ → e.queues.queues[n]? = some ⟨k, q⟩ →
        q.items = Queue.contents (operations n k log) ∧
        (∀ (script : Script H H) rounds depth item e',
          (Engine.append (script.callbacks rounds depth) ⟨k, n⟩ item).run e = some ((), e') →
            ∃ log', History (log' ++ Entry.put n k item :: log) ⟨e', w⟩) ∧
        ∃ e', (Engine.take ⟨k, n⟩).run e = some (q.pop.1, e') ∧
          History (.popped n :: log) ⟨e', w⟩ := by
  refine ⟨fun q ops hq => ?_, fun log e w n q h hq => ⟨h.queues_recorded.items n k q hq, ?_, ?_⟩⟩
  · have horderly : Queue.Orderly ops q.items := hq ▸ Queue.contents_orderly hsame ops
    refine ⟨horderly, horderly.takesEarliest, fun item => ?_, ?_⟩
    · rw [Queue.contents_append, ← hq]
      rfl
    · rw [Queue.contents_append, ← hq]
      rfl
  · exact fun script rounds depth item e' hrun => Engine.append_history h hq script hrun
  · exact Engine.take_history h hq

/-- A host whose listener takes the front item when there are three. -/
def Shelf : Host where
  Function := Empty
  Listener := Unit
  Task := Empty
  Source := Empty
  Kind := Unit
  Item _ := Nat × String
  State := Unit
  decFunction := inferInstanceAs (DecidableEq Empty)
  decKind := inferInstanceAs (DecidableEq Unit)
  entity _ := ⟨fun x y => x.1 == y.1, fun _ _ => none⟩

namespace Shelf

def kind : Shelf.Kind := ()

def queue : QueueRef Shelf := ⟨kind, 0⟩

def script : Script Shelf Shelf where
  native := nofun
  listener _ _ := do
    let e ← Action.engine
    if (e.queues.at? queue).any fun q => 3 ≤ q.size then
      let _ ← Action.ask (.take queue)
  task := nofun
  pump := nofun

/-- The third item replaces the first one, and the fourth is one too many. -/
def filling : Action Shelf Unit := do
  let _ ← Action.ask (.openQueue "shelf" "full" kind)
  let _ ← Action.ask (.subscribe "full" .listen ())
  Action.ask (.append queue (1, "a"))
  Action.ask (.append queue (2, "b"))
  Action.ask (.append queue (1, "c"))
  Action.ask (.append queue (3, "d"))

/-- The notes of one append, newest first. -/
def announced : List (Note Shelf) :=
  [.fanOutEnded "full", .called ⟨.host, 0⟩ "full", .fanOutBegan "full", .fired "full"]

def content : Queue (Shelf.Item kind) := ⟨"full", [(2, "b"), (3, "d")]⟩

def filled : Engine Shelf :=
  { Engine.create .standard () with
    bus := (Bus.empty.subscribe .host "full" .listen (.listener ())).2
    queues := ⟨[⟨kind, content⟩], [("shelf", 0)]⟩
    journal := announced ++ announced ++ announced ++ announced }

theorem equivalence_same :
    Equivalence fun x y : Shelf.Item kind => Entity.same x y = true where
  refl x := beq_self_eq_true x.1
  symm h := beq_iff_eq.mpr (beq_iff_eq.mp h).symm
  trans h h' := beq_iff_eq.mpr ((beq_iff_eq.mp h).trans (beq_iff_eq.mp h'))

/-- The listener has taken the item that came to the front by replacing another one. -/
theorem queue_orderly_trimmed :
    ∃ log, History log ⟨filled, []⟩ ∧
      Queue.contents (operations 0 kind log) = [(2, "b"), (3, "d")] ∧
      Queue.Orderly (operations 0 kind log) content.items ∧
      Queue.TakesEarliest (operations 0 kind log) content ∧
      ∃ e', (Engine.take queue).run filled = some (some (2, "b"), e') ∧
        History (.popped 0 :: log) ⟨e', []⟩ := by
  have hrun : (filling.run (script.callbacks 2 2)).run (.create .standard ()) =
      some ((), filled) := by
    cbv
  obtain ⟨log, hlog⟩ := (history_create (H := Shelf) .standard ()).action script hrun
  obtain ⟨hqueue, hengine⟩ := queue_orderly kind equivalence_same
  obtain ⟨hitems, -, htake⟩ := hengine _ filled [] 0 content hlog rfl
  obtain ⟨horderly, hearliest, -⟩ := hqueue content _ hitems
  exact ⟨_, hlog, hitems.symm, horderly, hearliest, htake⟩

end Shelf

end LiveExpr
