import LiveExpr.Proofs.QueueFires

/-!
The queues of a directory under their names, whatever is asked for. A name stays with the queue
that was made for it until it is removed, and the queue keeps its kind and its trigger. A queue that
has lost its name never gets one again. From then on it is changed by those only who refer to it,
and the name goes to a queue that is made anew.
-/
namespace LiveExpr

variable {H : Host}

deriving instance DecidableEq for QueueRef

/-- What is asked to be done to this very queue. Requests that give a name are not among these. -/
def Request.operation? (q : QueueRef H) : Request H → Option (Queue.Operation (H.Item q.kind))
  | .append q' item => if hq : q' = q then some (.put (hq ▸ item)) else none
  | .take q' => if q' = q then some .pop else none
  | _ => none

namespace Request

variable {q q' : QueueRef H}

theorem operation?_append (q : QueueRef H) (item : H.Item q.kind) :
    (Request.append q item).operation? q = some (.put item) := by
  simp [operation?]

theorem operation?_take (q : QueueRef H) : (Request.take q).operation? q = some .pop := by
  simp [operation?]

theorem eq_of_operation?_append {item : H.Item q.kind} {op : Queue.Operation (H.Item q'.kind)}
    (h : (Request.append q item).operation? q' = some op) : q = q' := by
  by_contra hne
  simp [operation?, hne] at h

theorem eq_of_operation?_take {op : Queue.Operation (H.Item q'.kind)}
    (h : (Request.take q).operation? q' = some op) : q = q' := by
  by_contra hne
  simp [operation?, hne] at h

/-- No two queues are meant by one request. -/
theorem eq_of_operation? {r : Request H} {op : Queue.Operation (H.Item q.kind)}
    {op' : Queue.Operation (H.Item q'.kind)} (h : r.operation? q = some op)
    (h' : r.operation? q' = some op') : q = q' := by
  cases r with
  | append p item => exact (eq_of_operation?_append h).symm.trans (eq_of_operation?_append h')
  | take p => exact (eq_of_operation?_take h).symm.trans (eq_of_operation?_take h')
  | _ => cases h

end Request

/-- The queue after the operations, oldest first. -/
def Queue.operated {α : Type} [Entity α] (q : Queue α) (ops : List (Operation α)) : Queue α :=
  { q with items := ops.foldl perform q.items }

namespace Directory

def putAt (d : Directory H) (q : QueueRef H) (item : H.Item q.kind) : Directory H :=
  match d.at? q with
  | some content => d.update q (content.put item)
  | none => d

def takeAt (d : Directory H) (q : QueueRef H) : Directory H :=
  match d.at? q with
  | some content => d.update q content.pop.2
  | none => d

/-- What there is after asking for a queue, be it that this was refused. -/
def opened (d : Directory H) (name trigger : String) (k : H.Kind) : Directory H :=
  match d.openQueue name trigger k with
  | .ok (_, opened) => opened
  | .error _ => d

def putNamed (d : Directory H) (name : String) (k : H.Kind) (item : H.Item k) : Directory H :=
  match d.openQueue name name k with
  | .ok (q, opened) => opened.putAt ⟨k, q.number⟩ item
  | .error _ => d

def dropNamed (d : Directory H) (name : String) : Directory H :=
  match d.named? name with
  | some (n, queue) => d.replace n queue.rest
  | none => d

/-- What a request does to the queues by itself. What it fires may lead to further requests. -/
def asked (d : Directory H) : Request H → Directory H
  | .openQueue name trigger k => d.opened name trigger k
  | .appendNamed name k item => d.putNamed name k item
  | .append q item => d.putAt q item
  | .take q => d.takeAt q
  | .popNamed name => d.dropNamed name
  | .acknowledge name => d.dropNamed name
  | .removeQueue name => (d.remove name).2
  | _ => d

/-- The queues after the requests, oldest first. -/
def after (d : Directory H) (log : List (Request H)) : Directory H := log.foldl asked d

theorem after_append (d : Directory H) (log log' : List (Request H)) :
    d.after (log ++ log') = (d.after log).after log' := List.foldl_append

/-- Under the name there is this queue, which has the trigger. -/
def Holds (d : Directory H) (name : String) (q : QueueRef H) (trigger : String) : Prop :=
  ∃ items, d.named? name = some (q.number, ⟨q.kind, ⟨trigger, items⟩⟩)

/-- The queue has this content and no name. -/
structure Detached (d : Directory H) (q : QueueRef H) (content : Queue (H.Item q.kind)) : Prop where
  unnamed : ∀ name queue, d.named? name ≠ some (q.number, queue)
  content : d.at? q = some content

/-- Names are of queues that there are, and no queue has two of them. -/
structure Proper (d : Directory H) : Prop where
  bounded : ∀ {name n}, d.numbers.get? name = some n → n < d.queues.length
  distinct : ∀ {name name' n}, d.numbers.get? name = some n → d.numbers.get? name' = some n →
    name = name'

variable {d d' : Directory H} {name name' trigger : String} {n : Nat} {k : H.Kind}
  {q : QueueRef H} {queue : KindQueue H} {content : Queue (H.Item q.kind)} {r : Request H}

theorem holds_add (d : Directory H) (name trigger : String) (k : H.Kind) (items : List (H.Item k)) :
    (d.add name ⟨k, ⟨trigger, items⟩⟩).Holds name ⟨k, d.queues.length⟩ trigger :=
  ⟨items, named?_iff.mpr ⟨by simp [add, Table.get?_set], List.getElem?_concat_length⟩⟩

/-- Whoever has been given the queue has got the one of that name. -/
theorem holds_of_openQueue (h : d.openQueue name trigger k = .ok (q, d')) :
    q.kind = k ∧ ∃ trigger, d'.Holds name q trigger := by
  cases hnamed : d.named? name with
  | none =>
    rw [openQueue_new hnamed] at h
    cases h
    exact ⟨rfl, trigger, d.holds_add name trigger k []⟩
  | some found =>
    obtain ⟨n, kind, content⟩ := found
    by_cases hk : kind = k
    · subst hk
      rw [openQueue_known hnamed] at h
      cases h
      exact ⟨rfl, content.trigger, content.items, hnamed⟩
    · rw [openQueue_mismatch hnamed hk] at h
      cases h

/-- All that a request can come to. -/
inductive Change (d : Directory H) (r : Request H) : Directory H → Prop
  /-- There is no such queue, or none is meant, or the one of the name has another kind. -/
  | idle (hr : ∀ {q content}, d.at? q = some content → r.operation? q = none) : Change d r d
  | made (hr : ∀ q, r.operation? q = none) {name : String} (h : d.named? name = none)
      (queue : KindQueue H) : Change d r (d.add name queue)
  | named (hr : ∀ q, r.operation? q = none) {name : String} {n : Nat} {k : H.Kind}
      {content : Queue (H.Item k)} (h : d.named? name = some (n, ⟨k, content⟩))
      (items : List (H.Item k)) : Change d r (d.replace n ⟨k, { content with items }⟩)
  | referred {q : QueueRef H} {op : Queue.Operation (H.Item q.kind)} (hr : r.operation? q = some op)
      {content : Queue (H.Item q.kind)} (h : d.at? q = some content) :
      Change d r (d.update q (content.operated [op]))
  | removed (name : String) (hr : r = .removeQueue name) : Change d r (d.remove name).2

theorem putAt_some (h : d.at? q = some content) (item : H.Item q.kind) :
    d.putAt q item = d.update q (content.put item) := by
  unfold putAt
  rw [h]

theorem takeAt_some (h : d.at? q = some content) : d.takeAt q = d.update q content.pop.2 := by
  unfold takeAt
  rw [h]

theorem opened_new (h : d.named? name = none) (trigger : String) (k : H.Kind) :
    d.opened name trigger k = d.add name ⟨k, .empty trigger⟩ := by
  unfold opened
  rw [openQueue_new h]

theorem opened_known (h : d.named? name = some (n, queue)) (trigger : String) (k : H.Kind) :
    d.opened name trigger k = d := by
  unfold opened
  by_cases hk : queue.kind = k
  · subst hk
    rw [openQueue_known h]
  · rw [openQueue_mismatch h hk]

theorem putNamed_new (h : d.named? name = none) (item : H.Item k) :
    d.putNamed name k item = d.add name ⟨k, ⟨name, [item]⟩⟩ := by
  unfold putNamed
  rw [openQueue_new h]
  exact (putAt_some (d.at?_add name k (.empty name)) item).trans (replace_add ..)

theorem putNamed_known (h : d.named? name = some (q.number, ⟨q.kind, content⟩))
    (item : H.Item q.kind) : d.putNamed name q.kind item = d.update q (content.put item) := by
  unfold putNamed
  rw [openQueue_known h]
  exact putAt_some (at?_eq_some.mpr (named?_eq_some h)) item

theorem putNamed_mismatch (h : d.named? name = some (n, queue)) (hk : queue.kind ≠ k)
    (item : H.Item k) : d.putNamed name k item = d := by
  unfold putNamed
  rw [openQueue_mismatch h hk]

theorem dropNamed_some (h : d.named? name = some (n, queue)) :
    d.dropNamed name = d.replace n queue.rest := by
  unfold dropNamed
  rw [h]

theorem change_dropNamed (d : Directory H) (name : String) (hr : ∀ q, r.operation? q = none) :
    d.Change r (d.dropNamed name) := by
  cases hnamed : d.named? name with
  | none =>
    unfold dropNamed
    rw [hnamed]
    exact .idle fun {q _} _ => hr q
  | some found =>
    rw [dropNamed_some hnamed]
    exact .named hr hnamed _

/-- Nothing happens where the queue is not there that is referred to. -/
theorem operation?_of_at?_eq_none {q' : QueueRef H} {content' : Queue (H.Item q'.kind)}
    {op : Queue.Operation (H.Item q.kind)} (hr : r.operation? q = some op) (hq : d.at? q = none)
    (hq' : d.at? q' = some content') : r.operation? q' = none := by
  cases hop : r.operation? q' with
  | none => rfl
  | some op' =>
    obtain rfl := Request.eq_of_operation? hr hop
    rw [hq] at hq'
    cases hq'

theorem change_asked (d : Directory H) (r : Request H) : d.Change r (d.asked r) := by
  have hidle : (∀ q, r.operation? q = none) → d.Change r d := fun hr => .idle fun {q _} _ => hr q
  cases r with
  | openQueue name trigger k =>
    show d.Change _ (d.opened name trigger k)
    cases hnamed : d.named? name with
    | none =>
      rw [opened_new hnamed]
      exact .made (fun _ => rfl) hnamed _
    | some found =>
      rw [opened_known hnamed]
      exact hidle fun _ => rfl
  | appendNamed name k item =>
    show d.Change _ (d.putNamed name k item)
    cases hnamed : d.named? name with
    | none =>
      rw [putNamed_new hnamed]
      exact .made (fun _ => rfl) hnamed _
    | some found =>
      obtain ⟨n, kind, content⟩ := found
      by_cases hk : kind = k
      · subst hk
        rw [putNamed_known (q := ⟨kind, n⟩) hnamed]
        exact .named (fun _ => rfl) hnamed _
      · rw [putNamed_mismatch hnamed hk]
        exact hidle fun _ => rfl
  | append q item =>
    show d.Change _ (d.putAt q item)
    have hr := Request.operation?_append q item
    cases hq : d.at? q with
    | none =>
      unfold putAt
      rw [hq]
      exact .idle (operation?_of_at?_eq_none hr hq)
    | some content =>
      rw [putAt_some hq]
      exact .referred hr hq
  | take q =>
    show d.Change _ (d.takeAt q)
    have hr := Request.operation?_take q
    cases hq : d.at? q with
    | none =>
      unfold takeAt
      rw [hq]
      exact .idle (operation?_of_at?_eq_none hr hq)
    | some content =>
      rw [takeAt_some hq]
      exact .referred hr hq
  | popNamed name => exact d.change_dropNamed name fun _ => rfl
  | acknowledge name => exact d.change_dropNamed name fun _ => rfl
  | removeQueue name => exact .removed name rfl
  | _ => exact hidle fun _ => rfl

/-- The same queue is found whether it is asked for by name or referred to. -/
theorem Holds.found (h : d.Holds name q trigger) :
    d.named? name = some (q.number, ⟨q.kind, content⟩) ↔ d.at? q = some content := by
  obtain ⟨items, hnamed⟩ := h
  have hat : d.at? q = some ⟨trigger, items⟩ := at?_eq_some.mpr (named?_eq_some hnamed)
  constructor
  · exact fun hfound => at?_eq_some.mpr (named?_eq_some hfound)
  · intro hfound
    rw [hat] at hfound
    cases hfound
    exact hnamed

theorem Holds.add (h : d.Holds name q trigger) (hnone : d.named? name' = none)
    (queue : KindQueue H) : (d.add name' queue).Holds name q trigger := by
  obtain ⟨items, hnamed⟩ := h
  obtain ⟨hnumber, hqueue⟩ := named?_iff.mp hnamed
  have hne : name ≠ name' := by
    rintro rfl
    rw [hnone] at hnamed
    cases hnamed
  obtain ⟨hlt, -⟩ := List.getElem?_eq_some_iff.mp hqueue
  refine ⟨items, named?_iff.mpr ⟨?_, (List.getElem?_append_left hlt).trans hqueue⟩⟩
  show (d.numbers.set name' d.queues.length).get? name = _
  rw [Table.get?_set, if_neg hne, hnumber]

theorem Holds.replace (h : d.Holds name q trigger) {content : Queue (H.Item k)}
    (hn : d.queues[n]? = some ⟨k, content⟩) (items : List (H.Item k)) :
    (d.replace n ⟨k, { content with items }⟩).Holds name q trigger := by
  obtain ⟨items', hnamed⟩ := h
  obtain ⟨hnumber, hqueue⟩ := named?_iff.mp hnamed
  by_cases hne : n = q.number
  · subst hne
    rw [hqueue] at hn
    cases hn
    exact ⟨items, named?_replace hnamed _⟩
  · exact ⟨items', named?_iff.mpr ⟨hnumber, (List.getElem?_set_ne hne).trans hqueue⟩⟩

/-- Only its removal takes a name away from a queue. -/
theorem Change.holds (h : d.Change r d') (hq : d.Holds name q trigger)
    (hr : r ≠ .removeQueue name) : d'.Holds name q trigger := by
  cases h with
  | idle => exact hq
  | made _ hnone queue => exact hq.add hnone queue
  | named _ hnamed items => exact hq.replace (named?_eq_some hnamed) items
  | referred _ hat => exact hq.replace (at?_eq_some.mp hat) _
  | removed name' hremoved =>
    have hne : name ≠ name' := by
      rintro rfl
      exact hr hremoved
    obtain ⟨items, hnamed⟩ := hq
    obtain ⟨hnumber, hqueue⟩ := named?_iff.mp hnamed
    refine ⟨items, named?_iff.mpr ⟨?_, hqueue⟩⟩
    show (d.numbers.erase name').get? name = _
    rw [Table.get?_erase, if_neg hne, hnumber]

theorem Holds.after {log : List (Request H)} (h : d.Holds name q trigger)
    (hlog : .removeQueue name ∉ log) : (d.after log).Holds name q trigger := by
  induction log generalizing d with
  | nil => exact h
  | cons r rest ih =>
    have hr : r ≠ .removeQueue name := fun heq => hlog (heq ▸ List.mem_cons_self)
    exact ih ((d.change_asked r).holds h hr) fun hmem => hlog (List.mem_cons_of_mem _ hmem)

theorem proper_empty : (empty : Directory H).Proper where
  bounded h := nomatch h
  distinct h := nomatch h

theorem Proper.add (h : d.Proper) (name : String) (queue : KindQueue H) :
    (d.add name queue).Proper where
  bounded := by
    intro name' n hn
    replace hn : (d.numbers.set name d.queues.length).get? name' = some n := hn
    show n < (d.queues ++ [queue]).length
    rw [Table.get?_set] at hn
    rw [List.length_append, List.length_singleton]
    split at hn
    · cases hn
      exact Nat.lt_succ_self _
    · exact Nat.lt_succ_of_lt (h.bounded hn)
  distinct := by
    intro name₁ name₂ n h₁ h₂
    replace h₁ : (d.numbers.set name d.queues.length).get? name₁ = some n := h₁
    replace h₂ : (d.numbers.set name d.queues.length).get? name₂ = some n := h₂
    rw [Table.get?_set] at h₁ h₂
    -- The new number is above all that names have been given so far.
    split at h₁ <;> split at h₂
    · rename_i heq₁ heq₂
      rw [heq₁, heq₂]
    · cases h₁
      exact absurd (h.bounded h₂) (Nat.lt_irrefl _)
    · cases h₂
      exact absurd (h.bounded h₁) (Nat.lt_irrefl _)
    · exact h.distinct h₁ h₂

theorem Proper.replace (h : d.Proper) (n : Nat) (queue : KindQueue H) :
    (d.replace n queue).Proper where
  bounded hn := Nat.lt_of_lt_of_eq (h.bounded hn) List.length_set.symm
  distinct := h.distinct

/-- What is still in the table has been there before. -/
theorem get?_of_remove (h : (d.remove name).2.numbers.get? name' = some n) :
    name' ≠ name ∧ d.numbers.get? name' = some n := by
  replace h : (d.numbers.erase name).get? name' = some n := h
  rw [Table.get?_erase] at h
  split at h
  · cases h
  · rename_i hne
    exact ⟨hne, h⟩

theorem Proper.remove (h : d.Proper) (name : String) : (d.remove name).2.Proper where
  bounded hn := h.bounded (get?_of_remove hn).2
  distinct h₁ h₂ := h.distinct (get?_of_remove h₁).2 (get?_of_remove h₂).2

theorem Change.proper (h : d.Change r d') (hd : d.Proper) : d'.Proper := by
  cases h with
  | idle => exact hd
  | made _ _ queue => exact hd.add _ queue
  | named => exact hd.replace ..
  | referred => exact hd.replace ..
  | removed name => exact hd.remove name

theorem Proper.after (h : d.Proper) (log : List (Request H)) : (d.after log).Proper := by
  induction log generalizing d with
  | nil => exact h
  | cons r rest ih => exact ih ((d.change_asked r).proper h)

/-- A queue has lost its only name. -/
theorem Proper.detached_remove (hd : d.Proper) (h : d.Holds name q trigger)
    (hq : d.at? q = some content) : (d.remove name).2.Detached q content where
  unnamed := by
    intro name' queue hnamed
    obtain ⟨hne, hnumber⟩ := get?_of_remove (named?_iff.mp hnamed).1
    obtain ⟨items, hheld⟩ := h
    exact hne (hd.distinct hnumber (named?_iff.mp hheld).1)
  content := hq

theorem Detached.number_lt (h : d.Detached q content) : q.number < d.queues.length :=
  (List.getElem?_eq_some_iff.mp (at?_eq_some.mp h.content)).1

theorem Detached.get?_ne (h : d.Detached q content) (name : String) :
    d.numbers.get? name ≠ some q.number := fun hnumber =>
  h.unnamed name _ (named?_iff.mpr ⟨hnumber, at?_eq_some.mp h.content⟩)

/-- What is not done to this queue leaves it as it is. -/
theorem Detached.of_queues (h : d.Detached q content)
    (hget : d'.queues[q.number]? = d.queues[q.number]?)
    (hnumber : ∀ name, d'.numbers.get? name = some q.number →
      d.numbers.get? name = some q.number) : d'.Detached q content where
  unnamed name _ hnamed := h.get?_ne name (hnumber name (named?_iff.mp hnamed).1)
  content := at?_eq_some.mpr (hget.trans (at?_eq_some.mp h.content))

theorem Detached.replace_other (h : d.Detached q content) (hn : n ≠ q.number)
    (queue : KindQueue H) : (d.replace n queue).Detached q content :=
  h.of_queues (List.getElem?_set_ne hn) fun _ hnumber => hnumber

/-- A queue without a name is changed by those only who refer to it. -/
theorem Change.detached (h : d.Change r d') (hq : d.Detached q content) :
    d'.Detached q (content.operated (r.operation? q).toList) := by
  cases h with
  | idle hr =>
    rw [hr hq.content]
    exact hq
  | @made hr name hnone queue =>
    rw [hr q]
    refine hq.of_queues (List.getElem?_append_left hq.number_lt) fun name' hnumber => ?_
    replace hnumber : (d.numbers.set name d.queues.length).get? name' = some q.number := hnumber
    rw [Table.get?_set] at hnumber
    split at hnumber
    · exact absurd (Option.some.inj hnumber).symm (Nat.ne_of_lt hq.number_lt)
    · exact hnumber
  | @named hr name n k content' hnamed items =>
    rw [hr q]
    refine hq.replace_other ?_ _
    rintro rfl
    exact hq.unnamed name _ hnamed
  | @referred q' op hop content' hat =>
    by_cases hne : q' = q
    · subst hne
      have hsame := hat.symm.trans hq.content
      cases hsame
      rw [hop]
      refine ⟨fun name queue hnamed => ?_, at?_update hat _⟩
      exact hq.get?_ne name (named?_iff.mp hnamed).1
    · have hother : r.operation? q = none := by
        cases hr : r.operation? q with
        | none => rfl
        | some op' => exact absurd (Request.eq_of_operation? hop hr) hne
      rw [hother]
      -- Two references with one number are the same, since the queue has one kind.
      refine hq.replace_other (fun hnumber => hne ?_) _
      have hentry := at?_eq_some.mp hat
      rw [hnumber, at?_eq_some.mp hq.content] at hentry
      obtain ⟨kind', number'⟩ := q'
      obtain ⟨kind, number⟩ := q
      cases hentry
      cases hnumber
      rfl
  | removed name hr =>
    subst hr
    exact hq.of_queues rfl fun _ hnumber => (get?_of_remove hnumber).2

theorem Detached.after (h : d.Detached q content) (log : List (Request H)) :
    (d.after log).Detached q (content.operated (log.filterMap (Request.operation? q))) := by
  induction log generalizing d content with
  | nil => exact h
  | cons r rest ih =>
    have hrest := ih ((d.change_asked r).detached h)
    cases hr : r.operation? q with
    | none =>
      rw [hr] at hrest
      rw [List.filterMap_cons_none hr]
      exact hrest
    | some op =>
      rw [hr] at hrest
      rw [List.filterMap_cons_some hr]
      exact hrest

/-- What holds of a name and its queue from now on. -/
structure Lasting (d : Directory H) : Prop where
  kept : ∀ {name q trigger log}, d.Holds name q trigger → .removeQueue name ∉ log →
    (d.after log).Holds name q trigger
  /-- A queue whose name is removed keeps its content, and whatever happens to it then is asked for
  by those who refer to it. -/
  detached : ∀ {name q trigger content}, d.Holds name q trigger → d.at? q = some content → ∀ log,
    ((d.asked (.removeQueue name)).after log).Detached q
      (content.operated (log.filterMap (Request.operation? q)))

/-- So it is in every directory to which requests have led. -/
theorem lasting_after (log : List (Request H)) : (empty.after log).Lasting where
  kept := Holds.after
  detached hname hq log' := ((proper_empty.after log).detached_remove hname hq).after log'

end Directory

end LiveExpr
