import LiveExpr.Proofs.Functional

/-!
Stored values are right. At every moment a stored value is what the program comes to
under the registry as it stands, or the news that it is not are on their way: the fire
of a name that the expression watches waits in the line, or the fan-out in progress has
yet to come to the watch. In between operations there is no such news. It may be that
the values of some natives are not known to last; then an expression that watches a name
of theirs is excused.
-/
namespace LiveExpr

variable {H : Host}

/-- The value is what the program comes to, without nondeterministic natives, and the expression
watches all that it has called. -/
def Current (value : Native H → List Value → Value) (e : Engine H) (c : Cache) (v : Value) : Prop :=
  ∃ names, (evaluate (e.registry.environment value) e.limits c.program []).run =
      .ok ⟨v, names, false⟩ ∧
    ∀ name ∈ names, ∃ id, (name, id) ∈ c.watches

/-- The stored value is going to be dropped before the line of fires is worked through. -/
def Doomed (m : Moment H) (c : Cache) : Prop :=
  ∃ name id, (name, id) ∈ c.watches ∧ (name ∈ m.engine.bus.pending ∨ id ∈ m.awaited)

/-- The expression watches a name that is an excuse for a wrong value. -/
def Excused (excuse : String → Behavior (Native H) → Prop) (e : Engine H) (c : Cache) : Prop :=
  ∃ name id, (name, id) ∈ c.watches ∧ excuse name (e.registry.resolve name)

/-- Every stored value is right, or is going to be dropped, or is excused. -/
def Coherent (excuse : String → Behavior (Native H) → Prop)
    (value : Native H → List Value → Value) (m : Moment H) : Prop :=
  ∀ h c v, m.engine.store.get? h = some c → c.value = some v →
    Current value m.engine c v ∨ Doomed m c ∨ Excused excuse m.engine c

variable {excuse : String → Behavior (Native H) → Prop} {value : Native H → List Value → Value}
  {e e' : Engine H} {c c' : Cache} {v : Value}

theorem Current.of_eq (hr : e'.registry = e.registry) (hl : e'.limits = e.limits)
    (hp : c'.program = c.program) (hw : ∀ entry ∈ c.watches, entry ∈ c'.watches)
    (h : Current value e c v) : Current value e' c' v := by
  obtain ⟨names, hv, hnames⟩ := h
  refine ⟨names, ?_, fun name hname => ?_⟩
  · rw [hr, hl, hp]
    exact hv
  · obtain ⟨id, hid⟩ := hnames name hname
    exact ⟨id, hw _ hid⟩

theorem Current.of_resolve {registry : Registry (Native H)} (h : Current value e c v)
    (hr : ∀ name id, (name, id) ∈ c.watches → registry.resolve name = e.registry.resolve name) :
    Current value { e with registry } c v := by
  obtain ⟨names, hv, hnames⟩ := h
  refine ⟨names, Dependencies.evaluate_congr hv fun name hname => ?_, hnames⟩
  obtain ⟨id, hid⟩ := hnames name hname
  exact hr name id hid

theorem Excused.mono (h : Excused excuse e c) (hw : ∀ entry ∈ c.watches, entry ∈ c'.watches)
    (hr : ∀ name, e'.registry.resolve name = e.registry.resolve name) : Excused excuse e' c' := by
  obtain ⟨name, id, hwatch, hexcuse⟩ := h
  exact ⟨name, id, hw _ hwatch, hr name ▸ hexcuse⟩

theorem Excused.mono_excuse {excuse' : String → Behavior (Native H) → Prop}
    (h : Excused excuse e c) (he : ∀ name b, excuse name b → excuse' name b) :
    Excused excuse' e c := by
  obtain ⟨name, id, hwatch, hexcuse⟩ := h
  exact ⟨name, id, hwatch, he _ _ hexcuse⟩

variable {m m' : Moment H}

theorem Doomed.mono (h : Doomed m c) (hw : ∀ entry ∈ c.watches, entry ∈ c'.watches)
    (hp : ∀ name ∈ m.engine.bus.pending, name ∈ m'.engine.bus.pending)
    (ha : ∀ id ∈ m.awaited, id ∈ m'.awaited) : Doomed m' c' := by
  obtain ⟨name, id, hwatch, hnews⟩ := h
  exact ⟨name, id, hw _ hwatch, hnews.imp (hp name) (ha id)⟩

/-- A step after which every cache that holds a value is one that was there before. -/
theorem Coherent.kept (hco : Coherent excuse value m)
    (hs : ∀ h c v, m'.engine.store.get? h = some c → c.value = some v →
      m.engine.store.get? h = some c)
    (hr : m'.engine.registry = m.engine.registry) (hl : m'.engine.limits = m.engine.limits)
    (hd : ∀ h c, m.engine.store.get? h = some c → Doomed m c → Doomed m' c) :
    Coherent excuse value m' := by
  intro h c v hc hv
  have hc' := hs h c v hc hv
  rcases hco h c v hc' hv with hcurrent | hdoomed | hexcused
  · exact Or.inl (hcurrent.of_eq hr hl rfl fun _ hmem => hmem)
  · exact Or.inr (Or.inl (hd h c hc' hdoomed))
  · exact Or.inr (Or.inr (hexcused.mono (fun _ hmem => hmem) fun name => by rw [hr]))

/-- The turn of a subscription that is none of the expression's own is not what dooms its value. -/
theorem Doomed.turn {e e' : Engine H} {id : Ticket} {w : List Ticket} {h : Handle}
    (ht : Tied e.bus e.store) (hc : e.store.get? h = some c) (hb : e'.bus = e.bus)
    (hn : ∀ s, e.bus.find? id = some s → s.target ≠ .cache h) (hd : Doomed ⟨e, id :: w⟩ c) :
    Doomed ⟨e', w⟩ c := by
  obtain ⟨name, id', hwatch, hpending | hawaited⟩ := hd
  · exact ⟨name, id', hwatch, Or.inl (by rw [hb]; exact hpending)⟩
  · rcases List.mem_cons.mp hawaited with rfl | hmem
    · exact (hn _ (ht.watched hc hwatch).2 rfl).elim
    · exact ⟨name, id', hwatch, Or.inr hmem⟩

/-- When a fan-out begins, its fire leaves the line, but the watches of the name are awaited from
then on. -/
theorem Doomed.began {e : Engine H} {name : String} {bus : Bus (Subscriber H)} {h : Handle}
    (ht : Tied e.bus e.store) (hc : e.store.get? h = some c)
    (hn : e.bus.next? = some (name, bus)) (hd : Doomed ⟨e, []⟩ c) :
    Doomed ⟨{ e with bus }.note (.fanOutBegan name), (bus.targets name).map Prod.fst⟩ c := by
  obtain ⟨rest, hpending, rfl⟩ := Bus.next?_eq_some hn
  obtain ⟨name', id, hwatch, hmem | hawaited⟩ := hd
  · rw [show (Moment.mk e []).engine.bus.pending = name :: rest from hpending] at hmem
    rcases List.mem_cons.mp hmem with rfl | hmem
    · refine ⟨name', id, hwatch, Or.inr (List.mem_map.mpr ⟨(id, .cache h), ?_, rfl⟩)⟩
      have hfind := (ht.watched hc hwatch).2
      exact (ht.line rest true).bus.mem_targets.mpr ⟨_, hfind, rfl, rfl⟩
    · exact ⟨name', id, hwatch, Or.inl hmem⟩
  · cases hawaited

/-- A name that comes to stand for something else. The values that depend on it are doomed by the
fire that announces it. -/
theorem Coherent.rebound {e : Engine H} {w : List Ticket} (hco : Coherent excuse value ⟨e, w⟩)
    (name : String) (b : Behavior (Native H)) :
    Coherent excuse value
      ⟨{ e with registry := ⟨e.registry.entries.set name b⟩ }.alert name, w⟩ := by
  intro h c v hc hv
  have hline : ∀ other ∈ e.bus.pending, other ∈ e.bus.pending ++ [name] :=
    fun other hmem => List.mem_append_left _ hmem
  by_cases hwatch : ∃ id, (name, id) ∈ c.watches
  · obtain ⟨id, hid⟩ := hwatch
    exact Or.inr (Or.inl ⟨name, id, hid, Or.inl (List.mem_append_right _ List.mem_cons_self)⟩)
  · have hother : ∀ other id, (other, id) ∈ c.watches →
        (⟨e.registry.entries.set name b⟩ : Registry (Native H)).resolve other =
          e.registry.resolve other := by
      intro other id hid
      rw [Registry.resolve_set, if_neg]
      rintro rfl
      exact hwatch ⟨id, hid⟩
    rcases hco h c v hc hv with hcurrent | hdoomed | ⟨other, id, hid, hexcuse⟩
    · exact Or.inl ((hcurrent.of_resolve hother).of_eq rfl rfl rfl fun _ hmem => hmem)
    · exact Or.inr (Or.inl (hdoomed.mono (fun _ hmem => hmem) hline fun _ hmem => hmem))
    · exact Or.inr (Or.inr ⟨other, id, hid, (hother other id hid).symm ▸ hexcuse⟩)

/-- An evaluation that is taken in. Its value is right when it is stored, and the names that it
called are watched from then on. -/
theorem Coherent.completed {e : Engine H} {w : List Ticket} (hco : Coherent excuse value ⟨e, w⟩)
    (ht : Tied e.bus e.store) (h : Handle) (began : Nat) {v : Evaluation}
    (hv : ∀ c, e.store.get? h = some c → v.volatile = false →
      (evaluate (e.registry.environment value) e.limits c.program []).run = .ok v) :
    Coherent excuse value ⟨e.complete h began v, w⟩ := by
  have hregistry := Engine.complete_registry (e := e) (h := h) began v
  have hlimits := Engine.complete_limits (e := e) (h := h) began v
  have hpending := (Engine.complete_dispatching ht h began v).2
  -- What is true of a value that was stored before, its watches having at most grown.
  have hold : ∀ {h' c c' x}, e.store.get? h' = some c → c.value = some x →
      c'.program = c.program → (∀ entry ∈ c.watches, entry ∈ c'.watches) →
      Current value (e.complete h began v) c' x ∨ Doomed ⟨e.complete h began v, w⟩ c' ∨
        Excused excuse (e.complete h began v) c' := by
    intro h' c c' x hc hx hprogram hwatches
    rcases hco _ _ _ hc hx with hcurrent | hdoomed | hexcused
    · exact Or.inl (hcurrent.of_eq hregistry hlimits hprogram hwatches)
    · refine Or.inr (Or.inl (hdoomed.mono hwatches (fun name hmem => ?_) fun _ hmem => hmem))
      show name ∈ (e.complete h began v).bus.pending
      rw [hpending]
      exact hmem
    · exact Or.inr (Or.inr (hexcused.mono hwatches fun name => by rw [hregistry]))
  intro h' c' x hc' hx
  cases hc : e.store.get? h with
  | none =>
    rw [show (Moment.mk (e.complete h began v) w).engine.store = e.store by
      rw [Engine.complete_unknown began v hc]] at hc'
    exact hold hc' hx rfl fun _ hmem => hmem
  | some c =>
    simp only [Engine.complete_store began v hc, Store.get?_modify] at hc'
    by_cases heq : h' = h
    · subst heq
      rw [if_pos rfl, hc, Option.map_some] at hc'
      cases hc'
      have hgrown : ∀ entry ∈ c.watches,
          entry ∈ c.watches ++ (Engine.watch h' (Engine.unwatched c v) e.bus).1 :=
        fun entry hmem => List.mem_append_left _ hmem
      simp only [Cache.complete] at hx
      split at hx
      · rename_i hstores
        cases hx
        have hn : v.volatile = false := by
          cases hvolatile : v.volatile with
          | false => rfl
          | true => simp [hvolatile] at hstores
        refine Or.inl ⟨v.dependencies, ?_, fun name hname => ?_⟩
        · rw [hregistry, hlimits]
          refine (hv c hc hn).trans (congrArg Except.ok ?_)
          rw [← hn]
        · by_cases hwatched : c.watches.contains name
          · obtain ⟨id, hid⟩ := Option.isSome_iff_exists.mp hwatched
            exact ⟨id, hgrown _ (Table.mem_of_get? hid)⟩
          · have hadded : name ∈ (Engine.watch h' (Engine.unwatched c v) e.bus).1.keys := by
              rw [Engine.watch_keys]
              exact List.mem_filter.mpr ⟨hname, by simp [hwatched]⟩
            obtain ⟨⟨name', id⟩, hid, rfl⟩ := List.mem_map.mp hadded
            exact ⟨id, List.mem_append_right _ hid⟩
      · exact hold hc hx rfl hgrown
    · rw [if_neg heq] at hc'
      exact hold hc' hx rfl fun _ hmem => hmem

/-- It is only when evaluations are taken in that the terms have to be such that it is the value of
the program that is stored. -/
theorem Coherent.step {terms : Terms H} (hm : Sound terms m) (hco : Coherent excuse value m)
    (hcompletes : ∀ {registry limits p v}, terms.completes registry limits p v →
      v.volatile = false → (evaluate (registry.environment value) limits p []).run = .ok v)
    (h : Step terms m m') : Coherent excuse value m' := by
  have htied := hm.tied
  cases h with
  | passed => exact hco.kept (fun _ _ _ hc _ => hc) rfl rfl fun _ _ _ hd => hd
  | noted => exact hco.kept (fun _ _ _ hc _ => hc) rfl rfl fun _ _ _ hd => hd
  | looked hr =>
    intro h c v hc hv
    exact (hco _ _ _ hc hv).imp (fun hcurrent => hcurrent.of_resolve fun name _ _ => hr name)
      (Or.imp_right fun hexcused => hexcused.mono (fun _ hmem => hmem) hr)
  | @alerted e w name =>
    refine hco.kept (fun _ _ _ hc _ => hc) rfl rfl fun _ _ _ hd => ?_
    refine hd.mono (fun _ hmem => hmem) (fun other hmem => ?_) fun _ hmem => hmem
    exact List.mem_append_left _ hmem
  | rebound hb => exact hco.rebound _ _
  | rested hp => exact hco.kept (fun _ _ _ hc _ => hc) rfl rfl fun _ _ _ hd => hd
  | @began e name bus hd hn =>
    obtain ⟨rest, hpending, rfl⟩ := Bus.next?_eq_some hn
    exact hco.kept (fun _ _ _ hc _ => hc) rfl rfl fun _ _ hc hdoomed => hdoomed.began htied hc hn
  | @called e w id s hs hn =>
    refine hco.kept (fun _ _ _ hc _ => hc) rfl rfl fun h c hc hd => ?_
    refine hd.turn htied hc rfl fun s' hs' => ?_
    obtain rfl : s = s' := Option.some_inj.mp (hs.symm.trans hs')
    exact hn h
  | @dropped e w id s h hs ht =>
    -- The one that is dropped holds no value now, and the turn was none of the others'.
    intro h' c v hc hv
    simp only [Store.get?_modify] at hc
    by_cases heq : h' = h
    · subst heq
      obtain ⟨c', -, rfl⟩ := Option.map_eq_some_iff.mp ((if_pos rfl).symm.trans hc)
      cases hv
    · rw [if_neg heq] at hc
      rcases hco _ _ _ hc hv with hcurrent | hdoomed | hexcused
      · exact Or.inl (hcurrent.of_eq rfl rfl rfl fun _ hmem => hmem)
      · refine Or.inr (Or.inl (hdoomed.turn htied hc rfl fun s' hs' htarget => ?_))
        obtain rfl : s = s' := Option.some_inj.mp (hs.symm.trans hs')
        cases ht.symm.trans htarget
        exact heq rfl
      · exact Or.inr (Or.inr (hexcused.mono (fun _ hmem => hmem) fun _ => rfl))
  | @skipped e w id hs =>
    refine hco.kept (fun _ _ _ hc _ => hc) rfl rfl fun h c hc hd => ?_
    refine hd.turn htied hc rfl fun s hsome => ?_
    cases hs.symm.trans hsome
  | @inserted e w p mode =>
    refine hco.kept (fun h c v hc hv => ?_) rfl rfl fun _ _ _ hd => hd
    simp only [htied.store.get?_insert] at hc
    split at hc
    · cases hc
      cases hv
    · exact hc
  | @unbound e w h c hc =>
    obtain ⟨-, hpending⟩ := Engine.unwatch_line c.watches e.bus
    refine hco.kept (fun h' c' v hc' _ => ?_) rfl rfl fun _ _ _ hd => ?_
    · simp only [Store.get?_remove] at hc'
      split at hc'
      · cases hc'
      · exact hc'
    · refine hd.mono (fun _ hmem => hmem) (fun name hmem => ?_) fun _ hmem => hmem
      show name ∈ (Engine.unwatch c.watches e.bus).pending
      rw [hpending]
      exact hmem
  | subscribed => exact hco.kept (fun _ _ _ hc _ => hc) rfl rfl fun _ _ _ hd => hd
  | @unsubscribed e w id =>
    refine hco.kept (fun _ _ _ hc _ => hc) rfl rfl fun _ _ _ hd => ?_
    refine hd.mono (fun _ hmem => hmem) (fun name hmem => ?_) fun _ hmem => hmem
    show name ∈ (e.bus.unsubscribe id.ticket).2.pending
    rw [Bus.pending_unsubscribe]
    exact hmem
  | completed h epoch hv => exact hco.completed htied h epoch fun c hc => hcompletes (hv c hc)

theorem Sound.unread {terms : Terms H} (h : Sound terms m) : Sound terms.unread m :=
  ⟨h.tied, h.binds, h.idle⟩

/-- The same for a deed, when it is known how the evaluation comes out that is taken in. -/
theorem Coherent.deed {terms : Terms H} {log : List (Entry H)} (hm : Sound terms m)
    (hco : Coherent excuse value m) (h : Deed terms m log m')
    (hv : ∀ h v c, .read h (.ran (.ok v)) ∈ log → m.engine.store.get? h = some c →
      v.volatile = false →
        (evaluate (m.engine.registry.environment value) m.engine.limits c.program []).run = .ok v) :
    Coherent excuse value m' := by
  cases h with
  | went hstep => exact hco.step hm.unread (fun hno => hno.elim) hstep
  | @ran e w h began outcome hi hcompletes =>
    cases outcome with
    | error fault => exact hco.kept (fun _ _ _ hc _ => hc) rfl rfl fun _ _ _ hd => hd
    | ok v =>
      have hran : Coherent excuse value ⟨e.note (.ran h), w⟩ :=
        hco.kept (fun _ _ _ hc _ => hc) rfl rfl fun _ _ _ hd => hd
      have hcompleted : Coherent excuse value ⟨(e.note (.ran h)).complete h began v, w⟩ :=
        hran.completed hm.tied h began fun c hc => hv h v c List.mem_cons_self hc
      exact hcompleted.kept (fun _ _ _ hc _ => hc) rfl rfl fun _ _ _ hd => hd
  | _ => exact hco.kept (fun _ _ _ hc _ => hc) rfl rfl fun _ _ _ hd => hd

theorem Coherent.steps {script : Script H H} (hm : Sound script.terms m)
    (hco : Coherent excuse script.value m) (h : Steps script.terms m m') :
    Coherent excuse script.value m' := by
  induction h with
  | refl => exact hco
  | tail hsteps hstep ih => exact ih.step (hm.steps hsteps) (fun hv => hv) hstep

end LiveExpr
