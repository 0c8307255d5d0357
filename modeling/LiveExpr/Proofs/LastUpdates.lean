import LiveExpr.Proofs.DeviceHistories
import LiveExpr.Proofs.MixerAddresses

/-!
The tables of a mixer hold the last updates. The events are told one after the other, each
when the requests made for the one before have been answered, or amid these if a callback
tells more. Each of them changes the tables before anything else, and what is requested
then leaves them alone. So whatever has been told, in whatever way, the tables are those
that the events in this order amount to.
-/
namespace LiveExpr

namespace Mixer

section Read

variable {events : List Event} {i : Interface} {t : DeviceTable}

/-- What can be read off a table about the events told. -/
structure LastWrites (events : List Event) (i : Interface) (t : DeviceTable) : Prop where
  distinct : t.indices.Nodup
  present : ∀ index, (t.get? index).isSome ↔ Known events i index
  stored : ∀ d, LastTold events i d → ∃ d', t.get? d.index = some d' ∧ d'.Agrees i d
  size : t.size = {index | Known events i index}.ncard
  ordered : t.devices.Pairwise fun d d' => AddedBefore events i d.index d'.index
  named : ∀ name d, t.named? name = some d ↔ d ∈ t.devices ∧ d.name = name ∧
    ∀ d' ∈ t.devices, d'.name = name → d' = d ∨ AddedBefore events i d.index d'.index

namespace Holds

theorem get?_isSome_iff (h : Holds events i t) (index : UInt32) :
    (t.get? index).isSome ↔ Known events i index := by
  rw [← h.inOrder.known, Option.isSome_iff_exists]
  constructor
  · rintro ⟨d, hd⟩
    obtain ⟨hmem, rfl⟩ := (DeviceTable.get?_eq_some_iff h.inOrder.nodup).mp hd
    exact List.mem_map_of_mem hmem
  · intro hmem
    obtain ⟨d, hd, hindex⟩ := List.mem_map.mp hmem
    exact ⟨d, (DeviceTable.get?_eq_some_iff h.inOrder.nodup).mpr ⟨hd, hindex⟩⟩

theorem get?_of_lastTold (h : Holds events i t) {d : Device} (hd : LastTold events i d) :
    ∃ d', t.get? d.index = some d' ∧ d'.Agrees i d := by
  obtain ⟨d', hd'⟩ := Option.isSome_iff_exists.mp ((h.get?_isSome_iff d.index).mpr ⟨d, hd, rfl⟩)
  obtain ⟨hmem, hindex⟩ := (DeviceTable.get?_eq_some_iff h.inOrder.nodup).mp hd'
  obtain ⟨told, htold, hagrees⟩ := h.told d' hmem
  obtain rfl : told = d := htold.unique hd (hagrees.index_eq.symm.trans hindex)
  exact ⟨d', hd', hagrees⟩

theorem size_eq (h : Holds events i t) : t.size = {index | Known events i index}.ncard := by
  have hset : {index | Known events i index} = (t.indices.toFinset : Set UInt32) := by
    ext index
    rw [Set.mem_ofPred_eq, List.coe_toFinset, Set.mem_ofPred_eq, h.inOrder.known]
  rw [hset, Set.ncard_coe_finset, List.toFinset_card_of_nodup h.inOrder.nodup]
  exact (List.length_map ..).symm

theorem ordered (h : Holds events i t) :
    t.devices.Pairwise fun d d' => AddedBefore events i d.index d'.index :=
  List.pairwise_map.mp h.inOrder.ordered

/-- A search by name ends at the first one of the devices with the name. -/
theorem named?_first (h : Holds events i t) {name : String} {d : Device}
    (hfound : t.named? name = some d) : d ∈ t.devices ∧ d.name = name ∧
      ∀ d' ∈ t.devices, d'.name = name → d' = d ∨ AddedBefore events i d.index d'.index := by
  have hordered := h.ordered
  obtain ⟨hname, before, after, hdevices, hbefore⟩ := List.find?_eq_some_iff_append.mp hfound
  rw [hdevices, List.pairwise_append, List.pairwise_cons] at hordered
  obtain ⟨-, ⟨hafter, -⟩, -⟩ := hordered
  refine ⟨List.mem_of_find?_eq_some hfound, by simpa using hname, fun d' hd' hname' => ?_⟩
  rw [hdevices, List.mem_append, List.mem_cons] at hd'
  rcases hd' with hd' | rfl | hd'
  · have hother := hbefore d' hd'
    simp [hname'] at hother
  · exact Or.inl rfl
  · exact Or.inr (hafter d' hd')

theorem named?_eq_some_iff (h : Holds events i t) {name : String} {d : Device} :
    t.named? name = some d ↔ d ∈ t.devices ∧ d.name = name ∧
      ∀ d' ∈ t.devices, d'.name = name → d' = d ∨ AddedBefore events i d.index d'.index := by
  refine ⟨h.named?_first, ?_⟩
  rintro ⟨hd, hname, hfirst⟩
  obtain ⟨d', hfound⟩ : ∃ d', t.named? name = some d' :=
    Option.isSome_iff_exists.mp (List.find?_isSome.mpr ⟨d, hd, by simpa using hname⟩)
  obtain ⟨hd', hname', hfirst'⟩ := h.named?_first hfound
  rcases hfirst d' hd' hname' with rfl | hbefore
  · exact hfound
  · rcases hfirst' d hd hname with rfl | hbefore'
    · exact hfound
    · exact absurd hbefore' hbefore.asymm

theorem lastWrites (h : Holds events i t) : LastWrites events i t where
  distinct := h.inOrder.nodup
  present := h.get?_isSome_iff
  stored _ := h.get?_of_lastTold
  size := h.size_eq
  ordered := h.ordered
  named _ _ := h.named?_eq_some_iff

end Holds

end Read

variable {C : Host}

/-- The devices of the mixer with the number, if there is one. -/
def devices? (n : Nat) (s : State C.State) : Option (Interface → List Device) :=
  s.mixers[n]?.map fun m i => (m.tables.get i).devices

/-- What the mixer with the number is told between one engine and the next. If an action is given,
this is a run of it, and what is told in its course comes from callbacks. Between actions anything
may happen that leaves the devices alone. -/
inductive Hears (call : Callbacks (extend C)) (n : Nat) :
    Option (Action (extend C) Unit) → Engine (extend C) → List Event → Engine (extend C) → Prop
  | quiet (e : Engine (extend C)) : Hears call n none e [] e
  | beside {e e₁ e' : Engine (extend C)} {events : List Event}
      (hsame : devices? n e₁.host = devices? n e.host) (h : Hears call n none e₁ events e') :
      Hears call n none e events e'
  | told {e e₁ e' : Engine (extend C)} {event : Event} {amid later : List Event}
      (h : Hears call n (some (apply n event)) e amid e₁) (hlater : Hears call n none e₁ later e') :
      Hears call n none e (event :: (amid ++ later)) e'
  | ended (e : Engine (extend C)) : Hears call n (some (.pure ())) e [] e
  | request {r : Request (extend C)} {next : r.Reply → Action (extend C) Unit}
      {e e₁ e' : Engine (extend C)} {reply : r.Reply} {amid later : List Event}
      (hr : (Engine.answer call r).run e = some (reply, e₁)) (hamid : Hears call n none e amid e₁)
      (h : Hears call n (some (next reply)) e₁ later e') :
      Hears call n (some (.request r next)) e (amid ++ later) e'
  | look {next : Engine (extend C) → Action (extend C) Unit} {e e' : Engine (extend C)}
      {events : List Event} (h : Hears call n (some (next e.unwritten)) e events e') :
      Hears call n (some (.look next)) e events e'
  | change {f : State C.State → State C.State} {next : Action (extend C) Unit}
      {e e' : Engine (extend C)} {events : List Event}
      (h : Hears call n (some next) { e with host := f e.host } events e') :
      Hears call n (some (.change f next)) e events e'

/-- The mixer with the number holds what the events have come to. -/
def Held (n : Nat) (events : List Event) (s : State C.State) : Prop :=
  ∃ m, s.mixers[n]? = some m ∧ ∀ i, Holds events i (m.tables.get i)

/-- From this state of the host on, the action makes the mixer hold what the events have come to,
before it makes any request. After that it leaves the devices as they are. -/
def Settles (n : Nat) : List Event → State C.State → Action (extend C) Unit → Prop
  | events, s, .pure _ => Held n events s
  | events, s, .request _ next =>
    Held n events s ∧ ∀ reply events' s', Held n events' s' → Settles n events' s' (next reply)
  | events, s, .look next => ∀ e : Engine (extend C), e.host = s → Settles n events s (next e)
  | events, s, .change f next => Settles n events (f s) next

variable {n : Nat} {events : List Event} {s s' : State C.State}

theorem Held.congr (h : Held n events s) (hsame : devices? n s' = devices? n s) :
    Held n events s' := by
  obtain ⟨m, hm, hholds⟩ := h
  unfold devices? at hsame
  rw [hm, Option.map_some] at hsame
  obtain ⟨m', hm', hdevices⟩ := Option.map_eq_some_iff.mp hsame
  exact ⟨m', hm', fun i => (hholds i).congr (congrFun hdevices i)⟩

theorem Settles.bind {a : Action (extend C) Unit} {f : Unit → Action (extend C) Unit}
    (ha : Settles n events s a)
    (hf : ∀ events' s', Held n events' s' → Settles n events' s' (f ())) :
    Settles n events s (a >>= f) := by
  induction a generalizing events s with
  | pure x => exact hf events s ha
  | request r next ih => exact ⟨ha.1, fun reply events' s' h => ih reply (ha.2 reply events' s' h)⟩
  | look next ih => exact fun e he => ih e (ha e he)
  | change g next ih => exact ih ha

theorem settles_ask_bind {r : Request (extend C)} {f : r.Reply → Action (extend C) Unit}
    (h : Held n events s)
    (hf : ∀ reply events' s', Held n events' s' → Settles n events' s' (f reply)) :
    Settles n events s (ask r >>= f) := ⟨h, hf⟩

theorem settles_announceChange (h : Held n events s) :
    Settles n events s (announceChange : Action (extend C) Unit) :=
  ⟨h, fun _ _ _ h' => h'⟩

theorem settles_forM {α : Type} {f : α → Action (extend C) Unit}
    (hf : ∀ x events s, Held n events s → Settles n events s (f x)) (l : List α)
    (h : Held n events s) : Settles n events s (l.forM f) := by
  induction l generalizing events s with
  | nil => exact h
  | cons x rest ih => exact (hf x events s h).bind fun _ _ => ih

theorem settles_advertise (m : Mixer) (i : Interface) (d : Device) (h : Held n events s) :
    Settles n events s (advertise m i d : Action (extend C) Unit) := by
  refine settles_forM (fun _ events s h => ?_) _ h
  exact ⟨h, fun _ _ _ h' => h'⟩

theorem settles_mixer? {m : Mixer} {f : Option Mixer → Action (extend C) Unit}
    (hm : s.mixers[n]? = some m) (h : Settles n events s (f (some m))) :
    Settles n events s (mixer? n >>= f) := by
  rintro e rfl
  show Settles n events e.host (f (e.host.mixers : List Mixer)[n]?)
  rwa [hm]

/-- The tables become those that the event makes of them. -/
theorem settles_setTables {m : Mixer} (event : Event) {f : Unit → Action (extend C) Unit}
    (hm : s.mixers[n]? = some m) (hholds : ∀ i, Holds events i (m.tables.get i))
    (hf : ∀ s', Held n (events ++ [event]) s' → Settles n (events ++ [event]) s' (f ())) :
    Settles n (events ++ [event]) s
      (setTables n (Change.made m.tables (.told event)) >>= f) := by
  refine hf _ ⟨{ m with tables := Change.made m.tables (.told event) }, ?_, Holds.made hholds event⟩
  show (s.mixers.modify n _)[n]? = _
  rw [List.getElem?_modify, hm]
  exact congrArg some (if_pos rfl)

/-- New tables and perhaps the fire of a change. -/
theorem settles_replaceTables {m : Mixer} (event : Event) (found : Bool × Tables)
    (hm : s.mixers[n]? = some m) (hholds : ∀ i, Holds events i (m.tables.get i))
    (hfound : found.2 = Change.made m.tables (.told event)) :
    Settles n (events ++ [event]) s (replaceTables n found : Action (extend C) Unit) := by
  unfold replaceTables
  rw [hfound]
  refine settles_setTables event hm hholds fun s' h => ?_
  split
  · exact settles_announceChange h
  · exact h

theorem settles_apply (h : Held n events s) (event : Event) :
    Settles n (events ++ [event]) s (apply n event : Action (extend C) Unit) := by
  obtain ⟨m, hm, hholds⟩ := h
  refine settles_mixer? hm ?_
  cases event with
  | updated i d =>
    refine settles_setTables (.updated i d) hm hholds fun s' h => ?_
    refine (settles_announceChange h).bind fun events' s' h => ?_
    split
    · exact settles_advertise m i d h
    · exact h
  | removed i index =>
    dsimp only
    split
    · refine settles_setTables (.removed i index) hm hholds fun s' h => ?_
      exact settles_ask_bind h fun _ _ _ h => settles_announceChange h
    · rename_i habsent
      have hsame : m.tables.remove i index = m.tables :=
        Tables.remove_of_get?_eq_none (Option.not_isSome_iff_eq_none.mp habsent)
      refine ⟨m, hm, fun k => ?_⟩
      rw [← hsame]
      exact Holds.made hholds (.removed i index) k
  | renamed client name =>
    exact settles_replaceTables (.renamed client name) (m.tables.rename client name) hm hholds rfl
  | defaults sink source =>
    exact settles_replaceTables (.defaults sink source) (m.tables.setServerDefaults sink source)
      hm hholds rfl

/-- Whether an action is under way or not, what is told later comes on top of what the mixer
holds. -/
theorem Hears.held {call : Callbacks (extend C)} {a : Option (Action (extend C) Unit)}
    {e e' : Engine (extend C)} {later : List Event} (h : Hears call n a e later e')
    (hbegin : a.elim (Held n events e.host) (Settles n events e.host)) :
    Held n (events ++ later) e'.host := by
  induction h generalizing events with
  | quiet e => rwa [List.append_nil]
  | beside hsame _ ih => exact ih (hbegin.congr hsame)
  | @told e e₁ e' event amid later _ _ ih ihlater =>
    have hamid := ih (settles_apply hbegin event)
    rw [List.append_cons, ← List.append_assoc]
    exact ihlater hamid
  | ended e => rwa [List.append_nil]
  | request _ _ _ ihamid ih =>
    -- The action goes on from what the mixer holds by then, which callbacks may have changed.
    rw [← List.append_assoc]
    exact ih (hbegin.2 _ _ _ (ihamid hbegin.1))
  | look _ ih => exact ih (hbegin _ rfl)
  | change _ ih => exact ih hbegin

theorem query_count (n : Nat) (m : Mixer) (i : Interface) (address : Option String)
    {call : Callbacks (extend C)} {e : Engine (extend C)}
    (hm : (e.host.mixers : List Mixer)[n]? = some m) :
    ((query n (i.word ++ "-count") address).run call).run e =
      some (.number (Float.ofNat (m.tables.get i).size), e) := by
  have hsplit : Interface.split? (i.word ++ "-count") = some (i, "count") := by
    cases i <;> decide
  have hcount : Text.sameIgnoringCase "count" "count" = true := by
    decide
  rw [query_run_of_mixer hm]
  unfold Tables.query
  rw [hsplit]
  dsimp only
  rw [hcount]
  rfl

namespace Hears

variable {call : Callbacks (extend C)} {e e₁ e' : Engine (extend C)} {later : List Event}

/-- Nothing is told amid the requests that the event leads to. -/
theorem told_alone {event : Event} (h : Hears call n (some (apply n event)) e [] e₁)
    (hlater : Hears call n none e₁ later e') : Hears call n none e (event :: later) e' :=
  h.told hlater

/-- The answer to the request leaves the devices alone. -/
theorem request_beside {r : Request (extend C)} {next : r.Reply → Action (extend C) Unit}
    {reply : r.Reply} (hr : (Engine.answer call r).run e = some (reply, e₁))
    (hsame : devices? n e₁.host = devices? n e.host)
    (h : Hears call n (some (next reply)) e₁ later e') :
    Hears call n (some (.request r next)) e later e' :=
  .request hr (.beside hsame (.quiet _)) h

theorem of_mixer? {m : Mixer} {f : Option Mixer → Action (extend C) Unit}
    (hm : (e.host.mixers : List Mixer)[n]? = some m)
    (h : Hears call n (some (f (some m))) e later e') :
    Hears call n (some (mixer? n >>= f)) e later e' := by
  refine .look ?_
  show Hears call n (some (f (e.host.mixers : List Mixer)[n]?)) e later e'
  rwa [hm]

end Hears

/-- A mixer that knew nothing holds exactly what has been told last, for every index of every
interface. -/
theorem tables_hold_last_updates {call : Callbacks (extend C)} {e e' : Engine (extend C)}
    (hempty : devices? n e.host = some fun _ => []) (h : Hears call n none e events e') :
    ∃ m, (e'.host.mixers : List Mixer)[n]? = some m ∧ ∀ i,
      LastWrites events i (m.tables.get i) ∧
      ∀ address, ((query n (i.word ++ "-count") address).run call).run e' =
        some (.number (Float.ofNat {index | Known events i index}.ncard), e') := by
  obtain ⟨m₀, hm₀, hdevices⟩ := Option.map_eq_some_iff.mp hempty
  have hheld : Held n [] e.host :=
    ⟨m₀, hm₀, fun i => .of_devices_eq_nil (congrFun hdevices i)⟩
  obtain ⟨m, hm, hholds⟩ := h.held hheld
  refine ⟨m, hm, fun i => ⟨(hholds i).lastWrites, fun address => ?_⟩⟩
  rw [query_count n m i address hm, (hholds i).size_eq]
  rfl

end Mixer

namespace Bare

open Mixer

/-- One mixer that knows nothing. -/
def blank : State Unit := ⟨[⟨.empty, 0, 1, .empty⟩], [], ()⟩

/-- Nobody has subscribed to anything, and there are no queues. -/
def unheard (s : State Unit) (journal : List (Note (extend Bare))) : Engine (extend Bare) :=
  { Engine.create .standard s with journal }

/-- A device without channels is not announced. -/
theorem hears_updated {s : State Unit} {m : Mixer} (hm : s.mixers[0]? = some m) {d : Device}
    (hd : d.channels = []) (journal : List (Note (extend Bare))) :
    ∃ journal', Hears (script.callbacks 4 2) 0 (some (apply 0 (.updated .sink d)))
      (unheard s journal) [] (unheard (s.withTables 0 (m.tables.update .sink d)) journal') := by
  obtain ⟨journal', hfire⟩ : ∃ journal',
      (Engine.answer (script.callbacks 4 2) (.fire "Mixer")).run
        (unheard (s.withTables 0 (m.tables.update .sink d)) journal) =
      some ((), unheard (s.withTables 0 (m.tables.update .sink d)) journal') := ⟨_, rfl⟩
  refine ⟨journal', .of_mixer? hm (.change (.request_beside hfire rfl ?_))⟩
  show Hears _ 0 (some (if _ then m.advertise .sink d else pure ())) _ [] _
  unfold advertise
  rw [hd]
  split <;> exact .ended _

/-- The same device is told twice, and only the second time it is not mute. -/
theorem tables_hold_last_updates_twice :
    let events : List Event := [.updated .sink { speakers with mute := true },
      .updated .sink { speakers with index := 4 }, .updated .sink speakers]
    ∃ e' m, Hears (script.callbacks 4 2) 0 none (unheard blank []) events e' ∧
      devices? (C := Bare) 0 blank = some (fun _ => []) ∧
      (e'.host.mixers : List Mixer)[0]? = some m ∧
      m.tables.sink.get? 3 = some speakers ∧ m.tables.sink.get? 5 = none := by
  intro events
  obtain ⟨_, hfirst⟩ := hears_updated (s := blank) rfl (d := { speakers with mute := true }) rfl []
  obtain ⟨_, hsecond⟩ := hears_updated (s := blank.withTables 0 _) rfl
    (d := { speakers with index := 4 }) rfl _
  obtain ⟨_, hthird⟩ := hears_updated (s := (blank.withTables 0 _).withTables 0 _) rfl
    (d := speakers) rfl _
  have hears := hfirst.told_alone (hsecond.told_alone (hthird.told_alone (.quiet _)))
  have hempty : devices? (C := Bare) 0 blank = some fun _ => [] := by
    refine congrArg some (funext fun i => ?_)
    cases i <;> rfl
  obtain ⟨m, hm, hholds⟩ := tables_hold_last_updates hempty hears
  obtain ⟨hsink, -⟩ := hholds .sink
  have hlast : LastTold events .sink speakers := ⟨[_, _], [], rfl, List.forall_mem_nil _⟩
  obtain ⟨_, hstored, rfl | ⟨⟨⟩, -⟩⟩ := hsink.stored speakers hlast
  have hunknown : ¬ Known events .sink 5 := by
    rintro ⟨d, hd, hindex⟩
    have hnumbers : ∀ event ∈ events, ∀ d, event = .updated .sink d → d.index ≠ 5 := by
      simp [events, speakers]
    exact hnumbers _ hd.mem d rfl hindex
  have hnone : m.tables.sink.get? 5 = none :=
    Option.not_isSome_iff_eq_none.mp fun hsome => hunknown ((hsink.present 5).mp hsome)
  exact ⟨_, m, hears, hempty, hm, hstored, hnone⟩

end Bare

end LiveExpr
