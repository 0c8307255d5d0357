import LiveExpr.Proofs.AnnouncedDevices
import LiveExpr.Proofs.AnnouncementHistories
import LiveExpr.Proofs.LastUpdates
import LiveExpr.Proofs.QueueFires
import LiveExpr.Proofs.Silence

/-!
The two queues of a mixer against the events that it has been told. As long as nobody takes
an item from them or puts one in, and no event is told amid the announcements of another, they
hold exactly what the history of the devices has announced. What an event does to the queues
is decided before it makes any request: only a device that is added is advertised, and only
one that was there is announced as removed.
-/
namespace LiveExpr

namespace Directory

variable {H : Host} {d : Directory H} {q q' : QueueRef H} {content : Queue (H.Item q.kind)}
  {content' : Queue (H.Item q'.kind)}

/-- A queue is not the one of another kind. -/
theorem at?_update_other (hq : d.at? q = some content) (hq' : d.at? q' = some content')
    (hkind : q.kind ≠ q'.kind) (c : Queue (H.Item q.kind)) :
    (d.update q c).at? q' = some content' := by
  have hfound := at?_eq_some.mp hq
  have hfound' := at?_eq_some.mp hq'
  have hne : q.number ≠ q'.number := fun heq => by
    rw [heq, hfound'] at hfound
    exact hkind (congrArg KindQueue.kind (Option.some.inj hfound)).symm
  refine at?_eq_some.mpr ?_
  show (d.queues.set q.number _)[q'.number]? = _
  rw [List.getElem?_set_ne hne, hfound']

end Directory

namespace Mixer

variable {C : Host}

/-- All that the announcements of a mixer depend on. -/
structure Outlook where
  devices : Interface → List Device
  adverts : Nat
  removals : Nat
  advertised : Option (Queue Advert)
  retired : Option (Queue Removal)

def outlook? (n : Nat) (e : Engine (extend C)) : Option Outlook :=
  (e.host.mixers : List Mixer)[n]?.map fun m =>
    ⟨fun i => (m.tables.get i).devices, m.adverts, m.removals,
      e.queues.at? (advertQueue m), e.queues.at? (removalQueue m)⟩

/-- The run of the action is over in the second engine. What its requests fire does nothing to the
devices of the mixer and to its queues. -/
structure Calm (call : Callbacks (extend C)) (n : Nat) (a : Action (extend C) Unit)
    (e e' : Engine (extend C)) : Prop where
  run : (a.run call).run e = some ((), e')
  quiet : ∀ r e₁ raised reply e₂, a.ComesTo call e r e₁ → Engine.Raises r e₁ raised →
    (Engine.answer call r).run e₁ = some (reply, e₂) → outlook? n e₂ = outlook? n raised

/-- The mixer is told the events, each when what the one before led to is over. Besides, all may
happen that does nothing to its devices and queues. -/
inductive Fed (call : Callbacks (extend C)) (n : Nat) :
    Engine (extend C) → List Event → Engine (extend C) → Prop
  | none (e : Engine (extend C)) : Fed call n e [] e
  | beside {e e₁ e' : Engine (extend C)} {events : List Event} (h : Fed call n e events e₁)
      (hsame : outlook? n e' = outlook? n e₁) : Fed call n e events e'
  | told {e e₁ e' : Engine (extend C)} {events : List Event} {event : Event}
      (h : Fed call n e events e₁) (hcalm : Calm call n (apply n event) e₁ e') :
      Fed call n e (events ++ [event]) e'

/-- The mixer with the number has these two queues with these items, and it holds what the events
have come to. -/
def Records (n adverts removals : Nat) (events : List Event) (advertised : List Advert)
    (retired : List Removal) (e : Engine (extend C)) : Prop :=
  ∃ m, (e.host.mixers : List Mixer)[n]? = some m ∧ m.adverts = adverts ∧ m.removals = removals ∧
    (∀ i, Holds events i (m.tables.get i)) ∧
    e.queues.at? (⟨.advert, adverts⟩ : QueueRef (extend C)) = some ⟨"mixer_channel", advertised⟩ ∧
    e.queues.at? (⟨.removal, removals⟩ : QueueRef (extend C)) = some ⟨"mixer_removed", retired⟩

variable {call : Callbacks (extend C)} {n : Nat} {e e' : Engine (extend C)}

namespace Calm

variable {f : Unit → Action (extend C) Unit}

theorem eq_of_pure (h : Calm call n (pure ()) e e') : e' = e := by
  have hrun : some ((), e) = some ((), e') := h.run
  exact (Prod.mk.inj (Option.some.inj hrun)).2.symm

theorem mixer? {m : Mixer} {f : Option Mixer → Action (extend C) Unit}
    (hm : (e.host.mixers : List Mixer)[n]? = some m) (h : Calm call n (mixer? n >>= f) e e') :
    Calm call n (f (some m)) e e' where
  run := (run_mixer? hm f).symm.trans h.run
  quiet r e₁ raised reply e₂ hcomes := by
    refine h.quiet r e₁ raised reply e₂ (.look ?_)
    show (f (e.host.mixers : List Mixer)[n]?).ComesTo call e r e₁
    rwa [hm]

theorem setTables {tables : Tables} (h : Calm call n (setTables n tables >>= f) e e') :
    Calm call n (f ()) { e with host := State.withTables e.host n tables } e' where
  run := h.run
  quiet r e₁ raised reply e₂ hcomes := h.quiet r e₁ raised reply e₂ (.change hcomes)

/-- The request is answered, and if it raises a fire, that has left things as they were. -/
theorem request {r : Request (extend C)} {f : r.Reply → Action (extend C) Unit}
    (h : Calm call n (ask r >>= f) e e') :
    ∃ reply e₁, (Engine.answer call r).run e = some (reply, e₁) ∧
      (∀ raised, Engine.Raises r e raised → outlook? n e₁ = outlook? n raised) ∧
      Calm call n (f reply) e₁ e' := by
  obtain ⟨⟨reply, e₁⟩, hanswer, hrest⟩ := Option.bind_eq_some_iff.mp h.run
  refine ⟨reply, e₁, hanswer, fun raised hraised => ?_, hrest,
    fun r' e₂ raised reply' e₃ hcomes => ?_⟩
  · exact h.quiet r e raised reply e₁ (.here r _ e) hraised hanswer
  · exact h.quiet r' e₂ raised reply' e₃ (.request hanswer hcomes)

end Calm

section Records

variable {q r : Nat} {events : List Event} {advertised : List Advert} {retired : List Removal}
  {f : Unit → Action (extend C) Unit}

theorem Records.congr (h : Records n q r events advertised retired e)
    (hsame : outlook? n e' = outlook? n e) : Records n q r events advertised retired e' := by
  obtain ⟨m, hm, rfl, rfl, hholds, hadverts, hremovals⟩ := h
  unfold outlook? at hsame
  rw [hm, Option.map_some] at hsame
  obtain ⟨⟨tables, _, _, inbox⟩, hm', houtlook⟩ := Option.map_eq_some_iff.mp hsame
  obtain ⟨hdevices, rfl, rfl, hadverts', hremovals'⟩ := Outlook.mk.inj houtlook
  exact ⟨_, hm', rfl, rfl, fun i => (hholds i).congr (congrFun hdevices i),
    hadverts'.trans hadverts, hremovals'.trans hremovals⟩

theorem Records.alert (h : Records n q r events advertised retired e) (name : String) :
    Records n q r events advertised retired (e.alert name) := h

theorem Records.fire (h : Records n q r events advertised retired e) {name : String}
    (hcalm : Calm call n (ask (.fire name) >>= f) e e') :
    ∃ e₁, Records n q r events advertised retired e₁ ∧ Calm call n (f ()) e₁ e' := by
  obtain ⟨⟨⟩, e₁, -, hquiet, hrest⟩ := hcalm.request
  exact ⟨e₁, (h.alert name).congr (hquiet _ (.fire name e)), hrest⟩

theorem Records.appendAdvert (h : Records n q r events advertised retired e) {a : Advert}
    (hcalm : Calm call n (ask (.append ⟨.advert, q⟩ a) >>= f) e e') :
    ∃ e₁, Records n q r events (Queue.place advertised a) retired e₁ ∧
      Calm call n (f ()) e₁ e' := by
  obtain ⟨m, hm, rfl, rfl, hholds, hadverts, hremovals⟩ := h
  obtain ⟨⟨⟩, e₁, -, hquiet, hrest⟩ := hcalm.request
  refine ⟨e₁, Records.congr ?_ (hquiet _ (.append hadverts a)), hrest⟩
  exact ⟨m, hm, rfl, rfl, hholds, Directory.at?_update hadverts _,
    Directory.at?_update_other hadverts hremovals nofun _⟩

theorem Records.appendRemoval (h : Records n q r events advertised retired e) {x : Removal}
    (hcalm : Calm call n (ask (.append ⟨.removal, r⟩ x) >>= f) e e') :
    ∃ e₁, Records n q r events advertised (Queue.place retired x) e₁ ∧
      Calm call n (f ()) e₁ e' := by
  obtain ⟨m, hm, rfl, rfl, hholds, hadverts, hremovals⟩ := h
  obtain ⟨⟨⟩, e₁, -, hquiet, hrest⟩ := hcalm.request
  refine ⟨e₁, Records.congr ?_ (hquiet _ (.append hremovals x)), hrest⟩
  exact ⟨m, hm, rfl, rfl, hholds, Directory.at?_update_other hremovals hadverts nofun _,
    Directory.at?_update hremovals _⟩

theorem Records.advertise {m : Mixer} (h : Records n m.adverts r events advertised retired e)
    {i : Interface} {d : Device} (hcalm : Calm call n (m.advertise i d) e e') :
    Records n m.adverts r events ((i.adverts d).foldl Queue.place advertised) retired e' := by
  unfold Mixer.advertise at hcalm
  unfold Interface.adverts
  generalize d.channels.zipIdx = channels at hcalm ⊢
  induction channels generalizing e advertised with
  | nil => exact hcalm.eq_of_pure ▸ h
  | cons entry rest ih =>
    obtain ⟨e₁, h₁, hrest⟩ := h.appendAdvert hcalm
    exact ih h₁ hrest

/-- New tables leave the queues as they are. -/
theorem Records.setTables {m : Mixer} {tables : Tables}
    (hm : (e.host.mixers : List Mixer)[n]? = some m)
    (h : Records n q r events advertised retired e) {events' : List Event}
    (hholds : ∀ i, Holds events' i (tables.get i)) :
    Records n q r events' advertised retired
      { e with host := State.withTables e.host n tables } := by
  obtain ⟨m', hm', rfl, rfl, -, hadverts, hremovals⟩ := h
  obtain rfl : m = m' := Option.some.inj (hm.symm.trans hm')
  refine ⟨{ m with tables }, ?_, rfl, rfl, hholds, hadverts, hremovals⟩
  show ((e.host.mixers : List Mixer).modify n _)[n]? = _
  rw [List.getElem?_modify, hm]
  exact congrArg some (if_pos rfl)

/-- New tables, and no more than the fire of a change. -/
theorem Records.replaceTables {m : Mixer} {found : Bool × Tables}
    (hm : (e.host.mixers : List Mixer)[n]? = some m)
    (h : Records n q r events advertised retired e) {events' : List Event}
    (hholds : ∀ i, Holds events' i (found.2.get i))
    (hcalm : Calm call n (replaceTables n found) e e') :
    Records n q r events' advertised retired e' := by
  have h₁ := h.setTables hm hholds
  have hrest := hcalm.setTables
  split at hrest
  · obtain ⟨e₁, h₂, hrest⟩ := h₁.fire (f := pure) hrest
    exact hrest.eq_of_pure ▸ h₂
  · exact hrest.eq_of_pure ▸ h₁

/-- The queues hold what the events have announced. -/
def Accounts (n q r : Nat) (events : List Event) (e : Engine (extend C)) : Prop :=
  ∃ advertised retired, Records n q r events advertised retired e ∧
    Queue.Chronicle (Advertised events) advertised ∧ Queue.Chronicle (Retired events) retired

theorem Accounts.told (h : Accounts n q r events e) {event : Event}
    (hcalm : Calm call n (apply n event) e e') : Accounts n q r (events ++ [event]) e' := by
  obtain ⟨advertised, retired, hrecords, hadvertised, hretired⟩ := h
  obtain ⟨m, hm, hq, hr, hholds, hadverts, hremovals⟩ := id hrecords
  have hmade : ∀ i, Holds (events ++ [event]) i ((Change.made m.tables (.told event)).get i) :=
    Holds.made hholds event
  have hknown (i : Interface) (index : UInt32) :
      ((m.tables.get i).get? index).isSome ↔ Known events i index :=
    (hholds i).get?_isSome_iff index
  have hbody := hcalm.mixer? hm
  -- The test for a new device looks at the table as it was, so at what was known before the event.
  cases event with
  | updated i d =>
    have hretired' : Queue.Chronicle (Retired (events ++ [.updated i d])) retired :=
      chronicle_removals_of_unknown hretired fun _ _ h => nomatch h
    obtain ⟨e₁, h₁, hrest⟩ := (hrecords.setTables hm hmade).fire hbody.setTables
    split at hrest
    · rename_i hnew
      have hunknown : ¬ Known events i d.index := fun hk => by
        rw [← hknown, Option.isSome_iff_ne_none] at hk
        exact hk (Option.isNone_iff_eq_none.mp hnew)
      subst hq
      exact ⟨_, _, h₁.advertise hrest, chronicle_adverts_of_new hadvertised hunknown, hretired'⟩
    · rename_i hold
      rw [hrest.eq_of_pure]
      refine ⟨_, _, h₁, chronicle_adverts_of_known hadvertised ?_, hretired'⟩
      rintro _ _ ⟨⟩
      rw [← hknown, Option.isSome_iff_ne_none]
      exact fun hnone => hold (Option.isNone_iff_eq_none.mpr hnone)
  | removed i index =>
    have hadvertised' : Queue.Chronicle (Advertised (events ++ [.removed i index])) advertised :=
      chronicle_adverts_of_known hadvertised fun _ _ h => nomatch h
    dsimp only at hbody
    split at hbody
    · rename_i hpresent
      subst hr
      obtain ⟨e₁, h₁, hrest⟩ := (hrecords.setTables hm hmade).appendRemoval hbody.setTables
      obtain ⟨e₂, h₂, hrest⟩ := h₁.fire (f := pure) hrest
      rw [hrest.eq_of_pure]
      have hretired' := chronicle_removals_of_known hretired ((hknown i index).mp hpresent)
      exact ⟨_, _, h₂, hadvertised', hretired'⟩
    · rename_i habsent
      have hsame : m.tables.remove i index = m.tables :=
        Tables.remove_of_get?_eq_none (Option.not_isSome_iff_eq_none.mp habsent)
      have hholds' : ∀ k, Holds (events ++ [.removed i index]) k (m.tables.get k) := fun k => by
        rw [← hsame]
        exact hmade k
      rw [hbody.eq_of_pure]
      refine ⟨_, _, ⟨m, hm, hq, hr, hholds', hadverts, hremovals⟩, hadvertised',
        chronicle_removals_of_unknown hretired ?_⟩
      rintro _ _ ⟨⟩
      rwa [← hknown]
  | renamed client name =>
    have hrecords' := hrecords.replaceTables hm hmade hbody
    exact ⟨_, _, hrecords', chronicle_adverts_of_known hadvertised (fun _ _ h => nomatch h),
      chronicle_removals_of_unknown hretired fun _ _ h => nomatch h⟩
  | defaults sink source =>
    have hrecords' := hrecords.replaceTables hm hmade hbody
    exact ⟨_, _, hrecords', chronicle_adverts_of_known hadvertised (fun _ _ h => nomatch h),
      chronicle_removals_of_unknown hretired fun _ _ h => nomatch h⟩

theorem Accounts.fed (hnew : Accounts n q r [] e) (h : Fed call n e events e') :
    Accounts n q r events e' := by
  induction h with
  | none => exact hnew
  | beside _ hsame ih =>
    obtain ⟨advertised, retired, hrecords, hchronicles⟩ := ih
    exact ⟨advertised, retired, hrecords.congr hsame, hchronicles⟩
  | told _ hcalm ih => exact ih.told hcalm

end Records

theorem onlyRaises_apply (n : Nat) (event : Event) :
    (apply n event : Action (extend C) Unit).OnlyRaises := by
  refine Action.OnlyRaises.bind (fun _ => trivial) fun found => ?_
  cases found with
  | none => trivial
  | some m =>
    have hchange : (announceChange : Action (extend C) Unit).OnlyRaises :=
      ⟨trivial, fun _ => trivial⟩
    have hreplaced (found : Bool × Tables) :
        (replaceTables n found : Action (extend C) Unit).OnlyRaises := by
      show (if found.1 then announceChange else pure () : Action (extend C) Unit).OnlyRaises
      split
      · exact hchange
      · trivial
    cases event with
    | updated i d =>
      refine ⟨trivial, fun _ => ?_⟩
      show (if _ then m.advertise i d else pure () : Action (extend C) Unit).OnlyRaises
      split
      · refine Action.OnlyRaises.forM (fun _ => ?_) _
        exact ⟨trivial, fun _ => trivial⟩
      · trivial
    | removed i index =>
      dsimp only
      split
      · exact ⟨trivial, fun _ => hchange⟩
      · trivial
    | renamed client name => exact hreplaced (m.tables.rename client name)
    | defaults sink source => exact hreplaced (m.tables.setServerDefaults sink source)

/-- If nobody listens there is nobody who could disturb the mixer. -/
theorem calm_apply (hnone : e.bus.subscriptions = []) {event : Event}
    (hrun : ((apply n event).run call).run e = some ((), e')) :
    Calm call n (apply n event) e e' where
  run := hrun
  quiet r e₁ raised reply e₂ hcomes hraised hanswer := by
    have hsilent := hraised.silent (hcomes.silent (onlyRaises_apply n event) hnone) hanswer
    unfold outlook?
    rw [hsilent.queues, hsilent.host]

/-- If nobody listens, the mixer is told one event after the other when these are applied. -/
theorem Fed.handled {early : List Event} (h : Fed call n e early e₁)
    (hnone : e₁.bus.subscriptions = []) {events : List (Handling (extend C) Event Unit)}
    (hrun : Handled (fun event => (apply n event).run call) e₁ events e') :
    Fed call n e (early ++ events.map Handling.item) e' := by
  induction hrun generalizing early with
  | nil =>
    rw [List.map_nil, List.append_nil]
    exact h
  | cons happlied _ ih =>
    obtain ⟨moves, hgoes⟩ := Action.goes_of_run happlied
    rw [List.map_cons, List.append_cons]
    exact ih (.told h (calm_apply hnone happlied)) (hgoes.silent (onlyRaises_apply n _) hnone)

/-- The mixer knows no devices, and its queues are empty ones with triggers of their own. -/
structure Fresh (n : Nat) (m : Mixer) (e : Engine (extend C)) : Prop where
  mixer : (e.host.mixers : List Mixer)[n]? = some m
  devices : ∀ i, (m.tables.get i).devices = []
  adverts : e.queues.at? (advertQueue m) = some (.empty "mixer_channel")
  removals : e.queues.at? (removalQueue m) = some (.empty "mixer_removed")

theorem Fresh.accounts {m : Mixer} (h : Fresh n m e) : Accounts n m.adverts m.removals [] e := by
  refine ⟨[], [], ⟨m, h.mixer, rfl, rfl, fun i => .of_devices_eq_nil (h.devices i), h.adverts,
    h.removals⟩, Queue.chronicle_nil.congr fun t a => ?_, Queue.chronicle_nil.congr fun j r => ?_⟩
  · refine ⟨False.elim, ?_⟩
    rintro ⟨j, d, -, ⟨hevent, -⟩, -⟩
    simp at hevent
  · refine ⟨False.elim, ?_⟩
    rintro ⟨i, index, ⟨hevent, -⟩, -⟩
    simp at hevent

/-- All that an update of a known device does besides is to fire the name of the queries. -/
theorem apply_updated_run {m : Mixer} (hm : (e.host.mixers : List Mixer)[n]? = some m)
    {i : Interface} {d : Device} (hknown : ((m.tables.get i).get? d.index).isSome) :
    ((apply n (.updated i d)).run call).run e =
      (Engine.fire call "Mixer").run
        { e with host := State.withTables e.host n (m.tables.update i d) } := by
  have hold : ¬ ((m.tables.get i).get? d.index).isNone = true := by
    rw [Option.isNone_iff_eq_none]
    exact Option.isSome_iff_ne_none.mp hknown
  unfold apply
  rw [run_mixer? hm]
  dsimp only
  rw [if_neg hold]
  show (Engine.fire call "Mixer" >>= pure).run _ = _
  rw [bind_pure]
  rfl

theorem apply_removed_run {m : Mixer} (hm : (e.host.mixers : List Mixer)[n]? = some m)
    {i : Interface} {index : UInt32} (hunknown : ¬ ((m.tables.get i).get? index).isSome) :
    ((apply n (.removed i index)).run call).run e = some ((), e) := by
  unfold apply
  rw [run_mixer? hm]
  dsimp only
  rw [if_neg hunknown]
  rfl

/-- The queues of a mixer that was fresh hold what the devices have announced: the channels of all
that were added, and all that were removed. An update of a known device and a removal of an
unknown one do not come near them. -/
theorem announcements_match_history {m : Mixer} (hfresh : Fresh n m e) {events : List Event}
    (h : Fed call n e events e') :
    ∃ m' advertised retired, (e'.host.mixers : List Mixer)[n]? = some m' ∧
      e'.queues.at? (advertQueue m) = some ⟨"mixer_channel", advertised⟩ ∧
      e'.queues.at? (removalQueue m) = some ⟨"mixer_removed", retired⟩ ∧
      Adverts events advertised ∧ Removals events retired ∧
      (∀ i d, Known events i d.index →
        ((apply n (.updated i d)).run call).run e' =
          (Engine.fire call "Mixer").run
            { e' with host := State.withTables e'.host n (m'.tables.update i d) }) ∧
      ∀ i index, ¬ Known events i index →
        ((apply n (.removed i index)).run call).run e' = some ((), e') := by
  obtain ⟨advertised, retired, ⟨m', hm', hq, hr, hholds, hadverts, hremovals⟩, hadvertised,
    hretired⟩ := hfresh.accounts.fed h
  have hknown (i : Interface) (index : UInt32) :
      ((m'.tables.get i).get? index).isSome ↔ Known events i index :=
    (hholds i).get?_isSome_iff index
  exact ⟨m', advertised, retired, hm', hadverts, hremovals, adverts_of_chronicle hadvertised,
    removals_of_chronicle hretired, fun i d hd => apply_updated_run hm' ((hknown i d.index).mpr hd),
    fun i index hd => apply_removed_run hm' ((hknown i index).not.mpr hd)⟩

end Mixer

namespace Bare

open Mixer

/-- The left channel comes twice. -/
def stereo : Device :=
  { speakers with channels := [⟨"left", 10.0⟩, ⟨"right", 10.0⟩, ⟨"left", 10.0⟩] }

/-- Another device with the index of the first one. Here the right channel comes twice. -/
def turned : Device :=
  { speakers with channels := [⟨"right", 20.0⟩, ⟨"left", 20.0⟩, ⟨"right", 20.0⟩] }

def installed : Engine (extend Bare) :=
  ((install.run (script.callbacks 4 2)).run unequipped).elim unequipped Prod.snd

theorem fresh_installed : Fresh 0 ⟨.empty, 0, 1, .empty⟩ installed where
  mixer := by cbv
  devices i := by cases i <;> rfl
  adverts := by cbv
  removals := by cbv

/-- A device is added and goes, and another one takes its index. -/
def replacing : List Event := [.updated .sink stereo, .removed .sink 3, .updated .sink turned]

def replaced : Engine (extend Bare) :=
  ((replacing.forM fun event => (apply 0 event).run (script.callbacks 4 2)).run installed).elim
    installed Prod.snd

theorem fed_replaced : Fed (script.callbacks 4 2) 0 installed replacing replaced := by
  have hended : ((replacing.forM fun event => (apply 0 event).run (script.callbacks 4 2)).run
      installed).isSome := by
    decide +kernel
  obtain ⟨⟨⟨⟩, e'⟩, hrun⟩ := Option.isSome_iff_exists.mp hended
  have heq : replaced = e' := by
    unfold replaced
    rw [hrun]
    rfl
  have hnone : installed.bus.subscriptions = [] := by
    cbv
  obtain ⟨work, hwork, hitems⟩ := handled_of_forM hrun
  have hfed := (Fed.none _).handled hnone hwork
  rw [List.nil_append, hitems] at hfed
  rw [heq]
  exact hfed

/-- What is announced of a channel keeps its place in the queue and gets the number that the channel
has now, the last one if there are two. -/
theorem announcements_match_history_stereo :
    let advertised : List Advert :=
      [⟨.sink, 1, "left", Interface.sink.identifier 3⟩,
        ⟨.sink, 2, "right", Interface.sink.identifier 3⟩]
    let retired : List Removal := [⟨Interface.sink.identifier 3⟩]
    Fed (script.callbacks 4 2) 0 installed replacing replaced ∧
      replaced.queues.at? (advertQueue ⟨.empty, 0, 1, .empty⟩) =
        some ⟨"mixer_channel", advertised⟩ ∧
      replaced.queues.at? (removalQueue ⟨.empty, 0, 1, .empty⟩) =
        some ⟨"mixer_removed", retired⟩ ∧
      Adverts replacing advertised ∧ Removals replacing retired ∧
      ((apply 0 (.removed .sink 4)).run (script.callbacks 4 2)).run replaced =
        some ((), replaced) := by
  intro advertised retired
  obtain ⟨m, advertised', retired', -, hadverts, hremovals, hall, hgone, -, hunknown⟩ :=
    announcements_match_history fresh_installed fed_replaced
  have hadvertised : (replaced.queues.at? (advertQueue ⟨.empty, 0, 1, .empty⟩)).map
      (fun content : Queue Advert => content.items) = some advertised := by
    decide +kernel
  have hretired : (replaced.queues.at? (removalQueue ⟨.empty, 0, 1, .empty⟩)).map
      (fun content : Queue Removal => content.items) = some retired := by
    decide +kernel
  rw [hadverts] at hadvertised
  rw [hremovals] at hretired
  obtain rfl : advertised' = advertised := Option.some.inj hadvertised
  obtain rfl : retired' = retired := Option.some.inj hretired
  refine ⟨fed_replaced, hadverts, hremovals, hall, hgone, hunknown .sink 4 ?_⟩
  rintro ⟨d, hd, hindex⟩
  have hmem := hd.mem
  simp only [replacing, List.mem_cons, Event.updated.injEq, List.not_mem_nil, or_false,
    reduceCtorEq, false_or] at hmem
  rcases hmem with ⟨-, rfl⟩ | ⟨-, rfl⟩ <;> cases hindex

end Bare

end LiveExpr
