import LiveExpr.Mixer.Extension
import LiveExpr.Proofs.Moves
import Mathlib

/-!
The trigger of the queries. Whatever is done to a mixer, no answer to a query changes
unless a fire of the name under which queries are made is yet to come. Whether there is
a fire is decided event by event: for renames and defaults by a flag that says whether
anything changed, and a change without the flag is one that no query can see.
-/
namespace LiveExpr

/-- Any request but one to register a native. -/
def Request.Modest {H : Host} : Request H → Prop
  | .registerNative _ _ _ => False
  | _ => True

namespace Mixer

namespace DeviceTable

/-- The same devices and the same default. Whether the default is fixed may differ. -/
structure Alike (t t' : DeviceTable) : Prop where
  devices : t'.devices = t.devices
  defaultName : t'.defaultName = t.defaultName

variable {t t' : DeviceTable}

theorem Alike.refl (t : DeviceTable) : t.Alike t := ⟨rfl, rfl⟩

theorem Alike.resolve (h : t.Alike t') (address : Option String) :
    t'.resolve address = t.resolve address := by
  obtain ⟨devices, defaultName, fixed⟩ := t
  obtain ⟨devices', defaultName', fixed'⟩ := t'
  obtain ⟨hdevices, hname⟩ := h
  dsimp only at hdevices hname
  subst hdevices hname
  rfl

/-- If the flag is not set, the default was the same or fixed by the user. -/
theorem setDefault_alike {name : String} {byUser : Bool}
    (h : (t.setDefault name byUser).1 = false) : t.Alike (t.setDefault name byUser).2 := by
  unfold setDefault at h ⊢
  split
  · exact .refl t
  · rename_i hfree
    rw [if_neg hfree] at h
    have hname : t.defaultName = some name := by simpa using h
    exact ⟨rfl, hname.symm⟩

end DeviceTable

namespace Tables

def Alike (t t' : Tables) : Prop := ∀ i, (t.get i).Alike (t'.get i)

variable {t t' t'' : Tables}

theorem Alike.trans (h : t.Alike t') (h' : t'.Alike t'') : t.Alike t'' := fun i =>
  ⟨(h' i).devices.trans (h i).devices, (h' i).defaultName.trans (h i).defaultName⟩

theorem Alike.query (h : t.Alike t') (question : String) (address : Option String) :
    t'.query question address = t.query question address := by
  unfold Tables.query
  split
  · rfl
  · rename_i i property _
    have hsize : (t'.get i).size = (t.get i).size := congrArg List.length (h i).devices
    rw [hsize, (h i).resolve]

theorem get_set (t : Tables) (i j : Interface) (table : DeviceTable) :
    (t.set i table).get j = if j = i then table else t.get j := by
  cases i <;> cases j <;> rfl

theorem setDefault_alike {i : Interface} {name : String} {byUser : Bool}
    (h : (t.setDefault i name byUser).1 = false) : t.Alike (t.setDefault i name byUser).2 := by
  intro j
  show (t.get j).Alike ((t.set i ((t.get i).setDefault name byUser).2).get j)
  rw [get_set]
  split
  · rename_i hj
    subst hj
    exact DeviceTable.setDefault_alike h
  · exact .refl _

theorem setServerDefaults_alike {sink source : String}
    (h : (t.setServerDefaults sink source).1 = false) :
    t.Alike (t.setServerDefaults sink source).2 := by
  obtain ⟨hsink, hsource⟩ := Bool.or_eq_false_iff.mp h
  exact (setDefault_alike hsink).trans (setDefault_alike hsource)

/-- If the flag is not set, no stream of the client needed the name. -/
theorem rename_alike {client : UInt32} {name : String} (h : (t.rename client name).1 = false) :
    t.Alike (t.rename client name).2 := by
  have hnone : ∀ d ∈ t.client.devices, ¬ needsName d client name = true :=
    List.any_eq_false.mp h
  have hsame : (t.rename client name).2.client.devices = t.client.devices :=
    (List.map_congr_left fun d hd => if_neg (hnone d hd)).trans (List.map_id _)
  intro i
  cases i with
  | sink => exact .refl _
  | source => exact .refl _
  | client => exact ⟨hsame, rfl⟩

end Tables

namespace State

variable {σ : Type} (s s' : State σ)

/-- What a query of the mixer with the number comes to. -/
def answer (n : Nat) (question : String) (address : Option String) : Value :=
  match s.mixers[n]? with
  | none => .unset
  | some m => m.tables.query question address

theorem answer_eq (n : Nat) (question : String) (address : Option String) :
    s.answer n question address =
      ((s.mixers[n]?.map Mixer.tables).map fun t => t.query question address).getD .unset := by
  unfold answer
  cases s.mixers[n]? <;> rfl

/-- Some query is answered otherwise. -/
def Differs : Prop :=
  ∃ n question address, s.answer n question address ≠ s'.answer n question address

def withTables (n : Nat) (tables : Tables) : State σ :=
  { s with mixers := s.mixers.modify n fun m => { m with tables } }

variable {s s'}

/-- Nothing but what the tables hold of their devices counts. -/
theorem not_differs_withTables {n : Nat} {m : Mixer} {tables : Tables} (hm : s.mixers[n]? = some m)
    (h : m.tables.Alike tables) : ¬ s.Differs (s.withTables n tables) := by
  rintro ⟨k, question, address, hne⟩
  refine hne ?_
  simp only [answer, withTables, List.getElem?_modify]
  by_cases hk : n = k
  · subst hk
    rw [hm]
    simp only [if_pos, Option.map_eq_map, Option.map_some]
    exact (h.query question address).symm
  · simp only [if_neg hk, id_map']

/-- Of a mixer, only the tables count. -/
theorem not_differs_of_eq
    (h : ∀ n : Nat, s'.mixers[n]?.map Mixer.tables = s.mixers[n]?.map Mixer.tables) :
    ¬ s.Differs s' := by
  rintro ⟨n, question, address, hne⟩
  refine hne ?_
  rw [answer_eq, answer_eq, h]

end State

variable {C : Host} {α β : Type} {call : Callbacks (extend C)} {e e' : Engine (extend C)}
  {moves : List (Move (extend C))} {x : α}

theorem run_mixer? {n : Nat} {m : Mixer} (hm : (e.host.mixers : List Mixer)[n]? = some m)
    (f : Option Mixer → Action (extend C) α) :
    ((mixer? n >>= f).run call).run e = ((f (some m)).run call).run e := by
  show ((f (e.host.mixers : List Mixer)[n]?).run call).run e = _
  rw [hm]

theorem query_run (n : Nat) (question : String) (address : Option String) :
    ((query n question address).run call).run e =
      some (State.answer e.host n question address, e) := by
  show ((match (e.host.mixers : List Mixer)[n]? with
    | none => pure .unset
    | some m => pure (m.tables.query question address) : Action (extend C) Value).run call).run e =
      some ((match (e.host.mixers : List Mixer)[n]? with
        | none => .unset
        | some m => m.tables.query question address), e)
  cases (e.host.mixers : List Mixer)[n]? <;> rfl

/-- From this state of the host on, each change of what queries answer is followed by a fire of
their name, also the one that may be owed at the beginning. The requests are those that may be
made when a fire is owed or none is. -/
def Tidy (allows : Prop → Request (extend C) → Prop) :
    Prop → State C.State → Action (extend C) α → Prop
  | owed, _, .pure _ => ¬ owed
  | owed, _, .request r next =>
    allows owed r ∧ ∀ reply s, Tidy allows (owed ∧ r ≠ .fire "Mixer") s (next reply)
  | owed, s, .look next => ∀ e, e.host = s → Tidy allows owed s (next e)
  | owed, s, .change f next => Tidy allows (owed ∨ s.Differs (f s)) (f s) next

/-- A host may have to refrain from registering natives, and from other requests as long as it owes
the fire, but from nothing else. -/
structure Liberal (allows : Prop → Request (extend C) → Prop) : Prop where
  fire : ∀ owed, allows owed (.fire "Mixer")
  others : ∀ {r}, r.Modest → allows False r

/-- New tables, and a fire if a flag says that they differ. -/
def replaceTables (n : Nat) (found : Bool × Tables) : Action (extend C) Unit := do
  setTables n found.2
  if found.1 then announceChange

section Tidy

variable {allows : Prop → Request (extend C) → Prop} {owed owed' : Prop} {s : State C.State}

theorem Tidy.mono {a : Action (extend C) α} (h : Tidy allows False s a) (ho : ¬ owed) :
    Tidy allows owed s a := by
  rwa [show owed = False from eq_false ho]

theorem Tidy.bind {a : Action (extend C) α} {f : α → Action (extend C) β}
    (ha : Tidy allows owed s a) (hf : ∀ x s', Tidy allows False s' (f x)) :
    Tidy allows owed s (a >>= f) := by
  induction a generalizing owed s with
  | pure x => exact (hf x s).mono ha
  | request r next ih => exact ⟨ha.1, fun reply s' => ih reply (ha.2 reply s')⟩
  | look next ih => exact fun e he => ih e (ha e he)
  | change g next ih => exact ih ha

theorem tidy_pure (x : α) : Tidy allows False s (pure x : Action (extend C) α) := not_false

theorem tidy_ask (r : Request (extend C)) (hr : allows False r) :
    Tidy allows False s (ask r) := ⟨hr, fun _ _ h => h.1⟩

/-- Requests that leave the fire owed. -/
theorem tidy_ask_bind {r : Request (extend C)} {f : r.Reply → Action (extend C) α}
    (hr : allows owed r) (hf : ∀ reply s', Tidy allows owed s' (f reply))
    (hne : r ≠ .fire "Mixer") :
    Tidy allows owed s (ask r >>= f) := by
  refine ⟨hr, fun reply s' => ?_⟩
  rw [show (owed ∧ r ≠ .fire "Mixer") = owed from propext (and_iff_left hne)]
  exact hf reply s'

theorem tidy_look {next : Engine (extend C) → Action (extend C) α}
    (h : ∀ e, Tidy allows owed s (next e)) : Tidy allows owed s (Action.engine >>= next) :=
  fun e _ => h e

theorem tidy_forM {f : α → Action (extend C) Unit} (hf : ∀ x s, Tidy allows False s (f x))
    (l : List α) : Tidy allows False s (l.forM f) := by
  induction l generalizing s with
  | nil => exact tidy_pure _
  | cons x rest ih => exact (hf x s).bind fun _ _ => ih

/-- Once the mixer is looked up, the action is that of the mixer found. -/
theorem tidy_mixer? {n : Nat} {f : Option Mixer → Action (extend C) α}
    (hnone : Tidy allows owed s (f none))
    (hsome : ∀ m, s.mixers[n]? = some m → Tidy allows owed s (f (some m))) :
    Tidy allows owed s (mixer? n >>= f) := by
  rintro e rfl
  show Tidy allows owed e.host (f (e.host.mixers : List Mixer)[n]?)
  cases hm : (e.host.mixers : List Mixer)[n]? with
  | none => exact hnone
  | some m => exact hsome m hm

/-- A change of anything but the tables. -/
theorem tidy_modifyState {f : State C.State → State C.State} (h : ¬ s.Differs (f s)) :
    Tidy allows False s (modifyState f : Action (extend C) Unit) :=
  not_or.mpr ⟨not_false, h⟩

theorem tidy_setTables {n : Nat} {tables : Tables} {f : Unit → Action (extend C) α}
    (h : Tidy allows (owed ∨ s.Differs (s.withTables n tables)) (s.withTables n tables) (f ())) :
    Tidy allows owed s (setTables n tables >>= f) := h

variable (hallows : Liberal allows)

include hallows

theorem tidy_announceChange : Tidy allows owed s announceChange :=
  ⟨hallows.fire owed, fun _ _ h => h.2 rfl⟩

theorem tidy_replaceTables {n : Nat} {m : Mixer} (hm : s.mixers[n]? = some m)
    (found : Bool × Tables) (h : found.1 = false → m.tables.Alike found.2) :
    Tidy allows False s (replaceTables n found) := by
  refine tidy_setTables ?_
  obtain ⟨changed, tables⟩ := found
  cases changed with
  | true => exact tidy_announceChange hallows
  -- There is no fire, but no answer is another one either.
  | false =>
    exact (tidy_pure ()).mono (not_or.mpr ⟨not_false, State.not_differs_withTables hm (h rfl)⟩)

theorem tidy_setDefault (n : Nat) (i : Interface) (name : String) :
    Tidy allows False s (setDefault n i name : Action (extend C) Unit) :=
  tidy_mixer? (tidy_pure ()) fun m hm =>
    tidy_replaceTables hallows hm (m.tables.setDefault i name true) Tables.setDefault_alike

/-- Only in the case of a removal an item is appended when the fire is still owed. -/
theorem tidy_apply (n : Nat) {event : Event} (hremoval : ∀ i index, event = .removed i index →
      ∀ owed (q : QueueRef (extend C)) item, allows owed (.append q item)) :
    Tidy allows False s (apply n event : Action (extend C) Unit) := by
  refine tidy_mixer? (tidy_pure ()) fun m hm => ?_
  cases event with
  | updated i d =>
    refine tidy_setTables (.bind (tidy_announceChange hallows) fun _ s' => ?_)
    split
    · exact tidy_forM (fun _ _ => tidy_ask (.append ..) (hallows.others trivial)) _
    · exact tidy_pure ()
  | removed i index =>
    dsimp only
    split
    · refine tidy_setTables (tidy_ask_bind (hremoval i index rfl _ _ _) (fun _ _ => ?_) nofun)
      exact tidy_announceChange hallows
    · exact tidy_pure ()
  | renamed client name =>
    exact tidy_replaceTables hallows hm (m.tables.rename client name) Tables.rename_alike
  | defaults sink source =>
    exact tidy_replaceTables hallows hm (m.tables.setServerDefaults sink source)
      Tables.setServerDefaults_alike

theorem tidy_acknowledge (q : QueueRef (extend C)) : Tidy allows False s (acknowledge q) := by
  refine tidy_ask_bind (hallows.others trivial) (fun item s' => ?_) nofun
  cases item with
  | none => exact tidy_pure ()
  | some item =>
    refine tidy_look fun e => ?_
    split
    · exact tidy_pure ()
    · split
      · exact tidy_pure ()
      · exact tidy_ask (.fire _) (hallows.others trivial)

omit hallows in
theorem tidy_command (n : Nat) (text : String) (address : Option String) :
    Tidy allows False s (command n text address : Action (extend C) Unit) := by
  refine tidy_mixer? (tidy_pure ()) fun m _ => ?_
  dsimp only
  split
  · exact tidy_pure ()
  · exact tidy_modifyState (State.not_differs_of_eq fun _ => rfl)

theorem tidy_call (n : Nat) (f : Function) (args : List Value) :
    Tidy allows False s (Mixer.call n f args : Action (extend C) Value) := by
  unfold Mixer.call
  dsimp only
  split
  · exact tidy_mixer? (tidy_pure _) fun _ _ => tidy_pure _
  · exact tidy_mixer? (tidy_pure _) fun _ _ => tidy_look fun _ => tidy_pure _
  · exact (tidy_command n _ _).bind fun _ _ => tidy_pure _
  · exact (tidy_setDefault hallows n _ _).bind fun _ _ => tidy_pure _
  · exact (tidy_setDefault hallows n _ _).bind fun _ _ => tidy_pure _
  · exact tidy_mixer? (tidy_pure _) fun _ _ =>
      (tidy_acknowledge hallows _).bind fun _ _ => tidy_pure _
  · exact tidy_mixer? (tidy_pure _) fun _ _ =>
      (tidy_acknowledge hallows _).bind fun _ _ => tidy_pure _
  · exact tidy_pure _

theorem tidy_pump (n : Nat)
    (happend : ∀ owed (q : QueueRef (extend C)) item, allows owed (.append q item)) :
    Tidy allows False s (pump n : Action (extend C) Nat) := by
  refine tidy_mixer? (tidy_pure _) fun m _ => ?_
  refine (tidy_modifyState (State.not_differs_of_eq fun k => ?_)).bind fun _ _ => ?_
  · rw [List.getElem?_modify]
    cases (s.mixers : List Mixer)[k]? with
    | none => rfl
    | some m => by_cases hk : n = k <;> simp [hk]
  · exact (tidy_forM (fun _ _ => tidy_apply hallows n fun _ _ _ => happend) _).bind
      fun _ _ => tidy_pure _

end Tidy

/-- Each change of what queries answer comes before a fire of their name. -/
def Announced (moves : List (Move (extend C))) : Prop :=
  ∀ early before after late, moves = early ++ .changed before after :: late →
    State.Differs before after → .asked (.fire "Mixer") ∈ late

theorem announced_nil : Announced ([] : List (Move (extend C))) := by
  intro early before after late h
  simp at h

theorem Announced.asked (h : Announced moves) (r : Request (extend C)) :
    Announced (.asked r :: moves) := by
  intro early before after late hsplit hdiffers
  rcases List.cons_eq_append_iff.mp hsplit with ⟨-, hhead⟩ | ⟨early, rfl, hrest⟩
  · cases hhead
  · exact h early before after late hrest hdiffers

theorem Announced.changed (h : Announced moves) {s s' : State C.State}
    (hfire : s.Differs s' → .asked (.fire "Mixer") ∈ moves) :
    Announced (.changed s s' :: moves) := by
  intro early before after late hsplit hdiffers
  rcases List.cons_eq_append_iff.mp hsplit with ⟨-, hhead⟩ | ⟨early, rfl, hrest⟩
  · cases hhead
    exact hfire hdiffers
  · exact h early before after late hrest hdiffers

theorem Tidy.announced {allows : Prop → Request (extend C) → Prop} {owed : Prop}
    {a : Action (extend C) α} (ha : Tidy allows owed e.host a) (h : a.Goes call e moves x e') :
    Announced moves ∧ (owed → .asked (.fire "Mixer") ∈ moves) := by
  induction h generalizing owed with
  | pure x e => exact ⟨announced_nil, fun h => (ha h).elim⟩
  | @request r next e e₁ e' reply moves x hr h ih =>
    obtain ⟨hannounced, hfire⟩ := ih (ha.2 reply e₁.host)
    refine ⟨hannounced.asked r, fun howed => ?_⟩
    by_cases hr : r = .fire "Mixer"
    · rw [hr]
      exact List.mem_cons_self
    · exact List.mem_cons_of_mem _ (hfire ⟨howed, hr⟩)
  | look h ih => exact ih (ha _ rfl)
  | change h ih =>
    obtain ⟨hannounced, hfire⟩ := ih ha
    exact ⟨hannounced.changed fun hdiffers => hfire (Or.inr hdiffers),
      fun howed => List.mem_cons_of_mem _ (hfire (Or.inl howed))⟩

/-- Once the mixer is looked up, the action is that of the mixer found. -/
theorem goes_mixer? {n : Nat} {f : Option Mixer → Action (extend C) α}
    (h : (mixer? n >>= f).Goes call e moves x e') :
    (f (e.host.mixers : List Mixer)[n]?).Goes call e moves x e' := by
  cases h with
  | look h => exact h

theorem goes_setTables {n : Nat} {tables : Tables} {f : Unit → Action (extend C) α}
    (h : (setTables n tables >>= f).Goes call e moves x e') :
    ∃ late, moves = .changed e.host (State.withTables e.host n tables) :: late ∧
      (f ()).Goes call { e with host := State.withTables e.host n tables } late x e' := by
  cases h with
  | change h => exact ⟨_, rfl, h⟩

/-- What can be done to a mixer, other than sending it an event. -/
inductive Operation where
  | apply (event : Event)
  | setDefault (i : Interface) (name : String)
  | command (text : String) (address : Option String)
  /-- Of the natives of the mixer, two acknowledge the front item of a queue. -/
  | call (f : Function) (args : List Value)
  | pump

def Operation.action (n : Nat) : Operation → Action (extend C) Unit
  | .apply event => Mixer.apply n event
  | .setDefault i name => Mixer.setDefault n i name
  | .command text address => Mixer.command n text address
  | .call f args => do
    let _ ← Mixer.call n f args
  | .pump => do
    let _ ← Mixer.pump n

theorem Operation.tidy {allows : Prop → Request (extend C) → Prop} (hallows : Liberal allows)
    (happend : ∀ owed (q : QueueRef (extend C)) item, allows owed (.append q item))
    (n : Nat) (op : Operation) (s : State C.State) :
    Tidy allows False s (op.action n : Action (extend C) Unit) := by
  cases op with
  | apply event => exact tidy_apply hallows n fun _ _ _ => happend
  | setDefault i name => exact tidy_setDefault hallows n i name
  | command text address => exact tidy_command n text address
  | call f args => exact (tidy_call hallows n f args).bind fun _ _ => tidy_pure _
  | pump => exact (tidy_pump hallows n happend).bind fun _ _ => tidy_pure _

/-- Whenever an operation on a mixer makes queries be answered otherwise, it fires their name after
that, itself and before it is over. -/
theorem Operation.run_announced (n : Nat) (op : Operation) {y : Unit}
    (hrun : ((op.action n).run call).run e = some (y, e')) :
    ∃ moves, (op.action n).Goes call e moves y e' ∧
      ∀ early (before after : State C.State) late k question address,
        moves = early ++ .changed before after :: late →
        before.answer k question address ≠ after.answer k question address →
        .asked (.fire "Mixer") ∈ late := by
  obtain ⟨moves, hgoes⟩ := Action.goes_of_run hrun
  refine ⟨moves, hgoes, fun early before after late k question address hsplit hne => ?_⟩
  have htidy : Tidy (fun _ _ => True) False e.host (op.action n : Action (extend C) Unit) :=
    op.tidy ⟨fun _ => trivial, fun _ => trivial⟩ (fun _ _ _ => trivial) n _
  exact (htidy.announced hgoes).1 early before after late hsplit ⟨k, question, address, hne⟩

end Mixer

/-- A host that brings nothing along. -/
def Bare : Host where
  Function := Empty
  Listener := Empty
  Task := Empty
  Source := Empty
  Kind := Empty
  Item _ := Empty
  State := Unit
  decFunction := inferInstanceAs (DecidableEq Empty)
  decKind := inferInstanceAs (DecidableEq Empty)
  entity := nofun

namespace Bare

open Mixer

def script : Script (extend Bare) (extend Bare) := Mixer.script ⟨nofun, nofun, nofun, nofun⟩

def speakers : Device := ⟨3, "usb", none, none, none, none, none, false, [], none⟩

/-- One mixer that knows one sink. -/
def played : State Unit := ⟨[⟨Tables.empty.update .sink speakers, 0, 1, .empty⟩], [], ()⟩

def playing : Engine (extend Bare) := .create .standard played

theorem answer_mute {σ : Type} {s : State σ} {n : Nat} {m : Mixer} (hm : s.mixers[n]? = some m)
    (address : Option String) :
    s.answer n "sink-mute" address =
      ((m.tables.sink.resolve address).map fun found =>
        Value.boolean found.1.mute).getD .unset := by
  have hsplit : Interface.split? "sink-mute" = some (.sink, "mute") := by
    cbv
  have hcount : Text.sameIgnoringCase "mute" "count" = false := by
    cbv
  have hlower : Text.lowercase "mute" = "mute" := by
    cbv
  simp only [State.answer, hm, Tables.query, hsplit, hcount, Tables.get, Device.property, hlower]
  cases m.tables.sink.resolve address <;> rfl

/-- The sink is not mute, and then it is not there. -/
theorem run_announced_removed :
    ∃ e' after late,
      ((Operation.apply (.removed .sink 3)).action 0).Goes (script.callbacks 4 2) playing
        (.changed played after :: late) () e' ∧
      played.answer 0 "sink-mute" (some "usb") = .boolean false ∧
      State.answer after 0 "sink-mute" (some "usb") = .unset ∧
      .asked (.fire "Mixer") ∈ late := by
  let op : Operation := .apply (.removed .sink 3)
  let tables : Tables := (Tables.empty.update .sink speakers).remove .sink 3
  have hended : (((op.action 0).run (script.callbacks 4 2)).run playing).isSome := by
    cbv
  obtain ⟨⟨⟨⟩, e'⟩, hrun⟩ := Option.isSome_iff_exists.mp hended
  obtain ⟨moves, hgoes, hannounced⟩ := op.run_announced 0 hrun
  obtain ⟨late, rfl, -⟩ := goes_setTables (goes_mixer? hgoes)
  have hbefore : played.answer 0 "sink-mute" (some "usb") = .boolean false := by
    rw [answer_mute rfl]
    cbv
  have hafter : (played.withTables 0 tables).answer 0 "sink-mute" (some "usb") = .unset := by
    rw [answer_mute rfl]
    cbv
  have hne : played.answer 0 "sink-mute" (some "usb") ≠
      (played.withTables 0 tables).answer 0 "sink-mute" (some "usb") := by
    rw [hbefore, hafter]
    intro heq
    cases heq
  exact ⟨e', _, late, hgoes, hbefore, hafter, hannounced [] _ _ late 0 _ _ rfl hne⟩

end Bare

end LiveExpr
