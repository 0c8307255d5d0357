import LiveExpr.Engine.Action
import LiveExpr.Mixer.Announcement
import LiveExpr.Mixer.Question

/-!
Mixers as an extension of a host: each has its tables, its two queues and an inbox
of events, and brings natives, kinds of queue items and an event source of its own.
Requests to the sound server are kept until the host takes them.
-/
namespace LiveExpr

namespace Mixer

/-- What the sound server tells. -/
inductive Event where
  | updated (i : Interface) (d : Device)
  | removed (i : Interface) (index : UInt32)
  | renamed (client : UInt32) (name : String)
  | defaults (sink source : String)

inductive Function where
  | query
  | channel
  | command
  | setDefaultSink
  | setDefaultSource
  | channelAck
  | removalAck
deriving DecidableEq, Repr

namespace Function

def all : List Function :=
  [.query, .channel, .command, .setDefaultSink, .setDefaultSource, .channelAck, .removalAck]

def name : Function → String
  | .query => "Mixer"
  | .channel => "MixerChannel"
  | .command => "MixerCmd"
  | .setDefaultSink => "MixerSetDefaultSink"
  | .setDefaultSource => "MixerSetDefaultSource"
  | .channelAck => "MixerChannelAck"
  | .removalAck => "MixerChannelAckRemoved"

def description : Function → String
  | .query => "Query a device property such as volume, mute, port or count"
  | .channel => "Read a property of the next channel or removal announcement"
  | .command => "Change volume or mute state, or move a client stream to another sink"
  | .setDefaultSink => "Fix the default sink, overriding the server's choice"
  | .setDefaultSource => "Fix the default source, overriding the server's choice"
  | .channelAck => "Acknowledge the front channel announcement"
  | .removalAck => "Acknowledge the front removal announcement"

/-- Only the answers to queries change under the eyes of a trigger. -/
def deterministic (f : Function) : Bool := f == .query

end Function

/-- A code of the mixers, with the number of the mixer meant, or one of the extended host. -/
inductive Extended (ε φ : Type) where
  | mixer (n : Nat) (code : ε)
  | host (code : φ)
deriving DecidableEq

inductive Kind (κ : Type) where
  | advert
  | removal
  | host (k : κ)
deriving DecidableEq

end Mixer

structure Mixer where
  tables : Mixer.Tables
  /-- Numbers of the two queues, which stay the mixer's own whatever happens to their names. -/
  adverts : Nat
  removals : Nat
  inbox : Mailbox Mixer.Event

namespace Mixer

structure State (σ : Type) where
  mixers : List Mixer
  /-- Requests not yet taken, oldest first. -/
  requests : List ServerRequest
  host : σ

def ItemOf (C : Host) : Kind C.Kind → Type
  | .advert => Advert
  | .removal => Removal
  | .host k => C.Item k

@[reducible]
def entityOf (C : Host) : (k : Kind C.Kind) → Entity (ItemOf C k)
  | .advert => inferInstanceAs (Entity Advert)
  | .removal => inferInstanceAs (Entity Removal)
  | .host k => C.entity k

/-- The host together with any number of mixers. -/
def extend (C : Host) : Host where
  Function := Extended Function C.Function
  Listener := C.Listener
  Task := C.Task
  Source := Extended Unit C.Source
  Kind := Kind C.Kind
  Item := ItemOf C
  State := State C.State
  decFunction := inferInstance
  decKind := inferInstance
  entity := entityOf C

variable {C : Host}

def ask (r : Request (extend C)) : Action (extend C) r.Reply := Action.ask r

def advertQueue (m : Mixer) : QueueRef (extend C) := ⟨.advert, m.adverts⟩

def removalQueue (m : Mixer) : QueueRef (extend C) := ⟨.removal, m.removals⟩

/-- The mixer with the number, if there is one. -/
def mixer? (n : Nat) : Action (extend C) (Option Mixer) := do
  let s : State C.State ← Action.hostState
  return s.mixers[n]?

def modifyState (f : State C.State → State C.State) : Action (extend C) Unit :=
  Action.modifyHost f

def updateMixer (n : Nat) (f : Mixer → Mixer) : Action (extend C) Unit :=
  modifyState fun s => { s with mixers := s.mixers.modify n f }

def setTables (n : Nat) (tables : Tables) : Action (extend C) Unit :=
  updateMixer n fun m => { m with tables }

/-- Tells all who depend on what queries answer that the tables changed. -/
def announceChange : Action (extend C) Unit := ask (.fire "Mixer")

def setDefault (n : Nat) (i : Interface) (name : String) : Action (extend C) Unit := do
  match ← mixer? n with
  | none => pure ()
  | some m =>
    let (changed, tables) := m.tables.setDefault i name true
    setTables n tables
    if changed then announceChange

def advertise (m : Mixer) (i : Interface) (d : Device) : Action (extend C) Unit :=
  d.channels.zipIdx.forM fun (c, number) =>
    ask (.append (advertQueue m) (⟨i, number, c.position, i.identifier d.index⟩ : Advert))

/-- Applies one event of the server. A device is new if its index is not in the table. -/
def apply (n : Nat) (event : Event) : Action (extend C) Unit := do
  match ← mixer? n with
  | none => pure ()
  | some m =>
    match event with
    | .updated i d =>
      setTables n (m.tables.update i d)
      announceChange
      -- In the table as it was before the update.
      if ((m.tables.get i).get? d.index).isNone then advertise m i d
    | .removed i index =>
      if ((m.tables.get i).get? index).isSome then
        setTables n (m.tables.remove i index)
        -- Those who wait for the removal are called before the answers in store are dropped.
        ask (.append (removalQueue m) (⟨i.identifier index⟩ : Removal))
        announceChange
    | .renamed client name =>
      let (changed, tables) := m.tables.rename client name
      setTables n tables
      if changed then announceChange
    | .defaults sink source =>
      let (changed, tables) := m.tables.setServerDefaults sink source
      setTables n tables
      if changed then announceChange

/-- Applies the events that are in the inbox now, and counts them. -/
def pump (n : Nat) : Action (extend C) Nat := do
  match ← mixer? n with
  | none => return 0
  | some m =>
    let (events, inbox) := m.inbox.drain
    updateMixer n fun m => { m with inbox }
    events.forM (apply n)
    return events.length

def send (n : Nat) (event : Event) : Action (extend C) Unit :=
  updateMixer n fun m => { m with inbox := m.inbox.send event }

def query (n : Nat) (question : String) (address : Option String) : Action (extend C) Value := do
  match ← mixer? n with
  | none => return .unset
  | some m => return m.tables.query question address

/-- A property of the front channel announcement, or else of the front removal. -/
def channelProperty (n : Nat) (name : String) : Action (extend C) Value := do
  match ← mixer? n with
  | none => return .unset
  | some m =>
    let e ← Action.engine
    let property (q : QueueRef (extend C)) :=
      (e.queues.at? q).bind fun found => found.property? name
    return .ofText? ((property (advertQueue m)).or (property (removalQueue m)))

def command (n : Nat) (text : String) (address : Option String) : Action (extend C) Unit := do
  match ← mixer? n with
  | none => pure ()
  | some m =>
    match m.tables.command text address with
    | none => pure ()
    | some r => modifyState fun s => { s with requests := s.requests ++ [r] }

/-- Drops the front announcement and, if announcements remain, fires the trigger of the queue. -/
def acknowledge (q : QueueRef (extend C)) : Action (extend C) Unit := do
  match ← ask (.take q) with
  | none => pure ()
  | some _ =>
    match (← Action.engine).queues.at? q with
    | none => pure ()
    | some rest => if rest.isEmpty then pure () else ask (.fire rest.trigger)

/-- A native of a mixer. Without a text as first argument nothing is done. -/
def call (n : Nat) (f : Function) (args : List Value) : Action (extend C) Value := do
  let text (i : Nat) := args[i]?.bind Value.text?
  match f, text 0 with
  | .query, some question => query n question (text 1)
  | .channel, some name => channelProperty n name
  | .command, some order =>
    command n order (text 1)
    return .unset
  | .setDefaultSink, some name =>
    setDefault n .sink name
    return .unset
  | .setDefaultSource, some name =>
    setDefault n .source name
    return .unset
  | .channelAck, _ =>
    if let some m ← mixer? n then acknowledge (advertQueue m)
    return .unset
  | .removalAck, _ =>
    if let some m ← mixer? n then acknowledge (removalQueue m)
    return .unset
  | _, none => return .unset

def registerAll (n : Nat) : List Function → Action (extend C) Unit
  | [] => pure ()
  | f :: rest => do
    ask (.registerNative f.name (.mixer n f) f.deterministic)
    registerAll n rest

/-- Adds a mixer with its queues, natives and source to the engine, and gives its number. -/
def install : Action (extend C) (Except (QueueError (Kind C.Kind)) Nat) := do
  match ← ask (.openQueue "mixer_channel" "mixer_channel" .advert) with
  | .error e => return .error e
  | .ok adverts =>
    match ← ask (.openQueue "mixer_removed" "mixer_removed" .removal) with
    | .error e => return .error e
    | .ok removals =>
      let s : State C.State ← Action.hostState
      let n := s.mixers.length
      let m : Mixer := ⟨.empty, adverts.number, removals.number, .empty⟩
      modifyState fun s => { s with mixers := s.mixers ++ [m] }
      registerAll n Function.all
      ask (.addSource (.mixer n ()))
      return .ok n

/-- Hands over the requests made so far. -/
def takeRequests : Action (extend C) (List ServerRequest) := do
  let s : State C.State ← Action.hostState
  modifyState fun s => { s with requests := [] }
  return s.requests

/-- The script of the extended host, given what the codes of the host itself stand for. -/
def script (own : Script C (extend C)) : Script (extend C) (extend C) where
  native f args c :=
    match f with
    | .mixer n f => call n f args
    | .host f => own.native f args c
  listener := own.listener
  task := own.task
  pump s :=
    match s with
    | .mixer n _ => pump n
    | .host s => own.pump s

def describe (m : Mixer) (e : Engine (extend C)) : String :=
  let count (q : QueueRef (extend C)) := toString (((e.queues.at? q).map Queue.size).getD 0)
  Text.openRecord "MixerModule"
    [("tables", m.tables.describe), ("channels", count (advertQueue m)),
      ("removals", count (removalQueue m))]

end Mixer

end LiveExpr
