import LiveExpr.Mixer.Device

/-!
The known devices of each interface, in the order in which their indices were
added, and the name of the default device. A default that the user fixed is no
longer changed by the server. An address names a device by identifier or by name
and may add the position of a channel after a colon.
-/
namespace LiveExpr.Mixer

structure DeviceTable where
  devices : List Device
  defaultName : Option String
  fixed : Bool

namespace DeviceTable

def empty : DeviceTable := ⟨[], none, false⟩

def get? (t : DeviceTable) (index : UInt32) : Option Device :=
  t.devices.find? fun d => d.index == index

def named? (t : DeviceTable) (name : String) : Option Device :=
  t.devices.find? fun d => d.name == name

def size (t : DeviceTable) : Nat := t.devices.length

def place : List Device → Device → List Device
  | [], d => [d]
  | e :: rest, d => if e.index = d.index then d :: rest else e :: place rest d

/-- Puts the device in the place of the one with its index, or at the end. -/
def put (t : DeviceTable) (d : Device) : DeviceTable := { t with devices := place t.devices d }

def drop : List Device → UInt32 → List Device
  | [], _ => []
  | e :: rest, index => if e.index = index then rest else e :: drop rest index

def remove (t : DeviceTable) (index : UInt32) : DeviceTable :=
  { t with devices := drop t.devices index }

/-- The flag says whether the name of the default changed. -/
def setDefault (t : DeviceTable) (name : String) (byUser : Bool) : Bool × DeviceTable :=
  if !byUser && t.fixed then (false, t)
  else (t.defaultName != some name, { t with defaultName := some name, fixed := byUser })

/-- A text with the tag of a mixer is an identifier, and only its index counts. -/
def locate (t : DeviceTable) (address : String) : Option Device :=
  if Identifier.hasTag address tag then do
    let (_, index) ← Text.splitLast? '-' address.toList
    t.get? (← Number.readIndex? index)
  else t.named? address

/-- The device at an address, or else the default device, and the number of the channel; zero
stands for the whole device. -/
def resolve (t : DeviceTable) (address : Option String) : Option (Device × Nat) :=
  match address with
  | none => do
    let d ← t.defaultName.bind t.named?
    some (d, 0)
  | some text =>
    match Text.splitFirst? ':' text.toList with
    | none => (t.locate text).map fun d => (d, 0)
    | some (device, position) => do
      let d ← t.locate (String.ofList device)
      some (d, (d.channelNumber? (String.ofList position)).getD 0)

def describe (t : DeviceTable) : String :=
  Text.record "DeviceTable"
    [("devices", Text.listed (t.devices.map Device.describe)),
      ("default_name", Text.optional (t.defaultName.map Text.quoted)),
      ("fixed", toString t.fixed)]

end DeviceTable

structure Tables where
  sink : DeviceTable
  source : DeviceTable
  client : DeviceTable

namespace Tables

def empty : Tables := ⟨.empty, .empty, .empty⟩

def get (t : Tables) : Interface → DeviceTable
  | .sink => t.sink
  | .source => t.source
  | .client => t.client

def set (t : Tables) (i : Interface) (table : DeviceTable) : Tables :=
  match i with
  | .sink => { t with sink := table }
  | .source => { t with source := table }
  | .client => { t with client := table }

/-- The name of a stream's program is told separately, so an update without one keeps the old. -/
def keepDescription (t : Tables) (i : Interface) (d : Device) : Device :=
  if i = .client ∧ d.description = none then
    { d with description := ((t.get i).get? d.index).bind Device.description }
  else d

def update (t : Tables) (i : Interface) (d : Device) : Tables :=
  t.set i ((t.get i).put (t.keepDescription i d))

def remove (t : Tables) (i : Interface) (index : UInt32) : Tables :=
  t.set i ((t.get i).remove index)

def needsName (d : Device) (client : UInt32) (name : String) : Bool :=
  d.client == some client && d.description != some name

/-- Gives the name to all streams of the client; the flag says whether one had another. -/
def rename (t : Tables) (client : UInt32) (name : String) : Bool × Tables :=
  let renamed := t.client.devices.map fun d =>
    if needsName d client name then { d with description := some name } else d
  (t.client.devices.any fun d => needsName d client name,
    { t with client := { t.client with devices := renamed } })

def setDefault (t : Tables) (i : Interface) (name : String) (byUser : Bool) : Bool × Tables :=
  let (changed, table) := (t.get i).setDefault name byUser
  (changed, t.set i table)

/-- Takes over the defaults of the server; the flag says whether one of them changed. -/
def setServerDefaults (t : Tables) (sink source : String) : Bool × Tables :=
  let (sinkChanged, t) := t.setDefault .sink sink false
  let (sourceChanged, t) := t.setDefault .source source false
  (sinkChanged || sourceChanged, t)

def describe (t : Tables) : String :=
  Text.wrapped "Tables"
    (Text.listed [t.sink.describe, t.source.describe, t.client.describe])

end Tables

end LiveExpr.Mixer
