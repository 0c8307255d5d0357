import LiveExpr.Mixer.Tables
import LiveExpr.Value

/-!
Queries and commands. Both start with an interface. A query names a property of a
device; a command asks for at most one request to the sound server, and for none
if anything about it is unknown or out of place.
-/
namespace LiveExpr.Mixer

/-- What the mixer asks of the sound server. -/
inductive ServerRequest where
  | setVolume (i : Interface) (index : UInt32) (volumes : List Float)
  | setMute (i : Interface) (index : UInt32) (mute : Bool)
  | moveClient (stream sink : UInt32)

def textOrEmpty (s : Option String) : Value := .text (s.getD "")

/-- A property of the device, read for one channel if the number is not zero. -/
def Device.property (d : Device) (channel : Nat) (name : String) : Value :=
  match Text.lowercase name with
  | "volume" => .number (d.volumeAt channel)
  | "mute" => .boolean d.mute
  | "icon" => textOrEmpty d.icon
  | "form" => textOrEmpty d.form
  | "port" => textOrEmpty d.connector
  | "monitor" => textOrEmpty d.monitor
  | "description" => textOrEmpty d.description
  | _ => .text ("invalid query: " ++ name)

namespace Tables

def query (t : Tables) (question : String) (address : Option String) : Value :=
  match Interface.split? question with
  | none => .unset
  | some (i, property) =>
    if Text.sameIgnoringCase property "count" then .number (Float.ofNat (t.get i).size)
    else
      match (t.get i).resolve address with
      | none => .unset
      | some (d, channel) => d.property channel property

/-- Only a stream that a program owns can be moved, and only to a known sink. -/
def move (t : Tables) (i : Interface) (d : Device) (sink : String) :
    Option ServerRequest :=
  match i, d.client with
  | .client, some _ =>
    (t.sink.resolve (some (Text.trimStart sink))).map fun found => .moveClient d.index found.1.index
  | _, _ => none

def order (t : Tables) (i : Interface) (d : Device) (channel : Nat) (verb : String) :
    Option ServerRequest :=
  match Text.dropLeadIgnoringCase? verb "volume" with
  | some arg => (d.adjust channel arg).map fun volumes => .setVolume i d.index volumes
  | none =>
    match Text.dropLeadIgnoringCase? verb "mute" with
    | some arg => some (.setMute i d.index (readMute arg d.mute))
    | none => (Text.dropLeadIgnoringCase? verb "set-sink").bind (t.move i d)

/-- The request that a command amounts to. -/
def command (t : Tables) (text : String) (address : Option String) : Option ServerRequest := do
  let (i, verb) ← Interface.split? text
  let (d, channel) ← (t.get i).resolve address
  t.order i d channel verb

end Tables

end LiveExpr.Mixer
