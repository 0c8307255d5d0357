import LiveExpr.Mixer.Interface
import LiveExpr.Number.Notation
import LiveExpr.Number.Reading
import LiveExpr.Text.Blank
import LiveExpr.Text.Record

/-!
A device of a mixer and the volumes of its channels, in percent. An argument for a
volume is an amount to add if it starts with a sign and the new volume otherwise.
New volumes of a whole device are held back on the side to which they move, and
the new volume of a single channel on both sides.
-/
namespace LiveExpr.Mixer

structure ChannelVolume where
  position : String
  volume : Float

structure Device where
  index : UInt32
  name : String
  description : Option String
  icon : Option String
  form : Option String
  /-- The socket or plug in use. -/
  connector : Option String
  monitor : Option String
  mute : Bool
  channels : List ChannelVolume
  /-- The program that owns a playback stream. -/
  client : Option UInt32

def loudest : Float := 150.0

/-- The smaller of two numbers. The bound also stands for what is not a number. -/
def atMost (x bound : Float) : Float := if x < bound then x else bound

def atLeast (x bound : Float) : Float := if bound < x then x else bound

def clamp (x low high : Float) : Float :=
  if x < low then low else if high < x then high else x

namespace Device

/-- The average over all channels. -/
def volume (d : Device) : Float :=
  if d.channels.isEmpty then 0.0
  else d.channels.foldl (fun sum c => sum + c.volume) (-0.0) / Float.ofNat d.channels.length

/-- Channels count from one; any other number stands for the whole device. -/
def channel? (d : Device) (n : Nat) : Option ChannelVolume :=
  match n with
  | 0 => none
  | k + 1 => d.channels[k]?

def volumeAt (d : Device) (n : Nat) : Float :=
  match d.channel? n with
  | some c => c.volume
  | none => d.volume

/-- The number of the last channel at the position. -/
def channelNumber? (d : Device) (position : String) : Option Nat :=
  let matching := d.channels.zipIdx.filter fun (c, _) => Text.sameIgnoringCase c.position position
  matching.getLast?.map fun (_, k) => k + 1

def shift (d : Device) (n : Nat) (delta : Float) : Option (List Float) :=
  let volumes := d.channels.map ChannelVolume.volume
  match n with
  | 0 =>
    if 0.0 < delta then some (volumes.map fun v => atMost (v + delta) loudest)
    else some (volumes.map fun v => atLeast (v + delta) 0.0)
  | k + 1 => volumes[k]?.map fun v => volumes.set k (clamp (v + delta) 0.0 loudest)

def isSigned (s : String) : Bool :=
  match s.toList with
  | '+' :: _ => true
  | '-' :: _ => true
  | _ => false

/-- The volumes that an argument asks for; none if it is not a finite number or there is no such
channel. -/
def adjust (d : Device) (n : Nat) (arg : String) : Option (List Float) := do
  let arg := Text.trimStart arg
  let amount ← Number.read (Text.trimEnd arg)
  if amount.isFinite then
    d.shift n (if isSigned arg then amount else amount - d.volumeAt n)
  else none

def describe (d : Device) : String :=
  let text (s : Option String) := Text.optional (s.map Text.quoted)
  let channel (c : ChannelVolume) := Text.record "ChannelVolume"
    [("position", Text.quoted c.position), ("volume", Number.inspected c.volume)]
  Text.record "Device"
    [("index", toString d.index), ("name", Text.quoted d.name),
      ("description", text d.description), ("icon", text d.icon), ("form", text d.form),
      ("port", text d.connector), ("monitor", text d.monitor), ("mute", toString d.mute),
      ("channels", Text.listed (d.channels.map channel)),
      ("client", Text.optional (d.client.map toString))]

end Device

/-- Whether a device is mute after a command; a word that is none of the three changes nothing. -/
def readMute (arg : String) (current : Bool) : Bool :=
  let word := Text.lowercase (Text.trim arg)
  if word == "toggle" then !current
  else if word == "true" then true
  else if word == "false" then false
  else current

end LiveExpr.Mixer
