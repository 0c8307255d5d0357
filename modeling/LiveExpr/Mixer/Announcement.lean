import LiveExpr.Mixer.Interface
import LiveExpr.Queue
import LiveExpr.Text.Caseless

/-!
What a mixer announces in its two queues: each channel of a device that appears,
and each device that goes away. A channel announced again is the same entity even
if its number has changed.
-/
namespace LiveExpr.Mixer

structure Advert where
  interface : Interface
  /-- The place of the channel in its device, from zero. -/
  number : Nat
  channel : String
  device : Identifier
deriving DecidableEq

structure Removal where
  device : Identifier
deriving DecidableEq

def Advert.property (a : Advert) (name : String) : Option String :=
  match Text.lowercase name with
  | "interface" => some a.interface.word
  | "channel" => some a.channel
  | "device" => some a.device.render
  | "channelnumber" => some (toString a.number)
  | _ => none

instance : Entity Advert where
  same a b := a.channel == b.channel && a.device == b.device && a.interface == b.interface
  property := Advert.property

instance : Entity Removal where
  same a b := a == b
  property a name :=
    if Text.sameIgnoringCase name "RemovedDevice" then some a.device.render else none

end LiveExpr.Mixer
