import LiveExpr.Proofs.MixerAddresses
import LiveExpr.Proofs.MixerHistories

/-!
What is announced can be addressed. The items of a mixer's queues name a device by its
identifier. As long as the device is in the table of its interface, this text stands for it
in queries and commands, and with the position of a channel behind a colon it stands for the
last channel there, if there is one. For that the identifier has to be read back from what
was written, its index has to be that of no other device, and the first colon must be the one
before the position.
-/
namespace LiveExpr

namespace Identifier

/-- Neither the words of an interface nor numerals have a colon. -/
theorem colon_notMem_render (i : Mixer.Interface) (index : UInt32) :
    ':' ∉ (i.identifier index).render.toList := by
  have hdigits : ':' ∉ Number.decimalText index.toNat := fun hmem =>
    absurd (Nat.isDigit_of_mem_toDigits (by decide) (by decide) hmem) (by decide)
  have hword : ':' ∉ i.word.toList := by
    cases i <;> decide
  have htag : ':' ∉ Mixer.tag.toList := by
    decide
  rw [toList_render]
  simp [spell, Mixer.Interface.identifier, hdigits, hword, htag]

end Identifier

namespace Mixer

variable {i : Interface} {d : Device} {index : UInt32}

theorem wellFormed_identifier (i : Interface) (index : UInt32) :
    (i.identifier index).WellFormed where
  tag := by
    show Mixer.tag ≠ ""
    decide
  dashless := by
    show '-' ∉ Mixer.tag.toList
    decide
  kind := by
    show i.word ≠ ""
    cases i <;> decide

theorem hasTag_identifier (i : Interface) (index : UInt32) :
    Identifier.hasTag (i.identifier index).render tag = true :=
  Identifier.hasTag_iff.mpr ⟨_, (i.identifier index).toList_render⟩

section Address

variable {text position : String}

/-- A text without a colon names the device as a whole. -/
theorem devicePart_of_notMem (h : ':' ∉ text.toList) (d : Device) :
    devicePart text = text ∧ d.channelAt text = 0 := by
  have hsplit : Text.splitFirst? ':' text.toList = none := by
    refine Option.eq_none_iff_forall_ne_some.mpr fun parts hparts => ?_
    obtain ⟨hcs, -⟩ := Text.splitFirst?_eq_some_iff.mp hparts
    exact h (by rw [hcs]; simp)
  unfold devicePart Device.channelAt
  rw [hsplit]
  exact ⟨rfl, rfl⟩

/-- The position is all that follows the first colon, whatever it consists of. -/
theorem devicePart_of_position (h : ':' ∉ text.toList) (position : String) (d : Device) :
    devicePart (text ++ ":" ++ position) = text ∧
      d.channelAt (text ++ ":" ++ position) = (d.channelNumber? position).getD 0 := by
  have hsplit : Text.splitFirst? ':' (text ++ ":" ++ position).toList =
      some (text.toList, position.toList) :=
    Text.splitFirst?_eq_some_iff.mpr ⟨by simp, h⟩
  unfold devicePart Device.channelAt
  rw [hsplit]
  simp only [String.ofList_toList, and_self]

end Address

/-- What is announced of a device to say which one it is. -/
def Interface.address (i : Interface) (d : Device) : String := (i.identifier d.index).render

theorem DeviceTable.resolve_address {t : DeviceTable} (ht : t.indices.Nodup)
    (hd : d ∈ t.devices) {address : String}
    (h : devicePart address = i.address d) :
    t.resolve (some address) = some (d, d.channelAt address) := by
  have hindex : Identifier.lastIndex? (i.identifier d.index).render = some d.index :=
    Identifier.lastIndex?_of_parse (Identifier.parse_render (wellFormed_identifier i d.index))
  have hfound : t.get? d.index = some d := (DeviceTable.get?_eq_some_iff ht).mpr ⟨hd, rfl⟩
  rw [DeviceTable.resolve_some, h, Interface.address,
    DeviceTable.locate_of_hasTag _ (hasTag_identifier i d.index), hindex, Option.bind_some, hfound,
    Option.map_some]

variable {C : Host} {call : Callbacks (extend C)} {e : Engine (extend C)} {n : Nat} {m : Mixer}

/-- The address stands for the device and the number of a channel, zero being the whole device.
Queries are answered for these, and what a command asks for is what it asks of them: the request
names the device and changes the volume of no channel but the one that is meant. -/
structure Resolves (call : Callbacks (extend C)) (e : Engine (extend C)) (n : Nat) (m : Mixer)
    (i : Interface) (address : String) (d : Device) (channel : Nat) : Prop where
  found : (m.tables.get i).resolve (some address) = some (d, channel)
  query : ∀ question property, Interface.split? question = some (i, property) →
    Text.sameIgnoringCase property "count" = false →
    ((query n question (some address)).run call).run e = some (d.property channel property, e)
  command : ∀ order verb, Interface.split? order = some (i, verb) →
    ((command n order (some address)).run call).run e =
      some ((), { e with
        host := State.requesting e.host (m.tables.order i d channel verb) })
  asked : ∀ verb, ∀ r ∈ m.tables.order i d channel verb, r.Fits m.tables i d channel

theorem resolves_of_resolve (hm : (e.host.mixers : List Mixer)[n]? = some m) {address : String}
    {channel : Nat} (h : (m.tables.get i).resolve (some address) = some (d, channel)) :
    Resolves call e n m i address d channel where
  found := h
  query question property hq hcount := by
    rw [query_run_of_mixer hm]
    unfold Tables.query
    rw [hq]
    dsimp only
    rw [hcount, h]
    rfl
  command order verb ho := by
    rw [command_run hm, Tables.command_of_split ho, h, Option.bind_some]
  asked _ _ hr := Tables.order_fits hr

/-- The question for the volume on an interface. -/
theorem split?_volume (i : Interface) :
    Interface.split? (i.word ++ "-volume") = some (i, "volume") := by
  cases i <;> decide

theorem property_volume {k : Nat} {c : ChannelVolume} (h : d.channels[k]? = some c) :
    d.property (k + 1) "volume" = .number c.volume := by
  have hlower : Text.lowercase "volume" = "volume" := by
    decide
  unfold Device.property
  rw [hlower]
  dsimp only [Device.volumeAt, Device.channel?]
  rw [h]
  rfl

/-- Whatever has been announced of a device that is there still, its address stands for it, and
followed by a position for the last of its channels there. -/
theorem announced_address_resolves (call : Callbacks (extend C)) (he : Reachable e)
    (hm : (e.host.mixers : List Mixer)[n]? = some m) (hd : d ∈ (m.tables.get i).devices) :
    (∀ number channel, (⟨i, number, channel, i.identifier d.index⟩ : Advert).property "device" =
      some (i.address d)) ∧
    Entity.property (⟨i.identifier d.index⟩ : Removal) "RemovedDevice" = some (i.address d) ∧
    Resolves call e n m i (i.address d) d 0 ∧
    ∀ position : String,
      (Resolves call e n m i (i.address d ++ ":" ++ position) d 0 ∧
        ∀ c ∈ d.channels, Text.sameIgnoringCase c.position position = false) ∨
      ∃ k c, d.LastAt position k c ∧
        Resolves call e n m i (i.address d ++ ":" ++ position) d (k + 1) ∧
        ((query n (i.word ++ "-volume") (some (i.address d ++ ":" ++ position))).run call).run e =
          some (.number c.volume, e) := by
  have hcolon : ':' ∉ (i.address d).toList := Identifier.colon_notMem_render i d.index
  have hresolve {address : String} (h : devicePart address = i.address d) :
      (m.tables.get i).resolve (some address) = some (d, d.channelAt address) :=
    DeviceTable.resolve_address (he.distinct hm i) hd h
  refine ⟨fun _ _ => rfl, rfl, resolves_of_resolve hm ?_, fun position => ?_⟩
  · obtain ⟨hpart, hchannel⟩ := devicePart_of_notMem hcolon d
    rw [hresolve hpart, hchannel]
  · obtain ⟨hpart, hchannel⟩ := devicePart_of_position hcolon position d
    have hfound := hresolve hpart
    rw [hchannel] at hfound
    rcases d.channelNumber?_cases position with ⟨hnone, hall⟩ | ⟨k, c, hnumber, hlast⟩
    · rw [hnone] at hfound
      exact Or.inl ⟨resolves_of_resolve hm hfound, hall⟩
    · rw [hnumber] at hfound
      have hresolves : Resolves call e n m i _ d (k + 1) := resolves_of_resolve hm hfound
      refine Or.inr ⟨k, c, hlast, hresolves, ?_⟩
      rw [hresolves.query _ "volume" (split?_volume i) (by decide), property_volume hlast.channel]

end Mixer

namespace Bare

open Mixer

/-- A sink with two channels at one position and one at a position with a colon and a dash. -/
def headset (left rear right : Float) : Device :=
  { speakers with
    index := 4294967295
    channels := [⟨"front-left", left⟩, ⟨"rear:b-c", rear⟩, ⟨"Front-Left", right⟩] }

def unequipped : Engine (extend Bare) := .create .standard (⟨[], [], ()⟩ : State Unit)

section Equipped

variable (left rear right : Float)

def announcing : Action (extend Bare) Nat := do
  let _ ← install
  send 0 (.updated .sink (headset left rear right))
  pump 0

def equipped : Engine (extend Bare) :=
  (((announcing left rear right).run (script.callbacks 4 2)).run unequipped).elim unequipped
    Prod.snd

theorem confined_own :
    (⟨nofun, nofun, nofun, nofun⟩ : Script Bare (extend Bare)).ConfinedTo State.Alters :=
  ⟨nofun, nofun, nofun, nofun⟩

theorem reachable_equipped : Reachable (equipped left rear right) := by
  have hended :
      (((announcing left rear right).run (script.callbacks 4 2)).run unequipped).isSome := by
    cbv
  obtain ⟨⟨count, e⟩, hrun⟩ := Option.isSome_iff_exists.mp hended
  have heq : equipped left rear right = e := by
    unfold equipped
    rw [hrun]
    rfl
  rw [heq]
  have hfresh : Reachable unequipped := reachable_create ..
  refine hfresh.action confined_own ?_ hrun
  exact discreet_install.bind fun _ _ => (discreet_send 0 _).bind fun _ _ => discreet_pump 0

theorem mixers_equipped : ((equipped left rear right).host.mixers : List Mixer)[0]? =
    some ⟨Tables.empty.update .sink (headset left rear right), 0, 1, .empty⟩ := by
  cbv

end Equipped

theorem lastAt_front (left rear right : Float) :
    (headset left rear right).LastAt "FRONT-LEFT" 2 ⟨"Front-Left", right⟩ := by
  have hsame : Text.sameIgnoringCase "Front-Left" "FRONT-LEFT" = true := by
    decide
  refine ⟨rfl, hsame, fun j c hj hc => ?_⟩
  obtain ⟨hlength, -⟩ := List.getElem?_eq_some_iff.mp hc
  exact absurd hlength (Nat.not_lt.mpr hj)

theorem lastAt_rear (left rear right : Float) :
    (headset left rear right).LastAt "rear:b-c" 1 ⟨"rear:b-c", rear⟩ := by
  have hsame : Text.sameIgnoringCase "rear:b-c" "rear:b-c" = true := by
    decide
  have hother : Text.sameIgnoringCase "Front-Left" "rear:b-c" = false := by
    decide
  refine ⟨rfl, hsame, fun j c hj hc => ?_⟩
  obtain rfl : j = 2 := by
    obtain ⟨hlength, -⟩ := List.getElem?_eq_some_iff.mp hc
    exact Nat.le_antisymm (Nat.le_of_lt_succ hlength) hj
  cases hc
  exact hother

theorem split?_louder : Interface.split? "sink-volume +5" = some (.sink, "volume +5") := by
  decide

theorem order_louder {t : Tables} {i : Interface} {d : Device} {channel : Nat}
    {volumes : List Float} (h : d.adjust channel " +5" = some volumes) :
    t.order i d channel "volume +5" = some (.setVolume i d.index volumes) := by
  have hverb : Text.dropLeadIgnoringCase? "volume +5" "volume" = some " +5" := by
    decide
  rw [Tables.order_volume hverb, h]
  rfl

/-- The address has the greatest index there is. Of two channels at one position the second counts,
and a command for one channel leaves the volumes of the others. -/
theorem announced_address_resolves_headset :
    let d := headset 40.0 60.0 55.0
    let e := equipped 40.0 60.0 55.0
    d ∈ ((Tables.empty.update .sink d).get .sink).devices ∧
      Resolves (script.callbacks 4 2) e 0 ⟨Tables.empty.update .sink d, 0, 1, .empty⟩ .sink
        "@mixer-sink-4294967295" d 0 ∧
      ((Mixer.query 0 "sink-volume" (some "@mixer-sink-4294967295:FRONT-LEFT")).run
        (script.callbacks 4 2)).run e = some (.number 55.0, e) ∧
      ((Mixer.query 0 "sink-volume" (some "@mixer-sink-4294967295:rear:b-c")).run
        (script.callbacks 4 2)).run e = some (.number 60.0, e) ∧
      ((Mixer.command 0 "sink-volume +5" (some "@mixer-sink-4294967295")).run
        (script.callbacks 4 2)).run e = some ((), { e with
          host := State.requesting e.host
            (some (.setVolume .sink 4294967295 [45.0, 65.0, 60.0])) }) ∧
      ((Mixer.command 0 "sink-volume +5" (some "@mixer-sink-4294967295:rear:b-c")).run
        (script.callbacks 4 2)).run e = some ((), { e with
          host := State.requesting e.host
            (some (.setVolume .sink 4294967295 [40.0, 65.0, 55.0])) }) := by
  intro d e
  have hd : d ∈ ((Tables.empty.update .sink d).get .sink).devices := List.mem_cons_self
  have haddress : Interface.sink.address d = "@mixer-sink-4294967295" := by
    decide
  obtain ⟨-, -, hwhole, hpositions⟩ := announced_address_resolves (script.callbacks 4 2)
    (reachable_equipped 40.0 60.0 55.0) (mixers_equipped 40.0 60.0 55.0) hd
  rw [haddress] at hwhole hpositions
  have hat (position : String) {k : Nat} {c : ChannelVolume} (hc : d.LastAt position k c) :
      Resolves (script.callbacks 4 2) e 0 ⟨Tables.empty.update .sink d, 0, 1, .empty⟩ .sink
          ("@mixer-sink-4294967295" ++ ":" ++ position) d (k + 1) ∧
        ((Mixer.query 0 "sink-volume" (some ("@mixer-sink-4294967295" ++ ":" ++ position))).run
          (script.callbacks 4 2)).run e = some (.number c.volume, e) := by
    rcases hpositions position with ⟨-, hnone⟩ | ⟨_, _, hlast, hchannel, hanswer⟩
    · exact absurd hc.same (Bool.eq_false_iff.mp (hnone c (List.mem_of_getElem? hc.channel)))
    · obtain ⟨rfl, rfl⟩ := hlast.unique hc
      exact ⟨hchannel, hanswer⟩
  obtain ⟨-, hfront⟩ := hat _ (lastAt_front 40.0 60.0 55.0)
  obtain ⟨hrear, hvolume⟩ := hat _ (lastAt_rear 40.0 60.0 55.0)
  have hall : d.adjust 0 " +5" = some [45.0, 65.0, 60.0] := by
    decide +kernel
  have hone : d.adjust 2 " +5" = some [40.0, 65.0, 55.0] := by
    decide +kernel
  have hleft : "@mixer-sink-4294967295:FRONT-LEFT" =
      "@mixer-sink-4294967295" ++ ":" ++ "FRONT-LEFT" := by
    decide
  have hright : "@mixer-sink-4294967295:rear:b-c" =
      "@mixer-sink-4294967295" ++ ":" ++ "rear:b-c" := by
    decide
  rw [hleft, hright]
  refine ⟨hd, hwhole, hfront, hvolume, ?_, ?_⟩
  · rw [hwhole.command _ _ split?_louder, order_louder hall]
    rfl
  · rw [hrear.command _ _ split?_louder, order_louder hone]
    rfl

end Bare

end LiveExpr
