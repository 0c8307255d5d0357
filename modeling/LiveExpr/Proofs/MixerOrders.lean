import LiveExpr.Mixer.Question

/-!
What a command asks of the device that its address stands for. Any request is for that
device. If the address picks out one channel, the volumes of the others are as they were.
Only a stream that some program owns is moved, and only to a sink that is known.
-/
namespace LiveExpr.Mixer

/-- The part of an address before the first colon. -/
def devicePart (address : String) : String :=
  match Text.splitFirst? ':' address.toList with
  | none => address
  | some (device, _) => String.ofList device

/-- The number of the channel behind the colon. -/
def Device.channelAt (d : Device) (address : String) : Nat :=
  match Text.splitFirst? ':' address.toList with
  | none => 0
  | some (_, position) => (d.channelNumber? (String.ofList position)).getD 0

namespace DeviceTable

variable {t : DeviceTable} {d : Device}

theorem resolve_some (t : DeviceTable) (address : String) :
    t.resolve (some address) =
      (t.locate (devicePart address)).map fun d => (d, d.channelAt address) := by
  unfold DeviceTable.resolve devicePart Device.channelAt
  dsimp only
  cases Text.splitFirst? ':' address.toList with
  | none => rfl
  | some parts =>
    dsimp only
    cases t.locate (String.ofList parts.1) <;> rfl

theorem mem_of_named? {name : String} (h : t.named? name = some d) : d ∈ t.devices :=
  List.mem_of_find?_eq_some h

theorem mem_of_locate {address : String} (h : t.locate address = some d) : d ∈ t.devices := by
  unfold locate at h
  split at h
  · obtain ⟨⟨_, numeral⟩, -, h⟩ := Option.bind_eq_some_iff.mp h
    obtain ⟨index, -, h⟩ := Option.bind_eq_some_iff.mp h
    exact List.mem_of_find?_eq_some h
  · exact mem_of_named? h

/-- Only devices of the table are resolved. -/
theorem mem_of_resolve {address : Option String} {channel : Nat}
    (h : t.resolve address = some (d, channel)) : d ∈ t.devices := by
  cases address with
  | none =>
    obtain ⟨found, hfound, heq⟩ := Option.bind_eq_some_iff.mp h
    cases heq
    obtain ⟨name, -, hnamed⟩ := Option.bind_eq_some_iff.mp hfound
    exact mem_of_named? hnamed
  | some text =>
    rw [resolve_some] at h
    obtain ⟨found, hfound, heq⟩ := Option.map_eq_some_iff.mp h
    cases heq
    exact mem_of_locate hfound

end DeviceTable

namespace Device

variable {d : Device} {n : Nat} {volumes : List Float}

/-- The volumes are one for each channel. If the number is that of a channel, the volumes of the
others are those that they have. -/
structure Volumes (d : Device) (n : Nat) (volumes : List Float) : Prop where
  length : volumes.length = d.channels.length
  others : ∀ k, n = k + 1 → k < d.channels.length ∧
    ∀ j, j ≠ k → volumes[j]? = d.channels[j]?.map ChannelVolume.volume

theorem shift_volumes {delta : Float} (h : d.shift n delta = some volumes) :
    d.Volumes n volumes := by
  unfold shift at h
  dsimp only at h
  cases n with
  | zero =>
    refine ⟨?_, nofun⟩
    dsimp only at h
    split at h
    · cases h
      simp
    · cases h
      simp
  | succ k =>
    obtain ⟨v, hv, rfl⟩ := Option.map_eq_some_iff.mp h
    refine ⟨by simp, ?_⟩
    rintro _ ⟨⟩
    obtain ⟨hk, -⟩ := List.getElem?_eq_some_iff.mp hv
    refine ⟨by simpa using hk, fun j hj => ?_⟩
    rw [List.getElem?_set_ne (Ne.symm hj), List.getElem?_map]

theorem adjust_volumes {arg : String} (h : d.adjust n arg = some volumes) :
    d.Volumes n volumes := by
  unfold adjust at h
  dsimp only at h
  obtain ⟨amount, -, h⟩ := Option.bind_eq_some_iff.mp h
  split at h
  · exact shift_volumes h
  · cases h

end Device

/-- What the request asks for is done to the device. -/
def ServerRequest.On (i : Interface) (index : UInt32) : ServerRequest → Prop
  | .setVolume j k _ => j = i ∧ k = index
  | .setMute j k _ => j = i ∧ k = index
  | .moveClient stream _ => i = .client ∧ stream = index

/-- What may be asked for a device of the interface, when the address stands for the channel with
the number, zero being the whole device. -/
def ServerRequest.Fits (t : Tables) (i : Interface) (d : Device) (channel : Nat) :
    ServerRequest → Prop
  | .setVolume j index volumes => j = i ∧ index = d.index ∧ d.Volumes channel volumes
  | .setMute j index _ => j = i ∧ index = d.index
  | .moveClient stream index =>
    i = .client ∧ stream = d.index ∧ d.client.isSome ∧ ∃ s ∈ t.sink.devices, s.index = index

theorem ServerRequest.Fits.on {t : Tables} {i : Interface} {d : Device} {channel : Nat}
    {r : ServerRequest} (h : r.Fits t i d channel) : r.On i d.index := by
  cases r with
  | setVolume j index volumes => exact ⟨h.1, h.2.1⟩
  | setMute j index mute => exact h
  | moveClient stream index => exact ⟨h.1, h.2.1⟩

namespace Tables

variable {t : Tables} {i : Interface} {d : Device} {r : ServerRequest}

theorem order_volume {verb arg : String}
    (h : Text.dropLeadIgnoringCase? verb "volume" = some arg) (d : Device) (channel : Nat) :
    t.order i d channel verb =
      (d.adjust channel arg).map fun volumes => .setVolume i d.index volumes := by
  unfold Tables.order
  rw [h]

theorem move_fits {sink : String} (h : t.move i d sink = some r) (channel : Nat) :
    r.Fits t i d channel := by
  unfold Tables.move at h
  split at h
  · rename_i client hclient
    obtain ⟨⟨s, _⟩, hs, rfl⟩ := Option.map_eq_some_iff.mp h
    exact ⟨rfl, rfl, hclient ▸ rfl, s, DeviceTable.mem_of_resolve hs, rfl⟩
  · cases h

theorem order_fits {channel : Nat} {verb : String} (h : t.order i d channel verb = some r) :
    r.Fits t i d channel := by
  unfold Tables.order at h
  split at h
  · obtain ⟨volumes, hvolumes, rfl⟩ := Option.map_eq_some_iff.mp h
    exact ⟨rfl, rfl, Device.adjust_volumes hvolumes⟩
  · split at h
    · cases h
      exact ⟨rfl, rfl⟩
    · obtain ⟨sink, -, hmove⟩ := Option.bind_eq_some_iff.mp h
      exact move_fits hmove channel

theorem command_of_split {order verb : String} (h : Interface.split? order = some (i, verb))
    (address : Option String) :
    t.command order address =
      ((t.get i).resolve address).bind fun found => t.order i found.1 found.2 verb := by
  unfold Tables.command
  rw [h]
  rfl

end Tables

end LiveExpr.Mixer
