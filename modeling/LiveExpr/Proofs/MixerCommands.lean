import LiveExpr.Proofs.AnnouncedDevices

/-!
What a command can ask of the sound server. Whatever its text is, it comes to one request at
most, and that is for a device that is in the table of the command's interface: the one that
the address stands for, or the default device. New volumes are as many as there are channels,
and if the address picks out one channel the others are as they were. Only a stream that some
program owns is moved, and only to a sink that is known.
-/
namespace LiveExpr

namespace Mixer

namespace Tables

variable {t : Tables} {r : ServerRequest}

theorem command_fits {order : String} {address : Option String}
    (h : t.command order address = some r) :
    ∃ i verb d channel, Interface.split? order = some (i, verb) ∧
      (t.get i).resolve address = some (d, channel) ∧ r.Fits t i d channel := by
  obtain ⟨⟨i, verb⟩, hsplit, h⟩ := Option.bind_eq_some_iff.mp h
  obtain ⟨⟨d, channel⟩, hresolve, horder⟩ := Option.bind_eq_some_iff.mp h
  exact ⟨i, verb, d, channel, hsplit, hresolve, order_fits horder⟩

end Tables

variable {C : Host} {e : Engine (extend C)} {n : Nat} {m : Mixer}

/-- All that a command does is to make one request or none, for a device that is the one with its
index in the table of the interface. Tables, defaults and queues stay as they are, and there is no
fire. -/
theorem command_asks_of_known_device (call : Callbacks (extend C)) (he : Reachable e)
    (hm : (e.host.mixers : List Mixer)[n]? = some m) (order : String) (address : Option String) :
    ((command n order address).run call).run e =
        some ((), { e with host := State.requesting e.host (m.tables.command order address) }) ∧
      ∀ r ∈ m.tables.command order address, ∃ i verb d channel,
        Interface.split? order = some (i, verb) ∧
        (m.tables.get i).resolve address = some (d, channel) ∧
        (m.tables.get i).get? d.index = some d ∧ r.Fits m.tables i d channel := by
  refine ⟨command_run hm order address, fun r hr => ?_⟩
  obtain ⟨i, verb, d, channel, hsplit, hresolve, hfits⟩ := Tables.command_fits hr
  have hknown : (m.tables.get i).get? d.index = some d :=
    (DeviceTable.get?_eq_some_iff (he.distinct hm i)).mpr
      ⟨DeviceTable.mem_of_resolve hresolve, rfl⟩
  exact ⟨i, verb, d, channel, hsplit, hresolve, hknown, hfits⟩

end Mixer

namespace Bare

open Mixer

/-- Of three channels, the one at the address gets another volume. -/
theorem command_asks_of_known_device_headset :
    let d := headset 40.0 60.0 55.0
    let e := equipped 40.0 60.0 55.0
    ((command 0 "sink-volume +5" (some "@mixer-sink-4294967295:FRONT-LEFT")).run
        (script.callbacks 4 2)).run e =
      some ((), { e with
        host := State.requesting e.host
          (some (.setVolume .sink 4294967295 [40.0, 60.0, 60.0])) }) ∧
      d.Volumes 3 [40.0, 60.0, 60.0] := by
  intro d e
  let t := Tables.empty.update .sink d
  have hdistinct : (t.get .sink).indices.Nodup := List.nodup_singleton _
  have hd : d ∈ (t.get .sink).devices := List.mem_cons_self
  have hpart : devicePart "@mixer-sink-4294967295:FRONT-LEFT" = Interface.sink.address d := by
    decide
  have hchannel : d.channelAt "@mixer-sink-4294967295:FRONT-LEFT" = 3 := by
    decide +kernel
  have hresolve : (t.get .sink).resolve (some "@mixer-sink-4294967295:FRONT-LEFT") =
      some (d, 3) := by
    rw [DeviceTable.resolve_address hdistinct hd hpart, hchannel]
  have hadjust : d.adjust 3 " +5" = some [40.0, 60.0, 60.0] := by
    decide +kernel
  have hcommand : t.command "sink-volume +5" (some "@mixer-sink-4294967295:FRONT-LEFT") =
      some (.setVolume .sink 4294967295 [40.0, 60.0, 60.0]) := by
    rw [Tables.command_of_split split?_louder, hresolve, Option.bind_some, order_louder hadjust]
    rfl
  obtain ⟨hrun, hrequests⟩ := command_asks_of_known_device (script.callbacks 4 2)
    (reachable_equipped 40.0 60.0 55.0) (mixers_equipped 40.0 60.0 55.0) "sink-volume +5"
    (some "@mixer-sink-4294967295:FRONT-LEFT")
  obtain ⟨i, verb, d', channel, hsplit', hfound, -, -, -, hvolumes⟩ := hrequests _ hcommand
  rw [hcommand] at hrun
  obtain ⟨rfl, -⟩ := Prod.mk.inj (Option.some.inj (hsplit'.symm.trans split?_louder))
  obtain ⟨hd', hthree⟩ := Prod.mk.inj (Option.some.inj (hfound.symm.trans hresolve))
  rw [hd', hthree] at hvolumes
  exact ⟨hrun, hvolumes⟩

end Bare

end LiveExpr
