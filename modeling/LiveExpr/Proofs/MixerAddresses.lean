import LiveExpr.Proofs.Identifiers
import LiveExpr.Proofs.MixerListeners
import LiveExpr.Proofs.MixerOrders

/-!
Which device an address stands for that is an identifier by its tag. A query and a command
look it up in the table of the interface they start with, and of the address they take the
number behind the last dash alone. So an identifier of the same interface stands for its
own device or for none. But one of another interface, and a text with the tag that is no
identifier at all, stand for whichever device of the table has their number.
-/
namespace LiveExpr

namespace Identifier

variable {s t : String} {id : Identifier}

/-- The index that is written behind the last dash. -/
def lastIndex? (s : String) : Option UInt32 := do
  let (_, index) ← Text.splitLast? '-' s.toList
  Number.readIndex? index

/-- Kinds may contain dashes, but the index of an identifier cannot. -/
theorem lastIndex?_of_parse (h : parse s = .ok id) : lastIndex? s = some id.index := by
  obtain ⟨-, numeral, hnumeral, hs⟩ := parse_eq_ok_iff.mp h
  have hlast : Text.splitLast? '-' s.toList =
      some ('@' :: (id.tag.toList ++ '-' :: id.kind.toList), numeral) := by
    refine Text.splitLast?_eq_some_iff.mpr ⟨?_, hnumeral.no_dash⟩
    rw [hs]
    simp only [spell, List.cons_append, List.append_assoc]
  unfold lastIndex?
  rw [hlast]
  exact Number.readIndex?_eq_some_iff.mpr hnumeral

theorem tag_of_hasTag (h : parse s = .ok id) (htag : hasTag s t) (ht : '-' ∉ t.toList) :
    id.tag = t := by
  obtain ⟨hid, numeral, -, hs⟩ := parse_eq_ok_iff.mp h
  exact ((hasTag_of_spell hs hid.dashless ht).mp htag).symm

end Identifier

namespace Text

variable {s lead lead' rest rest' : String}

theorem lead_of_dropLead (h : dropLeadIgnoringCase? s lead = some rest) :
    (s.toList.map Char.toLower).take lead.toList.length = lead.toList.map Char.toLower := by
  unfold dropLeadIgnoringCase? at h
  obtain ⟨hlead, -⟩ := Option.ite_none_right_eq_some.mp h
  have hlower : lowercase (String.ofList (s.toList.take lead.toList.length)) = lowercase lead :=
    eq_of_beq hlead
  simpa only [lowercase, String.toList_ofList, List.map_take] using String.ofList_inj.mp hlower

/-- Of two leads of one text, the shorter one leads the longer one. -/
theorem lead_of_lead (h : dropLeadIgnoringCase? s lead = some rest)
    (h' : dropLeadIgnoringCase? s lead' = some rest')
    (hle : lead'.toList.length ≤ lead.toList.length) :
    (lead.toList.map Char.toLower).take lead'.toList.length = lead'.toList.map Char.toLower := by
  rw [← lead_of_dropLead h, ← lead_of_dropLead h', List.take_take, Nat.min_eq_left hle]

end Text

namespace Mixer

/-- Whether the address names its device in the way of an identifier of a mixer. -/
def Tagged (address : String) : Prop := Identifier.hasTag (devicePart address) tag = true

instance (address : String) : Decidable (Tagged address) := inferInstanceAs (Decidable (_ = true))

namespace DeviceTable

theorem locate_of_hasTag (t : DeviceTable) {s : String} (h : Identifier.hasTag s tag = true) :
    t.locate s = (Identifier.lastIndex? s).bind t.get? := by
  unfold DeviceTable.locate Identifier.lastIndex?
  rw [if_pos h]
  cases Text.splitLast? '-' s.toList <;> rfl

end DeviceTable

namespace Tables

variable {t : Tables} {i : Interface} {address : String}

/-- The device of the interface with the number behind the last dash of the device part. -/
def numbered? (t : Tables) (i : Interface) (address : String) : Option Device :=
  (Identifier.lastIndex? (devicePart address)).bind (t.get i).get?

theorem resolve_of_tagged (h : Tagged address) :
    (t.get i).resolve (some address) =
      (t.numbered? i address).map fun d => (d, d.channelAt address) := by
  rw [DeviceTable.resolve_some, DeviceTable.locate_of_hasTag _ h]
  rfl

theorem numbered?_of_lastIndex {index : UInt32}
    (h : Identifier.lastIndex? (devicePart address) = some index) :
    t.numbered? i address = (t.get i).get? index := by
  unfold numbered?
  rw [h]
  rfl

theorem query_of_tagged {question property : String} (h : Tagged address)
    (hq : Interface.split? question = some (i, property))
    (hcount : Text.sameIgnoringCase property "count" = false) :
    t.query question (some address) =
      ((t.numbered? i address).map fun d => d.property (d.channelAt address) property).getD
        .unset := by
  unfold Tables.query
  rw [hq]
  dsimp only
  rw [hcount, resolve_of_tagged h]
  cases t.numbered? i address <;> rfl

theorem command_of_tagged {order verb : String} {r : ServerRequest} (h : Tagged address)
    (ho : Interface.split? order = some (i, verb))
    (hr : t.command order (some address) = some r) :
    ∃ d, t.numbered? i address = some d ∧ r.On i d.index := by
  rw [command_of_split ho, resolve_of_tagged h] at hr
  obtain ⟨found, hfound, horder⟩ := Option.bind_eq_some_iff.mp hr
  obtain ⟨d, hd, rfl⟩ := Option.map_eq_some_iff.mp hfound
  exact ⟨d, hd, (order_fits horder).on⟩

/-- No other verb starts with the characters of this one. -/
theorem order_setSink {verb sink : String}
    (h : Text.dropLeadIgnoringCase? verb "set-sink" = some sink) (d : Device) (channel : Nat) :
    t.order i d channel verb = t.move i d sink := by
  have hvolume : Text.dropLeadIgnoringCase? verb "volume" = none := by
    refine Option.eq_none_iff_forall_ne_some.mpr fun rest hrest => ?_
    exact absurd (Text.lead_of_lead h hrest (by decide)) (by decide)
  have hmute : Text.dropLeadIgnoringCase? verb "mute" = none := by
    refine Option.eq_none_iff_forall_ne_some.mpr fun rest hrest => ?_
    exact absurd (Text.lead_of_lead h hrest (by decide)) (by decide)
  unfold Tables.order
  rw [hvolume, hmute, h]
  rfl

theorem move_of_tagged {d : Device} {sink : String} {r : ServerRequest}
    (h : Tagged (Text.trimStart sink)) (hr : t.move i d sink = some r) :
    ∃ found, t.numbered? .sink (Text.trimStart sink) = some found ∧
      r = .moveClient d.index found.index := by
  unfold Tables.move at hr
  split at hr
  · rw [show t.sink = t.get .sink from rfl, resolve_of_tagged h] at hr
    obtain ⟨pair, hpair, rfl⟩ := Option.map_eq_some_iff.mp hr
    obtain ⟨found, hfound, rfl⟩ := Option.map_eq_some_iff.mp hpair
    exact ⟨found, hfound, rfl⟩
  · cases hr

theorem setSink_of_tagged {order verb sink : String} {r : ServerRequest} {address : Option String}
    (ho : Interface.split? order = some (i, verb))
    (hverb : Text.dropLeadIgnoringCase? verb "set-sink" = some sink)
    (h : Tagged (Text.trimStart sink)) (hr : t.command order address = some r) :
    ∃ stream found, t.numbered? .sink (Text.trimStart sink) = some found ∧
      r = .moveClient stream found.index := by
  rw [command_of_split ho] at hr
  obtain ⟨⟨d, channel⟩, -, horder⟩ := Option.bind_eq_some_iff.mp hr
  rw [order_setSink hverb] at horder
  exact ⟨d.index, move_of_tagged h horder⟩

end Tables

/-- The state with one more request, if there is one. -/
def State.requesting {σ : Type} (s : State σ) (r : Option ServerRequest) : State σ :=
  { s with requests := s.requests ++ r.toList }

variable {C : Host} {call : Callbacks (extend C)} {e : Engine (extend C)} {n : Nat} {m : Mixer}

theorem query_run_of_mixer (hm : (e.host.mixers : List Mixer)[n]? = some m) (question : String)
    (address : Option String) :
    ((query n question address).run call).run e = some (m.tables.query question address, e) :=
  run_mixer? hm _

theorem command_run (hm : (e.host.mixers : List Mixer)[n]? = some m) (order : String)
    (address : Option String) :
    ((command n order address).run call).run e =
      some ((), { e with host := State.requesting e.host (m.tables.command order address) }) := by
  unfold command
  rw [run_mixer? hm]
  dsimp only
  cases m.tables.command order address with
  | none =>
    have hsame : State.requesting e.host none = e.host := by
      unfold State.requesting
      rw [Option.toList_none, List.append_nil]
      rfl
    rw [hsame]
    rfl
  | some r => rfl

/-- The mixer with the number takes the address for that of one device of the interface, or of none.
It answers queries for this device and makes requests for no other. -/
structure StandsFor (call : Callbacks (extend C)) (e : Engine (extend C)) (n : Nat) (i : Interface)
    (address : String) (found : Option Device) : Prop where
  query : ∀ question property, Interface.split? question = some (i, property) →
    Text.sameIgnoringCase property "count" = false →
    ((query n question (some address)).run call).run e =
      some ((found.map fun d => d.property (d.channelAt address) property).getD .unset, e)
  command : ∀ order verb, Interface.split? order = some (i, verb) →
    ∃ r : Option ServerRequest,
      ((command n order (some address)).run call).run e =
        some ((), { e with host := State.requesting e.host r }) ∧
      ∀ q ∈ r, ∃ d ∈ found, q.On i d.index

theorem standsFor_of_tagged (hm : (e.host.mixers : List Mixer)[n]? = some m) {i : Interface}
    {address : String} (h : Tagged address) :
    StandsFor call e n i address (m.tables.numbered? i address) where
  query question property hq hcount := by
    rw [query_run_of_mixer hm, Tables.query_of_tagged h hq hcount]
  command order verb ho :=
    ⟨_, command_run hm .., fun _ hr => Tables.command_of_tagged h ho hr⟩

theorem eq_identifier_of_tagged {i : Interface} {address : String} {id : Identifier}
    (h : Tagged address) (hid : Identifier.parse (devicePart address) = .ok id)
    (hkind : id.kind = i.word) : id = i.identifier id.index := by
  have htag : id.tag = tag := Identifier.tag_of_hasTag hid h (by decide)
  obtain ⟨_, _, _⟩ := id
  dsimp only at htag hkind
  subst htag hkind
  rfl

/-- With the tag of a mixer, the device at an address is the one with the number behind the last
dash, in the table of the interface asked. If the address is an identifier, the number is its index;
if it is one of that interface, its device is the one meant. For the sink that a stream is moved
to, the same is true of the table of the sinks. -/
theorem tagged_address_by_number (hm : (e.host.mixers : List Mixer)[n]? = some m) :
    (∀ i address, Tagged address →
      StandsFor call e n i address (m.tables.numbered? i address) ∧
      ∀ id, Identifier.parse (devicePart address) = .ok id →
        m.tables.numbered? i address = (m.tables.get i).get? id.index ∧
        (id.kind = i.word → id = i.identifier id.index)) ∧
    ∀ order i verb sink address, Interface.split? order = some (i, verb) →
      Text.dropLeadIgnoringCase? verb "set-sink" = some sink → Tagged (Text.trimStart sink) →
      ∃ r : Option ServerRequest,
        ((command n order address).run call).run e =
          some ((), { e with host := State.requesting e.host r }) ∧
        ∀ q ∈ r, ∃ stream, ∃ found ∈ m.tables.numbered? .sink (Text.trimStart sink),
          q = .moveClient stream found.index := by
  refine ⟨fun i address h => ⟨standsFor_of_tagged hm h, fun id hid => ?_⟩,
    fun order i verb sink address ho hverb h => ?_⟩
  · exact ⟨Tables.numbered?_of_lastIndex (Identifier.lastIndex?_of_parse hid),
      eq_identifier_of_tagged h hid⟩
  · exact ⟨_, command_run hm .., fun _ hr => Tables.setSink_of_tagged ho hverb h hr⟩

end Mixer

namespace Attentive

open Mixer

theorem mixers_known : (known.host.mixers : List Mixer)[0]? = some present := by
  cbv

/-- Whatever stands before the number. -/
theorem numbered?_present {address : String}
    (h : Identifier.lastIndex? (devicePart address) = some 3) :
    present.tables.numbered? .sink address = some Bare.speakers := by
  rw [Tables.numbered?_of_lastIndex h]
  cbv

theorem split?_mute : Interface.split? "sink-mute" = some (.sink, "mute") := by
  cbv

/-- A stream of a program. -/
def stream : Device := { Bare.speakers with index := 12, name := "player", client := some 40 }

/-- The mixer once it has been told of the stream, too. -/
def joined : Mixer := ⟨present.tables.update .client stream, 0, 1, .empty⟩

def streaming : Engine (extend Attentive) :=
  { known with host := (⟨[joined], [], ()⟩ : State Unit) }

/-- The sink at its identifier answers, and the stream can be moved there. -/
theorem tagged_address_by_number_streaming :
    joined.tables.numbered? .sink "@mixer-sink-3" = joined.tables.sink.get? 3 ∧
      ((Mixer.query 0 "sink-mute" (some "@mixer-sink-3")).run calls).run streaming =
        some (.boolean false, streaming) ∧
      joined.tables.command "client-set-sink @mixer-sink-3" (some "@mixer-client-12") =
        some (.moveClient 12 3) ∧
      ∃ r : Option ServerRequest,
        ((command 0 "client-set-sink @mixer-sink-3" (some "@mixer-client-12")).run calls).run
          streaming = some ((), { streaming with host := State.requesting streaming.host r }) ∧
        ∀ q ∈ r, ∃ stream, q = .moveClient stream 3 := by
  obtain ⟨haddress, hsink⟩ :=
    @tagged_address_by_number Attentive calls streaming 0 joined rfl
  obtain ⟨hstands, hparse⟩ := haddress .sink "@mixer-sink-3" (by decide)
  obtain ⟨hnumbered, -⟩ := hparse (Interface.sink.identifier 3) (by decide)
  have hfound : joined.tables.numbered? .sink "@mixer-sink-3" = some Bare.speakers := by
    rw [hnumbered]
    cbv
  have hverb : Text.dropLeadIgnoringCase? "set-sink @mixer-sink-3" "set-sink" =
      some " @mixer-sink-3" := by
    decide
  have htrim : Text.trimStart " @mixer-sink-3" = "@mixer-sink-3" := by
    decide
  obtain ⟨r, hrun, hmoves⟩ := hsink "client-set-sink @mixer-sink-3" .client _ _
    (some "@mixer-client-12") (by decide) hverb (by decide)
  refine ⟨hnumbered, ?_, ?_, r, hrun, fun q hq => ?_⟩
  · rw [hstands.query "sink-mute" "mute" split?_mute (by cbv), hfound]
    cbv
  · rfl
  · obtain ⟨stream, found, hmoved, rfl⟩ := hmoves q hq
    rw [htrim] at hmoved
    obtain rfl := Option.some_inj.mp (hfound.symm.trans hmoved)
    exact ⟨stream, rfl⟩

/-- The sink is read and made mute. -/
theorem sink_known {address : String} (h : Tagged address)
    (hindex : Identifier.lastIndex? (devicePart address) = some 3) :
    ((Mixer.query 0 "sink-mute" (some address)).run calls).run known =
        some (.boolean false, known) ∧
      ((command 0 "sink-mute true" (some address)).run calls).run known =
        some ((), { known with
          host := State.requesting known.host (some (.setMute .sink 3 true)) }) := by
  have hsplit : Interface.split? "sink-mute true" = some (.sink, "mute true") := by
    cbv
  have hproperty : ∀ channel, Bare.speakers.property channel "mute" = .boolean false := by
    intro channel
    cbv
  have horder : present.tables.order .sink Bare.speakers (Bare.speakers.channelAt address)
      "mute true" = some (.setMute .sink 3 true) := rfl
  have hquery : present.tables.query "sink-mute" (some address) = .boolean false := by
    rw [Tables.query_of_tagged h split?_mute (by cbv), numbered?_present hindex]
    exact hproperty (Bare.speakers.channelAt address)
  have hcommand : present.tables.command "sink-mute true" (some address) =
      some (.setMute .sink 3 true) := by
    rw [Tables.command_of_split hsplit, Tables.resolve_of_tagged h, numbered?_present hindex]
    exact horder
  rw [query_run_of_mixer mixers_known, command_run mixers_known, hquery, hcommand]
  exact ⟨rfl, rfl⟩

/-- The identifier of a source that is not there is taken for that of a sink, and so is a text that
has no kind. -/
theorem sink_at_other_identifier :
    Runs own known ∧
      Identifier.parse "@mixer-source-3" = .ok (Interface.source.identifier 3) ∧
      Identifier.parse "@mixer-3" = .error (.shape "@mixer-3") ∧
      ∀ address ∈ ["@mixer-source-3", "@mixer-3"],
        Tagged address ∧
        (∀ k, Identifier.parse (devicePart address) ≠ .ok (Interface.sink.identifier k)) ∧
        ((Mixer.query 0 "sink-mute" (some address)).run calls).run known =
          some (.boolean false, known) ∧
        ((command 0 "sink-mute true" (some address)).run calls).run known =
          some ((), { known with
            host := State.requesting known.host (some (.setMute .sink 3 true)) }) := by
  have hsource : Identifier.parse "@mixer-source-3" = .ok (Interface.source.identifier 3) := by
    decide
  have hshape : Identifier.parse "@mixer-3" = .error (.shape "@mixer-3") := by
    decide
  have hkinds : Interface.source.word ≠ Interface.sink.word := by
    decide
  refine ⟨runs_known, hsource, hshape, fun address haddress => ?_⟩
  rcases List.mem_pair.mp haddress with rfl | rfl
  · refine ⟨by decide, fun k h => ?_, sink_known (by decide) (by decide)⟩
    exact hkinds (congrArg Identifier.kind (Except.ok.inj (hsource.symm.trans h)))
  · refine ⟨by decide, fun k h => ?_, sink_known (by decide) (by decide)⟩
    cases hshape.symm.trans h

end Attentive

end LiveExpr
