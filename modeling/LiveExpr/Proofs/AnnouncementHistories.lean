import LiveExpr.Mixer.Announcement
import LiveExpr.Proofs.DeviceHistories
import LiveExpr.Proofs.QueueLogs

/-!
What is announced of a history of events. An event that adds a device, so that its index
becomes known, announces the channels of the device one after the other. The time of such an
announcement is that of the event together with the place of the channel. An event by which
an index ceases to be known announces that.
-/
namespace LiveExpr.Mixer

variable {events : List Event} {event : Event} {i : Interface} {index : UInt32} {d : Device}
  {position : String} {j k : Nat}

def RemovedAt (events : List Event) (i : Interface) (index : UInt32) (j : Nat) : Prop :=
  events[j]? = some (.removed i index) ∧ Known (events.take j) i index

/-- The event at the time of the device adds it, and this is one of its channels. -/
def Advertised (events : List Event) (t : ℕ ×ₗ ℕ) (a : Advert) : Prop :=
  ∃ j d, t = toLex (j, a.number) ∧ AddedAt events a.interface d j ∧
    a.device = a.interface.identifier d.index ∧
    d.channels[a.number]?.map ChannelVolume.position = some a.channel

def Retired (events : List Event) (j : ℕ) (r : Removal) : Prop :=
  ∃ i index, RemovedAt events i index j ∧ r = ⟨i.identifier index⟩

/-- The channel at the place is the last one that is called so. -/
def Device.LastPlace (d : Device) (position : String) (k : Nat) : Prop :=
  d.channels[k]?.map ChannelVolume.position = some position ∧
    ∀ l c, k < l → d.channels[l]? = some c → c.position ≠ position

/-- The adverts are those of the channels of all devices ever added, each with the place that the
channel had when it was announced last. -/
structure Adverts (events : List Event) (adverts : List Advert) : Prop where
  distinct : adverts.Pairwise fun a b => ¬ Entity.same a b = true
  once : ∀ i index position,
    (∃ j d, AddedAt events i d j ∧ d.index = index ∧ ∃ c ∈ d.channels, c.position = position) ↔
      ∃! number, (⟨i, number, position, i.identifier index⟩ : Advert) ∈ adverts
  latest : ∀ a ∈ adverts, ∃ j d, AddedAt events a.interface d j ∧
    a.device = a.interface.identifier d.index ∧ d.LastPlace a.channel a.number ∧
    ∀ k d', j < k → AddedAt events a.interface d' k → d'.index = d.index →
      ∀ c ∈ d'.channels, c.position ≠ a.channel
  ordered : adverts.Pairwise fun a b => ∃ t u, Queue.FirstPutAt (Advertised events) a t ∧
    Queue.FirstPutAt (Advertised events) b u ∧ t < u

/-- The removals are those of the devices ever removed, each of them once. -/
structure Removals (events : List Event) (removals : List Removal) : Prop where
  nodup : removals.Nodup
  mem_iff : ∀ r, r ∈ removals ↔ ∃ i index j, RemovedAt events i index j ∧ r = ⟨i.identifier index⟩
  ordered : removals.Pairwise fun r s => ∃ j k, Queue.FirstPutAt (Retired events) r j ∧
    Queue.FirstPutAt (Retired events) s k ∧ j < k

theorem same_advert_iff {a b : Advert} : Entity.same a b = true ↔
    a.channel = b.channel ∧ a.device = b.device ∧ a.interface = b.interface := by
  show (a.channel == b.channel && a.device == b.device && a.interface == b.interface) = true ↔ _
  simp only [Bool.and_eq_true, beq_iff_eq, and_assoc]

theorem same_removal_iff {r s : Removal} : Entity.same r s = true ↔ r = s := beq_iff_eq

theorem equivalence_advert : Equivalence fun a b : Advert => Entity.same a b = true where
  refl a := same_advert_iff.mpr ⟨rfl, rfl, rfl⟩
  symm h := by
    obtain ⟨hchannel, hdevice, hinterface⟩ := same_advert_iff.mp h
    exact same_advert_iff.mpr ⟨hchannel.symm, hdevice.symm, hinterface.symm⟩
  trans h h' := by
    obtain ⟨hchannel, hdevice, hinterface⟩ := same_advert_iff.mp h
    obtain ⟨hchannel', hdevice', hinterface'⟩ := same_advert_iff.mp h'
    exact same_advert_iff.mpr ⟨hchannel.trans hchannel', hdevice.trans hdevice',
      hinterface.trans hinterface'⟩

theorem equivalence_removal : Equivalence fun r s : Removal => Entity.same r s = true where
  refl _ := same_removal_iff.mpr rfl
  symm h := same_removal_iff.mpr (same_removal_iff.mp h).symm
  trans h h' := same_removal_iff.mpr ((same_removal_iff.mp h).trans (same_removal_iff.mp h'))

/-- An announcement of one channel of a device that was added. -/
theorem advertised_channel {c : ChannelVolume} (hd : AddedAt events i d j)
    (hc : d.channels[k]? = some c) :
    Advertised events (toLex (j, k)) ⟨i, k, c.position, i.identifier d.index⟩ :=
  ⟨j, d, rfl, hd, rfl, by rw [hc]; rfl⟩

theorem identifier_inj {index' : UInt32} (h : i.identifier index = i.identifier index') :
    index = index' := congrArg Identifier.index h

theorem latest_of_lastPut {a : Advert} (h : Queue.LastPut (Advertised events) a) :
    ∃ j d, AddedAt events a.interface d j ∧ a.device = a.interface.identifier d.index ∧
      d.LastPlace a.channel a.number ∧
      ∀ k d', j < k → AddedAt events a.interface d' k → d'.index = d.index →
        ∀ c ∈ d'.channels, c.position ≠ a.channel := by
  obtain ⟨_, ⟨j, d, rfl, hd, hdevice, hchannel⟩, hlast⟩ := h
  refine ⟨j, d, hd, hdevice, ⟨hchannel, fun l c hl hc hposition => ?_⟩,
    fun k d' hk hd' hindex c hc hposition => ?_⟩
  · refine hlast _ _ (advertised_channel hd hc) ?_ (same_advert_iff.mpr ⟨hposition, ?_, rfl⟩)
    · exact Prod.Lex.toLex_lt_toLex.mpr (Or.inr ⟨rfl, hl⟩)
    · exact hdevice.symm
  · obtain ⟨l, hl⟩ := List.mem_iff_getElem?.mp hc
    refine hlast _ _ (advertised_channel hd' hl) ?_ (same_advert_iff.mpr ⟨hposition, ?_, rfl⟩)
    · exact Prod.Lex.toLex_lt_toLex.mpr (Or.inl hk)
    · rw [hindex, hdevice]

theorem adverts_of_chronicle {adverts : List Advert}
    (h : Queue.Chronicle (Advertised events) adverts) : Adverts events adverts where
  distinct := h.distinct
  once i index position := by
    constructor
    · rintro ⟨j, d, hd, rfl, c, hc, rfl⟩
      obtain ⟨k, hk⟩ := List.mem_iff_getElem?.mp hc
      obtain ⟨a, ha, hsame⟩ := h.present _ _ (advertised_channel hd hk)
      obtain ⟨i, number, channel, device⟩ := a
      obtain ⟨hchannel, hdevice, hinterface⟩ := same_advert_iff.mp hsame
      dsimp only at hchannel hdevice hinterface
      subst hinterface hchannel hdevice
      refine ⟨number, ha, fun number' hmem => ?_⟩
      have heq := h.eq_of_same equivalence_advert hmem ha (same_advert_iff.mpr ⟨rfl, rfl, rfl⟩)
      exact congrArg Advert.number heq
    · rintro ⟨number, hmem, -⟩
      obtain ⟨_, ⟨j, d, -, hd, hdevice, hchannel⟩, -⟩ := (h.mem_iff _).mp hmem
      obtain ⟨c, hc, hposition⟩ := Option.map_eq_some_iff.mp hchannel
      exact ⟨j, d, hd, (identifier_inj hdevice).symm, c, List.mem_of_getElem? hc, hposition⟩
  latest a ha := latest_of_lastPut ((h.mem_iff a).mp ha)
  ordered := h.ordered

theorem removals_of_chronicle {removals : List Removal}
    (h : Queue.Chronicle (Retired events) removals) : Removals events removals where
  nodup := h.distinct.imp fun hother heq => hother (same_removal_iff.mpr heq)
  mem_iff r := by
    constructor
    · intro hr
      obtain ⟨j, ⟨i, index, hremoved, heq⟩, -⟩ := (h.mem_iff r).mp hr
      exact ⟨i, index, j, hremoved, heq⟩
    · rintro ⟨i, index, j, hremoved, heq⟩
      obtain ⟨s, hs, hsame⟩ := h.present j r ⟨i, index, hremoved, heq⟩
      exact same_removal_iff.mp hsame ▸ hs
  ordered := h.ordered

/-- What is announced of the channels of a device. -/
def Interface.adverts (i : Interface) (d : Device) : List Advert :=
  d.channels.zipIdx.map fun (c, number) => ⟨i, number, c.position, i.identifier d.index⟩

/-- An event that adds no device announces no channel. -/
theorem chronicle_adverts_of_known {items : List Advert}
    (h : Queue.Chronicle (Advertised events) items)
    (hknown : ∀ i d, event = .updated i d → Known events i d.index) :
    Queue.Chronicle (Advertised (events ++ [event])) items := by
  refine h.congr fun t a => exists_congr fun j => exists_congr fun d => ?_
  refine and_congr_right fun _ => and_congr_left fun _ => ?_
  rw [addedAt_snoc]
  constructor
  · exact Or.inl
  · rintro (hadded | ⟨-, hevent, hnew⟩)
    · exact hadded
    · exact absurd (hknown _ d hevent) hnew

theorem advertised_snoc_of_new (hnew : ¬ Known events i d.index) {t : ℕ ×ₗ ℕ} {a : Advert} :
    Advertised (events ++ [.updated i d]) t a ↔ Advertised events t a ∨
      (t, a) ∈ (i.adverts d).map fun a => (toLex (events.length, a.number), a) := by
  constructor
  · rintro ⟨j, d', rfl, hadded, hdevice, hchannel⟩
    rcases addedAt_snoc.mp hadded with hadded | ⟨rfl, hevent, -⟩
    · exact Or.inl ⟨j, d', rfl, hadded, hdevice, hchannel⟩
    · obtain ⟨i', number, channel, device⟩ := a
      cases hevent
      obtain ⟨c, hc, rfl⟩ := Option.map_eq_some_iff.mp hchannel
      dsimp only at hdevice
      subst hdevice
      refine Or.inr (List.mem_map.mpr ⟨_, List.mem_map.mpr ⟨(c, number), ?_, rfl⟩, rfl⟩)
      exact List.mem_zipIdx_iff_getElem?.mpr hc
  · rintro (⟨j, d', rfl, hadded, hdevice, hchannel⟩ | hmem)
    · exact ⟨j, d', rfl, addedAt_snoc.mpr (Or.inl hadded), hdevice, hchannel⟩
    · obtain ⟨_, hadvert, heq⟩ := List.mem_map.mp hmem
      obtain ⟨⟨c, number⟩, hc, rfl⟩ := List.mem_map.mp hadvert
      cases heq
      exact advertised_channel (addedAt_snoc.mpr (Or.inr ⟨rfl, rfl, hnew⟩))
        (List.mem_zipIdx_iff_getElem?.mp hc)

theorem chronicle_adverts_of_new {items : List Advert}
    (h : Queue.Chronicle (Advertised events) items) (hnew : ¬ Known events i d.index) :
    Queue.Chronicle (Advertised (events ++ [.updated i d]))
      ((i.adverts d).foldl Queue.place items) := by
  let log : List ((ℕ ×ₗ ℕ) × Advert) :=
    (i.adverts d).map fun a => (toLex (events.length, a.number), a)
  have hlog : log.Pairwise fun u v => u.1 < v.1 := by
    refine List.pairwise_map.mpr (List.pairwise_map.mpr ?_)
    refine List.pairwise_iff_getElem.mpr fun k l hk hl hlt => ?_
    rw [List.getElem_zipIdx, List.getElem_zipIdx]
    exact Prod.Lex.toLex_lt_toLex.mpr (Or.inr ⟨rfl, by simpa using hlt⟩)
  have hlater : ∀ u a, Advertised events u a → ∀ entry ∈ log, u < entry.1 := by
    rintro _ a ⟨j, d', rfl, hadded, -⟩ entry hentry
    obtain ⟨b, -, rfl⟩ := List.mem_map.mp hentry
    exact Prod.Lex.toLex_lt_toLex.mpr (Or.inl hadded.lt)
  have hrun := (h.run equivalence_advert hlog hlater).congr
    fun t a => (advertised_snoc_of_new hnew).symm
  have hitems : log.map Prod.snd = i.adverts d := by
    rw [List.map_map]
    exact List.map_id _
  rwa [hitems] at hrun

theorem removedAt_snoc : RemovedAt (events ++ [event]) i index j ↔
    RemovedAt events i index j ∨
      j = events.length ∧ event = .removed i index ∧ Known events i index :=
  toldAt_snoc fun events => Known events i index

/-- An event that removes no device announces no removal. -/
theorem chronicle_removals_of_unknown {items : List Removal}
    (h : Queue.Chronicle (Retired events) items)
    (hunknown : ∀ i index, event = .removed i index → ¬ Known events i index) :
    Queue.Chronicle (Retired (events ++ [event])) items := by
  refine h.congr fun j r => exists_congr fun i => exists_congr fun index => ?_
  refine and_congr_left fun _ => ?_
  rw [removedAt_snoc]
  constructor
  · exact Or.inl
  · rintro (hremoved | ⟨-, hevent, hknown⟩)
    · exact hremoved
    · exact absurd hknown (hunknown i index hevent)

theorem chronicle_removals_of_known {items : List Removal}
    (h : Queue.Chronicle (Retired events) items) (hknown : Known events i index) :
    Queue.Chronicle (Retired (events ++ [.removed i index]))
      (Queue.place items ⟨i.identifier index⟩) := by
  have hlater : ∀ j r, Retired events j r → j < events.length := by
    rintro j r ⟨i, index, hremoved, -⟩
    exact (List.getElem?_eq_some_iff.mp hremoved.1).1
  refine (h.step equivalence_removal hlater).congr fun j r => ?_
  constructor
  · rintro (⟨i', index', hremoved, rfl⟩ | ⟨rfl, rfl⟩)
    · exact ⟨i', index', removedAt_snoc.mpr (Or.inl hremoved), rfl⟩
    · exact ⟨i, index, removedAt_snoc.mpr (Or.inr ⟨rfl, rfl, hknown⟩), rfl⟩
  · rintro ⟨i', index', hremoved, rfl⟩
    rcases removedAt_snoc.mp hremoved with hremoved | ⟨rfl, hevent, -⟩
    · exact Or.inl ⟨i', index', hremoved, rfl⟩
    · cases hevent
      exact Or.inr ⟨rfl, rfl⟩

end LiveExpr.Mixer
