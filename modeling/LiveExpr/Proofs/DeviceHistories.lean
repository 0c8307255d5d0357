import LiveExpr.Proofs.MixerTables

/-!
The devices of an interface against the events that have been told. A history is a list of
events, oldest first, and the index of an event in it is the time at which it was told. An
index is known if it was updated and not removed since. The devices that are held are those
of the last updates of the known indices, and they stand in the order in which their indices
have last become known.
-/
namespace LiveExpr.Mixer

variable {events : List Event} {event : Event} {i : Interface} {index : UInt32} {d d' : Device}
  {j : Nat}

/-- The event updates or removes the device of the interface that has the index. -/
def Event.Concerns (i : Interface) (index : UInt32) : Event → Prop
  | .updated i' d => i' = i ∧ d.index = index
  | .removed i' index' => i' = i ∧ index' = index
  | .renamed _ _ => False
  | .defaults _ _ => False

/-- Of the events that concern the index of the device, the last one is its update. -/
def LastTold (events : List Event) (i : Interface) (d : Device) : Prop :=
  ∃ early late, events = early ++ .updated i d :: late ∧
    ∀ event ∈ late, ¬ event.Concerns i d.index

/-- Of the events that concern the index, the last one is an update. -/
def Known (events : List Event) (i : Interface) (index : UInt32) : Prop :=
  ∃ d, LastTold events i d ∧ d.index = index

/-- The device is told at the time, and before that its index was not known. -/
def AddedAt (events : List Event) (i : Interface) (d : Device) (j : Nat) : Prop :=
  events[j]? = some (.updated i d) ∧ ¬ Known (events.take j) i d.index

/-- The index became known at the time, and has not become known anew since. -/
structure LastAddedAt (events : List Event) (i : Interface) (index : UInt32) (j : Nat) : Prop where
  added : ∃ d, AddedAt events i d j ∧ d.index = index
  last : ∀ k d, j < k → AddedAt events i d k → d.index ≠ index

def AddedBefore (events : List Event) (i : Interface) (index index' : UInt32) : Prop :=
  ∃ j k, LastAddedAt events i index j ∧ LastAddedAt events i index' k ∧ j < k

/-- The device is the one told, save that a stream may have got another description. -/
def Device.Agrees (i : Interface) (d told : Device) : Prop :=
  d = told ∨ i = .client ∧ d = { told with description := d.description }

theorem Device.Agrees.index_eq (h : d.Agrees i d') : d.index = d'.index := by
  rcases h with rfl | ⟨-, h⟩
  · rfl
  · rw [h]

theorem Device.Agrees.trans {d'' : Device} (h : d.Agrees i d') (h' : d'.Agrees i d'') :
    d.Agrees i d'' := by
  rcases h with rfl | ⟨hi, h⟩
  · exact h'
  · rcases h' with rfl | ⟨-, h'⟩
    · exact Or.inr ⟨hi, h⟩
    · refine Or.inr ⟨hi, ?_⟩
      rw [h, h']

theorem lastTold_nil : ¬ LastTold [] i d := by
  rintro ⟨early, late, h, -⟩
  simp at h

theorem lastTold_snoc : LastTold (events ++ [event]) i d ↔
    event = .updated i d ∨ LastTold events i d ∧ ¬ event.Concerns i d.index := by
  constructor
  · rintro ⟨early, late, hsplit, hlate⟩
    rcases List.eq_nil_or_concat late with rfl | ⟨late, last, rfl⟩
    · obtain ⟨-, hlast⟩ := List.append_inj' hsplit rfl
      exact Or.inl (List.singleton_inj.mp hlast)
    · rw [List.concat_eq_append, ← List.cons_append, ← List.append_assoc] at hsplit
      obtain ⟨hevents, hlast⟩ := List.append_inj' hsplit rfl
      cases List.singleton_inj.mp hlast
      refine Or.inr ⟨⟨early, late, hevents, fun e he => hlate e ?_⟩, hlate _ ?_⟩
      · simp [he]
      · simp
  · rintro (rfl | ⟨⟨early, late, rfl, hlate⟩, hlast⟩)
    · exact ⟨events, [], rfl, by simp⟩
    · refine ⟨early, late ++ [event], by simp, fun e he => ?_⟩
      rcases List.mem_append.mp he with he | he
      · exact hlate e he
      · rwa [List.mem_singleton.mp he]

theorem LastTold.mem (h : LastTold events i d) : .updated i d ∈ events := by
  obtain ⟨early, late, rfl, -⟩ := h
  exact List.mem_append_right _ List.mem_cons_self

theorem LastTold.unique (h : LastTold events i d) (h' : LastTold events i d')
    (hindex : d.index = d'.index) : d = d' := by
  induction events using List.reverseRecOn with
  | nil => exact (lastTold_nil h).elim
  | append_singleton events event ih =>
    rcases lastTold_snoc.mp h with rfl | ⟨h, hother⟩
    · rcases lastTold_snoc.mp h' with heq | ⟨-, hother⟩
      · cases heq
        rfl
      · exact absurd ⟨rfl, hindex⟩ hother
    · rcases lastTold_snoc.mp h' with rfl | ⟨h', -⟩
      · exact absurd ⟨rfl, hindex.symm⟩ hother
      · exact ih h h'

theorem known_snoc : Known (events ++ [event]) i index ↔
    (∃ d, event = .updated i d ∧ d.index = index) ∨
      Known events i index ∧ ¬ event.Concerns i index := by
  constructor
  · rintro ⟨d, hd, rfl⟩
    rcases lastTold_snoc.mp hd with rfl | ⟨hd, hother⟩
    · exact Or.inl ⟨d, rfl, rfl⟩
    · exact Or.inr ⟨⟨d, hd, rfl⟩, hother⟩
  · rintro (⟨d, rfl, rfl⟩ | ⟨⟨d, hd, rfl⟩, hother⟩)
    · exact ⟨d, lastTold_snoc.mpr (Or.inl rfl), rfl⟩
    · exact ⟨d, lastTold_snoc.mpr (Or.inr ⟨hd, hother⟩), rfl⟩

theorem AddedAt.lt (h : AddedAt events i d j) : j < events.length :=
  (List.getElem?_eq_some_iff.mp h.1).1

/-- What is told at a time, and whether something holds of all that was told before. -/
theorem toldAt_snoc {told : Event} (before : List Event → Prop) :
    (events ++ [event])[j]? = some told ∧ before ((events ++ [event]).take j) ↔
      (events[j]? = some told ∧ before (events.take j)) ∨
        j = events.length ∧ event = told ∧ before events := by
  rcases Nat.lt_trichotomy j events.length with hj | rfl | hj
  · rw [List.getElem?_append_left hj, List.take_append_of_le_length hj.le]
    simp [hj.ne]
  · simp
  · have hnone : (events ++ [event])[j]? = none :=
      List.getElem?_eq_none (by simpa using hj)
    have hnone' : events[j]? = none := List.getElem?_eq_none hj.le
    simp [hnone, hnone', hj.ne']

theorem addedAt_snoc : AddedAt (events ++ [event]) i d j ↔
    AddedAt events i d j ∨
      j = events.length ∧ event = .updated i d ∧ ¬ Known events i d.index :=
  toldAt_snoc fun events => ¬ Known events i d.index

theorem LastAddedAt.lt (h : LastAddedAt events i index j) : j < events.length := by
  obtain ⟨d, hadded, -⟩ := h.added
  exact hadded.lt

theorem LastAddedAt.unique {k : Nat} (h : LastAddedAt events i index j)
    (h' : LastAddedAt events i index k) : j = k := by
  have hnot {j k : Nat} (h : LastAddedAt events i index j) (h' : LastAddedAt events i index k) :
      ¬ j < k := fun hlt => by
    obtain ⟨d, hadded, hindex⟩ := h'.added
    exact h.last k d hlt hadded hindex
  exact Nat.le_antisymm (Nat.not_lt.mp (hnot h' h)) (Nat.not_lt.mp (hnot h h'))

/-- What is known does not become known anew. -/
theorem LastAddedAt.snoc (h : LastAddedAt events i index j) (hknown : Known events i index) :
    LastAddedAt (events ++ [event]) i index j where
  added := by
    obtain ⟨d, hadded, hindex⟩ := h.added
    exact ⟨d, addedAt_snoc.mpr (Or.inl hadded), hindex⟩
  last k d hk hadded hindex := by
    rcases addedAt_snoc.mp hadded with hadded | ⟨-, -, hnew⟩
    · exact h.last k d hk hadded hindex
    · exact hnew (hindex ▸ hknown)

theorem AddedBefore.snoc {index' : UInt32} (h : AddedBefore events i index index')
    (hknown : Known events i index) (hknown' : Known events i index') :
    AddedBefore (events ++ [event]) i index index' := by
  obtain ⟨j, k, hj, hk, hlt⟩ := h
  exact ⟨j, k, hj.snoc hknown, hk.snoc hknown', hlt⟩

theorem AddedBefore.asymm {index' : UInt32} (h : AddedBefore events i index index') :
    ¬ AddedBefore events i index' index := by
  rintro ⟨j', k', hj', hk', hlt'⟩
  obtain ⟨j, k, hj, hk, hlt⟩ := h
  obtain rfl := hj.unique hk'
  obtain rfl := hk.unique hj'
  exact hlt.asymm hlt'

theorem lastAddedAt_new (hnew : ¬ Known events i d.index) :
    LastAddedAt (events ++ [.updated i d]) i d.index events.length where
  added := ⟨d, addedAt_snoc.mpr (Or.inr ⟨rfl, rfl, hnew⟩), rfl⟩
  last k d' hk hadded := by
    have hlt := hadded.lt
    rw [List.length_append, List.length_singleton] at hlt
    omega

/-- The indices stand in the order in which they have last become known. -/
structure InOrder (events : List Event) (i : Interface) (indices : List UInt32) : Prop where
  known : ∀ index, index ∈ indices ↔ Known events i index
  added : ∀ index ∈ indices, ∃ j, LastAddedAt events i index j
  ordered : indices.Pairwise (AddedBefore events i)

namespace InOrder

variable {indices indices' : List UInt32}

theorem nodup (h : InOrder events i indices) : indices.Nodup := by
  refine h.ordered.imp fun hbefore heq => ?_
  subst heq
  exact hbefore.asymm hbefore

theorem nil : InOrder [] i [] where
  known index := by
    refine ⟨nofun, ?_⟩
    rintro ⟨d, hd, -⟩
    exact (lastTold_nil hd).elim
  added := nofun
  ordered := .nil

/-- What is left of the indices stays in order, whatever is told. -/
theorem sublist (h : InOrder events i indices) (hsub : indices'.Sublist indices)
    (hknown : ∀ index, index ∈ indices' ↔ Known (events ++ [event]) i index) :
    InOrder (events ++ [event]) i indices' where
  known := hknown
  added index hmem := by
    have hold := hsub.subset hmem
    obtain ⟨j, hj⟩ := h.added index hold
    exact ⟨j, hj.snoc ((h.known index).mp hold)⟩
  ordered := by
    refine (h.ordered.sublist hsub).imp_of_mem fun hx hy hbefore => ?_
    exact hbefore.snoc ((h.known _).mp (hsub.subset hx)) ((h.known _).mp (hsub.subset hy))

theorem append (h : InOrder events i indices) (hnew : d.index ∉ indices) :
    InOrder (events ++ [.updated i d]) i (indices ++ [d.index]) := by
  have hunknown : ¬ Known events i d.index := fun hknown => hnew ((h.known _).mpr hknown)
  have hlast := lastAddedAt_new hunknown
  have hold : ∀ index ∈ indices, ∃ j, LastAddedAt (events ++ [.updated i d]) i index j ∧
      j < events.length := fun index hmem => by
    obtain ⟨j, hj⟩ := h.added index hmem
    exact ⟨j, hj.snoc ((h.known index).mp hmem), hj.lt⟩
  refine ⟨fun index => ?known, fun index hmem => ?added, ?ordered⟩
  case known =>
    rw [known_snoc, List.mem_append, List.mem_singleton, h.known]
    constructor
    · rintro (hknown | rfl)
      · by_cases heq : d.index = index
        · exact Or.inl ⟨d, rfl, heq⟩
        · exact Or.inr ⟨hknown, fun hc => heq hc.2⟩
      · exact Or.inl ⟨d, rfl, rfl⟩
    · rintro (⟨_, ⟨⟩, rfl⟩ | ⟨hknown, -⟩)
      · exact Or.inr rfl
      · exact Or.inl hknown
  case added =>
    rcases List.mem_append.mp hmem with hmem | hmem
    · obtain ⟨j, hj, -⟩ := hold index hmem
      exact ⟨j, hj⟩
    · rw [List.mem_singleton.mp hmem]
      exact ⟨_, hlast⟩
  case ordered =>
    rw [List.pairwise_append]
    refine ⟨h.ordered.imp_of_mem fun hx hy hbefore => ?_, List.pairwise_singleton .., ?_⟩
    · exact hbefore.snoc ((h.known _).mp hx) ((h.known _).mp hy)
    · intro index hmem index' hlast'
      rw [List.mem_singleton.mp hlast']
      obtain ⟨j, hj, hlt⟩ := hold index hmem
      exact ⟨j, _, hj, hlast, hlt⟩

end InOrder

namespace DeviceTable

theorem mem_place {l : List Device} (h : (l.map Device.index).Nodup) (hmem : d' ∈ place l d) :
    d' = d ∨ d' ∈ l ∧ d'.index ≠ d.index := by
  induction l with
  | nil => exact Or.inl (List.mem_singleton.mp hmem)
  | cons e rest ih =>
    obtain ⟨hfirst, hrest⟩ := List.nodup_cons.mp h
    unfold place at hmem
    split at hmem
    · rename_i heq
      rcases List.mem_cons.mp hmem with rfl | hmem
      · exact Or.inl rfl
      · refine Or.inr ⟨List.mem_cons_of_mem _ hmem, fun hsame => hfirst ?_⟩
        rw [heq, ← hsame]
        exact List.mem_map_of_mem hmem
    · rename_i hne
      rcases List.mem_cons.mp hmem with rfl | hmem
      · exact Or.inr ⟨List.mem_cons_self, hne⟩
      · exact (ih hrest hmem).imp_right fun hold => ⟨List.mem_cons_of_mem _ hold.1, hold.2⟩

theorem mem_drop {l : List Device} (h : (l.map Device.index).Nodup) (hmem : d ∈ drop l index) :
    d ∈ l ∧ d.index ≠ index := by
  induction l with
  | nil => exact absurd hmem List.not_mem_nil
  | cons e rest ih =>
    obtain ⟨hfirst, hrest⟩ := List.nodup_cons.mp h
    unfold drop at hmem
    split at hmem
    · rename_i heq
      refine ⟨List.mem_cons_of_mem _ hmem, fun hsame => hfirst ?_⟩
      rw [heq, ← hsame]
      exact List.mem_map_of_mem hmem
    · rename_i hne
      rcases List.mem_cons.mp hmem with rfl | hmem
      · exact ⟨List.mem_cons_self, hne⟩
      · obtain ⟨hold, hother⟩ := ih hrest hmem
        exact ⟨List.mem_cons_of_mem _ hold, hother⟩

/-- To remove what is not there changes nothing. -/
theorem remove_of_get?_eq_none {t : DeviceTable} (h : t.get? index = none) :
    t.remove index = t := by
  have hdrop : ∀ l : List Device, (∀ e ∈ l, e.index ≠ index) → drop l index = l := by
    intro l hl
    induction l with
    | nil => rfl
    | cons e rest ih =>
      obtain ⟨hfirst, hrest⟩ := List.forall_mem_cons.mp hl
      unfold drop
      rw [if_neg hfirst, ih hrest]
  have hnone : ∀ e ∈ t.devices, e.index ≠ index := fun e he hindex =>
    List.find?_eq_none.mp h e he (by simpa using hindex)
  unfold remove
  rw [hdrop t.devices hnone]

end DeviceTable

theorem Tables.remove_of_get?_eq_none {t : Tables} (h : (t.get i).get? index = none) :
    t.remove i index = t := by
  unfold Tables.remove
  rw [DeviceTable.remove_of_get?_eq_none h]
  cases i <;> rfl

/-- The devices of a table are those of the last updates of the known indices, in order. -/
structure Holds (events : List Event) (i : Interface) (t : DeviceTable) : Prop where
  inOrder : InOrder events i t.indices
  told : ∀ d ∈ t.devices, ∃ d', LastTold events i d' ∧ d.Agrees i d'

namespace Holds

variable {t t' : DeviceTable}

theorem congr (h : Holds events i t) (hdevices : t'.devices = t.devices) : Holds events i t' where
  inOrder := by
    unfold DeviceTable.indices
    rw [hdevices]
    exact h.inOrder
  told := by
    rw [hdevices]
    exact h.told

theorem of_devices_eq_nil (h : t.devices = []) : Holds [] i t where
  inOrder := by
    unfold DeviceTable.indices
    rw [h]
    exact .nil
  told := by
    rw [h]
    exact nofun

/-- Each device is the one told just now, or it was there before and is not concerned. -/
theorem snoc (h : Holds events i t) (horder : InOrder (events ++ [event]) i t'.indices)
    (hdevices : ∀ d ∈ t'.devices, (∃ d', event = .updated i d' ∧ d.Agrees i d') ∨
      ∃ d₀ ∈ t.devices, d.Agrees i d₀ ∧ ¬ event.Concerns i d₀.index) :
    Holds (events ++ [event]) i t' where
  inOrder := horder
  told d hd := by
    rcases hdevices d hd with ⟨d', rfl, hagrees⟩ | ⟨d₀, hd₀, hagrees, hother⟩
    · exact ⟨d', lastTold_snoc.mpr (Or.inl rfl), hagrees⟩
    · obtain ⟨d', hlast, hagrees'⟩ := h.told d₀ hd₀
      rw [hagrees'.index_eq] at hother
      exact ⟨d', lastTold_snoc.mpr (Or.inr ⟨hlast, hother⟩), hagrees.trans hagrees'⟩

/-- An event that does not concern the interface at most gives streams other descriptions. -/
theorem beside (h : Holds events i t) (hother : ∀ index, ¬ event.Concerns i index)
    (hindices : t'.indices = t.indices)
    (hdevices : ∀ d ∈ t'.devices, ∃ d₀ ∈ t.devices, d.Agrees i d₀) :
    Holds (events ++ [event]) i t' := by
  refine h.snoc (hindices ▸ h.inOrder.sublist (List.Sublist.refl _) fun index => ?_)
    fun d hd => ?_
  · rw [h.inOrder.known, known_snoc]
    constructor
    · exact fun hknown => Or.inr ⟨hknown, hother index⟩
    · rintro (⟨d, rfl, rfl⟩ | ⟨hknown, -⟩)
      · exact absurd ⟨rfl, rfl⟩ (hother d.index)
      · exact hknown
  · obtain ⟨d₀, hd₀, hagrees⟩ := hdevices d hd
    exact Or.inr ⟨d₀, hd₀, hagrees, hother _⟩

/-- The device that is put in may keep the description of the one in its place. -/
theorem put (h : Holds events i t) (hd : d'.Agrees i d) :
    Holds (events ++ [.updated i d]) i (t.put d') := by
  refine h.snoc ?_ fun e he => ?_
  · rw [DeviceTable.indices_put, hd.index_eq]
    split
    · rename_i hmem
      refine h.inOrder.sublist (List.Sublist.refl _) fun index => ?_
      rw [h.inOrder.known, known_snoc]
      constructor
      · intro hknown
        by_cases heq : d.index = index
        · exact Or.inl ⟨d, rfl, heq⟩
        · exact Or.inr ⟨hknown, fun hconcerns => heq hconcerns.2⟩
      · rintro (⟨_, ⟨⟩, rfl⟩ | ⟨hknown, -⟩)
        · exact (h.inOrder.known _).mp hmem
        · exact hknown
    · rename_i hnew
      exact h.inOrder.append hnew
  · rcases DeviceTable.mem_place h.inOrder.nodup he with rfl | ⟨hold, hne⟩
    · exact Or.inl ⟨d, rfl, hd⟩
    · refine Or.inr ⟨e, hold, Or.inl rfl, fun hconcerns => hne ?_⟩
      rw [hd.index_eq, hconcerns.2]

theorem remove (h : Holds events i t) (index : UInt32) :
    Holds (events ++ [.removed i index]) i (t.remove index) := by
  refine h.snoc ?_ fun e he => ?_
  · rw [DeviceTable.indices_remove]
    refine h.inOrder.sublist List.erase_sublist fun k => ?_
    rw [h.inOrder.nodup.mem_erase_iff, h.inOrder.known, known_snoc]
    constructor
    · rintro ⟨hne, hknown⟩
      exact Or.inr ⟨hknown, fun hconcerns => hne hconcerns.2.symm⟩
    · rintro (⟨_, ⟨⟩, -⟩ | ⟨hknown, hother⟩)
      exact ⟨fun heq => hother ⟨rfl, heq.symm⟩, hknown⟩
  · obtain ⟨hold, hne⟩ := DeviceTable.mem_drop h.inOrder.nodup he
    exact Or.inr ⟨e, hold, Or.inl rfl, fun hconcerns => hne hconcerns.2.symm⟩

end Holds

theorem Tables.keepDescription_agrees (t : Tables) (i : Interface) (d : Device) :
    (t.keepDescription i d).Agrees i d := by
  unfold Tables.keepDescription
  split
  · rename_i hkept
    exact Or.inr ⟨hkept.1, rfl⟩
  · exact Or.inl rfl

theorem Tables.rename_agrees {t : Tables} {client : UInt32} {name : String}
    (h : d ∈ ((t.rename client name).2.get i).devices) :
    ∃ d₀ ∈ (t.get i).devices, d.Agrees i d₀ := by
  cases i with
  | sink => exact ⟨d, h, Or.inl rfl⟩
  | source => exact ⟨d, h, Or.inl rfl⟩
  | client =>
    obtain ⟨d₀, hd₀, rfl⟩ := List.mem_map.mp h
    refine ⟨d₀, hd₀, ?_⟩
    split
    · exact Or.inr ⟨rfl, rfl⟩
    · exact Or.inl rfl

theorem Tables.devices_setDefault (t : Tables) (k : Interface) (name : String) (byUser : Bool)
    (i : Interface) : ((t.setDefault k name byUser).2.get i).devices = (t.get i).devices := by
  show ((t.set k ((t.get k).setDefault name byUser).2).get i).devices = (t.get i).devices
  rw [get_set]
  split
  · rename_i heq
    subst heq
    unfold DeviceTable.setDefault
    split <;> rfl
  · rfl

theorem Tables.devices_setServerDefaults (t : Tables) (sink source : String) (i : Interface) :
    ((t.setServerDefaults sink source).2.get i).devices = (t.get i).devices :=
  (devices_setDefault _ .source source false i).trans (t.devices_setDefault .sink sink false i)

/-- What the tables hold is what the events have come to, one event more included. -/
theorem Holds.made {t : Tables} (h : ∀ i, Holds events i (t.get i)) (event : Event)
    (i : Interface) : Holds (events ++ [event]) i ((Change.made t (.told event)).get i) := by
  cases event with
  | updated k d =>
    show Holds _ i ((t.set k _).get i)
    rw [Tables.get_set]
    split
    · rename_i heq
      subst heq
      exact (h i).put (t.keepDescription_agrees i d)
    · rename_i hne
      exact (h i).beside (fun _ hconcerns => hne hconcerns.1.symm) rfl
        fun d hd => ⟨d, hd, Or.inl rfl⟩
  | removed k index =>
    show Holds _ i ((t.set k _).get i)
    rw [Tables.get_set]
    split
    · rename_i heq
      subst heq
      exact (h i).remove index
    · rename_i hne
      exact (h i).beside (fun _ hconcerns => hne hconcerns.1.symm) rfl
        fun d hd => ⟨d, hd, Or.inl rfl⟩
  | renamed client name =>
    exact (h i).beside (fun _ => not_false) (t.indices_rename client name i)
      fun d hd => Tables.rename_agrees hd
  | defaults sink source =>
    have hsame := t.devices_setServerDefaults sink source i
    refine (h i).beside (fun _ => not_false) (congrArg (List.map Device.index) hsame) fun d hd => ?_
    exact ⟨d, hsame ▸ hd, Or.inl rfl⟩

end LiveExpr.Mixer
