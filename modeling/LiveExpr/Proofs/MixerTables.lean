import LiveExpr.Proofs.MixerChanges
import Mathlib

/-!
What becomes of the tables of a mixer. They change by events and by the defaults that the
user fixes, and no such change makes two devices of a table share their index. Hence each
device is the one that is found by its index. Of the channels of a device, the last one at a
position is the one that is found there.
-/
namespace LiveExpr.Mixer

namespace DeviceTable

variable {t : DeviceTable} {d : Device}

/-- The indices of the devices, in the order of the devices. -/
def indices (t : DeviceTable) : List UInt32 := t.devices.map Device.index

theorem map_index_place (l : List Device) (d : Device) :
    (place l d).map Device.index =
      if d.index ∈ l.map Device.index then l.map Device.index
      else l.map Device.index ++ [d.index] := by
  induction l with
  | nil => rfl
  | cons e rest ih =>
    unfold place
    by_cases h : e.index = d.index
    · simp [h]
    · rw [if_neg h, List.map_cons, ih]
      by_cases hmem : d.index ∈ rest.map Device.index
      · simp [hmem]
      · simp [hmem, Ne.symm h]

theorem map_index_drop (l : List Device) (index : UInt32) :
    (drop l index).map Device.index = (l.map Device.index).erase index := by
  induction l with
  | nil => rfl
  | cons e rest ih =>
    unfold drop
    rw [List.map_cons, List.erase_cons]
    by_cases h : e.index = index
    · simp [h]
    · simp [h, ih]

/-- A new index comes last. -/
theorem indices_put (t : DeviceTable) (d : Device) :
    (t.put d).indices = if d.index ∈ t.indices then t.indices else t.indices ++ [d.index] :=
  map_index_place t.devices d

theorem indices_remove (t : DeviceTable) (index : UInt32) :
    (t.remove index).indices = t.indices.erase index := map_index_drop t.devices index

theorem nodup_put (h : t.indices.Nodup) (d : Device) : (t.put d).indices.Nodup := by
  rw [indices_put]
  split
  · exact h
  · rename_i hnew
    refine h.append (List.nodup_singleton _) fun index hmem hlast => hnew ?_
    rwa [← List.mem_singleton.mp hlast]

theorem nodup_remove (h : t.indices.Nodup) (index : UInt32) : (t.remove index).indices.Nodup := by
  rw [indices_remove]
  exact h.erase index

theorem indices_setDefault (t : DeviceTable) (name : String) (byUser : Bool) :
    (t.setDefault name byUser).2.indices = t.indices := by
  unfold setDefault
  split <;> rfl

/-- If no two devices share their index, each is the one that is found by its own. -/
theorem get?_eq_some_iff (h : t.indices.Nodup) {index : UInt32} :
    t.get? index = some d ↔ d ∈ t.devices ∧ d.index = index := by
  unfold get?
  constructor
  · intro hfound
    exact ⟨List.mem_of_find?_eq_some hfound, by simpa using List.find?_some hfound⟩
  · rintro ⟨hd, rfl⟩
    cases hfound : t.devices.find? fun e => e.index == d.index with
    | none => exact absurd (beq_self_eq_true d.index) (List.find?_eq_none.mp hfound d hd)
    | some e =>
      have hsame : e.index = d.index := by simpa using List.find?_some hfound
      rw [List.inj_on_of_nodup_map h (List.mem_of_find?_eq_some hfound) hd hsame]

end DeviceTable

/-- What changes the tables of a mixer: what it is told, and the defaults that the user fixes. -/
inductive Change where
  | told (event : Event)
  | fixed (i : Interface) (name : String)

def Change.made (t : Tables) : Change → Tables
  | .told (.updated i d) => t.update i d
  | .told (.removed i index) => t.remove i index
  | .told (.renamed client name) => (t.rename client name).2
  | .told (.defaults sink source) => (t.setServerDefaults sink source).2
  | .fixed i name => (t.setDefault i name true).2

namespace Tables

variable {t : Tables}

/-- The tables after some changes, of which the first one comes first. -/
def after (t : Tables) (changes : List Change) : Tables := changes.foldl Change.made t

theorem after_append_singleton (t : Tables) (changes : List Change) (c : Change) :
    t.after (changes ++ [c]) = c.made (t.after changes) := List.foldl_concat ..

/-- No two devices of an interface share their index. -/
def Distinct (t : Tables) : Prop := ∀ i, (t.get i).indices.Nodup

theorem Distinct.set (h : t.Distinct) {i : Interface} {table : DeviceTable}
    (htable : table.indices.Nodup) : (t.set i table).Distinct := by
  intro j
  rw [get_set]
  split
  · exact htable
  · exact h j

theorem distinct_empty : empty.Distinct := by
  intro i
  cases i <;> exact List.nodup_nil

theorem Distinct.setDefault (h : t.Distinct) (i : Interface) (name : String) (byUser : Bool) :
    (t.setDefault i name byUser).2.Distinct := by
  show (t.set i ((t.get i).setDefault name byUser).2).Distinct
  refine h.set ?_
  rw [DeviceTable.indices_setDefault]
  exact h i

/-- The devices keep their indices when they get names. -/
theorem indices_rename (t : Tables) (client : UInt32) (name : String) (i : Interface) :
    ((t.rename client name).2.get i).indices = (t.get i).indices := by
  cases i with
  | sink => rfl
  | source => rfl
  | client =>
    show (List.map _ t.client.devices).map Device.index = t.client.devices.map Device.index
    rw [List.map_map]
    refine List.map_congr_left fun d _ => ?_
    show Device.index (if needsName d client name then _ else d) = d.index
    split <;> rfl

theorem Distinct.rename (h : t.Distinct) (client : UInt32) (name : String) :
    (t.rename client name).2.Distinct := by
  intro i
  rw [indices_rename]
  exact h i

theorem Distinct.made (h : t.Distinct) (c : Change) : (c.made t).Distinct := by
  cases c with
  | told event =>
    cases event with
    | updated i d => exact h.set (DeviceTable.nodup_put (h i) _)
    | removed i index => exact h.set (DeviceTable.nodup_remove (h i) index)
    | renamed client name => exact h.rename client name
    | defaults sink source => exact (h.setDefault .sink sink false).setDefault .source source false
  | fixed i name => exact h.setDefault i name true

theorem Distinct.after (h : t.Distinct) (changes : List Change) : (t.after changes).Distinct := by
  induction changes generalizing t with
  | nil => exact h
  | cons c rest ih => exact ih (h.made c)

end Tables

namespace Device

/-- The channel is the last one at the position. Upper and lower case are the same. -/
structure LastAt (d : Device) (position : String) (k : Nat) (c : ChannelVolume) : Prop where
  channel : d.channels[k]? = some c
  same : Text.sameIgnoringCase c.position position = true
  last : ∀ (j : Nat) c', k < j → d.channels[j]? = some c' →
    Text.sameIgnoringCase c'.position position = false

theorem LastAt.unique {d : Device} {position : String} {k k' : Nat} {c c' : ChannelVolume}
    (h : d.LastAt position k c) (h' : d.LastAt position k' c') : k = k' ∧ c = c' := by
  have hnot {j j' : Nat} {b b' : ChannelVolume} (h : d.LastAt position j b)
      (h' : d.LastAt position j' b') : ¬ j < j' := fun hlt =>
    Bool.eq_false_iff.mp (h.last j' b' hlt h'.channel) h'.same
  obtain rfl : k = k' := Nat.le_antisymm (Nat.not_lt.mp (hnot h' h)) (Nat.not_lt.mp (hnot h h'))
  exact ⟨rfl, Option.some.inj (h.channel.symm.trans h'.channel)⟩

/-- With its number, the last entry that passes a test is the last one of those that pass it. -/
theorem getLast?_filter_zipIdx {α : Type} (p : α → Bool) (l : List α) :
    ((l.zipIdx.filter fun x => p x.1).getLast? = none ∧ ∀ x ∈ l, p x = false) ∨
      ∃ (k : Nat) (x : α), (l.zipIdx.filter fun x => p x.1).getLast? = some (x, k) ∧
        l[k]? = some x ∧ p x = true ∧ ∀ (j : Nat) y, k < j → l[j]? = some y → p y = false := by
  induction l using List.reverseRecOn with
  | nil => exact Or.inl ⟨rfl, nofun⟩
  | append_singleton l x ih =>
    rw [List.zipIdx_append, List.filter_append]
    by_cases hx : p x
    · refine Or.inr ⟨l.length, x, by simp [hx], by simp, hx, ?_⟩
      grind
    · have hskipped : ([x].zipIdx (0 + l.length)).filter (fun x => p x.1) = [] := by
        simp [hx]
      rw [hskipped, List.append_nil]
      rcases ih with ⟨hnone, hall⟩ | ⟨k, y, hlast, hk, hy, hall⟩
      · refine Or.inl ⟨hnone, ?_⟩
        grind
      · refine Or.inr ⟨k, y, hlast, ?_, hy, ?_⟩
        · grind
        · grind

/-- The number that stands for a position: that of the last channel there, or none. -/
theorem channelNumber?_cases (d : Device) (position : String) :
    (d.channelNumber? position = none ∧
        ∀ c ∈ d.channels, Text.sameIgnoringCase c.position position = false) ∨
      ∃ k c, d.channelNumber? position = some (k + 1) ∧ d.LastAt position k c := by
  unfold channelNumber?
  dsimp only
  rcases getLast?_filter_zipIdx (fun c => Text.sameIgnoringCase c.position position) d.channels with
    ⟨hnone, hall⟩ | ⟨k, c, hlast, hk, hc, hall⟩
  · rw [hnone]
    exact Or.inl ⟨rfl, hall⟩
  · rw [hlast]
    exact Or.inr ⟨k, c, rfl, hk, hc, hall⟩

end Device

end LiveExpr.Mixer
