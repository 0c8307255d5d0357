import LiveExpr.Proofs.TableHistories

/-!
The names of programs as the descriptions of their streams. A name is told for a program, once, and
is given to the streams that the program has at that moment. A stream that appears later is without
a name until the next one is told, since nobody keeps the names of programs. A stream keeps its
name as long as it is there, though updates do not mention it, and loses it when it is removed.
-/
namespace LiveExpr

namespace Mixer

/-- The name that the event tells of the program. -/
def Event.names? (client : UInt32) : Event → Option String
  | .renamed client' name => if client' = client then some name else none
  | _ => none

/-- From the time on, each update of the stream says that the program owns it, and has no
description. -/
def PlainSince (events : List Event) (index : UInt32) (j : Nat) (client : UInt32) : Prop :=
  ∀ k d, j ≤ k → events[k]? = some (.updated .client d) → d.index = index →
    d.client = some client ∧ d.description = none

variable {events : List Event} {event : Event} {index client : UInt32} {j : Nat} {d : Device}

theorem plainSince_of_forall (h : ∀ d, .updated .client d ∈ events →
    d.client = some client ∧ d.description = none) (index : UInt32) (j : Nat) :
    PlainSince events index j client :=
  fun _ d _ hd _ => h d (List.mem_of_getElem? hd)

theorem PlainSince.last (h : PlainSince (events ++ [.updated .client d]) d.index j client)
    (hj : j ≤ events.length) : d.client = some client ∧ d.description = none :=
  h events.length d hj (by simp) rfl

/-- One more event does not make a stream that is there appear anew. -/
theorem since_snoc (hknown : Known events .client index)
    (hin : ∃ j, LastAddedAt events .client index j)
    (hadded : LastAddedAt (events ++ [event]) .client index j)
    (hplain : PlainSince (events ++ [event]) index j client) :
    LastAddedAt events .client index j ∧ PlainSince events index j client ∧
      lastOf (Event.names? client) ((events ++ [event]).drop j) =
        (event.names? client).or (lastOf (Event.names? client) (events.drop j)) := by
  obtain ⟨j', hj'⟩ := hin
  obtain rfl : j' = j := (hj'.snoc hknown).unique hadded
  refine ⟨hj', fun k d hk hd hindex => hplain k d hk ?_ hindex, ?_⟩
  · rw [List.getElem?_append_left (List.getElem?_eq_some_iff.mp hd).1]
    exact hd
  · rw [List.drop_append_of_le_length hj'.lt.le, lastOf_snoc]

/-- The streams have the names that have been told of their programs since they were added. -/
def Named (events : List Event) (t : DeviceTable) : Prop :=
  ∀ d ∈ t.devices, ∀ j client, LastAddedAt events .client d.index j →
    PlainSince events d.index j client →
    d.client = some client ∧ d.description = lastOf (Event.names? client) (events.drop j)

namespace Named

variable {t t' : DeviceTable}

/-- It is enough to look at each device that was there before, and at one that appears. -/
theorem snoc (h : Named events t) (hholds : Holds events .client t)
    (hdevices : ∀ d ∈ t'.devices, ∀ j client, LastAddedAt (events ++ [event]) .client d.index j →
      PlainSince (events ++ [event]) d.index j client →
      (∃ d₀ ∈ t.devices, d₀.index = d.index ∧ (d₀.client = some client →
        d.client = some client ∧
          d.description = (event.names? client).or d₀.description)) ∨
      j = events.length ∧ event.names? client = none ∧ d.client = some client ∧
        d.description = none) : Named (events ++ [event]) t' := by
  intro d hd j client hadded hplain
  rcases hdevices d hd j client hadded hplain with
    ⟨d₀, hd₀, hindex, hnext⟩ | ⟨rfl, hnone, hclient, hdescription⟩
  · have hmem : d.index ∈ t.indices := hindex ▸ List.mem_map_of_mem hd₀
    obtain ⟨hadded₀, hplain₀, hlast⟩ := since_snoc ((hholds.inOrder.known _).mp hmem)
      (hholds.inOrder.added _ hmem) hadded hplain
    obtain ⟨hclient, hdescription⟩ := h d₀ hd₀ j client (hindex ▸ hadded₀) (hindex ▸ hplain₀)
    rw [hlast, ← hdescription]
    exact hnext hclient
  · have hlast : lastOf (Event.names? client) ([] ++ [event]) = none := by
      rw [lastOf_snoc, hnone]
      rfl
    rw [List.drop_left]
    exact ⟨hclient, hdescription.trans hlast.symm⟩

/-- An event that leaves the streams alone tells no name. -/
theorem beside (h : Named events t) (hholds : Holds events .client t)
    (hnone : ∀ client, event.names? client = none)
    (hdevices : ∀ d ∈ t'.devices, d ∈ t.devices) : Named (events ++ [event]) t' :=
  h.snoc hholds fun d hd _ client _ _ =>
    Or.inl ⟨d, hdevices d hd, rfl, fun hclient => ⟨hclient, by rw [hnone, Option.none_or]⟩⟩

/-- Where nothing has been told of the index, there is no description to keep. -/
theorem put (h : Named events t) (hholds : Holds events .client t) (d : Device) :
    Named (events ++ [.updated .client d])
      (t.put (if d.description = none then
        { d with description := (t.get? d.index).bind Device.description } else d)) := by
  refine h.snoc hholds fun d' hd' j client hadded hplain => ?_
  rcases DeviceTable.mem_place hholds.inOrder.nodup hd' with rfl | ⟨hold, -⟩
  · have hindex : (if d.description = none then
        { d with description := (t.get? d.index).bind Device.description } else d).index =
        d.index := by split <;> rfl
    rw [hindex] at hadded hplain
    have hlt := hadded.lt
    rw [List.length_append, List.length_singleton] at hlt
    obtain ⟨hclient, hdescription⟩ := hplain.last (by omega)
    rw [if_pos hdescription]
    -- A stream that is known hands its description on, and a new one has none.
    cases hfound : t.get? d.index with
    | none =>
      have hunknown : ¬ Known events .client d.index := by
        rw [← hholds.get?_isSome_iff, hfound]
        exact Bool.false_ne_true
      exact Or.inr ⟨hadded.unique (lastAddedAt_new hunknown), rfl, hclient, rfl⟩
    | some d₀ =>
      obtain ⟨hd₀, hindex₀⟩ := (DeviceTable.get?_eq_some_iff hholds.inOrder.nodup).mp hfound
      exact Or.inl ⟨d₀, hd₀, hindex₀, fun _ => ⟨hclient, rfl⟩⟩
  · exact Or.inl ⟨d', hold, rfl, fun hclient => ⟨hclient, rfl⟩⟩

theorem rename (h : Named events t) (hholds : Holds events .client t) (client : UInt32)
    (name : String) :
    Named (events ++ [.renamed client name])
      (Tables.rename ⟨.empty, .empty, t⟩ client name).2.client := by
  refine h.snoc hholds fun d hd j owner _ _ => ?_
  obtain ⟨d₀, hd₀, rfl⟩ := List.mem_map.mp hd
  refine Or.inl ⟨d₀, hd₀, by split <;> rfl, fun howner => ?_⟩
  by_cases hsame : client = owner
  · subst hsame
    have hname : Event.names? client (.renamed client name) = some name := if_pos rfl
    rw [hname, Option.some_or]
    split
    · exact ⟨howner, rfl⟩
    · rename_i hneeds
      simp only [Tables.needsName, howner, beq_self_eq_true, Bool.true_and, bne_iff_ne,
        not_not] at hneeds
      exact ⟨howner, hneeds⟩
  · have hother : ¬ Tables.needsName d₀ client name = true := by
      simp [Tables.needsName, howner, Ne.symm hsame]
    have hname : Event.names? owner (.renamed client name) = none := if_neg hsame
    rw [if_neg hother, hname, Option.none_or]
    exact ⟨howner, rfl⟩

/-- What one event does to the names. -/
theorem made {t : Tables} (h : Named events (t.get .client))
    (hholds : Holds events .client (t.get .client)) (event : Event) :
    Named (events ++ [event]) ((Change.made t (.told event)).get .client) := by
  rw [Change.get_made]
  cases event with
  | updated i d =>
    by_cases hi : i = .client
    · subst hi
      simp only [Change.part?, if_pos, Option.map_some, Option.getD_some, Part.made, true_and]
      exact h.put hholds d
    · simp only [Change.part?, if_neg hi, Option.map_none, Option.getD_none]
      exact h.beside hholds (fun _ => rfl) fun _ hd => hd
  | removed i index =>
    refine h.beside hholds (fun _ => rfl) fun d hd => ?_
    by_cases hi : i = .client
    · simp only [Change.part?, if_pos hi, Option.map_some, Option.getD_some] at hd
      exact (DeviceTable.mem_drop hholds.inOrder.nodup hd).1
    · simpa only [Change.part?, if_neg hi, Option.map_none, Option.getD_none] using hd
  | renamed client name => exact h.rename hholds client name
  | defaults sink source => exact h.beside hholds (fun _ => rfl) fun _ hd => hd

end Named

theorem named_after (changes : List Change) :
    Named (heard changes) ((Tables.empty.after changes).get .client) := by
  induction changes using List.reverseRecOn with
  | nil => exact fun d hd => absurd hd List.not_mem_nil
  | append_singleton changes c ih =>
    rw [Tables.after_append_singleton]
    cases c with
    | told event =>
      rw [heard_snoc_told]
      exact ih.made (holds_after changes .client) event
    | fixed i name =>
      rw [heard_snoc_fixed]
      have hsame :
          ((Change.made (Tables.empty.after changes) (.fixed i name)).get .client).devices =
            ((Tables.empty.after changes).get .client).devices :=
        Tables.devices_setDefault _ i name true .client
      exact fun d hd => ih d (hsame ▸ hd)

variable {C : Host} {call : Callbacks (extend C)} {n : Nat} {changes : List Change}
  {e e' : Engine (extend C)}

/-- At the end of a run, a stream whose updates since it was added all say that the program owns it,
without a description, has the name that has been told last of the program since then. -/
theorem streams_named_since_added (hempty : tables? n e.host = some .empty)
    (h : Undergoes call n none e changes e') :
    ∃ m, (e'.host.mixers : List Mixer)[n]? = some m ∧ ∀ d ∈ m.tables.client.devices,
      ∃ j, LastAddedAt (heard changes) .client d.index j ∧
        ∀ client, PlainSince (heard changes) d.index j client →
          d.description = lastOf (Event.names? client) ((heard changes).drop j) := by
  obtain ⟨m, hm, htables⟩ := Option.map_eq_some_iff.mp (h.tables hempty)
  refine ⟨m, hm, fun d hd => ?_⟩
  have hmem : d ∈ ((Tables.empty.after changes).get .client).devices := htables ▸ hd
  obtain ⟨j, hadded⟩ :=
    (holds_after changes .client).inOrder.added d.index (List.mem_map_of_mem hmem)
  exact ⟨j, hadded, fun client hplain => (named_after changes d hmem j client hadded hplain).2⟩

end Mixer

namespace Bare

open Mixer

def stream : Device := { speakers with index := 12, name := "player", client := some 77 }

/-- The name is told first, and the stream that appears after that has none. -/
theorem stream_without_earlier_name :
    ¬ ∀ (changes : List Change) (e e' : Engine (extend Bare)),
      tables? (C := Bare) 0 e.host = some .empty →
      Undergoes (script.callbacks 4 2) 0 none e changes e' →
      ∀ m : Mixer, (e'.host.mixers : List Mixer)[0]? = some m →
      ∀ d ∈ m.tables.client.devices, ∀ j, LastAddedAt (heard changes) .client d.index j →
        ∀ client, PlainSince (heard changes) d.index j client →
          d.description = lastOf (Event.names? client) (heard changes) := by
  intro h
  obtain ⟨_, hrenamed⟩ := undergoes_renamed (s := blank) rfl 77 "Music" []
  obtain ⟨_, hadded⟩ := undergoes_updated (s := blank.withTables 0 _) rfl .client (d := stream)
    rfl _
  have hrun := Undergoes.made_alone (.told (.renamed 77 "Music")) hrenamed
    (.made_alone (.told (.updated .client stream)) hadded (.quiet _))
  have hunknown : ¬ Known [.renamed 77 "Music"] .client stream.index := by
    rintro ⟨d, hd, -⟩
    exact absurd hd.mem (by simp)
  have hplain : ∀ d, Event.updated .client d ∈ [.renamed 77 "Music", .updated .client stream] →
      d.client = some 77 ∧ d.description = none := by
    simp [stream, speakers]
  have hname := h _ (unheard blank []) _ rfl hrun _ rfl stream List.mem_cons_self 1
    (lastAddedAt_new hunknown) 77 (plainSince_of_forall hplain _ _)
  cases hname

/-- The stream is there when the name is told. -/
theorem streams_named_since_added_player :
    let changes : List Change := [.told (.updated .client stream), .told (.renamed 77 "Music")]
    ∃ (e' : Engine (extend Bare)) (m : Mixer),
      tables? (C := Bare) 0 blank = some .empty ∧
      Undergoes (script.callbacks 4 2) 0 none (unheard blank []) changes e' ∧
      (e'.host.mixers : List Mixer)[0]? = some m ∧
      (∃ d ∈ m.tables.client.devices, d.index = 12) ∧
      ∀ d ∈ m.tables.client.devices, d.description = some "Music" := by
  intro changes
  obtain ⟨_, hadded⟩ := undergoes_updated (s := blank) rfl .client (d := stream) rfl []
  obtain ⟨_, hrenamed⟩ := undergoes_renamed (s := blank.withTables 0 _) rfl 77 "Music" _
  have hrun := Undergoes.made_alone (.told (.updated .client stream)) hadded
    (.made_alone (.told (.renamed 77 "Music")) hrenamed (.quiet _))
  obtain ⟨m, hm, hnames⟩ := streams_named_since_added (C := Bare) (e := unheard blank []) rfl hrun
  have htables : m.tables = Tables.empty.after changes := hrun.tables_eq rfl hm
  refine ⟨_, m, rfl, hrun, hm, ⟨{ stream with description := some "Music" }, ?_, rfl⟩,
    fun d hd => ?_⟩
  · rw [htables]
    exact List.mem_cons_self
  · obtain ⟨j, hj, hname⟩ := hnames d hd
    obtain ⟨d', ⟨htold, -⟩, -⟩ := hj.added
    have hplain : ∀ d,
        Event.updated .client d ∈ [.updated .client stream, .renamed 77 "Music"] →
        d.client = some 77 ∧ d.description = none := by
      simp [stream, speakers]
    have hlt : j < 2 := hj.lt
    obtain rfl | rfl : j = 0 ∨ j = 1 := by omega
    · exact hname 77 (plainSince_of_forall hplain _ _)
    · cases htold

end Bare

end LiveExpr
