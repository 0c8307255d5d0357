import LiveExpr.Proofs.TableHistories

/-!
The default device of an interface. Its name is the one that the user fixed last, and the one that
the server told last as long as the user has fixed none. Where no address is given, the device with
that name stands for the interface, the one added first if several have it. If there is none now,
nothing stands for it, until such a device is added. That the sink and the source have the server's
word in one event does not make them depend on each other.
-/
namespace LiveExpr

namespace Mixer

/-- The default that the change fixes for the interface. -/
def Change.fixes? (i : Interface) : Change → Option String
  | .told _ => none
  | .fixed j name => if j = i then some name else none

/-- The default of the interface that the server tells. -/
def Change.serves? (i : Interface) : Change → Option String
  | .told (.defaults sink source) =>
    match i with
    | .sink => some sink
    | .source => some source
    | .client => none
  | _ => none

def defaultAfter (i : Interface) (changes : List Change) : Option String :=
  (lastOf (Change.fixes? i) changes).or (lastOf (Change.serves? i) changes)

/-- The default that the part brings, by the user or by the server. -/
def Part.name? (byUser : Bool) : Part → Option String
  | .default name byUser' => if byUser' = byUser then some name else none
  | _ => none

/-- Which default a change fixes, and which one it has from the server, can be seen from the part
that concerns the interface. -/
theorem Change.default_parts (c : Change) (i : Interface) :
    c.fixes? i = (c.part? i).bind (Part.name? true) ∧
      c.serves? i = (c.part? i).bind (Part.name? false) := by
  rcases c with (⟨j, d⟩ | ⟨j, index⟩ | ⟨client, name⟩ | ⟨sink, source⟩) | ⟨j, name⟩
  case told.defaults => cases i <;> exact ⟨rfl, rfl⟩
  all_goals
    simp only [Change.fixes?, Change.serves?, Change.part?]
    split <;> exact ⟨rfl, rfl⟩

/-- The server's word counts as long as no default is fixed. -/
theorem Part.made_default (i : Interface) (t : DeviceTable) (part : Part) :
    (part.made i t).defaultName = (part.name? true).or
        (if t.fixed then t.defaultName else (part.name? false).or t.defaultName) ∧
      (part.made i t).fixed = ((part.name? true).isSome || t.fixed) := by
  cases part with
  | default name byUser =>
    cases hfixed : t.fixed <;> cases byUser <;>
      simp [Part.made, Part.name?, DeviceTable.setDefault, hfixed]
  | _ =>
    refine ⟨?_, rfl⟩
    show t.defaultName = none.or (if t.fixed then t.defaultName else none.or t.defaultName)
    rw [Option.none_or, Option.none_or, ite_self]

/-- A default that is fixed stays until another one is. -/
theorem default_after (i : Interface) (changes : List Change) :
    ((Tables.empty.after changes).get i).defaultName = defaultAfter i changes ∧
      ((Tables.empty.after changes).get i).fixed = (lastOf (Change.fixes? i) changes).isSome := by
  induction changes using List.reverseRecOn with
  | nil => cases i <;> exact ⟨rfl, rfl⟩
  | append_singleton changes c ih =>
    obtain ⟨hname, hfixed⟩ := ih
    obtain ⟨hfixes, hserves⟩ := c.default_parts i
    unfold defaultAfter at hname ⊢
    rw [Tables.after_append_singleton, c.get_made, lastOf_snoc, lastOf_snoc, hfixes, hserves]
    cases c.part? i with
    | none => exact ⟨hname, hfixed⟩
    | some part =>
      obtain ⟨hname', hfixed'⟩ := part.made_default i ((Tables.empty.after changes).get i)
      rw [Option.map_some, Option.getD_some, Option.bind_some, Option.bind_some, hname', hfixed',
        hname, hfixed]
      cases lastOf (Change.fixes? i) changes <;> cases part.name? true <;> simp

/-- The device has the default name, and of those that have it now it was added first. -/
structure DefaultFor (changes : List Change) (i : Interface) (t : DeviceTable) (d : Device) :
    Prop where
  present : d ∈ t.devices
  named : defaultAfter i changes = some d.name
  first : ∀ d' ∈ t.devices, d'.name = d.name →
    d' = d ∨ AddedBefore (heard changes) i d.index d'.index

section Resolve

variable {changes : List Change} {i : Interface} {t : DeviceTable} {d : Device}

/-- There is one such device at most, and then it is what no address resolves to. -/
theorem resolve_none_cases (hname : t.defaultName = defaultAfter i changes)
    (hholds : Holds (heard changes) i t) :
    (t.resolve none = none ∧ ∀ d, ¬ DefaultFor changes i t d) ∨
      ∃ d, t.resolve none = some (d, 0) ∧ ∀ d', DefaultFor changes i t d' ↔ d' = d := by
  have hfor (d : Device) :
      DefaultFor changes i t d ↔ (defaultAfter i changes).bind t.named? = some d := by
    rw [Option.bind_eq_some_iff]
    constructor
    · rintro ⟨hmem, hdefault, hfirst⟩
      exact ⟨d.name, hdefault, hholds.named?_eq_some_iff.mpr ⟨hmem, rfl, hfirst⟩⟩
    · rintro ⟨name, hdefault, hfound⟩
      obtain ⟨hmem, rfl, hfirst⟩ := hholds.named?_eq_some_iff.mp hfound
      exact ⟨hmem, hdefault, hfirst⟩
  have hresolve : t.resolve none =
      ((defaultAfter i changes).bind t.named?).bind fun d => some (d, 0) := by
    rw [← hname]
    rfl
  rw [hresolve]
  cases hfound : (defaultAfter i changes).bind t.named? with
  | none =>
    refine Or.inl ⟨rfl, fun d hd => ?_⟩
    rw [hfor, hfound] at hd
    cases hd
  | some d =>
    refine Or.inr ⟨d, rfl, fun d' => ?_⟩
    rw [hfor, hfound, Option.some_inj, eq_comm]

end Resolve

variable {C : Host} {call : Callbacks (extend C)} {n : Nat} {changes : List Change}
  {e e' : Engine (extend C)} {i : Interface}

/-- How queries without an address are answered. -/
structure Unaddressed (call : Callbacks (extend C)) (n : Nat) (changes : List Change)
    (e : Engine (extend C)) (i : Interface) (t : DeviceTable) : Prop where
  found : ∀ question property d, Interface.split? question = some (i, property) →
    Text.sameIgnoringCase property "count" = false → DefaultFor changes i t d →
    ((query n question none).run call).run e = some (d.property 0 property, e)
  unset : ∀ question property, Interface.split? question = some (i, property) →
    Text.sameIgnoringCase property "count" = false → (∀ d, ¬ DefaultFor changes i t d) →
    ((query n question none).run call).run e = some (.unset, e)
  count : ∀ question property, Interface.split? question = some (i, property) →
    Text.sameIgnoringCase property "count" = true →
    ((query n question none).run call).run e =
      some (.number (Float.ofNat {index | Known (heard changes) i index}.ncard), e)

theorem unaddressed {m : Mixer} (hm : (e.host.mixers : List Mixer)[n]? = some m)
    (hname : (m.tables.get i).defaultName = defaultAfter i changes)
    (hholds : Holds (heard changes) i (m.tables.get i)) :
    Unaddressed call n changes e i (m.tables.get i) := by
  have hanswer (question property : String)
      (hsplit : Interface.split? question = some (i, property))
      (hcount : Text.sameIgnoringCase property "count" = false) :
      m.tables.query question none = (((m.tables.get i).resolve none).map fun found =>
        found.1.property found.2 property).getD .unset := by
    unfold Tables.query
    rw [hsplit]
    dsimp only
    rw [hcount]
    cases (m.tables.get i).resolve none <;> rfl
  refine ⟨fun question property d hsplit hcount hd => ?_,
    fun question property hsplit hcount hnone => ?_, fun question property hsplit hcount => ?_⟩
  · rw [query_run_of_mixer hm, hanswer question property hsplit hcount]
    rcases resolve_none_cases hname hholds with ⟨-, hnone⟩ | ⟨d', hresolve, hunique⟩
    · exact absurd hd (hnone d)
    · rw [hresolve, (hunique d).mp hd]
      rfl
  · rw [query_run_of_mixer hm, hanswer question property hsplit hcount]
    rcases resolve_none_cases hname hholds with ⟨hresolve, -⟩ | ⟨d, -, hunique⟩
    · rw [hresolve]
      rfl
    · exact absurd ((hunique d).mpr rfl) (hnone d)
  · rw [query_run_of_mixer hm]
    unfold Tables.query
    rw [hsplit]
    dsimp only
    rw [if_pos hcount, hholds.size_eq]

/-- However the events and the calls are interleaved, the name of the default is the one fixed last
or else the one told last, and queries without an address are about the device that has it. Whatever
concerns other interfaces has no part in this. -/
theorem default_over_runs (hempty : tables? n e.host = some .empty)
    (h : Undergoes call n none e changes e') :
    ∃ m, (e'.host.mixers : List Mixer)[n]? = some m ∧ ∀ i,
      (m.tables.get i).defaultName = defaultAfter i changes ∧
      LastWrites (heard changes) i (m.tables.get i) ∧
      Unaddressed call n changes e' i (m.tables.get i) ∧
      ∀ changes' (e₁ e₁' : Engine (extend C)), tables? n e₁.host = some .empty →
        Undergoes call n none e₁ changes' e₁' →
        changes'.filterMap (Change.part? i) = changes.filterMap (Change.part? i) →
        ∃ m', (e₁'.host.mixers : List Mixer)[n]? = some m' ∧
          m'.tables.get i = m.tables.get i := by
  obtain ⟨m, hm, htables⟩ := Option.map_eq_some_iff.mp (h.tables hempty)
  refine ⟨m, hm, fun i => ?_⟩
  rw [htables]
  obtain ⟨hname, -⟩ := default_after i changes
  have hholds := holds_after changes i
  refine ⟨hname, hholds.lastWrites, htables ▸ unaddressed hm (htables ▸ hname) (htables ▸ hholds),
    fun changes' e₁ e₁' hempty' h' hparts => ?_⟩
  obtain ⟨m', hm', htables'⟩ := Option.map_eq_some_iff.mp (h'.tables hempty')
  refine ⟨m', hm', ?_⟩
  rw [htables', Tables.get_after, Tables.get_after, hparts]

end Mixer

namespace Bare

open Mixer

/-- A query for the number of devices is answered without an address, though there is no default. -/
theorem count_without_default :
    ¬ ∀ (changes : List Change) (e e' : Engine (extend Bare)),
      tables? (C := Bare) 0 e.host = some .empty →
      Undergoes (script.callbacks 4 2) 0 none e changes e' →
      ∀ m : Mixer, (e'.host.mixers : List Mixer)[0]? = some m →
      ∀ i question property, Interface.split? question = some (i, property) →
        (∀ d, ¬ DefaultFor changes i (m.tables.get i) d) →
        ((Mixer.query 0 question none).run (script.callbacks 4 2)).run e' = some (.unset, e') := by
  intro h
  have hunset := h [] (unheard blank []) _ rfl (.quiet _) ⟨.empty, 0, 1, .empty⟩ rfl .sink
    "sink-count" "count" (by decide) fun d hd => List.not_mem_nil hd.present
  have hcount : ((Mixer.query 0 "sink-count" none).run (script.callbacks 4 2)).run
      (unheard blank []) = some (.number (Float.ofNat 0), unheard blank []) :=
    query_count (C := Bare) 0 ⟨.empty, 0, 1, .empty⟩ .sink none rfl
  cases hcount.symm.trans hunset

/-- The user has fixed a default by the time that the server tells of others. -/
theorem default_over_runs_fixed :
    let changes : List Change :=
      [.fixed .sink "usb", .told (.defaults "hdmi" "mic"), .told (.updated .sink speakers)]
    ∃ (e' : Engine (extend Bare)) (m : Mixer),
      tables? (C := Bare) 0 blank = some .empty ∧
      Undergoes (script.callbacks 4 2) 0 none (unheard blank []) changes e' ∧
      m.tables.sink.defaultName = some "usb" ∧ m.tables.source.defaultName = some "mic" ∧
      ((Mixer.query 0 "sink-mute" none).run (script.callbacks 4 2)).run e' =
        some (.boolean false, e') ∧
      ((Mixer.query 0 "source-mute" none).run (script.callbacks 4 2)).run e' =
        some (.unset, e') := by
  intro changes
  obtain ⟨_, hfixed⟩ := undergoes_fixed (s := blank) rfl "usb" []
  obtain ⟨_, hserved⟩ := undergoes_defaults (s := blank.withTables 0 _) rfl "hdmi" "mic" _
  obtain ⟨_, hadded⟩ := undergoes_updated (s := (blank.withTables 0 _).withTables 0 _) rfl .sink
    (d := speakers) rfl _
  have hrun := Undergoes.made_alone (.sink "usb" []) hfixed
    (.made_alone (.told (.defaults "hdmi" "mic")) hserved
      (.made_alone (.told (.updated .sink speakers)) hadded (.quiet _)))
  obtain ⟨m, hm, hlaws⟩ := default_over_runs (C := Bare) (e := unheard blank []) rfl hrun
  have htables : m.tables = Tables.empty.after changes := hrun.tables_eq rfl hm
  obtain ⟨hsink, -, hanswers, -⟩ := hlaws .sink
  obtain ⟨hsource, -, hanswers', -⟩ := hlaws .source
  have hfor : DefaultFor changes .sink (m.tables.get .sink) speakers := by
    rw [htables]
    exact ⟨List.mem_cons_self, rfl, fun d' hd' _ => Or.inl (List.mem_singleton.mp hd')⟩
  have hnone (d : Device) : ¬ DefaultFor changes .source (m.tables.get .source) d := by
    rw [htables]
    exact fun hd => List.not_mem_nil hd.present
  exact ⟨_, m, rfl, hrun, hsink, hsource,
    hanswers.found "sink-mute" "mute" speakers (by decide) (by decide) hfor,
    hanswers'.unset "source-mute" "mute" (by decide) (by decide) hnone⟩

end Bare

end LiveExpr
