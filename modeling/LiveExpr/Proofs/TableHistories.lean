import LiveExpr.Proofs.LastUpdates
import LiveExpr.Proofs.MixerHistories

/-!
The tables of a mixer after a whole run. What changes them are the events that the mixer is told
and the calls by which the user fixes a default. Each of these makes its change at once, before it
requests anything, and whatever happens amid its requests comes on top. So the tables are those
that the changes make of empty ones, in the order in which they were begun. And of each change an
interface only sees its own part: its table is what these parts make of it.
-/
namespace LiveExpr

namespace Mixer

variable {C : Host} {α : Type} {n : Nat} {c : Change} {s : State C.State}

def tables? (n : Nat) (s : State C.State) : Option Tables := s.mixers[n]?.map Mixer.tables

/-- The tables of the mixer with the number are the same. -/
def SameTables (n : Nat) (s s' : State C.State) : Prop := tables? n s' = tables? n s

/-- From this state of the host on, the action changes the tables in this way before it makes any
request, and then no more. -/
def Makes (n : Nat) (c : Change) : State C.State → Action (extend C) α → Prop
  | s, .pure _ => tables? n s = (tables? n s).map c.made
  | _, .request _ _ => False
  | s, .look next => ∀ e : Engine (extend C), e.host = s → Makes n c s (next e)
  | s, .change f next => tables? n (f s) = (tables? n s).map c.made ∧
      Action.ConfinedTo (H := extend C) (SameTables n) (f s) next

/-- The actions that change the tables of the mixer with the number: to apply an event, and to call
a native that fixes a default. -/
inductive Performs (n : Nat) : Change → Action (extend C) Unit → Prop
  | told (event : Event) : Performs n (.told event) (apply n event)
  | sink (name : String) (rest : List Value) :
      Performs n (.fixed .sink name) (do
        let _ ← Mixer.call n .setDefaultSink (.text name :: rest))
  | source (name : String) (rest : List Value) :
      Performs n (.fixed .source name) (do
        let _ ← Mixer.call n .setDefaultSource (.text name :: rest))

/-- The changes of the tables of the mixer with the number that are made between one engine and the
next. If an action is given, this is a run of it, and the changes are those that callbacks make in
its course. Between actions anything may happen that leaves the tables alone. -/
inductive Undergoes (call : Callbacks (extend C)) (n : Nat) :
    Option (Action (extend C) Unit) → Engine (extend C) → List Change → Engine (extend C) → Prop
  | quiet (e : Engine (extend C)) : Undergoes call n none e [] e
  | beside {e e₁ e' : Engine (extend C)} {changes : List Change}
      (hsame : SameTables n e.host e₁.host) (h : Undergoes call n none e₁ changes e') :
      Undergoes call n none e changes e'
  | made {e e₁ e' : Engine (extend C)} {c : Change} {a : Action (extend C) Unit}
      {amid later : List Change} (ha : Performs n c a) (h : Undergoes call n (some a) e amid e₁)
      (hlater : Undergoes call n none e₁ later e') :
      Undergoes call n none e (c :: (amid ++ later)) e'
  | ended (e : Engine (extend C)) : Undergoes call n (some (.pure ())) e [] e
  | request {r : Request (extend C)} {next : r.Reply → Action (extend C) Unit}
      {e e₁ e' : Engine (extend C)} {reply : r.Reply} {amid later : List Change}
      (hr : (Engine.answer call r).run e = some (reply, e₁))
      (hamid : Undergoes call n none e amid e₁)
      (h : Undergoes call n (some (next reply)) e₁ later e') :
      Undergoes call n (some (.request r next)) e (amid ++ later) e'
  | look {next : Engine (extend C) → Action (extend C) Unit} {e e' : Engine (extend C)}
      {changes : List Change} (h : Undergoes call n (some (next e.unwritten)) e changes e') :
      Undergoes call n (some (.look next)) e changes e'
  | change {f : State C.State → State C.State} {next : Action (extend C) Unit}
      {e e' : Engine (extend C)} {changes : List Change}
      (h : Undergoes call n (some next) { e with host := f e.host } changes e') :
      Undergoes call n (some (.change f next)) e changes e'

theorem tables?_withTables {m : Mixer} (hm : s.mixers[n]? = some m) (tables : Tables) :
    tables? n (s.withTables n tables) = some tables := by
  unfold tables? State.withTables
  dsimp only
  rw [List.getElem?_modify, hm]
  simp

theorem tables?_eq {m : Mixer} (hm : s.mixers[n]? = some m) : tables? n s = some m.tables := by
  rw [tables?, hm, Option.map_some]

namespace Makes

/-- Without the mixer there are no tables to change. -/
theorem mixer? {f : Option Mixer → Action (extend C) α}
    (hnone : s.mixers[n]? = none → ∃ x, f none = .pure x)
    (hsome : ∀ m, s.mixers[n]? = some m → Makes n c s (f (some m))) :
    Makes n c s (mixer? n >>= f) := by
  rintro e rfl
  show Makes n c e.host (f (e.host.mixers : List Mixer)[n]?)
  cases hm : (e.host.mixers : List Mixer)[n]? with
  | none =>
    obtain ⟨x, hx⟩ := hnone hm
    rw [hx]
    have htables : tables? (C := C) n e.host = none := congrArg (Option.map Mixer.tables) hm
    exact htables.trans (congrArg (Option.map c.made) htables).symm
  | some m => exact hsome m hm

theorem setTables {m : Mixer} (hm : s.mixers[n]? = some m) {f : Unit → Action (extend C) α}
    (hf : ∀ s' : State C.State, Action.ConfinedTo (H := extend C) (SameTables n) s' (f ())) :
    Makes n c s (setTables n (c.made m.tables) >>= f) := by
  refine ⟨?_, hf _⟩
  rw [tables?_eq hm]
  exact tables?_withTables hm _

theorem replaceTables {m : Mixer} (hm : s.mixers[n]? = some m) (found : Bool × Tables)
    (hfound : found.2 = c.made m.tables) :
    Makes n c s (replaceTables n found : Action (extend C) Unit) := by
  unfold Mixer.replaceTables
  rw [hfound]
  refine setTables hm fun _ => ?_
  split
  · exact .ask _
  · exact .pure _

theorem apply (event : Event) :
    Makes n (.told event) s (apply n event : Action (extend C) Unit) := by
  refine mixer? (fun _ => ⟨(), rfl⟩) fun m hm => ?_
  cases event with
  | updated i d =>
    refine setTables (c := .told (.updated i d)) hm fun _ => ?_
    refine (Action.ConfinedTo.ask _).bind fun _ _ => ?_
    split
    · exact .forM (fun _ _ => .ask _) _
    · exact .pure _
  | removed i index =>
    dsimp only
    split
    · refine setTables (c := .told (.removed i index)) hm fun _ => ?_
      exact (Action.ConfinedTo.ask _).bind fun _ _ => .ask _
    · rename_i habsent
      show tables? n s = (tables? n s).map _
      rw [tables?_eq hm]
      exact congrArg some
        (Tables.remove_of_get?_eq_none (Option.not_isSome_iff_eq_none.mp habsent)).symm
  | renamed client name => exact replaceTables hm (m.tables.rename client name) rfl
  | defaults sink source => exact replaceTables hm (m.tables.setServerDefaults sink source) rfl

theorem setDefault (i : Interface) (name : String) :
    Makes n (.fixed i name) s (setDefault n i name : Action (extend C) Unit) :=
  mixer? (fun _ => ⟨(), rfl⟩) fun m hm => replaceTables hm (m.tables.setDefault i name true) rfl

end Makes

/-- What an action gives back after that does not count. -/
theorem discard_discard {H : Host} (a : Action H Unit) (x : α) :
    ((a >>= fun _ => pure x) >>= fun _ => pure ()) = a := by
  induction a with
  | pure y => rfl
  | request r next ih => exact congrArg (Action.request r) (funext ih)
  | look next ih => exact congrArg Action.look (funext ih)
  | change f next ih => exact congrArg (Action.change f) ih

/-- To call the native is to fix the default. -/
theorem call_setDefaultSink (n : Nat) (name : String) (rest : List Value) :
    (do let _ ← Mixer.call n .setDefaultSink (.text name :: rest) : Action (extend C) Unit) =
      setDefault n .sink name := discard_discard (setDefault n .sink name) Value.unset

theorem call_setDefaultSource (n : Nat) (name : String) (rest : List Value) :
    (do let _ ← Mixer.call n .setDefaultSource (.text name :: rest) : Action (extend C) Unit) =
      setDefault n .source name := discard_discard (setDefault n .source name) Value.unset

theorem Performs.makes {a : Action (extend C) Unit} (h : Performs n c a) : Makes n c s a := by
  cases h with
  | told event => exact .apply event
  | sink name rest => exact call_setDefaultSink (C := C) n name rest ▸ .setDefault .sink name
  | source name rest =>
    exact call_setDefaultSource (C := C) n name rest ▸ .setDefault .source name

/-- What the tables are to be when the action, if one is given, has made its change. -/
def Ready (n : Nat) (t : Tables) (s : State C.State) : Option (Action (extend C) Unit) → Prop
  | none => tables? n s = some t
  | some a =>
    tables? n s = some t ∧ Action.ConfinedTo (H := extend C) (SameTables n) s a ∨
      ∃ t₀ c, tables? n s = some t₀ ∧ Makes n c s a ∧ c.made t₀ = t

theorem Undergoes.tables {call : Callbacks (extend C)} {a : Option (Action (extend C) Unit)}
    {e e' : Engine (extend C)} {changes : List Change} (h : Undergoes call n a e changes e')
    {t : Tables} (hready : Ready n t e.host a) : tables? n e'.host = some (t.after changes) := by
  induction h generalizing t with
  | quiet e => exact hready
  | beside hsame _ ih => exact ih (hsame.trans hready)
  | @made e e₁ e' c a amid later ha _ _ ih ihlater =>
    have hamid := ih (t := c.made t) (Or.inr ⟨t, c, hready, ha.makes, rfl⟩)
    have hafter : t.after (c :: (amid ++ later)) = ((c.made t).after amid).after later :=
      List.foldl_append
    rw [hafter]
    exact ihlater hamid
  | ended e =>
    rcases hready with ⟨ht, -⟩ | ⟨t₀, c, ht₀, hmade, rfl⟩
    · exact ht
    · exact hmade.trans (congrArg (Option.map c.made) ht₀)
  | @request r next e e₁ e' reply amid later _ _ _ ihamid ih =>
    rcases hready with ⟨ht, hconfined⟩ | ⟨_, _, _, hmade, _⟩
    · -- The action goes on from what the tables are by then, which callbacks may have changed.
      have hafter : t.after (amid ++ later) = (t.after amid).after later := List.foldl_append
      rw [hafter]
      exact ih (Or.inl ⟨ihamid ht, hconfined reply _⟩)
    · exact hmade.elim
  | @look next e e' changes _ ih =>
    refine ih ?_
    rcases hready with ⟨ht, hconfined⟩ | ⟨t₀, c, ht₀, hmade, hc⟩
    · exact Or.inl ⟨ht, hconfined _ rfl⟩
    · exact Or.inr ⟨t₀, c, ht₀, hmade _ rfl, hc⟩
  | @change f next e e' changes _ ih =>
    refine ih (Or.inl ?_)
    rcases hready with ⟨ht, hsame, hconfined⟩ | ⟨t₀, c, ht₀, ⟨hmade, hconfined⟩, rfl⟩
    · exact ⟨hsame.trans ht, hconfined⟩
    · exact ⟨hmade.trans (congrArg (Option.map c.made) ht₀), hconfined⟩

theorem Undergoes.tables_eq {call : Callbacks (extend C)} {e e' : Engine (extend C)}
    {changes : List Change} (h : Undergoes call n none e changes e') {t : Tables}
    (ht : tables? n e.host = some t) {m : Mixer}
    (hm : (e'.host.mixers : List Mixer)[n]? = some m) : m.tables = t.after changes :=
  Option.some.inj ((tables?_eq hm).symm.trans (h.tables ht))

/-- What of a change concerns one interface. -/
inductive Part where
  | updated (d : Device)
  | removed (index : UInt32)
  | renamed (client : UInt32) (name : String)
  | default (name : String) (byUser : Bool)

def Change.part? (i : Interface) : Change → Option Part
  | .told (.updated j d) => if j = i then some (.updated d) else none
  | .told (.removed j index) => if j = i then some (.removed index) else none
  | .told (.renamed client name) => if i = .client then some (.renamed client name) else none
  | .told (.defaults sink source) =>
    match i with
    | .sink => some (.default sink false)
    | .source => some (.default source false)
    | .client => none
  | .fixed j name => if j = i then some (.default name true) else none

/-- The table of the interface after its part of a change. No other table is looked at. -/
def Part.made (i : Interface) (t : DeviceTable) : Part → DeviceTable
  | .updated d =>
    t.put (if i = .client ∧ d.description = none then
      { d with description := (t.get? d.index).bind Device.description } else d)
  | .removed index => t.remove index
  | .renamed client name => (Tables.rename ⟨.empty, .empty, t⟩ client name).2.client
  | .default name byUser => (t.setDefault name byUser).2

theorem Tables.get_setDefault (t : Tables) (i j : Interface) (name : String) (byUser : Bool) :
    (t.setDefault i name byUser).2.get j =
      if j = i then ((t.get i).setDefault name byUser).2 else t.get j :=
  get_set ..

/-- One interface has the part, and the others keep their tables. -/
theorem Part.made_own {i j : Interface} {t table : DeviceTable} {part : Part}
    (h : i = j → table = part.made i t) :
    (if i = j then table else t) =
      ((if j = i then some part else none).map (Part.made i t)).getD t := by
  by_cases hi : i = j
  · rw [if_pos hi, if_pos hi.symm]
    exact h hi
  · rw [if_neg hi, if_neg (Ne.symm hi)]
    rfl

/-- A table changes by its own part of a change only. -/
theorem Change.get_made (c : Change) (t : Tables) (i : Interface) :
    (c.made t).get i = ((c.part? i).map (Part.made i (t.get i))).getD (t.get i) := by
  cases c with
  | told event =>
    cases event with
    | updated j d =>
      refine (Tables.get_set ..).trans (Part.made_own fun hi => ?_)
      subst hi
      rfl
    | removed j index =>
      refine (Tables.get_set ..).trans (Part.made_own fun hi => ?_)
      subst hi
      rfl
    | renamed client name => cases i <;> rfl
    | defaults sink source =>
      show ((t.setDefault .sink sink false).2.setDefault .source source false).2.get i = _
      simp only [Tables.get_setDefault]
      cases i <;> rfl
  | fixed j name =>
    refine (Tables.get_setDefault ..).trans (Part.made_own fun hi => ?_)
    subst hi
    rfl

/-- So interfaces do not influence each other. -/
theorem Tables.get_after (t : Tables) (changes : List Change) (i : Interface) :
    (t.after changes).get i =
      (changes.filterMap (Change.part? i)).foldl (Part.made i) (t.get i) := by
  induction changes generalizing t with
  | nil => rfl
  | cons c rest ih =>
    show ((c.made t).after rest).get i = _
    rw [ih, c.get_made]
    cases hpart : c.part? i with
    | none => rw [List.filterMap_cons_none hpart]; rfl
    | some part => rw [List.filterMap_cons_some hpart]; rfl

/-- The last of what the entries of a list tell, if any of them tells something. -/
def lastOf {α β : Type} (f : α → Option β) (l : List α) : Option β := (l.filterMap f).getLast?

theorem lastOf_snoc {α β : Type} (f : α → Option β) (l : List α) (x : α) :
    lastOf f (l ++ [x]) = (f x).or (lastOf f l) := by
  unfold lastOf
  rw [List.filterMap_append, List.getLast?_append]
  cases hx : f x <;> simp [hx]

/-- The events among the changes. -/
def heard (changes : List Change) : List Event :=
  changes.filterMap fun
    | .told event => some event
    | .fixed _ _ => none

theorem heard_snoc_told (changes : List Change) (event : Event) :
    heard (changes ++ [.told event]) = heard changes ++ [event] := by
  simp [heard]

theorem heard_snoc_fixed (changes : List Change) (i : Interface) (name : String) :
    heard (changes ++ [.fixed i name]) = heard changes := by
  simp [heard]

/-- The tables hold what the events come to. The defaults that are fixed do not matter. -/
theorem holds_after (changes : List Change) (i : Interface) :
    Holds (heard changes) i ((Tables.empty.after changes).get i) := by
  induction changes using List.reverseRecOn generalizing i with
  | nil => cases i <;> exact .of_devices_eq_nil rfl
  | append_singleton changes c ih =>
    rw [Tables.after_append_singleton]
    cases c with
    | told event =>
      rw [heard_snoc_told]
      exact Holds.made ih event i
    | fixed j name =>
      rw [heard_snoc_fixed]
      exact (ih i).congr (Tables.devices_setDefault _ j name true i)

namespace Undergoes

variable {call : Callbacks (extend C)} {e e₁ e' : Engine (extend C)} {later : List Change}

/-- No callback changes the tables amid the action. -/
theorem made_alone {a : Action (extend C) Unit} (ha : Performs n c a)
    (h : Undergoes call n (some a) e [] e₁) (hlater : Undergoes call n none e₁ later e') :
    Undergoes call n none e (c :: later) e' :=
  h.made ha hlater

/-- The answer to the request leaves the tables alone, and the action is over. -/
theorem of_last_request {r : Request (extend C)} {reply : r.Reply}
    {next : r.Reply → Action (extend C) Unit}
    (hr : (Engine.answer call r).run e = some (reply, e₁)) (hsame : SameTables n e.host e₁.host)
    (hnext : next reply = .pure ()) : Undergoes call n (some (.request r next)) e [] e₁ :=
  .request hr (.beside hsame (.quiet _)) (hnext ▸ .ended _)

theorem of_mixer? {m : Mixer} {f : Option Mixer → Action (extend C) Unit}
    (hm : (e.host.mixers : List Mixer)[n]? = some m)
    (h : Undergoes call n (some (f (some m))) e later e') :
    Undergoes call n (some (mixer? n >>= f)) e later e' := by
  refine .look ?_
  show Undergoes call n (some (f (e.host.mixers : List Mixer)[n]?)) e later e'
  rwa [hm]

end Undergoes

end Mixer

namespace Bare

open Mixer

variable {s : State Unit} {m : Mixer}

/-- A fire that nobody hears leaves all as it is but for the journal. -/
theorem fire_unheard (s : State Unit) (journal : List (Note (extend Bare))) :
    ∃ journal', (Engine.answer (script.callbacks 4 2) (.fire "Mixer")).run (unheard s journal) =
      some ((), unheard s journal') := ⟨_, rfl⟩

theorem undergoes_replaced (found : Bool × Tables) (journal : List (Note (extend Bare))) :
    ∃ journal', Undergoes (script.callbacks 4 2) 0 (some (replaceTables 0 found))
      (unheard s journal) [] (unheard (s.withTables 0 found.2) journal') := by
  obtain ⟨changed, tables⟩ := found
  cases changed with
  | false => exact ⟨journal, .change (.ended _)⟩
  | true =>
    obtain ⟨journal', hfire⟩ := fire_unheard (s.withTables 0 tables) journal
    exact ⟨journal', .change (.of_last_request hfire rfl rfl)⟩

theorem undergoes_defaults (hm : s.mixers[0]? = some m) (sink source : String)
    (journal : List (Note (extend Bare))) :
    ∃ journal', Undergoes (script.callbacks 4 2) 0 (some (apply 0 (.defaults sink source)))
      (unheard s journal) []
      (unheard (s.withTables 0 (m.tables.setServerDefaults sink source).2) journal') := by
  obtain ⟨journal', h⟩ := undergoes_replaced (m.tables.setServerDefaults sink source) journal
  exact ⟨journal', .of_mixer? hm h⟩

theorem undergoes_renamed (hm : s.mixers[0]? = some m) (client : UInt32) (name : String)
    (journal : List (Note (extend Bare))) :
    ∃ journal', Undergoes (script.callbacks 4 2) 0 (some (apply 0 (.renamed client name)))
      (unheard s journal) []
      (unheard (s.withTables 0 (m.tables.rename client name).2) journal') := by
  obtain ⟨journal', h⟩ := undergoes_replaced (m.tables.rename client name) journal
  exact ⟨journal', .of_mixer? hm h⟩

theorem undergoes_fixed (hm : s.mixers[0]? = some m) (name : String)
    (journal : List (Note (extend Bare))) :
    ∃ journal', Undergoes (script.callbacks 4 2) 0
      (some (do let _ ← Mixer.call 0 .setDefaultSink [.text name])) (unheard s journal) []
      (unheard (s.withTables 0 (m.tables.setDefault .sink name true).2) journal') := by
  obtain ⟨journal', h⟩ := undergoes_replaced (m.tables.setDefault .sink name true) journal
  rw [call_setDefaultSink (C := Bare)]
  exact ⟨journal', .of_mixer? hm h⟩

/-- A device without channels is not announced. -/
theorem undergoes_updated (hm : s.mixers[0]? = some m) (i : Interface) {d : Device}
    (hd : d.channels = []) (journal : List (Note (extend Bare))) :
    ∃ journal', Undergoes (script.callbacks 4 2) 0 (some (apply 0 (.updated i d)))
      (unheard s journal) [] (unheard (s.withTables 0 (m.tables.update i d)) journal') := by
  obtain ⟨journal', hfire⟩ := fire_unheard (s.withTables 0 (m.tables.update i d)) journal
  refine ⟨journal', .of_mixer? hm (.change (.of_last_request hfire rfl ?_))⟩
  show (if _ then advertise m i d else pure ()) = _
  unfold advertise
  rw [hd]
  split <;> rfl

end Bare

end LiveExpr
