import LiveExpr.Proofs.Confinement
import LiveExpr.Proofs.Moves
import Mathlib

/-!
What a dispatch does. It delivers the messages that are in the mailbox when it begins,
and pumps the sources that there are when these are delivered. Only a dispatch takes
anything out of the mailbox, and each dispatch that does so leaves notes of it. So as
long as the journal has no such notes, whatever is sent stays where it is, behind what
was sent before.
-/
namespace LiveExpr

variable {H : Host} {α : Type}

/-- Notes that are only made by a dispatch. -/
def Note.OfDispatch : Note H → Prop
  | .delivered _ => True
  | .pumped _ => True
  | _ => False

/-- No dispatch has delivered or pumped anything in between. -/
def Undispatched (e e' : Engine H) : Prop :=
  ∃ d, e'.journal = d ++ e.journal ∧ ∀ n ∈ d, ¬ n.OfDispatch

theorem Undispatched.split {e e' e'' : Engine H} (h : Undispatched e e'')
    (h₁ : e.journal <:+ e'.journal) (h₂ : e'.journal <:+ e''.journal) :
    Undispatched e e' ∧ Undispatched e' e'' := by
  obtain ⟨d, hd, hn⟩ := h
  obtain ⟨early, hearly⟩ := h₁
  obtain ⟨late, hlate⟩ := h₂
  obtain rfl : d = late ++ early := by
    refine List.append_cancel_right (hd.symm.trans ?_)
    rw [← hlate, ← hearly, List.append_assoc]
  exact ⟨⟨early, hearly.symm, fun n hmem => hn n (List.mem_append_right _ hmem)⟩,
    late, hlate.symm, fun n hmem => hn n (List.mem_append_left _ hmem)⟩

/-- Sources only join. Unless there has been a dispatch, messages only join as well, and the host's
own state has been changed in the given ways only. -/
structure Mailed (changes : H.State → H.State → Prop) (e e' : Engine H) : Prop where
  grows : e.journal <:+ e'.journal
  sources : e.sources <+: e'.sources
  kept : Undispatched e e' → e.mailbox.pending <+: e'.mailbox.pending ∧
    Relation.ReflTransGen changes e.host e'.host

namespace Mailed

variable {changes : H.State → H.State → Prop} {e e' e'' : Engine H}

/-- What has to do with neither messages nor sources. -/
theorem of_outside (hj : e.journal <:+ e'.journal) (ho : e'.outside = e.outside) :
    Mailed changes e e' := by
  have hmailbox : e'.mailbox = e.mailbox := congrArg Prod.fst ho
  have hrest := congrArg Prod.snd ho
  have hsources : e'.sources = e.sources := congrArg Prod.fst hrest
  have hhost : e'.host = e.host := congrArg Prod.snd hrest
  exact ⟨hj, hsources ▸ List.prefix_rfl, fun _ => ⟨hmailbox ▸ List.prefix_rfl, hhost ▸ .refl⟩⟩

theorem trans (h : Mailed changes e e') (h' : Mailed changes e' e'') : Mailed changes e e'' where
  grows := h.grows.trans h'.grows
  sources := h.sources.trans h'.sources
  kept := fun hn => by
    obtain ⟨hn₁, hn₂⟩ := hn.split h.grows h'.grows
    obtain ⟨hmail, hhost⟩ := h.kept hn₁
    obtain ⟨hmail', hhost'⟩ := h'.kept hn₂
    exact ⟨hmail.trans hmail', hhost.trans hhost'⟩

/-- A mailbox that is emptied was empty, or there are notes of the deliveries. -/
theorem drained {d : List (Note H)} (h : Mailed changes { e with mailbox := .empty } e')
    (hj : e'.journal = d ++ e.journal) (hd : ∀ m ∈ e.mailbox.pending, .delivered m ∈ d) :
    Mailed changes e e' where
  grows := h.grows
  sources := h.sources
  kept := by
    rintro ⟨d', hd', hn⟩
    obtain rfl : d = d' := List.append_cancel_right (hj.symm.trans hd')
    refine ⟨?_, (h.kept ⟨d, hj, hn⟩).2⟩
    cases hpending : e.mailbox.pending with
    | nil => exact List.nil_prefix
    | cons m rest =>
      have hm : .delivered m ∈ d := hd m (by rw [hpending]; exact List.mem_cons_self)
      exact (hn _ hm trivial).elim

end Mailed

/-- The regime under which nothing is lost that has been sent. -/
def Regime.mail (changes : H.State → H.State → Prop) : Regime H where
  terms := .any
  completes _ _ _ := True
  path m m' := Mailed changes m.engine m'.engine
  refl _ := .of_outside List.suffix_rfl rfl
  trans := .trans
  deed hp h hr _ := hp.trans (.of_outside h.steps.grows hr.outside)
  posted _ _ _ := ⟨List.suffix_rfl, List.prefix_rfl, fun _ => ⟨List.prefix_append .., .refl⟩⟩
  added _ _ _ := ⟨List.suffix_rfl, List.prefix_append .., fun _ => ⟨List.prefix_rfl, .refl⟩⟩
  drained := .drained

/-- The action changes the host's own state in the given ways only. -/
def Action.ChangesOnly (changes : H.State → H.State → Prop) : Action H α → Prop
  | .pure _ => True
  | .request _ next => ∀ reply, (next reply).ChangesOnly changes
  | .look next => ∀ e, (next e).ChangesOnly changes
  | .change f next => (∀ s, changes s (f s)) ∧ next.ChangesOnly changes

theorem Action.ChangesOnly.bind {β : Type} {changes : H.State → H.State → Prop} {a : Action H α}
    {f : α → Action H β} (ha : a.ChangesOnly changes) (hf : ∀ x, (f x).ChangesOnly changes) :
    (a >>= f).ChangesOnly changes := by
  induction a with
  | pure x => exact hf x
  | request r next ih => exact fun reply => ih reply (ha reply)
  | look next ih => exact fun e => ih e (ha e)
  | change g next ih => exact ⟨ha.1, ih ha.2⟩

/-- Where sources are pumped there is a note of it, so that nothing has to be asked of them. -/
structure Script.ChangesOnly (changes : H.State → H.State → Prop) (script : Script H H) :
    Prop where
  native : ∀ f args c, (script.native f args c).ChangesOnly changes
  listener : ∀ l name, (script.listener l name).ChangesOnly changes
  task : ∀ t, (script.task t).ChangesOnly changes

/-- Any change whatsoever. -/
def anyChange : H.State → H.State → Prop := fun _ _ => True

theorem Action.changesOnly_any (a : Action H α) : a.ChangesOnly anyChange := by
  induction a with
  | pure x => trivial
  | request r next ih => exact ih
  | look next ih => exact ih
  | change f next ih => exact ⟨fun _ => trivial, ih⟩

section Mail

variable {changes : H.State → H.State → Prop}

theorem Regime.mail_lets : (Regime.mail changes).Lets changes where
  allows := Terms.allows_any
  path h := ⟨List.suffix_rfl, List.prefix_rfl, fun _ => ⟨List.prefix_rfl, .single h⟩⟩

/-- Ways that are kept to whatever the state is are kept to from a state on. -/
theorem Action.ChangesOnly.confined {a : Action H α} (ha : a.ChangesOnly changes) (s : H.State) :
    a.ConfinedTo changes s := by
  induction a generalizing s with
  | pure x => trivial
  | request r next ih => exact fun reply s' => ih reply (ha reply) s'
  | look next ih => exact fun e _ => ih e (ha e) s
  | change f next ih => exact ⟨ha.1 s, ih ha.2 _⟩

theorem Action.ChangesOnly.obeys {a : Action H α} (ha : a.ChangesOnly changes) :
    a.Obeys (.mail changes) := Action.ConfinedTo.obeys Regime.mail_lets ha.confined

theorem Evolved.anyChange {w : List Ticket} {e e' : Engine H}
    (h : Evolved (.mail changes) w e e') : Evolved (.mail anyChange) w e e' where
  course := h.course
  path := ⟨h.path.grows, h.path.sources, fun hn => ⟨(h.path.kept hn).1, .single trivial⟩⟩
  dispatching := h.dispatching
  aside := h.aside

theorem From.anyChange {w : List Ticket} {m : Run H α} {e : Engine H}
    (h : From (.mail changes) w m e) : From (.mail anyChange) w m e :=
  ⟨fun hs {_ _} hrun => (h.evolved hs hrun).anyChange⟩

theorem Callbacks.Keeps.anyChange {call : Callbacks H} (hcall : call.Keeps (.mail changes)) :
    call.Keeps (.mail anyChange) where
  native f args c w e := (hcall.native f args c w e).anyChange
  listener l name w e := (hcall.listener l name w e).anyChange
  task t w e := (hcall.task t w e).anyChange
  pump s w e := (hcall.pump s w e).anyChange
  completes _ _ := ⟨trivial, trivial⟩

/-- Whatever is done when a source is pumped, there is a note before it. -/
theorem Action.pumps_mail (s : H.Source) (a : Action H Nat) : a.Pumps (.mail changes) s := by
  intro call hcall w e
  refine ⟨fun hs {count e'} hrun => ?_⟩
  have hnoted : Evolved (.mail changes) w e (e.note (.pumped s)) :=
    .note (n := .pumped s) trivial rfl rfl rfl
  have hrest : Evolved (.mail anyChange) w (e.note (.pumped s)) e' :=
    (a.changesOnly_any.obeys.runs hcall.anyChange w _).evolved (hs.steps hnoted.steps) hrun
  have hall := hnoted.anyChange.trans hrest
  refine ⟨hall.course, ⟨hall.path.grows, hall.path.sources, ?_⟩, hall.dispatching, hall.aside⟩
  rintro ⟨d, hd, hn⟩
  obtain ⟨late, hlate⟩ := hrest.path.grows
  have hsplit : d = late ++ [.pumped s] := by
    refine List.append_cancel_right (hd.symm.trans ?_)
    rw [← hlate, List.append_assoc]
    rfl
  exact (hn (.pumped s) (by simp [hsplit]) trivial).elim

theorem Script.ChangesOnly.keeps_mail {script : Script H H} (hs : script.ChangesOnly changes)
    (rounds depth : Nat) : (script.callbacks rounds depth).Keeps (.mail changes) := by
  have hobeys : script.Obeys (.mail changes) :=
    ⟨fun f args c => (hs.native f args c).obeys, fun l name => (hs.listener l name).obeys,
      fun t => (hs.task t).obeys, fun s => Action.pumps_mail s _⟩
  exact hobeys.callbacks_keep (fun _ _ => ⟨trivial, trivial⟩) depth

theorem Script.changesOnly_any (script : Script H H) : script.ChangesOnly anyChange :=
  ⟨fun _ _ _ => Action.changesOnly_any _, fun _ _ => Action.changesOnly_any _,
    fun _ => Action.changesOnly_any _⟩

end Mail

def Move.post? : Move H → Option (Message H)
  | .asked (.post m) => some m
  | _ => none

/-- The messages that an action sends itself, in order. -/
def posts (moves : List (Move H)) : List (Message H) := moves.filterMap Move.post?

theorem posts_append (moves moves' : List (Move H)) :
    posts (moves ++ moves') = posts moves ++ posts moves' := List.filterMap_append

/-- What an action sends stays in the mailbox, behind what was there. -/
theorem Action.Goes.posts_kept {script : Script H H} {rounds depth : Nat} {a : Action H α} {x : α}
    {e e' : Engine H} {moves : List (Move H)} {w : List Ticket}
    (h : a.Goes (script.callbacks rounds depth) e moves x e') (hs : Sound .any ⟨e, w⟩)
    (hn : Undispatched e e') :
    ∃ sent, e'.mailbox.pending = e.mailbox.pending ++ sent ∧ (posts moves).Sublist sent := by
  have hcall := script.changesOnly_any.keeps_mail rounds depth
  induction h with
  | pure x e => exact ⟨[], (List.append_nil _).symm, List.Sublist.refl _⟩
  | @request r next e e₁ e' reply moves x hr h ih =>
    have hanswer := (from_answer (w := w) hcall (by cases r <;> trivial) e).evolved hs hr
    have hs₁ := hs.steps hanswer.steps
    have hrest := (next reply).changesOnly_any.obeys.runs hcall w e₁ |>.evolved hs₁ h.run
    obtain ⟨hn₁, hn₂⟩ := hn.split hanswer.path.grows hrest.path.grows
    obtain ⟨sent, hsent, hposts⟩ := ih hs₁ hn₂
    have hanswered : ∃ first, e₁.mailbox.pending = e.mailbox.pending ++ first ∧
        (posts [.asked r]).Sublist first := by
      obtain ⟨first, hfirst⟩ := (hanswer.path.kept hn₁).1
      refine ⟨first, hfirst.symm, ?_⟩
      cases r with
      | post m =>
        cases hr
        rw [List.append_cancel_left hfirst]
        exact List.Sublist.refl _
      | _ => exact List.nil_sublist _
    obtain ⟨first, hfirst, hpost⟩ := hanswered
    refine ⟨first ++ sent, ?_, ?_⟩
    · rw [hsent, hfirst, List.append_assoc]
    · have hsplit : posts (.asked r :: moves) = posts [.asked r] ++ posts moves :=
        posts_append [.asked r] moves
      rw [hsplit]
      exact hpost.append hposts
  | look h ih => exact ih hs hn
  | @change f next e e' moves x h ih =>
    have hpassed : Step .any ⟨e, w⟩ ⟨{ e with host := f e.host }, w⟩ := .passed ..
    exact ih (hs.step hpassed) hn

/-- When the work has been noted nothing else is delivered or pumped until it is done. -/
def Handling.Sole {α β : Type} (note : α → Note H) (piece : Handling H α β) : Prop :=
  Undispatched (piece.before.note (note piece.item)) piece.after

/-- What is in the mailbox stays there until the piece of work is done, and from then on until the
given end. -/
def Handling.Leaves {α β : Type} (piece : Handling H α β) (e' : Engine H) : Prop :=
  piece.before.mailbox.pending <+: piece.after.mailbox.pending ∧
    piece.after.mailbox.pending <+: e'.mailbox.pending

namespace Engine

/-- A dispatch: the messages that were there are delivered, and the sources that are there after
that are pumped, those that have joined included. Unless another dispatch happens amid that, all
messages that are sent in the meantime are left. -/
structure Dispatch (call : Callbacks H) (e : Engine H)
    (messages : List (Handling H (Message H) Unit)) (between : Engine H)
    (sources : List (Handling H H.Source Nat)) (e' : Engine H) : Prop where
  delivered : Handled (deliverMessage call) { e with mailbox := .empty } messages between
  pumped : Handled (pumpSource call) between sources e'
  waiting : messages.map Handling.item = e.mailbox.pending
  present : sources.map Handling.item = between.sources
  joined : e.sources <+: between.sources
  joining : between.sources <+: e'.sources
  left : (∀ piece ∈ messages, piece.Sole .delivered) → (∀ piece ∈ sources, piece.Sole .pumped) →
    (∀ piece ∈ messages, piece.Leaves e') ∧ ∀ piece ∈ sources, piece.Leaves e'

variable {script : Script H H} {rounds depth : Nat} {w : List Ticket} {e e' : Engine H}

/-- A delivery after its note. -/
theorem mailed_deliverMessage {m : Message H} (hs : Sound .any ⟨e, w⟩)
    (hrun : (deliverMessage (script.callbacks rounds depth) m).run e = some ((), e')) :
    Mailed anyChange (e.note (.delivered m)) e' := by
  have hcall := script.changesOnly_any.keeps_mail rounds depth
  have hnoted : Step .any ⟨e, w⟩ ⟨e.note (.delivered m), w⟩ := .noted trivial
  cases m with
  | fire name => exact ((from_fire hcall name _).evolved (hs.step hnoted) hrun).path
  | task t => exact ((hcall.task t w _).evolved (hs.step hnoted) hrun).path

/-- A pump after its note. -/
theorem mailed_pumpSource {s : H.Source} {count : Nat} (hs : Sound .any ⟨e, w⟩)
    (hrun : (pumpSource (script.callbacks rounds depth) s).run e = some (count, e')) :
    Mailed anyChange (e.note (.pumped s)) e' := by
  have hnoted : Step .any ⟨e, w⟩ ⟨e.note (.pumped s), w⟩ := .noted trivial
  cases depth with
  | zero => cases hrun
  | succ depth =>
    have hcall := script.changesOnly_any.keeps_mail rounds depth
    have hpump := (script.pump s).changesOnly_any.obeys.runs hcall w (e.note (.pumped s))
    exact (hpump.evolved (hs.step hnoted) hrun).path

theorem dispatch_run {count : Nat} (hs : Sound .any ⟨e, w⟩)
    (hrun : (dispatch (script.callbacks rounds depth)).run e = some (count, e')) :
    ∃ messages between sources,
      Dispatch (script.callbacks rounds depth) e messages between sources e' ∧
        count = e.mailbox.pending.length + (sources.map Handling.result).sum := by
  have hcall := script.changesOnly_any.keeps_mail rounds depth
  have hdrained : Step .any ⟨e, w⟩ ⟨{ e with mailbox := .empty }, w⟩ := .passed ..
  have hs₀ := hs.step hdrained
  obtain ⟨⟨⟨⟩, e₁⟩, hmessages, hrest⟩ := Option.bind_eq_some_iff.mp hrun
  obtain ⟨⟨counts, e₂⟩, hsources, hdone⟩ := Option.bind_eq_some_iff.mp hrest
  cases hdone
  obtain ⟨messages, hmessages, hitems⟩ := handled_of_forM hmessages
  obtain ⟨sources, hsources, hitems', hcounts⟩ := handled_of_mapM hsources
  have hdelivered := hmessages.evolved (from_deliverMessage hcall) hs₀
  have hs₁ := hs₀.steps hdelivered.steps
  have hpumped := hsources.evolved (fun s e => hcall.pump s w e) hs₁
  refine ⟨messages, e₁, sources, ⟨hmessages, hsources, hitems, hitems', hdelivered.path.sources,
    hpumped.path.sources, fun hsole hsole' => ?_⟩, ?_⟩
  · have hkept : ∀ piece ∈ messages,
        piece.before.mailbox.pending <+: piece.after.mailbox.pending := by
      intro piece hmem
      have hbefore := (hmessages.around (from_deliverMessage hcall) hs₀ hmem).1
      exact ((mailed_deliverMessage (hs₀.steps hbefore.steps) (hmessages.run hmem)).kept
        (hsole piece hmem)).1
    have hkept' : ∀ piece ∈ sources,
        piece.before.mailbox.pending <+: piece.after.mailbox.pending := by
      intro piece hmem
      have hbefore := (hsources.around (fun s e => hcall.pump s w e) hs₁ hmem).1
      exact ((mailed_pumpSource (hs₁.steps hbefore.steps) (hsources.run hmem)).kept
        (hsole' piece hmem)).1
    -- What a message leaves behind is there still when the sources are pumped.
    obtain ⟨-, hleft⟩ := hmessages.joins (fun e => e.mailbox.pending) hkept
    obtain ⟨hwhole, hleft'⟩ := hsources.joins (fun e => e.mailbox.pending) hkept'
    exact ⟨fun piece hmem => ⟨hkept piece hmem, (hleft piece hmem).trans hwhole⟩,
      fun piece hmem => ⟨hkept' piece hmem, hleft' piece hmem⟩⟩
  · let delivered := e.mailbox.pending.length
    have hadded : counts.foldl (· + ·) (delivered + 0) = delivered + counts.foldl (· + ·) 0 :=
      List.foldl_assoc
    rw [hcounts, List.sum_eq_foldl]
    exact hadded

/-- A dispatch pumps its sources in states that are sound. -/
theorem Dispatch.sound_source {messages : List (Handling H (Message H) Unit)} {between : Engine H}
    {sources : List (Handling H H.Source Nat)}
    (h : Dispatch (script.callbacks rounds depth) e messages between sources e')
    (hs : Sound .any ⟨e, w⟩) {piece : Handling H H.Source Nat} (hmem : piece ∈ sources) :
    Sound .any ⟨piece.before, w⟩ := by
  have hcall := script.keeps_any rounds depth
  have hdrained : Step .any ⟨e, w⟩ ⟨{ e with mailbox := .empty }, w⟩ := .passed ..
  have hs₀ := hs.step hdrained
  have hs₁ := hs₀.steps (h.delivered.evolved (from_deliverMessage hcall) hs₀).steps
  exact hs₁.steps (h.pumped.around (fun s e => hcall.pump s w e) hs₁ hmem).1.steps

/-- The life of a host: at times it dispatches, and what it does at other times is not a dispatch.
The messages it sends at those other times are listed, and those that the dispatches deliver. -/
inductive Looped (call : Callbacks H) :
    Engine H → List (Message H) → List (Message H) → Engine H → Prop
  | idle (e : Engine H) : Looped call e [] [] e
  | acted {α : Type} {a : Action H α} {x : α} {moves : List (Move H)} {e e₁ e' : Engine H}
      {sent delivered : List (Message H)} (h : a.Goes call e moves x e₁) (hn : Undispatched e e₁)
      (rest : Looped call e₁ sent delivered e') : Looped call e (posts moves ++ sent) delivered e'
  | dispatched {messages : List (Handling H (Message H) Unit)} {between : Engine H}
      {sources : List (Handling H H.Source Nat)} {e e₁ e' : Engine H} {count : Nat}
      {sent delivered : List (Message H)} (hrun : (dispatch call).run e = some (count, e₁))
      (h : Dispatch call e messages between sources e₁) (rest : Looped call e₁ sent delivered e') :
      Looped call e sent (messages.map Handling.item ++ delivered) e'

theorem sound_dispatch {count : Nat} (hs : Sound .any ⟨e, w⟩)
    (hrun : (dispatch (script.callbacks rounds depth)).run e = some (count, e')) :
    Sound .any ⟨e', w⟩ :=
  hs.steps ((from_dispatch (script.keeps_any rounds depth) (w := w) e).evolved hs hrun).steps

/-- Nothing is lost and nothing comes twice: what was waiting and what has joined it is what has
been delivered and what is waiting now, in this order. -/
theorem Looped.account {sent delivered : List (Message H)}
    (h : Looped (script.callbacks rounds depth) e sent delivered e') (hs : Sound .any ⟨e, w⟩) :
    ∃ joined, e.mailbox.pending ++ joined = delivered ++ e'.mailbox.pending ∧
      sent.Sublist joined := by
  induction h with
  | idle e => exact ⟨[], List.append_nil _, List.Sublist.refl _⟩
  | @acted α a x moves e e₁ e' sent delivered hgoes hn _ ih =>
    have hfrom := from_action (w := w) (script.keeps_any rounds depth) a.asksOnly_any e
    obtain ⟨first, hfirst, hposts⟩ := hgoes.posts_kept hs hn
    obtain ⟨later, hlater, hsent⟩ := ih (hs.steps (hfrom.evolved hs hgoes.run).steps)
    refine ⟨first ++ later, ?_, hposts.append hsent⟩
    rw [← List.append_assoc, ← hfirst, hlater]
  | @dispatched messages between sources e e₁ e' count sent delivered hrun hd _ ih =>
    obtain ⟨later, hlater, hsent⟩ := ih (sound_dispatch hs hrun)
    refine ⟨e₁.mailbox.pending ++ later, ?_, hsent.trans (List.sublist_append_right ..)⟩
    rw [hlater, hd.waiting, List.append_assoc]

end Engine

end LiveExpr
