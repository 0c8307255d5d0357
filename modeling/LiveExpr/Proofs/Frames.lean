import LiveExpr.Proofs.Loops

/-!
The frames of a machine at every moment of its loop. Each stands in its code and holds no
more values than it may, there are no more of them than the depth of calls allows, and
each but the first was entered by the call that the frame below it waits for. So a fault
is always that of an instruction of the frame that has to answer for it.
-/
namespace LiveExpr

namespace Frame

/-- The frame stands in its code, and will when it goes on after a call, and its stack is no higher
than the limit. -/
structure Within (limit : Nat) (f : Frame) : Prop where
  pc : f.pc ≤ f.program.size
  resume : f.resume ≤ f.program.size
  stack : f.stack.size ≤ limit

/-- The caller stands before the call by which the frame was entered, and will go on behind it. -/
def EnteredFrom (f caller : Frame) : Prop :=
  f.callSite = caller.pc ∧
    ∃ name argc, decode caller.program.code caller.pc = .ok (.call name argc, caller.resume)

/-- The frame stands before a return. -/
def returns (f : Frame) : Bool :=
  match decode f.program.code f.pc with
  | .ok (.ret, _) => true
  | _ => false

variable {limit : Nat} {f g : Frame}

theorem EnteredFrom.pc_lt {caller : Frame} (h : f.EnteredFrom caller) :
    caller.pc < caller.program.size := by
  obtain ⟨-, name, argc, hdecode⟩ := h
  have hbounds := decode_bounds hdecode
  exact Nat.lt_of_lt_of_le hbounds.1 hbounds.2

theorem pc_lt_of_not_atEnd (h : ¬ f.atEnd) : f.pc < f.program.size :=
  Nat.lt_of_not_le fun hle => h (decide_eq_true hle)

theorem Within.push {offset : Nat} {v : Value} (h : f.Within limit)
    (hpush : f.push limit offset v = .ok g) : g.Within limit := by
  obtain ⟨hroom, rfl⟩ := push_eq_ok_iff.mp hpush
  exact ⟨h.pc, h.resume, Nat.le_trans (Nat.le_of_eq (Array.size_push ..)) hroom⟩

/-- Either no instruction can be read, or one is executed. -/
theorem advance_cases (limit : Nat) (f : Frame) :
    (∃ fault, decode f.program.code f.pc = .error fault ∧ f.advance limit = .error fault) ∨
      ∃ i next, decode f.program.code f.pc = .ok (i, next) ∧
        f.advance limit = f.execute limit next i := by
  cases hdecode : decode f.program.code f.pc with
  | error fault => exact .inl ⟨fault, rfl, advance_of_decode_error hdecode⟩
  | ok found => exact .inr ⟨found.1, found.2, rfl, advance_of_decode hdecode⟩

/-- A frame that stands before a return leaves with its result. -/
theorem advance_of_returns (h : f.returns) : f.advance limit = .ok (.leave f.result f.callSite) := by
  unfold returns at h
  split at h
  · rename_i hdecode
    exact advance_of_decode hdecode
  · cases h

/-- What a frame comes to by its next instruction, or why it fails there. -/
theorem Within.advance (h : f.Within limit) :
    match f.advance limit with
    | .error fault => fault.offset = f.pc
    | .ok (.goOn g) => g.Within limit ∧ g.callSite = f.callSite
    | .ok (.call name _ g next) => g.Within limit ∧ g.callSite = f.callSite ∧ g.pc = f.pc ∧
        ∃ argc, decode g.program.code g.pc = .ok (.call name argc, next)
    | .ok (.leave _ site) => f.returns ∧ site = f.callSite := by
  rcases f.advance_cases limit with ⟨fault, hdecode, hadvance⟩ | ⟨i, next, hdecode, hadvance⟩
  · rw [hadvance]
    exact decode_offset hdecode
  have hnext : next ≤ f.program.size := (decode_bounds hdecode).2
  have hobeys := f.execute_obeys limit next i
  rw [hadvance]
  generalize f.execute limit next i = outcome at hobeys
  cases hobeys with
  | underflow => rfl
  | overflow => rfl
  | strayed => rfl
  | passed hsize =>
    exact ⟨⟨hnext, h.resume, Nat.le_trans hsize (Nat.max_le.mpr ⟨Nat.le_refl _, h.stack⟩)⟩, rfl⟩
  | jumped hsize _ _ hin => exact ⟨⟨hin, h.resume, Nat.le_trans hsize h.stack⟩, rfl⟩
  | @called name args stack hsize hi =>
    refine ⟨⟨h.pc, h.resume, Nat.le_trans hsize h.stack⟩, rfl, rfl, ?_⟩
    cases i with
    | call name' argc =>
      cases hi
      exact ⟨argc, hdecode⟩
    | _ => cases hi
  | left hi =>
    subst hi
    refine ⟨?_, rfl⟩
    unfold returns
    rw [hdecode]

end Frame

namespace Machine

/-- All frames, the one that runs first. -/
def frames (s : Machine) : List Frame := s.top :: s.callers.frames

structure WellStacked (limits : Limits) (s : Machine) : Prop where
  within : ∀ f ∈ s.frames, f.Within limits.maxStack
  depth : s.frames.length ≤ limits.maxCallDepth + 1
  entered : s.frames.IsChain Frame.EnteredFrom

/-- By the next step the frame that runs gives its value to the one that waits for it. -/
def handsOver (s : Machine) : Bool := s.top.atEnd || s.session.budget != 0 && s.top.returns

/-- The frame that has to answer for a fault of the next step. -/
def charged (s : Machine) : Option Frame :=
  if s.handsOver then s.callers.frames.head? else some s.top

/-- The fault is that of the instruction before which the charged frame stands. A value that is
handed over can only be one too many. -/
def Blames (limits : Limits) (s : Machine) (fault : Fault) : Prop :=
  ∃ f, s.charged = some f ∧ fault.offset = f.pc ∧ fault.offset < f.program.size ∧
    (s.handsOver → fault.reason = .stackOverflow limits.maxStack)

theorem blames_top {limits : Limits} {s : Machine} {fault : Fault} (hs : s.handsOver = false)
    (hend : ¬ s.top.atEnd) (hfault : fault.offset = s.top.pc) : s.Blames limits fault := by
  refine ⟨s.top, ?_, hfault, hfault ▸ Frame.pc_lt_of_not_atEnd hend, fun h => ?_⟩
  · simp [charged, hs]
  · rw [hs] at h
    cases h

theorem handsOver_of_not_returns {s : Machine} (hend : ¬ s.top.atEnd) (h : ¬ s.top.returns) :
    s.handsOver = false := by
  simp [handsOver, hend, h]

end Machine

/-- The frames are in order if the loop goes on, and if it ends by a fault then by one of these. -/
def Progress.Keeping (limits : Limits) (blamed : Fault → Prop) : Progress → Prop
  | .running t => t.WellStacked limits
  | .finished (.error fault) => blamed fault
  | .finished (.ok _) => True

theorem Progress.Keeping.mono {limits : Limits} {P Q : Fault → Prop} {p : Progress}
    (h : p.Keeping limits P) (hPQ : ∀ fault, P fault → Q fault) : p.Keeping limits Q := by
  cases p with
  | running t => exact h
  | finished outcome =>
    cases outcome with
    | error fault => exact hPQ fault h
    | ok e => trivial

namespace Machine

variable {limits : Limits} {s : Machine}

theorem wellStacked_start (limits : Limits) (program : Program) (args : List Value) :
    (start limits program args).WellStacked limits where
  within := by
    intro f hf
    cases List.mem_singleton.mp hf
    exact ⟨Nat.zero_le _, Nat.zero_le _, Nat.zero_le _⟩
  depth := Nat.le_add_left ..
  entered := .singleton _

theorem WellStacked.of_top {f : Frame} {session : Session} (h : s.WellStacked limits)
    (hf : f.Within limits.maxStack) (hsite : f.callSite = s.top.callSite) :
    (Machine.mk f s.callers session).WellStacked limits where
  within := by
    intro g hg
    rcases List.mem_cons.mp hg with rfl | hg
    · exact hf
    · exact h.within g (.tail _ hg)
  depth := h.depth
  entered := by
    have hentered := h.entered
    unfold frames at hentered ⊢
    cases hframes : s.callers.frames with
    | nil => exact .singleton _
    | cons caller rest =>
      rw [hframes] at hentered
      obtain ⟨hcaller, hrest⟩ := List.isChain_cons_cons.mp hentered
      exact .cons_cons ⟨hsite.trans hcaller.1, hcaller.2⟩ hrest

/-- The caller as it is left when the frame above it is gone. -/
theorem WellStacked.pop {top caller : Frame} {rest : List Frame} {depth : Nat}
    {hdepth : depth = (caller :: rest).length} {session : Session}
    (h : (Machine.mk top ⟨caller :: rest, depth, hdepth⟩ session).WellStacked limits)
    (hdepth' : depth - 1 = rest.length) :
    (Machine.mk caller ⟨rest, depth - 1, hdepth'⟩ session).WellStacked limits where
  within := fun f hf => h.within f (.tail _ hf)
  depth := Nat.le_of_succ_le h.depth
  entered := h.entered.tail

/-- A value is handed over to the caller, or it is one too many for it. -/
theorem WellStacked.leave (h : s.WellStacked limits) (v : Value) (session : Session) :
    (leave limits s.top.callSite v s.callers session).Keeping limits fun fault =>
      ∃ caller, s.callers.frames.head? = some caller ∧ caller.pc < caller.program.size ∧
        fault = ⟨caller.pc, .stackOverflow limits.maxStack⟩ := by
  obtain ⟨top, ⟨frames, depth, hdepth⟩, session'⟩ := s
  cases frames with
  | nil => trivial
  | cons caller rest =>
    have hwithin : caller.Within limits.maxStack := h.within caller (.tail _ (.head _))
    obtain ⟨hcaller, -⟩ := List.isChain_cons_cons.mp h.entered
    simp only [Machine.leave]
    cases hpush : caller.push limits.maxStack top.callSite v with
    | error fault =>
      refine ⟨caller, rfl, hcaller.pc_lt, ?_⟩
      rw [← hcaller.1]
      exact Frame.push_fault hpush
    | ok g =>
      have hg := hwithin.push hpush
      rw [Frame.push_eq hpush] at hg ⊢
      exact (h.pop _).of_top ⟨hg.resume, hg.resume, hg.stack⟩ rfl

theorem WellStacked.supply (h : s.WellStacked limits) {next : Nat}
    (hnext : next ≤ s.top.program.size) (v : Value) :
    (supply limits next v s).Keeping limits fun fault => fault.offset = s.top.pc := by
  simp only [Machine.supply]
  cases hpush : s.top.push limits.maxStack s.top.pc v with
  | error fault => exact congrArg Fault.offset (Frame.push_fault hpush)
  | ok g =>
    have hg := (h.within s.top (.head _)).push hpush
    rw [Frame.push_eq hpush] at hg ⊢
    exact h.of_top ⟨hnext, hg.resume, hg.stack⟩ rfl

/-- The frame that is entered has its caller wait behind the call. -/
theorem WellStacked.enter (h : s.WellStacked limits) {next : Nat}
    (hcall : ∃ name argc, decode s.top.program.code s.top.pc = .ok (.call name argc, next))
    (p : Program) (args : List Value) :
    (s.enter limits next p args).Keeping limits fun fault => fault.offset = s.top.pc := by
  unfold Machine.enter
  split
  · rfl
  · rename_i hdepth
    have htop := h.within s.top (.head _)
    obtain ⟨name, argc, hdecode⟩ := hcall
    have hnext : next ≤ s.top.program.size := (decode_bounds hdecode).2
    have hwaiting : (Machine.mk { s.top with resume := next } s.callers s.session).WellStacked
        limits := h.of_top ⟨htop.pc, hnext, htop.stack⟩ rfl
    refine ⟨?_, ?_, .cons_cons ⟨rfl, name, argc, hdecode⟩ hwaiting.entered⟩
    · intro f hf
      rcases List.mem_cons.mp hf with rfl | hf
      · exact ⟨Nat.zero_le _, Nat.zero_le _, Nat.zero_le _⟩
      · exact hwaiting.within f hf
    · have hlength := s.callers.depth_eq
      simp only [frames, Callers.push, List.length_cons]
      omega

variable {σ φ : Type} {env : Environment (StateT σ Option) φ} {x y : σ}

theorem WellStacked.resolved (h : s.WellStacked limits) {next : Nat} {name : String} {argc : UInt8}
    (hcall : decode s.top.program.code s.top.pc = .ok (.call name argc, next)) {args : List Value}
    {p : Progress} (hp : Resolved env limits s next name args x p y) :
    p.Keeping limits fun fault => fault.offset = s.top.pc := by
  have hnext : next ≤ s.top.program.size := (decode_bounds hcall).2
  cases hp with
  | unbound => exact h.supply hnext _
  | @native f deterministic =>
    have htouched : (s.touch deterministic).WellStacked limits := ⟨h.within, h.depth, h.entered⟩
    exact htouched.supply hnext _
  | user => exact h.enter ⟨name, argc, hcall⟩ _ _

/-- What one step makes of frames that are in order. -/
theorem WellStacked.stepped (h : s.WellStacked limits) {p : Progress}
    (hstep : Stepped env limits s x p y) : p.Keeping limits (s.Blames limits) := by
  have htop := h.within s.top (.head _)
  have hadvance := htop.advance
  -- A value that does not fit in is a fault of the caller.
  have hleave (hhands : s.handsOver) (v : Value) (session : Session) :
      (Machine.leave limits s.top.callSite v s.callers session).Keeping limits
        (s.Blames limits) := by
    refine (h.leave v session).mono fun fault hfault => ?_
    obtain ⟨caller, hcaller, hlt, rfl⟩ := hfault
    refine ⟨caller, ?_, rfl, hlt, fun _ => rfl⟩
    rw [charged, if_pos hhands, hcaller]
  cases hstep with
  | ended hend => exact hleave (by simp [handsOver, hend]) _ _
  | spent hend hb => exact blames_top (by simp [handsOver, hend, hb]) hend rfl
  | failed hs hadv =>
    have hreturns : ¬ s.top.returns := by
      intro hreturns
      cases (Frame.advance_of_returns hreturns).symm.trans hadv
    rw [hadv] at hadvance
    exact blames_top (handsOver_of_not_returns hs.1 hreturns) hs.1 hadvance
  | wentOn hs hadv =>
    rw [hadv] at hadvance
    exact h.of_top hadvance.1 hadvance.2
  | left hs hadv =>
    rw [hadv] at hadvance
    obtain ⟨hreturns, rfl⟩ := hadvance
    exact hleave (by simp [handsOver, hreturns, hs.2]) _ _
  | called hs hadv hcall =>
    have hreturns : ¬ s.top.returns := by
      intro hreturns
      cases (Frame.advance_of_returns hreturns).symm.trans hadv
    rw [hadv] at hadvance
    obtain ⟨hf, hsite, hpc, argc, hdecode⟩ := hadvance
    refine (WellStacked.resolved (h.of_top hf hsite) hdecode hcall).mono fun fault hfault => ?_
    exact blames_top (handsOver_of_not_returns hs.1 hreturns) hs.1 (hfault.trans hpc)

/-- What one step keeps up, the loop keeps up. -/
theorem WellStacked.leads (h : s.WellStacked limits) {t : Machine}
    (ht : Leads env limits s x t y) : t.WellStacked limits := by
  induction ht with
  | refl => exact h
  | step _ hstep ih => exact ih.stepped (step_iff.mp hstep)

theorem Loops.last_step {rounds instructions : Nat} {outcome : Except Fault Evaluation} {z : σ}
    (h : Loops env limits s x rounds instructions outcome z) :
    ∃ t y, Leads env limits s x t y ∧ (t.step env limits).run y = some (.finished outcome, z) := by
  induction h with
  | last hstep => exact ⟨_, _, .refl, hstep⟩
  | round hstep _ ih =>
    obtain ⟨t, y, hleads, hlast⟩ := ih
    exact ⟨t, y, .of_step hstep hleads, hlast⟩

end Machine

open Machine in
/-- In every state that the loop comes to the frames are in order, and the fault with which an
evaluation ends is one of the last of them. -/
theorem evaluate_keeps_frames {σ φ : Type} (env : Environment (StateT σ Option) φ) (limits : Limits)
    (program : Program) (args : List Value) (x : σ) :
    (∀ t y, Leads env limits (.start limits program args) x t y → t.WellStacked limits) ∧
    ∀ fault z, (evaluate env limits program args).run x = some (.error fault, z) →
      ∃ t y, Leads env limits (.start limits program args) x t y ∧
        (t.step env limits).run y = some (fail fault, z) ∧ t.Blames limits fault := by
  have hstart := wellStacked_start limits program args
  refine ⟨fun t y ht => hstart.leads ht, fun fault z h => ?_⟩
  obtain ⟨rounds, instructions, hloops⟩ := evaluate_iff_loops.mp h
  obtain ⟨t, y, ht, hlast⟩ := hloops.last_step
  exact ⟨t, y, ht, hlast, (hstart.leads ht).stepped (step_iff.mp hlast)⟩

open Machine in
/-- A value that does not fit on the stack of the caller. The fault names the call, while the code of
the function ends before that offset. -/
theorem evaluate_keeps_frames_overflow :
    let body : Program := ⟨Instruction.encode (.pushBool true), 1⟩
    let program : Program :=
      ⟨Instruction.encode .pushUnset ++ Instruction.encode (.call "F" 0), 0⟩
    let env : Environment (StateT Unit Option) Unit :=
      { resolve := fun _ => return .user body
        invoke := fun _ _ => return .unset }
    let limits : Limits := ⟨1, 1, 9⟩
    let fault : Fault := ⟨1, .stackOverflow 1⟩
    body.size ≤ 1 ∧ (evaluate env limits program []).run () = some (.error fault, ()) ∧
      ∃ t, Leads env limits (.start limits program []) () t () ∧
        (t.step env limits).run () = some (fail fault, ()) ∧ t.WellStacked limits ∧
        t.Blames limits fault := by
  intro body program env limits fault
  have heval : (evaluate env limits program []).run () = some (.error fault, ()) := by
    cbv
  obtain ⟨hstacked, hfault⟩ := evaluate_keeps_frames env limits program [] ()
  obtain ⟨t, y, ht, hlast, hblames⟩ := hfault fault () heval
  exact ⟨by decide, heval, t, ht, hlast, hstacked t y ht, hblames⟩

end LiveExpr
