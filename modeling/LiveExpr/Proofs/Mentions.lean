import LiveExpr.Proofs.Frames

/-!
The names that an evaluation calls against those that can be listed beforehand. A machine
that runs assembled programs only ever stands at boundaries, and these are the offsets
that a listing from the start comes to. So a program calls none but the names of its
listing, and everything else is called by functions that such names stand for.
-/
namespace LiveExpr

theorem Names.mem_distinct {names : List String} {name : String} :
    name ∈ distinct names ↔ name ∈ names := by
  have hfold : ∀ known : List String, name ∈ names.foldl note known ↔
      name ∈ known ∨ name ∈ names := by
    induction names with
    | nil => simp
    | cons first rest ih =>
      intro known
      rw [List.foldl_cons, ih, mem_note, List.mem_cons, or_assoc]
  simpa [distinct] using hfold []

theorem mem_listFrom {code : ByteArray} {item : Nat × Instruction} (offset : Nat)
    (items : Array (Nat × Instruction)) (h : item ∈ items) :
    item ∈ (listFrom code offset items).items := by
  fun_induction listFrom code offset items with
  | case1 offset items hlt i next hdecode ih => exact ih (Array.mem_push_of_mem _ h)
  | case2 offset items hlt fault hdecode => exact Array.mem_toList_iff.mpr h
  | case3 offset items hend => exact Array.mem_toList_iff.mpr h

theorem listFrom_of_decode {code : ByteArray} {offset after : Nat} {i : Instruction}
    (items : Array (Nat × Instruction))
    (hdecode : decode code offset = .ok (i, after)) :
    listFrom code offset items = listFrom code after (items.push (offset, i)) := by
  have hbounds := decode_bounds hdecode
  rw [listFrom, if_pos (Nat.lt_of_lt_of_le hbounds.1 hbounds.2)]
  split
  · rename_i hdecode'
    cases hdecode.symm.trans hdecode'
    rfl
  · rename_i hdecode'
    cases hdecode.symm.trans hdecode'

namespace Program

variable {p : Program} {offset after : Nat} {i : Instruction} {name : String}

/-- The listing comes to every boundary. -/
theorem Boundary.listing_eq (h : p.Boundary offset) :
    ∃ items, p.listing = listFrom p.code offset items := by
  induction h with
  | start => exact ⟨#[], rfl⟩
  | next _ hdecode ih =>
    obtain ⟨items, hitems⟩ := ih
    exact ⟨_, hitems.trans (listFrom_of_decode items hdecode)⟩

theorem Boundary.mem_listing (h : p.Boundary offset)
    (hdecode : decode p.code offset = .ok (i, after)) : (offset, i) ∈ p.listing.items := by
  obtain ⟨items, hitems⟩ := h.listing_eq
  rw [hitems, listFrom_of_decode items hdecode]
  exact mem_listFrom _ _ Array.mem_push_self

theorem Boundary.mem_referencedNames (h : p.Boundary offset)
    (hdecode : decode p.code offset = .ok (i, after)) (hi : i.calledName? = some name) :
    name ∈ p.referencedNames :=
  Names.mem_distinct.mpr (List.mem_filterMap.mpr ⟨_, h.mem_listing hdecode, hi⟩)

/-- The names that the program calls by itself, and those that are called by the functions for which
such names stand. -/
inductive Mentions {φ : Type} (r : Registry φ) (p : Program) : String → Prop
  | directly {name : String} (h : name ∈ p.referencedNames) : Mentions r p name
  | through {function name : String} {q : Program} (h : Mentions r p function)
      (hr : r.resolve function = .user q) (hname : name ∈ q.referencedNames) : Mentions r p name

end Program

/-- A frame stays in its program, and it calls by an instruction for the name. -/
theorem Frame.advance_calls (limit : Nat) (f : Frame) :
    match f.advance limit with
    | .ok (.goOn g) => g.program = f.program
    | .ok (.call name _ g _) => g.program = f.program ∧
        ∃ i next, decode f.program.code f.pc = .ok (i, next) ∧ i.calledName? = some name
    | _ => True := by
  rcases f.advance_cases limit with ⟨fault, -, hadvance⟩ | ⟨i, next, hdecode, hadvance⟩
  · rw [hadvance]
    trivial
  have hobeys := f.execute_obeys limit next i
  rw [hadvance]
  generalize f.execute limit next i = outcome at hobeys
  cases hobeys with
  | passed => rfl
  | jumped => rfl
  | called _ hi => exact ⟨rfl, i, next, hdecode, hi⟩
  | _ => trivial

/-- Nothing but such names has been called, and nothing else is called by the programs of frames. -/
structure Machine.Mentioning (P : String → Prop) (s : Machine) : Prop where
  programs : ∀ f ∈ s.frames, ∀ name ∈ f.program.referencedNames, P name
  called : ∀ name ∈ s.session.dependencies, P name

def Progress.Mentioning (P : String → Prop) : Progress → Prop
  | .running t => t.Mentioning P
  | .finished (.ok v) => ∀ name ∈ v.dependencies, P name
  | .finished (.error _) => True

/-- Where a name of the set stands for a program, the names of the program are in the set. -/
def Environment.ClosedIn {σ φ : Type} (env : Environment (StateT σ Option) φ) (P : String → Prop)
    (x : σ) : Prop :=
  ∀ function q y, (env.resolve function).run x = some (.user q, y) → P function →
    ∀ name ∈ q.referencedNames, P name

namespace Machine

variable {P : String → Prop} {limits : Limits} {s : Machine}

theorem Mentioning.leave {top : Frame} {callers : Callers} {session : Session}
    (h : (Machine.mk top callers session).Mentioning P) (site : Nat) (v : Value) :
    (leave limits site v callers session).Mentioning P := by
  obtain ⟨frames, depth, hdepth⟩ := callers
  cases frames with
  | nil => exact h.called
  | cons caller rest =>
    simp only [Machine.leave]
    cases hpush : caller.push limits.maxStack site v with
    | error fault => trivial
    | ok f =>
      rw [Frame.push_eq hpush]
      refine ⟨fun g hg => ?_, h.called⟩
      rcases List.mem_cons.mp hg with rfl | hg
      · exact h.programs caller (.tail _ (.head _))
      · exact h.programs g (.tail _ (.tail _ hg))

theorem Mentioning.of_top {f : Frame} {session : Session} (h : s.Mentioning P)
    (hf : f.program = s.top.program) (hcalled : ∀ name ∈ session.dependencies, P name) :
    (Machine.mk f s.callers session).Mentioning P where
  programs g hg := by
    rcases List.mem_cons.mp hg with rfl | hg
    · rw [hf]
      exact h.programs s.top (.head _)
    · exact h.programs g (.tail _ hg)
  called := hcalled

theorem Mentioning.supply (h : s.Mentioning P) (next : Nat) (v : Value) :
    (supply limits next v s).Mentioning P := by
  simp only [Machine.supply]
  cases hpush : s.top.push limits.maxStack s.top.pc v with
  | error fault => trivial
  | ok f =>
    rw [Frame.push_eq hpush]
    exact h.of_top rfl h.called

theorem Mentioning.enter (h : s.Mentioning P) (next : Nat) {q : Program}
    (hq : ∀ name ∈ q.referencedNames, P name) (args : List Value) :
    (s.enter limits next q args).Mentioning P := by
  unfold Machine.enter
  split
  · trivial
  · refine ⟨fun f hf => ?_, h.called⟩
    rcases List.mem_cons.mp hf with rfl | hf
    · exact hq
    · exact (h.of_top (f := { s.top with resume := next }) rfl h.called).programs f hf

variable {σ φ : Type} {env : Environment (StateT σ Option) φ} {x y : σ}

theorem Mentioning.stepped (h : s.Mentioning P) (hs : s.Aligned) (henv : env.ClosedIn P x)
    {p : Progress} (hstep : Stepped env limits s x p y) : p.Mentioning P := by
  have hadvance := s.top.advance_calls limits.maxStack
  cases hstep with
  | ended => exact h.leave ..
  | spent => trivial
  | failed => trivial
  | wentOn _ hadv =>
    rw [hadv] at hadvance
    exact h.of_top hadvance h.called
  | left =>
    have hspent : (Machine.mk s.top s.callers s.session.spend).Mentioning P :=
      h.of_top rfl h.called
    exact hspent.leave ..
  | @called _ name args f next _ _ hadv hcall =>
    rw [hadv] at hadvance
    obtain ⟨hprogram, i, after, hdecode, hi⟩ := hadvance
    -- The frame stands at a boundary, so its instruction is on the listing.
    have hname : P name :=
      h.programs s.top (.head _) name (hs.top.2.mem_referencedNames hdecode hi)
    have hcalling : (s.calling f name).Mentioning P := by
      refine h.of_top hprogram fun other hother => ?_
      rcases Names.mem_note.mp hother with hold | rfl
      · exact h.called other hold
      · exact hname
    cases hcall with
    | unbound => exact hcalling.supply ..
    | @native _ deterministic =>
      have htouched : ((s.calling f name).touch deterministic).Mentioning P :=
        hcalling.of_top rfl hcalling.called
      exact htouched.supply ..
    | user hr => exact hcalling.enter _ (henv _ _ _ hr hname) _

/-- What one step keeps up, the loop keeps up. -/
theorem Mentioning.leads (h : s.Mentioning P) (hs : s.Aligned)
    (henv : ∀ t y, Leads env limits s x t y → env.WellFormedIn y ∧ env.ClosedIn P y) {t : Machine}
    (ht : Leads env limits s x t y) : t.Mentioning P ∧ t.Aligned := by
  induction ht with
  | refl => exact ⟨h, hs⟩
  | step ht hstep ih =>
    obtain ⟨hwell, hclosed⟩ := henv _ _ ht
    have hstepped := step_iff.mp hstep
    exact ⟨ih.1.stepped ih.2 hclosed hstepped, ih.2.stepped hwell hstepped⟩

end Machine

open Machine in
/-- As long as names stand for what they stand for in the registry, a successful evaluation of
assembled programs has called no name that the program does not mention, be it through others. -/
theorem evaluate_calls_mentioned {σ φ : Type} {env : Environment (StateT σ Option) φ}
    {limits : Limits} {program : Program} {args : List Value} {x y : σ} {v : Evaluation}
    {r : Registry φ} (hprogram : program.Assembled)
    (hfunctions : ∀ name q, r.resolve name = .user q → q.Assembled)
    (hresolve : ∀ t y, Leads env limits (.start limits program args) x t y →
      ∀ name b z, (env.resolve name).run y = some (b, z) → b = r.resolve name)
    (hrun : (evaluate env limits program args).run x = some (.ok v, y)) :
    ∀ name ∈ v.dependencies, program.Mentions r name := by
  have haligned : (Machine.start limits program args).Aligned :=
    ⟨⟨hprogram.wellFormed, .start⟩, fun f hf => nomatch hf⟩
  have hstart : (Machine.start limits program args).Mentioning (program.Mentions r) := by
    refine ⟨fun f hf name hname => ?_, fun name hname => nomatch hname⟩
    cases List.mem_singleton.mp hf
    exact .directly hname
  have henv : ∀ t y, Leads env limits (.start limits program args) x t y →
      env.WellFormedIn y ∧ env.ClosedIn (program.Mentions r) y := by
    refine fun t y ht => ⟨fun name q z hq => ?_, fun function q z hq hf name hname => ?_⟩
    · exact (hfunctions name q (hresolve t y ht name _ z hq).symm).wellFormed
    · exact .through hf (hresolve t y ht function _ z hq).symm hname
  obtain ⟨rounds, instructions, hloops⟩ := evaluate_iff_loops.mp hrun
  obtain ⟨t, z, ht, hlast⟩ := hloops.last_step
  obtain ⟨hmentioning, haligned'⟩ := hstart.leads haligned henv ht
  exact hmentioning.stepped haligned' (henv t z ht).2 (step_iff.mp hlast)

/-- A function calls a name that the program itself does not have, and the program jumps over one
that it has. -/
theorem evaluate_calls_mentioned_jumping :
    let body : Program := ⟨Instruction.encode (.call "G" 0), 1⟩
    let program : Program :=
      ⟨Instruction.encodeAll [.call "F" 0, .jumpIfFalse 8, .jump (-11), .call "Z" 0], 0⟩
    let r : Registry Unit := ⟨[("F", .user body)]⟩
    let env : Environment (StateT Unit Option) Unit :=
      { resolve := fun name => return r.resolve name
        invoke := fun _ _ => return .unset }
    let limits : Limits := ⟨4, 4, 9⟩
    (evaluate env limits program []).run () = some (.ok ⟨.unset, ["F", "G"], false⟩, ()) ∧
      program.Mentions r "F" ∧ program.Mentions r "G" := by
  intro body program r env limits
  have hrun : (evaluate env limits program []).run () =
      some (.ok ⟨.unset, ["F", "G"], false⟩, ()) := by
    cbv
  have hprogram : program.Assembled := by
    refine ⟨[.label, .call "F" 0, .jumpIfFalse, .jumpTo 0, .call "Z" 0, .bind 0], by decide, ?_⟩
    cbv
  have hbody : body.Assembled := by
    refine ⟨[.call "G" 0], by decide, ?_⟩
    cbv
  have hfunctions : ∀ name q, r.resolve name = .user q → q.Assembled := by
    intro name q hq
    by_cases hname : "F" = name
    · subst hname
      cases hq
      exact hbody
    · simp [r, Registry.resolve, Table.get?, hname] at hq
  have hmentioned := evaluate_calls_mentioned hprogram hfunctions
    (fun _ _ _ _ _ _ hb => by cases hb; rfl) hrun
  exact ⟨hrun, hmentioned "F" (by simp), hmentioned "G" (by simp)⟩

end LiveExpr
