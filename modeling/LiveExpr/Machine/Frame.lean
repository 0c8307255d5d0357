import LiveExpr.Code.Program
import LiveExpr.Limits

/-!
One activation of a program: where it stands, its arguments and its operand stack.
Executing an instruction either moves the frame on, or asks for a call, or leaves
the frame with a value. What a name means is not known here.
-/
namespace LiveExpr

structure Frame where
  program : Program
  args : List Value
  pc : Nat
  /-- Where to go on after the call that the frame waits for. -/
  resume : Nat
  /-- Offset of the call instruction in the caller that entered this frame. -/
  callSite : Nat
  /-- Bottom first. -/
  stack : Array Value

/-- What the execution of one instruction comes to. -/
inductive Effect where
  | goOn (frame : Frame)
  | call (name : String) (args : List Value) (frame : Frame) (next : Nat)
  | leave (result : Value) (callSite : Nat)

namespace Frame

def enter (program : Program) (args : List Value) (callSite : Nat) : Frame :=
  ⟨program, args, 0, 0, callSite, #[]⟩

def atEnd (f : Frame) : Bool := f.program.size ≤ f.pc

/-- The value a frame leaves behind: the top of its stack, if any. -/
def result (f : Frame) : Value := f.stack.back?.getD .unset

/-- A full stack is a fault of the instruction at `offset`. -/
def push (limit offset : Nat) (f : Frame) (v : Value) : Except Fault Frame :=
  if limit ≤ f.stack.size then .error ⟨offset, .stackOverflow limit⟩
  else .ok { f with stack := f.stack.push v }

def pop (f : Frame) : Except Fault (Value × Frame) :=
  match f.stack.back? with
  | some v => .ok (v, { f with stack := f.stack.pop })
  | none => .error ⟨f.pc, .stackUnderflow⟩

/-- The top `n` values, bottom first. -/
def take (f : Frame) (n : Nat) : Except Fault (List Value × Frame) :=
  if f.stack.size < n then .error ⟨f.pc, .stackUnderflow⟩
  else
    let keep := f.stack.size - n
    .ok ((f.stack.extract keep f.stack.size).toList, { f with stack := f.stack.shrink keep })

/-- Jumps count from the following instruction, and may land on the end of the code. -/
def jump (f : Frame) (next : Nat) (rel : Int16) : Except Fault Effect :=
  let target : Int := next + rel.toInt
  if 0 ≤ target ∧ target ≤ f.program.size then .ok (.goOn { f with pc := target.toNat })
  else .error ⟨f.pc, .jumpOutOfBounds target⟩

def pushThen (limit : Nat) (f : Frame) (next : Nat) (v : Value) : Except Fault Effect :=
  (f.push limit f.pc v).map fun f => .goOn { f with pc := next }

def execute (limit : Nat) (f : Frame) (next : Nat) : Instruction → Except Fault Effect
  | .pushUnset => f.pushThen limit next .unset
  | .pushNumber bits => f.pushThen limit next (.number (Float.ofBits bits))
  | .pushText s => f.pushThen limit next (.text s)
  | .pushBool b => f.pushThen limit next (.boolean b)
  | .loadArg index => f.pushThen limit next (f.args[index.toNat]?.getD .unset)
  | .call name argc => do
    let (args, f) ← f.take argc.toNat
    .ok (.call name args f next)
  | .pop => do
    let (_, f) ← f.pop
    .ok (.goOn { f with pc := next })
  | .unary op => do
    let (v, f) ← f.pop
    f.pushThen limit next (op.apply v)
  | .binary op => do
    let (rhs, f) ← f.pop
    let (lhs, f) ← f.pop
    f.pushThen limit next (op.apply lhs rhs)
  | .jump rel => f.jump next rel
  | .jumpIfFalse rel => do
    let (cond, f) ← f.pop
    if cond.truthy then .ok (.goOn { f with pc := next }) else f.jump next rel
  | .ret => .ok (.leave f.result f.callSite)

/-- Decodes and executes the instruction at the frame's offset. -/
def advance (limit : Nat) (f : Frame) : Except Fault Effect := do
  let (i, next) ← decode f.program.code f.pc
  f.execute limit next i

end Frame

/-- The frame with other links to the frames around it. -/
def Frame.relink (resume callSite : Nat) (f : Frame) : Frame := { f with resume, callSite }

def Effect.relink (resume callSite : Nat) : Effect → Effect
  | .goOn f => .goOn (f.relink resume callSite)
  | .call name args f next => .call name args (f.relink resume callSite) next
  | .leave v _ => .leave v callSite

namespace Frame

section Stack

variable {limit offset n : Nat} {f g : Frame} {v : Value} {args : List Value} {fault : Fault}

/-- The value comes to lie on top of a stack that is not full. -/
theorem push_eq_ok_iff :
    f.push limit offset v = .ok g ↔
      f.stack.size < limit ∧ g = { f with stack := f.stack.push v } := by
  unfold push
  split
  · rename_i hfull
    simp [Nat.not_lt.mpr hfull]
  · rename_i hroom
    simp [Nat.not_le.mp hroom, eq_comm]

theorem push_eq_error_iff :
    f.push limit offset v = .error fault ↔
      limit ≤ f.stack.size ∧ fault = ⟨offset, .stackOverflow limit⟩ := by
  unfold push
  split
  · rename_i hfull
    simp [hfull, eq_comm]
  · rename_i hroom
    simp [hroom]

theorem push_eq (h : f.push limit offset v = .ok g) : g = { f with stack := f.stack.push v } :=
  (push_eq_ok_iff.mp h).2

/-- The values that are taken are the top ones, bottom first. What lies below them stays. -/
theorem take_eq_ok_iff :
    f.take n = .ok (args, g) ↔ args.length = n ∧
      ∃ keep : Array Value, f.stack = keep ++ args.toArray ∧ g = { f with stack := keep } := by
  constructor
  · intro h
    unfold take at h
    split at h
    · cases h
    · rename_i hsize
      cases h
      refine ⟨?_, f.stack.shrink (f.stack.size - n), ?_, rfl⟩
      · simp only [Array.length_toList, Array.size_extract]
        omega
      · have htop : (f.stack.toList.drop (f.stack.size - n)).length ≤
            f.stack.size - (f.stack.size - n) := by
          simp
        apply Array.toList_inj.mp
        simp [List.take_of_length_le htop]
  · rintro ⟨rfl, keep, hstack, rfl⟩
    have hsize : ¬ f.stack.size < args.length := by
      simp [hstack]
    unfold take
    rw [if_neg hsize]
    simp [hstack]

theorem take_eq_error_iff :
    f.take n = .error fault ↔ f.stack.size < n ∧ fault = ⟨f.pc, .stackUnderflow⟩ := by
  unfold take
  split
  · rename_i hshort
    simp [hshort, eq_comm]
  · rename_i hsize
    simp [hsize]

theorem result_eq (f : Frame) : f.result = f.stack.toList.getLast?.getD .unset := by
  simp [result]

end Stack

theorem advance_of_decode {limit next : Nat} {f : Frame} {i : Instruction}
    (h : decode f.program.code f.pc = .ok (i, next)) :
    f.advance limit = f.execute limit next i := by
  unfold advance
  rw [h]
  rfl

theorem advance_of_decode_error {limit : Nat} {f : Frame} {fault : Fault}
    (h : decode f.program.code f.pc = .error fault) : f.advance limit = .error fault := by
  unfold advance
  rw [h]
  rfl

variable (resume callSite limit next : Nat) (f : Frame)

theorem push_relink (offset : Nat) (v : Value) :
    (f.relink resume callSite).push limit offset v =
      (f.push limit offset v).map (relink resume callSite) := by
  by_cases h : limit ≤ f.stack.size <;> simp [push, relink, h, Except.map]

theorem pushThen_relink (v : Value) :
    (f.relink resume callSite).pushThen limit next v =
      (f.pushThen limit next v).map (Effect.relink resume callSite) := by
  simp only [pushThen, push_relink]
  cases h : f.push limit f.pc v with
  | error fault => simp [relink, h, Except.map]
  | ok g => simp [relink, h, Except.map, Effect.relink]

theorem pop_relink :
    (f.relink resume callSite).pop =
      f.pop.map fun found => (found.1, found.2.relink resume callSite) := by
  cases h : f.stack.back? <;> simp [pop, relink, h, Except.map]

theorem take_relink (n : Nat) :
    (f.relink resume callSite).take n =
      (f.take n).map fun found => (found.1, found.2.relink resume callSite) := by
  by_cases h : f.stack.size < n <;> simp [take, relink, h, Except.map]

theorem jump_relink (rel : Int16) :
    (f.relink resume callSite).jump next rel =
      (f.jump next rel).map (Effect.relink resume callSite) := by
  by_cases h : 0 ≤ (next : Int) + rel.toInt ∧ (next : Int) + rel.toInt ≤ f.program.size
  · simp only [jump, if_pos h]
    exact if_pos h
  · simp only [jump, if_neg h]
    exact if_neg h

theorem execute_relink (i : Instruction) :
    (f.relink resume callSite).execute limit next i =
      (f.execute limit next i).map (Effect.relink resume callSite) := by
  cases i with
  | call name argc =>
    simp only [execute, take_relink]
    cases f.take argc.toNat <;> rfl
  | pop =>
    simp only [execute, pop_relink]
    cases f.pop <;> rfl
  | unary op =>
    simp only [execute, pop_relink]
    cases f.pop with
    | error fault => rfl
    | ok found => exact pushThen_relink ..
  | binary op =>
    simp only [execute, pop_relink]
    cases f.pop with
    | error fault => rfl
    | ok rhs =>
      simp only [Except.map, bind, Except.bind, pop_relink]
      cases rhs.2.pop with
      | error fault => rfl
      | ok lhs => exact pushThen_relink ..
  | jump rel => exact jump_relink ..
  | jumpIfFalse rel =>
    simp only [execute, pop_relink]
    cases f.pop with
    | error fault => rfl
    | ok found =>
      simp only [Except.map, bind, Except.bind]
      split
      · rfl
      · exact jump_relink ..
  | ret => rfl
  | _ => exact pushThen_relink ..

/-- What a frame does next does not depend on its links. -/
theorem advance_relink :
    (f.relink resume callSite).advance limit =
      (f.advance limit).map (Effect.relink resume callSite) := by
  cases h : decode f.program.code f.pc with
  | error fault =>
    have hrelinked : (f.relink resume callSite).advance limit = .error fault :=
      advance_of_decode_error h
    rw [advance_of_decode_error h, hrelinked]
    rfl
  | ok found =>
    have hrelinked : (f.relink resume callSite).advance limit =
        (f.relink resume callSite).execute limit found.2 found.1 := advance_of_decode h
    rw [advance_of_decode h, hrelinked]
    exact execute_relink ..

variable {limit f}

/-- And it leaves them as they are. -/
theorem advance_links {x : Effect} (h : f.advance limit = .ok x) :
    x = x.relink f.resume f.callSite := by
  have hr := advance_relink f.resume f.callSite limit f
  rw [show f.relink f.resume f.callSite = f from rfl, h] at hr
  exact Except.ok.inj hr

end Frame

end LiveExpr
