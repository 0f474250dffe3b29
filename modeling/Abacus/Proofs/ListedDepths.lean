import Abacus.Proofs.Acceptance
import Abacus.Proofs.Agreement
import Abacus.Proofs.Placement

/-!
# Depths in listings

A listing adds up the effects of the opcodes without running anything. A checked machine goes on
only where an instruction stands for an action that finds its operands, and there the effect of
the opcode is what the action does to the stack. So as far as a run gets, its steps are those that
the opcodes foretell.
-/
namespace Abacus

def Annotation.depth? : Annotation → Option Int
  | .none => .none
  | .depth d => some d
  | .constant d _ => some d
  | .assignment _ _ => .none

def ListingLine.depth? (line : ListingLine) : Option Int :=
  line.annotation.depth?

/-- Every line of a listing notes a depth; these are the depths in order. -/
def Listing.Notes (l : Listing) (ds : List Int) : Prop :=
  l.map (·.depth?) = ds.map some

namespace Depth

/-- The depths after each of some opcodes, from the depth before them. -/
def trail (d : Int) : List Opcode → List Int
  | [] => []
  | op :: ops => (d + op.stackEffect) :: trail (d + op.stackEffect) ops

/-- The steps that opcodes foretell: the number of each instruction, and the depth before it. -/
def plan (ip : Nat) (d : Int) : List Opcode → List (Nat × Int)
  | [] => []
  | op :: ops => (ip, d) :: plan (ip + 1) (d + op.stackEffect) ops

theorem length_trail (d : Int) (ops : List Opcode) : (trail d ops).length = ops.length := by
  induction ops generalizing d with
  | nil => rfl
  | cons op ops ih => exact congrArg (· + 1) (ih _)

theorem map_fst_plan (ip : Nat) (d : Int) (ops : List Opcode) :
    (plan ip d ops).map (·.1) = List.range' ip ops.length := by
  induction ops generalizing ip d with
  | nil => rfl
  | cons op ops ih => exact congrArg (ip :: ·) (ih _ _)

theorem trail_of_mem_plan {ip k : Nat} {d d' : Int} {ops : List Opcode}
    (h : (k, d') ∈ plan ip d ops) : ip ≤ k ∧ (d :: trail d ops)[k - ip]? = some d' := by
  induction ops generalizing ip d with
  | nil => cases h
  | cons op ops ih =>
    cases h with
    | head => simp
    | tail _ h =>
      obtain ⟨hle, hget⟩ := ih h
      have hsub : k - ip = k - (ip + 1) + 1 := by omega
      refine ⟨by omega, ?_⟩
      rw [hsub, List.getElem?_cons_succ]
      exact hget

theorem go_eq_foldl (d top : Int) (ops : List Opcode) :
    peak.go d top ops = (trail d ops).foldl max top := by
  induction ops generalizing d top with
  | nil => rfl
  | cons op ops ih =>
    rw [go_cons, ih]
    rfl

theorem getLast?_trail (d : Int) (ops : List Opcode) :
    (d :: trail d ops).getLast? = some (ops.foldl (fun d op => d + op.stackEffect) d) := by
  induction ops generalizing d with
  | nil => rfl
  | cons op ops ih =>
    rw [trail, List.getLast?_cons_cons]
    exact ih _

theorem getLast?_of_cons {d : Int} {ds : List Int} (h : (0 :: ds).getLast? = some d)
    (hd : d ≠ 0) : ds.getLast? = some d := by
  cases ds with
  | nil =>
    cases h
    exact absurd rfl hd
  | cons d' ds => rwa [List.getLast?_cons_cons] at h

end Depth

section Listings

theorem Rpn.map_depth?_listFrom (offset : Nat) (d : Int) (code : List Instr) :
    (listFrom offset d code).map (·.depth?) =
      (Depth.trail d (code.map (·.op))).map some := by
  induction code generalizing offset d with
  | nil => rfl
  | cons i code ih => exact congrArg (some (d + i.op.stackEffect) :: ·) (ih _ _)

theorem Stack.depth?_lineOf (constants : Array Int64) (offset : Nat) (d : Int) (i : Instr) :
    (lineOf constants offset d i).depth? = some d := by
  unfold lineOf
  split <;> rfl

theorem Stack.map_depth?_listFrom (constants : Array Int64) (offset : Nat) (d : Int)
    (code : List Instr) :
    (listFrom constants offset d code).map (·.depth?) =
      (Depth.trail d (code.map (·.op))).map some := by
  induction code generalizing offset d with
  | nil => rfl
  | cons i code ih =>
    rw [listFrom, List.map_cons, depth?_lineOf, ih]
    rfl

theorem Executable.notes_listing {x : Executable} (h : x.backend ≠ .register) :
    x.listing.Notes (Depth.trail 0 x.opcodes) := by
  cases x with
  | rpn p => exact Rpn.map_depth?_listFrom 0 0 p.code
  | stack p => exact Stack.map_depth?_listFrom p.constants 0 0 p.code
  | register p => exact absurd rfl h

end Listings

def StepEvent.signature (e : StepEvent) : Nat × Int :=
  (e.ip, e.depth)

namespace Reading

variable {ι σ : Type} {m : Machine ι σ} {arith : Arithmetic} {R : Reading m arith}

/-- The machine reports the depth of the stack that it holds, and its opcodes say what its
instructions do. -/
structure Gauged (R : Reading m arith) : Prop where
  depth : ∀ {s stk}, R.Holds s stk → m.depth s = stk.length
  serves : ∀ {i a}, R.action? i = some a → (m.opcode i).Serves a

variable {s t : σ} {stk : List Int64}

theorem Gauged.step (hR : R.Gauged) {ip : Nat} {i : ι} (hs : R.Holds s stk)
    (h : (m.step ip i s).2 = .ok t) :
    ∃ stk', R.Holds t stk' ∧ (m.depth t : Int) = m.depth s + (m.opcode i).stackEffect := by
  obtain ⟨a, stk', ha, hstep, ht⟩ := R.step ip hs h
  refine ⟨stk', ht, ?_⟩
  rw [hR.depth ht, hR.depth hs, Action.length_step hstep]
  exact ((hR.serves ha).stackEffect_eq (Action.operands_le_of_step hstep)).symm

/-- A run makes the steps that its opcodes foretell, as far as it gets; one that gets past the last
instruction makes them all, and leaves a stack of the last depth. -/
theorem Gauged.steps_history (hR : R.Gauged) (hs : R.Holds s stk) (ip : Nat) (code : List ι) :
    (Event.steps (m.history ip code s)).map StepEvent.signature <+:
        Depth.plan ip (m.depth s) (code.map m.opcode) ∧
      ∀ t, m.exec ip code s = .ok t →
        (Event.steps (m.history ip code s)).map StepEvent.signature =
          Depth.plan ip (m.depth s) (code.map m.opcode) ∧
        ((m.depth s : Int) :: Depth.trail (m.depth s) (code.map m.opcode)).getLast? =
          some (m.depth t : Int) := by
  -- The machine keeps on holding some stack, whose length is the depth that was added up.
  induction code generalizing ip s stk with
  | nil =>
    refine And.intro List.nil_prefix ?_
    intro t ht
    cases ht
    exact ⟨rfl, rfl⟩
  | cons i code ih =>
    rw [List.map_cons, Depth.plan, Depth.trail, Machine.exec_cons]
    cases hstep : m.step ip i s with
    | mk touched r =>
      cases r with
      | error stop =>
        rw [Machine.history_cons_error hstep, Event.steps, Event.steps_map_slot]
        refine ⟨List.prefix_append [_] _, ?_⟩
        intro t ht
        cases ht
      | ok u =>
        obtain ⟨stk', hu, hdepth⟩ := hR.step hs (congrArg Prod.snd hstep)
        rw [Machine.history_cons_ok hstep, Event.steps, Event.steps_append, Event.steps_map_slot,
          List.nil_append, List.map_cons, ok_bind, ← hdepth, List.getLast?_cons_cons]
        obtain ⟨hbegun, hall⟩ := ih hu (ip + 1)
        refine ⟨(List.prefix_cons_inj _).mpr hbegun, ?_⟩
        intro t ht
        obtain ⟨heq, hlast⟩ := hall t ht
        exact ⟨congrArg _ heq, hlast⟩

end Reading

theorem Rpn.gauged_reading : reading.Gauged where
  depth hs := hs.1
  serves h := Instr.serves h

theorem Stack.gauged_reading (constants : Store) (room : Nat) :
    (reading constants room).Gauged where
  depth hs := hs.depth
  serves h := Instr.serves h

theorem Observer.Told.begins {es : List Event} {halt : Option StepEvent} {log : List Entry}
    (h : Told es halt log) : log.map (·.event) <+: es := by
  cases h with
  | all => exact ⟨[], by rw [List.append_nil, Entry.events_map_pass]⟩
  | halted before e after hes =>
    rw [hes, List.map_append, Entry.events_map_pass]
    exact ⟨after, List.append_assoc _ _ _⟩

namespace Executable

theorem steps_history {x : Executable} (h : x.backend ≠ .register) :
    (Event.steps x.history).map StepEvent.signature <+: Depth.plan 0 0 x.opcodes ∧
      ∀ v, x.run = .ok v →
        (Event.steps x.history).map StepEvent.signature = Depth.plan 0 0 x.opcodes ∧
        (Depth.trail 0 x.opcodes).getLast? = some 1 := by
  cases x with
  | rpn p =>
    have hstart : Rpn.reading.Holds #[] [] := ⟨rfl, trivial⟩
    obtain ⟨hbegun, hall⟩ := Rpn.gauged_reading.steps_history hstart 0 p.code
    refine ⟨hbegun, ?_⟩
    intro v hv
    obtain ⟨t, ht, hresult⟩ := bind_eq_ok.mp hv
    obtain ⟨heq, hlast⟩ := hall t ht
    rw [show Rpn.machine.depth t = 1 from (Rpn.result_eq_ok hresult).1] at hlast
    exact ⟨heq, Depth.getLast?_of_cons hlast Int.one_ne_zero⟩
  | stack p =>
    rw [history, run, Stack.run]
    cases hsize : Stack.size p with
    | error stop =>
      refine And.intro List.nil_prefix ?_
      intro v hv
      cases hv
    | ok n =>
      have hstart : (Stack.reading p.constants n).Holds ⟨Store.zeros n, 0⟩ [] :=
        ⟨by simp [Store.zeros], rfl, trivial⟩
      obtain ⟨hbegun, hall⟩ := (Stack.gauged_reading p.constants n).steps_history hstart 0 p.code
      refine ⟨hbegun, ?_⟩
      intro v hv
      rw [ok_bind] at hv
      obtain ⟨t, ht, hresult⟩ := bind_eq_ok.mp hv
      obtain ⟨heq, hlast⟩ := hall t ht
      rw [show (Stack.machine p.constants).depth t = 1 from
        (Stack.result_eq_ok hresult).1] at hlast
      exact ⟨heq, Depth.getLast?_of_cons hlast Int.one_ne_zero⟩
  | register p => exact absurd rfl h

section Observed

variable {ω : Type} (x : Executable) (o : Observer ω) (w : ω)

theorem told_begins : x.told o w <+: o.hears x.history := by
  obtain ⟨_, _, _, _, htold⟩ := x.observe_recording o w
  exact htold.begins

theorem mem_steps_history {e : StepEvent} (h : .step e ∈ x.told o w) :
    e ∈ Event.steps x.history :=
  Event.mem_steps.mpr ((List.mem_filter.mp ((x.told_begins o w).subset h)).1)

variable {x o w}

theorem steps_told_begin (h : o.config.stepMode = .all) :
    Event.steps (x.told o w) <+: Event.steps x.history := by
  obtain ⟨rest, hrest⟩ := x.told_begins o w
  refine ⟨Event.steps rest, ?_⟩
  rw [← Event.steps_append, hrest, x.steps_hears_all h]

theorem told_of_value {v : Int64} (h : (x.observe o w).1 = .ok v) :
    x.run = .ok v ∧ x.told o w = o.hears x.history := by
  obtain ⟨halt, w', hobserve, _, htold⟩ := x.observe_recording o w
  rw [hobserve] at h
  unfold told
  generalize x.log o w = log at htold
  cases htold with
  | all => exact ⟨h, Entry.events_map_pass _⟩
  | halted before e after _ => cases h

end Observed
end Executable

section Compiled

theorem Opcode.Serves.stackEffect_opcode {op : Opcode} {a : Action} (h : op.Serves a) :
    op.stackEffect = a.opcode.stackEffect := by
  cases a with
  | load v => exact Opcode.stackEffect_of_isLoad h
  | negate => exact congrArg Opcode.stackEffect h
  | binary o => exact congrArg Opcode.stackEffect h

theorem Aligned.trail_eq {d : Nat} {ops : List Opcode} {acts : List Action}
    (h : Aligned (fun op _ a => op.Serves a) d ops acts) (top : Int) :
    Depth.trail top ops = Depth.trail top (acts.map Action.opcode) := by
  induction h generalizing top with
  | nil => rfl
  | cons hi _ ih =>
    rw [List.map_cons, Depth.trail, Depth.trail, hi.stackEffect_opcode, ih]

variable {b : Backend} {e : Expr} {x : Executable}

/-- The depths of a compiled program rise to its storage size, and end at one. -/
theorem trail_of_compile (h : compile b e = .ok x) :
    (Depth.trail 0 x.opcodes).max? = some x.stats.storageSize ∧
      (Depth.trail 0 x.opcodes).getLast? = some 1 := by
  have he := wellFormed_of_compile h
  have haligned := aligned_opcodes h
  constructor
  · have hpeak := Expr.peak_actions he 0 0 []
    rw [List.append_nil, Depth.go_eq_foldl, ← haligned.trail_eq, List.foldl_max] at hpeak
    have hpos := he.need_pos
    rw [storageSize_of_compile h]
    cases hmax : (Depth.trail 0 x.opcodes).max? with
    | none =>
      rw [hmax] at hpeak
      simp only [Depth.peak.go, Option.getD_none] at hpeak
      omega
    | some d =>
      rw [hmax] at hpeak
      simp only [Depth.peak.go, Option.getD_some] at hpeak
      rw [show d = e.need by omega]
  · have hsettle := haligned.effects_eq_settle (Expr.fits_actions he (Nat.le_refl _))
      (fun _ _ _ hi => hi) x.opcodes.length
    have hlength := haligned.length_eq
    rw [List.take_length, hlength, List.take_length, Expr.settle_actions he] at hsettle
    apply Depth.getLast?_of_cons _ Int.one_ne_zero
    rw [Depth.getLast?_trail]
    exact congrArg some hsettle

/-- The depths that a listing of either stack encoding notes are those of the machine, whatever the
program. Every step that an observer is told of behind the first instruction is made at the depth
noted for the instruction before; the steps come in order and without gaps if all are asked for,
and to the last line if the run has a value. It has one only if the last depth is one. In a
compiled program the last depth is one, and the greatest is the storage size. -/
theorem listed_depths_are_machine_depths (hx : x.backend ≠ .register) :
    ∃ ds, x.listing.Notes ds ∧
      (∀ {ω : Type} (o : Observer ω) (w : ω),
        (∀ s, .step s ∈ x.told o w → 0 < s.ip → ds[s.ip - 1]? = some (s.depth : Int)) ∧
        (o.config.stepMode = .all →
          (Event.steps (x.told o w)).map (·.ip) <+: List.range x.listing.length) ∧
        ∀ v, (x.observe o w).1 = .ok v → ds.getLast? = some 1 ∧
          (o.config.stepMode = .all →
            (Event.steps (x.told o w)).map (·.ip) = List.range x.listing.length)) ∧
      (∀ v, x.run = .ok v → ds.getLast? = some 1) ∧
      ∀ b e, compile b e = .ok x →
        ds.max? = some x.stats.storageSize ∧ ds.getLast? = some 1 := by
  obtain ⟨hbegun, hall⟩ := Executable.steps_history hx
  have hnotes := Executable.notes_listing hx
  have hlines : (Depth.plan 0 0 x.opcodes).map (·.1) = List.range x.listing.length := by
    have hlength := congrArg List.length hnotes
    rw [List.length_map, List.length_map, Depth.length_trail] at hlength
    rw [Depth.map_fst_plan, hlength, List.range_eq_range']
  have hips (es : List StepEvent) : es.map (·.ip) = (es.map StepEvent.signature).map (·.1) := by
    rw [List.map_map]
    rfl
  refine ⟨Depth.trail 0 x.opcodes, hnotes, ?_, fun v hv => (hall v hv).2,
    fun b e he => trail_of_compile he⟩
  intro ω o w
  refine ⟨?_, ?_, ?_⟩
  · intro s hs hip
    have hplan := hbegun.subset (List.mem_map_of_mem (x.mem_steps_history o w hs))
    obtain ⟨_, hget⟩ := Depth.trail_of_mem_plan hplan
    rwa [Nat.sub_zero, ← Nat.sub_add_cancel hip, List.getElem?_cons_succ] at hget
  · intro hmode
    rw [← hlines, hips]
    exact (((Executable.steps_told_begin hmode).map _).trans hbegun).map _
  · intro v hv
    obtain ⟨hrun, htold⟩ := Executable.told_of_value hv
    refine ⟨(hall v hrun).2, fun hmode => ?_⟩
    rw [htold, x.steps_hears_all hmode, hips, (hall v hrun).1, hlines]

/-- A program put together by hand that takes an operand too many. -/
def Stack.underflowing : Program Instr where
  code := [⟨.loadInline, 3⟩, ⟨.loadConst, 0⟩, ⟨.binary .mul, 0⟩, ⟨.binary .add, 0⟩]
  constants := #[70000]
  size := 2

/-- The product is on the stack when the sum is refused, and the line of the product says so. -/
theorem depth_noted_before_underflow :
    (Executable.stack Stack.underflowing).run =
        .error (.fault (Malformed.underflow ⟨3, .binary .add⟩ 1 2)) ∧
      ∃ ds, (Executable.stack Stack.underflowing).listing.Notes ds ∧ ds[2]? = some 1 := by
  obtain ⟨ds, hnotes, hsteps, _⟩ :=
    listed_depths_are_machine_depths (x := .stack Stack.underflowing) (by decide)
  have htold : .step ⟨3, .binary .add, 1⟩ ∈
      (Executable.stack Stack.underflowing).told (.idle : Observer Unit) () := by
    decide
  exact ⟨rfl, ds, hnotes, (hsteps .idle ()).1 _ htold (by decide)⟩

end Compiled
end Abacus
