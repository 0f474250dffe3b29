import Abacus.Proofs.CompiledRuns
import Abacus.Proofs.MemoryTrace

/-!
# What the storage holds before a run

Register code in general may read a register that it has not written. Code of an encoder does not:
the registers that it reads are those of a stack, and a slot comes to be part of the stack by being
written. So nothing that a compiled program gives depends on what its storage held before the run.
-/
namespace Abacus

theorem lastWrite_isSome_iff {slot : Nat} {es : List SlotEvent} :
    (lastWrite slot es).isSome ↔ ∃ e ∈ es, e.write = true ∧ e.slot = slot := by
  simp [lastWrite]

theorem lastWrite_isSome_append {slot : Nat} {xs ys : List SlotEvent} :
    (lastWrite slot (xs ++ ys)).isSome ↔
      (lastWrite slot xs).isSome ∨ (lastWrite slot ys).isSome := by
  simp only [lastWrite_isSome_iff, List.mem_append, or_and_right, exists_or]

/-- The events go on from a past and read no slot that was not written. -/
def Initialized : List SlotEvent → List SlotEvent → Prop
  | _, [] => True
  | past, e :: es =>
    (e.write = false → (lastWrite e.slot past).isSome) ∧ Initialized (past ++ [e]) es

theorem initialized_append {past xs ys : List SlotEvent} :
    Initialized past (xs ++ ys) ↔ Initialized past xs ∧ Initialized (past ++ xs) ys := by
  induction xs generalizing past with
  | nil => simp [Initialized]
  | cons e xs ih => simp [Initialized, ih, and_assoc]

/-- Events that read what the past has written may come in any order. -/
theorem initialized_of_past {past es : List SlotEvent}
    (h : ∀ e ∈ es, e.write = false → (lastWrite e.slot past).isSome) : Initialized past es := by
  induction es generalizing past with
  | nil => trivial
  | cons e es ih =>
    obtain ⟨he, hes⟩ := List.forall_mem_cons.mp h
    refine ⟨he, ih fun e' he' hread => ?_⟩
    exact lastWrite_isSome_append.mpr (Or.inl (hes e' he' hread))

theorem contentAfter_none (past : List SlotEvent) (slot : Nat) :
    contentAfter none past slot = lastWrite slot past :=
  Option.or_none

theorem lastWrite_of_content_of_isSome {blank : Option Int64} {past : List SlotEvent} {slot : Nat}
    {v : Int64} (hv : contentAfter blank past slot = some v) (h : (lastWrite slot past).isSome) :
    lastWrite slot past = some v := by
  obtain ⟨w, hw⟩ := Option.isSome_iff_exists.mp h
  rw [contentAfter, hw] at hv
  exact hw.trans hv

theorem Faithful.of_initialized {blank : Option Int64} {past es : List SlotEvent}
    (hfaithful : Faithful blank past es) (h : Initialized past es) : Faithful none past es := by
  induction es generalizing past with
  | nil => trivial
  | cons e es ih =>
    refine ⟨fun hread => ?_, ih hfaithful.2 h.2⟩
    rw [contentAfter_none]
    exact lastWrite_of_content_of_isSome (hfaithful.1 hread) (h.1 hread)

namespace Action

variable {arith : Arithmetic} {a : Action} {ip : Nat} {stk stk' : List Int64}

theorem read_of_mem_conclude {op : Opcode} {reads : List SlotEvent}
    {r : Except ArithmeticError Int64} {e : SlotEvent} (he : e ∈ (conclude ip op stk reads r).1)
    (hread : e.write = false) : e ∈ reads := by
  cases r with
  | error c => exact he
  | ok v =>
    rcases List.mem_append.mp he with he | he
    · exact he
    · rw [List.mem_singleton.mp he] at hread
      cases hread

theorem slot_lt_of_read {e : SlotEvent} (he : e ∈ (a.step arith ip stk).1)
    (hread : e.write = false) : e.slot < stk.length := by
  match a, stk, he with
  | .load v, stk, he =>
    rw [List.mem_singleton.mp he] at hread
    cases hread
  | .negate, x :: stk, he =>
    have he := read_of_mem_conclude he hread
    rw [List.mem_singleton.mp he]
    exact Nat.lt_succ_self _
  | .binary op, y :: x :: stk, he =>
    have he := read_of_mem_conclude he hread
    simp only [List.mem_cons, List.not_mem_nil, or_false] at he
    rw [List.length_cons, List.length_cons]
    rcases he with rfl | rfl <;> dsimp only <;> omega
  | .negate, [], he => cases he
  | .binary op, [], he => cases he
  | .binary op, [y], he => cases he

theorem slot_of_step (h : (a.step arith ip stk).2 = .ok stk') {j : Nat} (hj : j < stk'.length) :
    j < stk.length ∨ ∃ e ∈ (a.step arith ip stk).1, e.write = true ∧ e.slot = j := by
  have hlength := length_step h
  cases a with
  | load v =>
    rw [after_load] at hlength
    by_cases htop : j = stk.length
    · exact Or.inr ⟨_, List.mem_singleton_self _, rfl, htop.symm⟩
    · exact Or.inl (by omega)
  | negate =>
    rw [after_negate] at hlength
    exact Or.inl (by omega)
  | binary op =>
    rw [after_binary] at hlength
    exact Or.inl (by omega)

end Action

namespace Tracking

variable {ι σ : Type} {m : Machine ι σ} {arith : Arithmetic} {room : Nat}
  (T : Tracking m arith room)

/-- Code that does actions on a stack whose slots have been written reads no other slots, and
leaves a stack whose slots have been written. -/
theorem initialized {code : List ι} {acts : List Action} {s : σ} {stk : List Int64}
    (hs : T.Holds s stk) (hc : Aligned T.Does stk.length code acts)
    (hf : Action.Fits room stk.length acts) (ip : Nat) {past : List SlotEvent}
    (hpast : ∀ j < stk.length, (lastWrite j past).isSome) :
    Initialized past (m.trace ip code s) ∧
      ∀ stk', (Action.machine arith).exec ip acts stk = .ok stk' →
        ∀ j < stk'.length, (lastWrite j (past ++ m.trace ip code s)).isSome := by
  generalize hd : stk.length = d at hc hf
  induction hc generalizing ip s stk past with
  | nil =>
    refine ⟨trivial, fun stk' hstk' j hj => ?_⟩
    cases hstk'
    rw [Machine.trace_nil, List.append_nil]
    exact hpast j hj
  | @cons d i a code acts hi _ ih =>
    subst hd
    obtain ⟨hop, hroom, hrest⟩ := hf
    obtain ⟨htouched, hresult⟩ := T.step ip hs hi hop hroom
    -- the operands were written before this step, so the order in which it reads them is free
    have hhere : Initialized past (m.step ip i s).1 := initialized_of_past fun e he hread =>
      hpast _ (Action.slot_lt_of_read (htouched.mem_iff.mp he) hread)
    rw [Machine.exec_cons]
    change _ ∧ ∀ stk', ((a.step arith ip stk).2 >>= _) = _ → _
    generalize hr : (a.step arith ip stk).2 = r at hresult
    generalize hm : (m.step ip i s).2 = r' at hresult
    cases hresult with
    | error =>
      rw [m.trace_cons_error _ hm]
      refine ⟨hhere, fun stk' hstk' => ?_⟩
      cases hstk'
    | @ok t stk₁ ht =>
      have hpast' : ∀ j < stk₁.length, (lastWrite j (past ++ (m.step ip i s).1)).isSome := by
        intro j hj
        rw [lastWrite_isSome_append]
        rcases Action.slot_of_step hr hj with hold | ⟨e, he, hwrite⟩
        · exact Or.inl (hpast j hold)
        · exact Or.inr (lastWrite_isSome_iff.mpr ⟨e, htouched.mem_iff.mpr he, hwrite⟩)
      obtain ⟨hlater, hend⟩ := ih ht (ip + 1) hpast' (Action.length_step hr) hrest
      rw [m.trace_cons_ok _ hm, initialized_append, ← List.append_assoc]
      exact ⟨⟨hhere, hlater⟩, hend⟩

end Tracking

theorem Expr.exec_of_perform {arith : Arithmetic} {e : Expr} {v : Int64}
    (h : e.perform arith = .ok v) : (Action.machine arith).exec 0 e.actions [] = .ok [v] := by
  obtain ⟨stk, hstk, htop⟩ := bind_eq_ok.mp h
  unfold Action.top at htop
  split at htop
  · cases htop
    exact hstk
  · cases htop

/-- The registers that compiled code reads have been written, and so has that of its result. -/
theorem Register.initialized_history {e : Expr} {p : Program Register.Instr}
    (h : Register.compile e = .ok p) :
    Initialized [] (Event.slots (Executable.register p).history) ∧
      ∀ v, Register.run p = .ok v →
        (lastWrite 0 (Event.slots (Executable.register p).history)).isSome := by
  obtain ⟨he, _, _, _, _, hc⟩ := compile_ok h
  have hfits : Action.Fits e.need 0 e.actions := Expr.fits_actions he (by simp)
  have hs : (tracking p.constants e.need).Holds (Store.zeros e.need) [] :=
    ⟨by simp [Store.zeros], trivial⟩
  have hnone : ∀ j < ([] : List Int64).length, (lastWrite j []).isSome := by
    intro j hj
    cases hj
  obtain ⟨hreads, hend⟩ := (tracking p.constants e.need).initialized hs hc hfits 0 hnone
  rw [Executable.history, size_eq_need h]
  simp only [Machine.slots_history]
  refine ⟨hreads, fun v hv => ?_⟩
  rw [run_eq_perform h] at hv
  exact hend _ (Expr.exec_of_perform hv) 0 Nat.one_pos

theorem recounted_of_compile {b : Backend} {e : Expr} {x : Executable}
    (h : compile b e = .ok x) : Executable.Recounted none x.history x.run := by
  rcases compile_cases h with ⟨p, hp, rfl⟩ | ⟨p, hp, rfl⟩ | ⟨p, hp, rfl⟩
  · exact (Executable.rpn p).recounted_run
  · exact (Executable.stack p).recounted_run
  · obtain ⟨hordered, hfaithful, hresult⟩ := (Executable.register p).recounted_run
    obtain ⟨hreads, hend⟩ := Register.initialized_history hp
    refine ⟨hordered, hfaithful.of_initialized hreads, fun v hv => ?_⟩
    rw [contentAfter_none]
    exact lastWrite_of_content_of_isSome (hresult v hv) (hend v hv)

/-- A compiled program gives what it gives on blank storage, whatever storage of its size it starts
on, or of a greater one: the stack and register programs on both of their machines, the postfix
program on the trusted one, as the checked one starts on an empty stack. A checked run reads from a
slot what the run itself has last written there, and its result is what it has last written to slot
zero. -/
theorem compiled_runs_ignore_initial_storage (e : Expr) :
    (∀ p, Rpn.compile e = .ok p → ∀ store : Store, (Rpn.depth p.code).toNat ≤ store.size →
      Rpn.trustedFrom p store = Rpn.runTrusted p) ∧
    (∀ p, Stack.compile e = .ok p → ∀ store : Store, p.size.toNat ≤ store.size →
      Stack.runFrom p store = Stack.run p ∧ Stack.trustedFrom p store = Stack.runTrusted p) ∧
    (∀ p, Register.compile e = .ok p → ∀ store : Store, p.size.toNat ≤ store.size →
      Register.runFrom p store = Register.run p ∧
        Register.trustedFrom p store = Register.runTrusted p) ∧
    ∀ b x, compile b e = .ok x →
      (∀ before ev after, Event.slots x.history = before ++ ev :: after → ev.write = false →
        lastWrite ev.slot before = some ev.value) ∧
      ∀ v, x.run = .ok v → lastWrite 0 (Event.slots x.history) = some v := by
  refine ⟨fun p h store hroom => ?_, fun p h store hroom => ?_, fun p h store hroom => ?_,
    fun b x h => ?_⟩
  · rw [Rpn.depth_eq_need h, Int.toNat_natCast] at hroom
    rw [Rpn.trustedFrom_eq_perform h hroom, Rpn.runTrusted_eq_perform h]
  · rw [(Stack.compile_ok h).2.2.1, Int.toNat_natCast] at hroom
    rw [Stack.runFrom_eq_perform h hroom, Stack.run_eq_perform h,
      Stack.trustedFrom_eq_perform h hroom, Stack.runTrusted_eq_perform h]
    exact ⟨rfl, rfl⟩
  · rw [(Register.compile_ok h).2.2.1, Int.toNat_natCast] at hroom
    rw [Register.runFrom_eq_perform h hroom, Register.run_eq_perform h,
      Register.trustedFrom_eq_perform h hroom, Register.runTrusted_eq_perform h]
    exact ⟨rfl, rfl⟩
  · obtain ⟨_, hfaithful, hresult⟩ := recounted_of_compile h
    simp only [contentAfter_none] at hresult
    refine ⟨fun before ev after hes hread => ?_, hresult⟩
    rw [hes] at hfaithful
    rw [← contentAfter_none]
    exact hfaithful.content_eq hread

/-- A difference with a product under it, on registers that are full of other values. -/
theorem difference_ignores_initial_storage :
    ∃ p, Register.compile (.ofBinary .sub (.ofInt 1)
        (.ofBinary .mul (.ofInt 70000) (.ofUnary .negate (.ofInt 3)))) = .ok p ∧
      Register.runFrom p #[7, 8, 9] = Register.run p ∧
      Register.trustedFrom p #[7, 8, 9] = Register.runTrusted p ∧
      Register.run p = .ok 210001 ∧
      lastWrite 0 (Event.slots (Executable.register p).history) = some 210001 := by
  obtain ⟨p, hp⟩ : ∃ p, Register.compile (.ofBinary .sub (.ofInt 1)
      (.ofBinary .mul (.ofInt 70000) (.ofUnary .negate (.ofInt 3)))) = .ok p := ⟨_, rfl⟩
  obtain ⟨_, _, hregister, hwritten⟩ := compiled_runs_ignore_initial_storage (.ofBinary .sub
    (.ofInt 1) (.ofBinary .mul (.ofInt 70000) (.ofUnary .negate (.ofInt 3))))
  have hroom : p.size.toNat ≤ (#[7, 8, 9] : Store).size := by
    cases hp
    decide
  have hrun : Register.run p = .ok 210001 := by
    cases hp
    rfl
  have hcompile : compile .register (.ofBinary .sub (.ofInt 1)
      (.ofBinary .mul (.ofInt 70000) (.ofUnary .negate (.ofInt 3)))) = .ok (.register p) := by
    rw [compile, hp]
    rfl
  obtain ⟨hchecked, htrusted⟩ := hregister p hp #[7, 8, 9] hroom
  exact ⟨p, hp, hchecked, htrusted, hrun, (hwritten _ _ hcompile).2 _ hrun⟩

end Abacus
