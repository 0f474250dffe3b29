import Abacus.Machine.Register
import Abacus.Machine.Rpn
import Abacus.Machine.Stack
import Abacus.Proofs.Slots

/-!
# Checked machines on any program

A program put together by hand may have any opcodes, operands, constants and size. A checked
machine looks at an instruction before it touches its storage: it refuses the instruction, or all
that the instruction reads and writes lies within the storage and the pool. Bounds are stated here
on the operands themselves, so that nothing depends on how an index is computed from them.
-/
namespace Abacus

def Cause.malformed : List Cause :=
  [.stackUnderflow, .stackOverflow, .stackImbalance, .slotOutOfRange, .constantOutOfRange,
    .unknownOpcode]

def Fault.OfRun (f : Fault) : Prop :=
  (f.kind = .arithmetic ∧ ∃ c, f.cause = some (.arithmetic c)) ∨
    (f.kind = .invariant ∧ ∃ c ∈ Cause.malformed, f.cause = some c)

theorem Fault.ofRun_arithmetic (site : Option Location) (e : ArithmeticError) :
    (Fault.arithmetic site e).OfRun :=
  Or.inl ⟨rfl, e, rfl⟩

theorem Fault.ofRun_invariant (site : Option Location) {c : Cause} (hc : c ∈ Cause.malformed)
    (detail : String) : (Fault.invariant site c detail).OfRun :=
  Or.inr ⟨rfl, c, hc, rfl⟩

def Opcode.operands : Opcode → Nat
  | .binary _ => 2
  | .negate => 1
  | _ => 0

/-- What a guarded machine makes of an instruction: it is refused before anything is touched, or
it stays in bounds and either fails in arithmetic or ends well. -/
inductive Conduct {α : Type} (site : Location) (InBounds : Prop) (P : α → Prop) :
    Effect α → Prop
  | refused {c detail} : c ∈ Cause.malformed →
      Conduct site InBounds P (Effect.fault (Fault.invariant (some site) c detail))
  | failed {touched e} : InBounds →
      Conduct site InBounds P (touched, .error (.fault (Fault.arithmetic (some site) e)))
  | done {touched a} : InBounds → P a → Conduct site InBounds P (touched, .ok a)

namespace Conduct

variable {α : Type} {site : Location} {InBounds : Prop} {P : α → Prop}

theorem arithmetic {store : Int64 → Effect α} (h : InBounds)
    (hstore : ∀ v, ∃ touched a, store v = (touched, .ok a) ∧ P a) (reads : List SlotEvent)
    (r : Except ArithmeticError Int64) :
    Conduct site InBounds P (reads ++ ((Effect.arithmetic site r).andThen store).1,
      ((Effect.arithmetic site r).andThen store).2) := by
  cases r with
  | error e => exact .failed h
  | ok v =>
    obtain ⟨touched, a, hv, ha⟩ := hstore v
    change Conduct site InBounds P (reads ++ ([] ++ (store v).1), (store v).2)
    rw [hv]
    exact .done h ha

theorem inBounds_of_ok {x : Effect α} {a : α} (h : Conduct site InBounds P x)
    (hx : x.2 = .ok a) : InBounds := by
  cases h with
  | refused _ => cases hx
  | failed _ => cases hx
  | done hbounds _ => exact hbounds

end Conduct

namespace Effect

theorem read_of_lt {s : Store} {slot : Nat} (h : slot < s.size) (ip : Nat) :
    ∃ v, Effect.read ip s slot = ([⟨ip, slot, false, v⟩], .ok v) := by
  refine ⟨s[slot], ?_⟩
  unfold Effect.read Store.read
  rw [Array.getElem?_eq_getElem h]

theorem write_of_lt {s : Store} {slot : Nat} (h : slot < s.size) (ip : Nat) (v : Int64) :
    ∃ t, Effect.write ip s slot v = ([⟨ip, slot, true, v⟩], .ok t) ∧ t.size = s.size := by
  refine ⟨s.set slot v h, ?_, Array.size_set h⟩
  unfold Effect.write Store.write
  rw [dif_pos h]

end Effect

/-- A machine that guards its accesses. The states it passes through keep an invariant, and the
bounds of an instruction in a state are those of its accesses. -/
structure Guard {ι σ : Type} (m : Machine ι σ) where
  Inv : σ → Prop
  InBounds : ι → σ → Prop
  step : ∀ (ip : Nat) (i : ι) {s : σ}, Inv s →
    Conduct ⟨ip, m.opcode i⟩ (InBounds i s) Inv (m.step ip i s)

def FailsAt {ι σ : Type} (m : Machine ι σ) (code : List ι) (s : σ) (f : Fault)
    (site : Location) : Prop :=
  ∃ (ip : Nat) (i : ι) (t : σ), code[ip]? = some i ∧ site = ⟨ip, m.opcode i⟩ ∧
    m.exec 0 (code.take ip) s = .ok t ∧ (m.step ip i t).2 = .error (.fault f)

/-- A run that ends as a checked run may, and on the way touches nothing out of bounds. -/
structure Safe {ι σ : Type} (m : Machine ι σ) (InBounds : ι → σ → Prop) (code : List ι) (s : σ)
    (r : Except Stop Int64) : Prop where
  ends : (∃ v, r = .ok v) ∨ ∃ f, r = .error (.fault f) ∧ f.OfRun ∧
    ∀ site, f.site = some site → FailsAt m code s f site
  bounded : ∀ (ip : Nat) (i : ι) (t : σ), code[ip]? = some i →
    m.exec 0 (code.take ip) s = .ok t →
    (∃ f, m.step ip i t = Effect.fault f) ∨ InBounds i t

namespace Guard

variable {ι σ : Type} {m : Machine ι σ} (G : Guard m)

theorem exec {s : σ} (hs : G.Inv s) (ip : Nat) (code : List ι) :
    (∃ t, m.exec ip code s = .ok t ∧ G.Inv t) ∨
      ∃ k i t f, code[k]? = some i ∧ m.exec ip (code.take k) s = .ok t ∧
        (m.step (ip + k) i t).2 = .error (.fault f) ∧ m.exec ip code s = .error (.fault f) ∧
        f.OfRun ∧ f.site = some ⟨(ip + k : Nat), m.opcode i⟩ := by
  induction code generalizing ip s with
  | nil => exact Or.inl ⟨s, rfl, hs⟩
  | cons i code ih =>
    have hstep := G.step ip i hs
    rw [Machine.exec_cons]
    generalize heffect : m.step ip i s = effect at hstep
    cases hstep with
    | refused hc =>
      refine Or.inr ⟨0, i, s, _, rfl, rfl, congrArg Prod.snd heffect, rfl, ?_, rfl⟩
      exact Fault.ofRun_invariant _ hc _
    | failed _ =>
      refine Or.inr ⟨0, i, s, _, rfl, rfl, congrArg Prod.snd heffect, rfl, ?_, rfl⟩
      exact Fault.ofRun_arithmetic _ _
    | @done touched u _ hu =>
      rcases ih hu (ip + 1) with ⟨t, ht, hinv⟩ | ⟨k, j, t, f, hj, ht, hf, hexec, hrun, hsite⟩
      · exact Or.inl ⟨t, ht, hinv⟩
      · rw [Nat.add_right_comm] at hf hsite
        refine Or.inr ⟨k + 1, j, t, f, hj, ?_, hf, hexec, hrun, hsite⟩
        rw [List.take_succ_cons, Machine.exec_cons, heffect]
        exact ht

theorem inv_of_exec {s t : σ} (hs : G.Inv s) {ip : Nat} {code : List ι}
    (h : m.exec ip code s = .ok t) : G.Inv t := by
  rcases G.exec hs ip code with ⟨u, hu, hinv⟩ | ⟨_, _, _, _, _, _, _, hexec, _⟩
  · cases hu.symm.trans h
    exact hinv
  · cases hexec.symm.trans h

theorem bounded {s : σ} (hs : G.Inv s) {code : List ι} (ip : Nat) (i : ι) (t : σ)
    (ht : m.exec 0 (code.take ip) s = .ok t) :
    (∃ f, m.step ip i t = Effect.fault f) ∨ G.InBounds i t := by
  have hstep := G.step ip i (G.inv_of_exec hs ht)
  generalize m.step ip i t = effect at hstep
  cases hstep with
  | refused _ => exact Or.inl ⟨_, rfl⟩
  | failed hbounds => exact Or.inr hbounds
  | done hbounds _ => exact Or.inr hbounds

theorem safe {s : σ} (hs : G.Inv s) (code : List ι) {result : σ → Except Stop Int64}
    (hresult : ∀ t, G.Inv t → (∃ v, result t = .ok v) ∨
      ∃ c ∈ Cause.malformed, ∃ detail, result t = .error (.fault (Fault.invariant none c detail))) :
    Safe m G.InBounds code s (m.exec 0 code s >>= result) := by
  refine ⟨?_, fun ip i t _ => G.bounded hs ip i t⟩
  rcases G.exec hs 0 code with ⟨t, ht, hinv⟩ | ⟨k, i, t, f, hi, ht, hf, hexec, hrun, hsite⟩
  · rw [ht, ok_bind]
    rcases hresult t hinv with hv | ⟨c, hc, detail, hr⟩
    · exact Or.inl hv
    · refine Or.inr ⟨_, hr, Fault.ofRun_invariant _ hc _, ?_⟩
      intro site hsite
      cases hsite
  · rw [hexec, error_bind]
    refine Or.inr ⟨f, rfl, hrun, ?_⟩
    intro site hsite'
    cases hsite.symm.trans hsite'
    rw [Nat.zero_add] at hf ⊢
    exact ⟨k, i, t, hi, rfl, ht, hf⟩

theorem safe_of_refused {s : σ} (hs : G.Inv s) (code : List ι) {c : Cause}
    (hc : c ∈ Cause.malformed) (detail : String) :
    Safe m G.InBounds code s (.error (.fault (Fault.invariant none c detail))) := by
  refine ⟨Or.inr ⟨_, rfl, Fault.ofRun_invariant _ hc _, ?_⟩, fun ip i t _ => G.bounded hs ip i t⟩
  intro site hsite
  cases hsite

end Guard

namespace Rpn

def InBounds (i : Instr) (s : Store) : Prop :=
  i.op.operands ≤ s.size

theorem conduct_step (ip : Nat) (i : Instr) (s : Store) :
    Conduct ⟨ip, i.op⟩ (InBounds i s) (fun _ => True) (step ip i s) := by
  obtain ⟨op, value⟩ := i
  unfold step InBounds
  cases op with
  | loadInt => exact .done (Nat.zero_le _) trivial
  | binary op =>
    dsimp only
    split
    · exact .refused (by decide)
    · rename_i hdepth
      obtain ⟨b, hb⟩ := Effect.read_of_lt (show s.size - 1 < s.size by omega) ip
      obtain ⟨a, ha⟩ := Effect.read_of_lt (show s.size - 2 < s.size by omega) ip
      rw [hb, Effect.andThen_ok, ha, Effect.andThen_ok, ← List.append_assoc]
      refine .arithmetic (Nat.le_of_not_lt hdepth) (fun v => ?_) _ _
      have hpop : s.size - 2 < s.pop.size := by
        rw [Array.size_pop]
        omega
      obtain ⟨t, ht, _⟩ := Effect.write_of_lt hpop ip v
      exact ⟨_, t, ht, trivial⟩
  | negate =>
    dsimp only
    split
    · exact .refused (by decide)
    · rename_i hdepth
      have hlast : s.size - 1 < s.size := by omega
      obtain ⟨a, ha⟩ := Effect.read_of_lt hlast ip
      rw [ha, Effect.andThen_ok]
      refine .arithmetic (Nat.le_of_not_lt hdepth) (fun v => ?_) _ _
      obtain ⟨t, ht, _⟩ := Effect.write_of_lt hlast ip v
      exact ⟨_, t, ht, trivial⟩
  | _ => exact .refused (by decide)

def guard : Guard machine where
  Inv _ := True
  InBounds := InBounds
  step ip i s _ := conduct_step ip i s

theorem safe_run (p : Program Instr) : Safe machine InBounds p.code #[] (run p) := by
  refine guard.safe trivial p.code fun t _ => ?_
  unfold result
  split
  · rename_i hsize
    exact Or.inl ⟨_, Store.read_eq_ok (Array.getElem?_eq_getElem (by omega))⟩
  · exact Or.inr ⟨_, by decide, _, rfl⟩

end Rpn

namespace Stack

/-- The operands of an instruction are on the stack, which lies within its storage; a value to be
pushed has a slot, and a constant to be loaded is in the pool. -/
structure InBounds (constants : Store) (i : Instr) (s : Slots) : Prop where
  operands : i.op.operands ≤ s.sp
  stack : s.sp ≤ s.store.size
  push : i.op.isLoad = true → s.sp < s.store.size
  constant : i.op = .loadConst → i.arg.toNat < constants.size

variable {constants : Store}

theorem InBounds.operator {i : Instr} {s : Slots} (hop : i.op.isLoad = false)
    (operands : i.op.operands ≤ s.sp) (stack : s.sp ≤ s.store.size) :
    InBounds constants i s := by
  refine ⟨operands, stack, fun hload => ?_, fun hconst => ?_⟩
  · rw [hop] at hload
    cases hload
  · rw [hconst] at hop
    cases hop

theorem conduct_push (site : Location) (ip : Nat) {s : Slots} {bounds : Prop} (v : Int64)
    (hbounds : s.sp < s.store.size → bounds) :
    Conduct site bounds (fun t => t.sp ≤ t.store.size) (push site ip s v) := by
  unfold push
  split
  · exact .refused (by decide)
  · rename_i hfull
    have hlt : s.sp < s.store.size := Nat.lt_of_not_le hfull
    obtain ⟨t, ht, hsize⟩ := Effect.write_of_lt hlt ip v
    rw [ht, Effect.andThen_ok]
    refine .done (hbounds hlt) ?_
    rw [hsize]
    exact hlt

theorem conduct_step (ip : Nat) (i : Instr) {s : Slots} (hs : s.sp ≤ s.store.size) :
    Conduct ⟨ip, i.op⟩ (InBounds constants i s) (fun t => t.sp ≤ t.store.size)
      (step constants ip i s) := by
  obtain ⟨op, arg⟩ := i
  unfold step
  cases op with
  | loadInline =>
    refine conduct_push _ ip _ fun hlt => ⟨Nat.zero_le _, hs, fun _ => hlt, fun hconst => ?_⟩
    cases hconst
  | loadConst =>
    dsimp only [Effect.constant]
    split
    · exact .refused (by decide)
    · rename_i hindex
      have hlt : arg.toNat < constants.size := Nat.lt_of_not_le hindex
      rw [Store.read_eq_ok (Array.getElem?_eq_getElem hlt)]
      exact conduct_push _ ip _ fun hpush => ⟨Nat.zero_le _, hs, fun _ => hpush, fun _ => hlt⟩
  | binary op =>
    dsimp only
    split
    · exact .refused (by decide)
    · rename_i hdepth
      have hsecond : s.sp - 2 < s.store.size := by omega
      obtain ⟨b, hb⟩ := Effect.read_of_lt (show s.sp - 1 < s.store.size by omega) ip
      obtain ⟨a, ha⟩ := Effect.read_of_lt hsecond ip
      rw [hb, Effect.andThen_ok, ha, Effect.andThen_ok, ← List.append_assoc]
      refine .arithmetic (.operator rfl (Nat.le_of_not_lt hdepth) hs) (fun v => ?_) _ _
      obtain ⟨t, ht, hsize⟩ := Effect.write_of_lt hsecond ip v
      rw [ht, Effect.andThen_ok]
      exact ⟨_, _, rfl, by simp only; omega⟩
  | negate =>
    dsimp only
    split
    · exact .refused (by decide)
    · rename_i hdepth
      have htop : s.sp - 1 < s.store.size := by omega
      obtain ⟨a, ha⟩ := Effect.read_of_lt htop ip
      rw [ha, Effect.andThen_ok]
      refine .arithmetic (.operator rfl (Nat.le_of_not_lt hdepth) hs) (fun v => ?_) _ _
      obtain ⟨t, ht, hsize⟩ := Effect.write_of_lt htop ip v
      rw [ht, Effect.andThen_ok]
      exact ⟨_, _, rfl, by simp only; omega⟩
  | _ => exact .refused (by decide)

def guard (constants : Store) : Guard (machine constants) where
  Inv s := s.sp ≤ s.store.size
  InBounds := InBounds constants
  step ip i _ hs := conduct_step ip i hs

theorem safe_run (p : Program Instr) :
    Safe (machine p.constants) (InBounds p.constants) p.code ⟨Store.zeros p.size.toNat, 0⟩
      (run p) := by
  have hstart : (guard p.constants).Inv ⟨Store.zeros p.size.toNat, 0⟩ := Nat.zero_le _
  unfold run size checkedSize
  split
  · exact (guard p.constants).safe_of_refused hstart p.code (by decide) _
  · refine (guard p.constants).safe hstart p.code fun t ht => ?_
    have ht : t.sp ≤ t.store.size := ht
    unfold result
    split
    · rename_i hsp
      exact Or.inl ⟨_, Store.read_eq_ok (Array.getElem?_eq_getElem (by omega))⟩
    · exact Or.inr ⟨_, by decide, _, rfl⟩

end Stack

namespace Register

def Instr.registers (i : Instr) : List UInt8 :=
  match i.op with
  | .loadInline => [i.dst]
  | .loadConst => [i.dst]
  | .binary _ => [i.lhs, i.rhs, i.dst]
  | .negate => [i.lhs, i.dst]
  | _ => []

structure InBounds (constants : Store) (i : Instr) (s : Store) : Prop where
  registers : ∀ r ∈ i.registers, r.toNat < s.size
  constant : i.op = .loadConst → i.arg.toNat < constants.size

variable {constants : Store}

theorem conduct_requiring {site : Location} {s : Store} {rs : List UInt8} {bounds : Prop}
    {P : Store → Prop} {e : Effect Store}
    (h : (∀ r ∈ rs, r.toNat < s.size) → Conduct site bounds P e) :
    Conduct site bounds P (requiring site s rs e) := by
  unfold requiring
  cases hfind : rs.find? (s.size ≤ ·.toNat) with
  | some r => exact .refused (by decide)
  | none =>
    apply h
    intro r hr
    simpa using List.find?_eq_none.mp hfind r hr

theorem conduct_set (site : Location) (ip : Nat) {s : Store} {dst : UInt8} {bounds : Prop}
    (v : Int64) (hbounds : (∀ r ∈ [dst], r.toNat < s.size) → bounds) :
    Conduct site bounds (fun _ => True) (set site ip s dst v) := by
  apply conduct_requiring
  intro hrs
  obtain ⟨t, ht, _⟩ := Effect.write_of_lt (hrs dst (List.mem_singleton_self dst)) ip v
  rw [ht]
  exact .done (hbounds hrs) trivial

theorem conduct_step (ip : Nat) (i : Instr) (s : Store) :
    Conduct ⟨ip, i.op⟩ (InBounds constants i s) (fun _ => True) (step constants ip i s) := by
  obtain ⟨op, dst, lhs, rhs, arg⟩ := i
  unfold step
  cases op with
  | loadInline =>
    refine conduct_set _ ip _ fun hrs => ⟨hrs, fun hconst => ?_⟩
    cases hconst
  | loadConst =>
    dsimp only [Effect.constant]
    split
    · exact .refused (by decide)
    · rename_i hindex
      have hlt : arg.toNat < constants.size := Nat.lt_of_not_le hindex
      rw [Store.read_eq_ok (Array.getElem?_eq_getElem hlt)]
      exact conduct_set _ ip _ fun hrs => ⟨hrs, fun _ => hlt⟩
  | binary op =>
    apply conduct_requiring
    intro hrs
    obtain ⟨a, ha⟩ := Effect.read_of_lt (hrs lhs (by simp)) ip
    obtain ⟨b, hb⟩ := Effect.read_of_lt (hrs rhs (by simp)) ip
    rw [ha, Effect.andThen_ok, hb, Effect.andThen_ok, ← List.append_assoc]
    refine .arithmetic ⟨hrs, fun hconst => by cases hconst⟩ (fun v => ?_) _ _
    obtain ⟨t, ht, _⟩ := Effect.write_of_lt (hrs dst (by simp)) ip v
    exact ⟨_, t, ht, trivial⟩
  | negate =>
    apply conduct_requiring
    intro hrs
    obtain ⟨a, ha⟩ := Effect.read_of_lt (hrs lhs (by simp)) ip
    rw [ha, Effect.andThen_ok]
    refine .arithmetic ⟨hrs, fun hconst => by cases hconst⟩ (fun v => ?_) _ _
    obtain ⟨t, ht, _⟩ := Effect.write_of_lt (hrs dst (by simp)) ip v
    exact ⟨_, t, ht, trivial⟩
  | _ => exact .refused (by decide)

def guard (constants : Store) : Guard (machine constants) where
  Inv _ := True
  InBounds := InBounds constants
  step ip i s _ := conduct_step ip i s

theorem safe_run (p : Program Instr) :
    Safe (machine p.constants) (InBounds p.constants) p.code (Store.zeros p.size.toNat)
      (run p) := by
  unfold run size checkedSize
  split
  · exact (guard p.constants).safe_of_refused trivial p.code (by decide) _
  · refine (guard p.constants).safe trivial p.code fun t _ => ?_
    unfold result
    split
    · exact Or.inr ⟨_, by decide, _, rfl⟩
    · rename_i hsize
      exact Or.inl ⟨_, Store.read_eq_ok (Array.getElem?_eq_getElem (Nat.pos_of_ne_zero hsize))⟩

end Register

section Allocation

theorem Opcode.stackEffect_le_one (op : Opcode) : op.stackEffect ≤ 1 := by
  unfold stackEffect
  split <;> decide

theorem Depth.go_bounds (d top : Int) (ops : List Opcode) (hd : d ≤ top) :
    top ≤ Depth.peak.go d top ops ∧ Depth.peak.go d top ops ≤ top + ops.length := by
  induction ops generalizing d top with
  | nil => exact ⟨Int.le_refl _, by simp [Depth.peak.go]⟩
  | cons op ops ih =>
    have heffect := op.stackEffect_le_one
    rw [Depth.peak.go, List.length_cons]
    split
    · obtain ⟨hlower, hupper⟩ := ih (d + op.stackEffect) (d + op.stackEffect) (Int.le_refl _)
      omega
    · obtain ⟨hlower, hupper⟩ := ih (d + op.stackEffect) top (by omega)
      omega

theorem checkedSize_eq_ok {kind : String} {size : Int} {limit n : Nat}
    (h : checkedSize kind size limit = .ok n) : size = n ∧ n ≤ limit := by
  unfold checkedSize at h
  split at h
  · cases h
  · cases h
    omega

end Allocation

/-- Whatever the program, a checked run allocates storage of a valid length, touches nothing out of
bounds, and ends with a value, a failure of arithmetic, or a refusal for one of six causes; where
the fault has a place, it is that of the first instruction that failed. -/
theorem checked_machines_safe :
    (∀ p : Program Rpn.Instr,
      (0 ≤ Rpn.depth p.code ∧ Rpn.depth p.code ≤ p.code.length) ∧
      Safe Rpn.machine Rpn.InBounds p.code #[] (Rpn.run p)) ∧
    (∀ p : Program Stack.Instr,
      (∀ n, Stack.size p = .ok n → p.size = n ∧ n ≤ p.code.length) ∧
      Safe (Stack.machine p.constants) (Stack.InBounds p.constants) p.code
        ⟨Store.zeros p.size.toNat, 0⟩ (Stack.run p)) ∧
    ∀ p : Program Register.Instr,
      (∀ n, Register.size p = .ok n → p.size = n ∧ n ≤ maxRegisters) ∧
      Safe (Register.machine p.constants) (Register.InBounds p.constants) p.code
        (Store.zeros p.size.toNat) (Register.run p) := by
  refine ⟨fun p => ⟨?_, Rpn.safe_run p⟩, fun p => ⟨?_, Stack.safe_run p⟩,
    fun p => ⟨?_, Register.safe_run p⟩⟩
  · have hbounds := Depth.go_bounds 0 0 (p.code.map (·.op)) (Int.le_refl 0)
    rwa [List.length_map, Int.zero_add] at hbounds
  · intro n hn
    exact checkedSize_eq_ok hn
  · intro n hn
    exact checkedSize_eq_ok hn

end Abacus
