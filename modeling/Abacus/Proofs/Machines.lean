import Abacus.Machine.Register
import Abacus.Machine.Rpn
import Abacus.Machine.Stack
import Abacus.Proofs.Slots

/-!
# The machines carry out actions

Each of the six machines does, with an instruction that stands for an action, what the action does
to a stack. The checked ones track every access. For rpn and stack code an instruction stands for
an action by its opcode and literal; a register instruction also has to name the slots at which
the operands lie.
-/
namespace Abacus

namespace Rpn

namespace Instr

def action? (i : Instr) : Option Action :=
  match i.op with
  | .loadInt => some (.load i.value)
  | .negate => some .negate
  | .binary op => some (.binary op)
  | _ => none

theorem action?_eq_load {i : Instr} {v : Int64} :
    i.action? = some (.load v) ↔ i.op = .loadInt ∧ i.value = v := by
  unfold action?
  split <;> simp_all

theorem action?_eq_negate {i : Instr} : i.action? = some .negate ↔ i.op = .negate := by
  unfold action?
  split <;> simp_all

theorem action?_eq_binary {i : Instr} {op : BinaryOp} :
    i.action? = some (.binary op) ↔ i.op = .binary op := by
  unfold action?
  split <;> simp_all

end Instr

theorem step_matches (ip : Nat) {i : Instr} {a : Action} {s : Store} {stk : List Int64}
    (hs : s.size = stk.length ∧ s.Holds stk) (hi : i.action? = some a)
    (hop : a.operands ≤ stk.length) :
    Matches (fun s stk => s.size = stk.length ∧ s.Holds stk) (step ip i s)
      (a.step .checked ip stk) := by
  obtain ⟨hsize, hs⟩ := hs
  unfold step
  cases a with
  | load v =>
    obtain ⟨hload, rfl⟩ := Instr.action?_eq_load.mp hi
    rw [hload, hsize]
    exact ⟨.refl _, .ok ⟨by simp [hsize], hs.push hsize _⟩⟩
  | negate =>
    rw [Instr.action?_eq_negate.mp hi]
    match stk with
    | a :: stk =>
      rw [List.length_cons] at hsize
      have hlast : s.size - 1 = stk.length := by omega
      simp only [hlast, if_neg (show ¬ s.size < 1 by omega), Effect.read_of_holds hs,
        Effect.andThen_ok]
      apply matches_conclude _ _ (.refl _)
      intro v
      obtain ⟨t, ht, htsize, hholds⟩ := Effect.write_of_holds hs.2 hs.length_lt ip v
      exact ⟨t, ht, by rw [htsize, hsize, List.length_cons], hholds⟩
  | binary op =>
    rw [Instr.action?_eq_binary.mp hi]
    match stk with
    | b :: a :: stk =>
      simp only [List.length_cons] at hsize
      have hb : s.size - 1 = (a :: stk).length := by simp [hsize]
      have ha : s.size - 2 = stk.length := by omega
      obtain ⟨hpop, hpops⟩ := hs.pop hsize
      simp only [hb, ha, if_neg (show ¬ s.size < 2 by omega), Effect.read_of_holds hs,
        Effect.read_of_holds hs.2, Effect.andThen_ok, ← List.append_assoc]
      apply matches_conclude _ _ (.refl _)
      intro v
      obtain ⟨t, ht, htsize, hholds⟩ := Effect.write_of_holds hpops.2 hpops.length_lt ip v
      exact ⟨t, ht, by rw [htsize, hpop, List.length_cons, List.length_cons], hholds⟩

/-- The checked machine has room for any stack: its store grows. -/
def tracking (room : Nat) : Tracking machine .checked room where
  Does i _ a := i.action? = some a
  Holds s stk := s.size = stk.length ∧ s.Holds stk
  step ip _ _ _ _ hs hi hop _ := step_matches ip hs hi hop

theorem trustedStep_related {room : Nat} (ip : Nat) {i : Instr} {a : Action} {s : Slots}
    {stk : List Int64} (hs : s.Holds room stk) (hi : i.action? = some a)
    (hop : a.operands ≤ stk.length) (hroom : a.after stk.length ≤ room) :
    Related (Slots.Holds room) (trustedStep ip i s) (a.step .wrapping ip stk).2 := by
  obtain ⟨store, sp⟩ := s
  obtain ⟨hsize, hdepth, hs⟩ := hs
  simp only at hsize hdepth hs
  subst hdepth
  unfold trustedStep
  cases a with
  | load v =>
    obtain ⟨hload, rfl⟩ := Instr.action?_eq_load.mp hi
    rw [hload]
    obtain ⟨t, ht, hholds⟩ := hs.store_slot hsize hroom i.value
    simp only [ht]
    exact .ok hholds
  | negate =>
    rw [Instr.action?_eq_negate.mp hi]
    match stk with
    | a :: stk =>
      exact hs.negate_slot hsize ip
  | binary op =>
    rw [Instr.action?_eq_binary.mp hi]
    match stk with
    | b :: a :: stk =>
      exact hs.binary_slot hsize ip op

def trustedSimulation (room : Nat) : Simulation trustedMachine .wrapping room where
  Does i _ a := i.action? = some a
  Holds := Slots.Holds room
  step ip _ _ _ _ hs hi hop hroom := trustedStep_related ip hs hi hop hroom

end Rpn

namespace Stack

namespace Instr

/-- The action that an instruction stands for, with the constants it may refer to. -/
def action? (constants : Store) (i : Instr) : Option Action :=
  match i.op with
  | .loadInline => some (.load i.literal)
  | .loadConst => constants[i.arg.toNat]?.map .load
  | .negate => some .negate
  | .binary op => some (.binary op)
  | _ => none

variable {constants : Store} {i : Instr}

theorem action?_eq_load {v : Int64} : i.action? constants = some (.load v) ↔
    (i.op = .loadInline ∧ i.literal = v) ∨
      (i.op = .loadConst ∧ constants[i.arg.toNat]? = some v) := by
  unfold action?
  split <;> simp_all

theorem action?_eq_negate : i.action? constants = some .negate ↔ i.op = .negate := by
  unfold action?
  split <;> simp_all

theorem action?_eq_binary {op : BinaryOp} :
    i.action? constants = some (.binary op) ↔ i.op = .binary op := by
  unfold action?
  split <;> simp_all

end Instr

variable {constants : Store}

theorem push_matches {room : Nat} (ip : Nat) (site : Location) {s : Slots} {stk : List Int64}
    (hs : s.Holds room stk) (hroom : stk.length < room) (v : Int64) :
    Matches (Slots.Holds room) (push site ip s v) (Action.step .checked ip (.load v) stk) := by
  obtain ⟨store, sp⟩ := s
  obtain ⟨rfl, rfl, hs⟩ := hs
  obtain ⟨t, ht, hholds⟩ := Effect.store_slot hs rfl hroom ip v
  unfold push
  rw [if_neg (Nat.not_le_of_lt hroom), ht]
  exact ⟨.refl _, .ok hholds⟩

theorem step_matches {room : Nat} (ip : Nat) {i : Instr} {a : Action} {s : Slots}
    {stk : List Int64} (hs : s.Holds room stk) (hi : i.action? constants = some a)
    (hop : a.operands ≤ stk.length) (hroom : a.after stk.length ≤ room) :
    Matches (Slots.Holds room) (step constants ip i s) (a.step .checked ip stk) := by
  unfold step
  cases a with
  | load v =>
    rcases Instr.action?_eq_load.mp hi with ⟨hload, rfl⟩ | ⟨hload, hconst⟩
    · rw [hload]
      exact push_matches ip _ hs hroom _
    · have hlt := (Array.getElem?_eq_some_iff.mp hconst).1
      simp only [hload, Effect.constant, if_neg (Nat.not_le_of_lt hlt), Store.read_eq_ok hconst,
        Effect.andThen_ok]
      exact push_matches ip _ hs hroom _
  | negate =>
    obtain ⟨store, sp⟩ := s
    obtain ⟨hsize, hdepth, hs⟩ := hs
    simp only at hsize hdepth hs
    subst hdepth
    rw [Instr.action?_eq_negate.mp hi]
    match stk with
    | a :: stk =>
      have ha : (a :: stk).length - 1 = stk.length := rfl
      have hone : ¬ (a :: stk).length < 1 := Nat.not_lt_of_le hop
      simp only [ha, if_neg hone, Effect.read_of_holds hs, Effect.andThen_ok]
      apply matches_conclude _ _ (.refl _)
      exact Effect.store_slot hs.2 hsize (hsize ▸ hs.length_lt) ip
  | binary op =>
    obtain ⟨store, sp⟩ := s
    obtain ⟨hsize, hdepth, hs⟩ := hs
    simp only at hsize hdepth hs
    subst hdepth
    rw [Instr.action?_eq_binary.mp hi]
    match stk with
    | b :: a :: stk =>
      have hb : (b :: a :: stk).length - 1 = (a :: stk).length := rfl
      have ha : (b :: a :: stk).length - 2 = stk.length := rfl
      have htwo : ¬ (b :: a :: stk).length < 2 := Nat.not_lt_of_le hop
      simp only [hb, ha, if_neg htwo, Effect.read_of_holds hs, Effect.read_of_holds hs.2,
        Effect.andThen_ok, ← List.append_assoc]
      apply matches_conclude _ _ (.refl _)
      exact Effect.store_slot hs.2.2 hsize (hsize ▸ hs.2.length_lt) ip

def tracking (constants : Store) (room : Nat) : Tracking (machine constants) .checked room where
  Does i _ a := i.action? constants = some a
  Holds := Slots.Holds room
  step ip _ _ _ _ hs hi hop hroom := step_matches ip hs hi hop hroom

theorem trustedStep_related {room : Nat} (ip : Nat) {i : Instr} {a : Action} {s : Slots}
    {stk : List Int64} (hs : s.Holds room stk) (hi : i.action? constants = some a)
    (hop : a.operands ≤ stk.length) (hroom : a.after stk.length ≤ room) :
    Related (Slots.Holds room) (trustedStep constants ip i s) (a.step .wrapping ip stk).2 := by
  obtain ⟨store, sp⟩ := s
  obtain ⟨hsize, hdepth, hs⟩ := hs
  simp only at hsize hdepth hs
  subst hdepth
  unfold trustedStep
  cases a with
  | load v =>
    obtain ⟨t, ht, hholds⟩ := hs.store_slot hsize hroom v
    rcases Instr.action?_eq_load.mp hi with ⟨hload, rfl⟩ | ⟨hload, hconst⟩
    · rw [hload]
      simp only [ht]
      exact .ok hholds
    · rw [hload]
      simp only [Store.read_eq_ok hconst, ok_bind, ht]
      exact .ok hholds
  | negate =>
    rw [Instr.action?_eq_negate.mp hi]
    match stk with
    | a :: stk =>
      exact hs.negate_slot hsize ip
  | binary op =>
    rw [Instr.action?_eq_binary.mp hi]
    match stk with
    | b :: a :: stk =>
      exact hs.binary_slot hsize ip op

def trustedSimulation (constants : Store) (room : Nat) :
    Simulation (trustedMachine constants) .wrapping room where
  Does i _ a := i.action? constants = some a
  Holds := Slots.Holds room
  step ip _ _ _ _ hs hi hop hroom := trustedStep_related ip hs hi hop hroom

end Stack

namespace Register

namespace Instr

def toStack (i : Instr) : Stack.Instr :=
  ⟨i.op, i.arg⟩

/-- Whether an instruction names the slots of its operands and of its result, for a stack of the
given depth. -/
def At (i : Instr) (d : Nat) : Action → Prop
  | .load _ => i.dst.toNat = d
  | .negate => i.dst.toNat + 1 = d ∧ i.lhs = i.dst
  | .binary _ => i.dst.toNat + 2 = d ∧ i.lhs = i.dst ∧ i.rhs.toNat + 1 = d

def Does (constants : Store) (i : Instr) (d : Nat) (a : Action) : Prop :=
  i.toStack.action? constants = some a ∧ i.At d a

end Instr

variable {constants : Store}

theorem requiring_eq {α : Type} {site : Location} {s : Store} {rs : List UInt8}
    (h : ∀ r ∈ rs, r.toNat < s.size) (e : Effect α) : requiring site s rs e = e := by
  have hn : rs.find? (s.size ≤ ·.toNat) = none := by
    rw [List.find?_eq_none]
    intro r hr
    simpa using h r hr
  unfold requiring
  rw [hn]

/-- Registers hold a stack; those above it may contain anything. -/
def Holds (room : Nat) (s : Store) (stk : List Int64) : Prop :=
  s.size = room ∧ s.Holds stk

theorem set_matches {room : Nat} (ip : Nat) (site : Location) {s : Store} {stk : List Int64}
    (hs : Holds room s stk) {dst : UInt8} (hdst : dst.toNat = stk.length)
    (hroom : stk.length < room) (v : Int64) :
    Matches (Holds room) (set site ip s dst v) (Action.step .checked ip (.load v) stk) := by
  obtain ⟨rfl, hs⟩ := hs
  obtain ⟨t, ht, htsize, hholds⟩ := Effect.write_of_holds hs hroom ip v
  unfold set
  rw [requiring_eq (by simpa [hdst] using hroom), hdst, ht]
  exact ⟨.refl _, .ok ⟨htsize, hholds⟩⟩

theorem step_matches {room : Nat} (ip : Nat) {i : Instr} {a : Action} {s : Store}
    {stk : List Int64} (hs : Holds room s stk) (hi : i.Does constants stk.length a)
    (hop : a.operands ≤ stk.length) (hroom : a.after stk.length ≤ room) :
    Matches (Holds room) (step constants ip i s) (a.step .checked ip stk) := by
  obtain ⟨hi, hat⟩ := hi
  unfold step
  cases a with
  | load v =>
    rcases Stack.Instr.action?_eq_load.mp hi with ⟨hload, hv⟩ | ⟨hload, hconst⟩
    · have hload : i.op = .loadInline := hload
      rw [hload, ← hv]
      exact set_matches ip _ hs hat hroom _
    · have hload : i.op = .loadConst := hload
      have hconst : constants[i.arg.toNat]? = some v := hconst
      have hlt := (Array.getElem?_eq_some_iff.mp hconst).1
      simp only [hload, Effect.constant, if_neg (Nat.not_le_of_lt hlt), Store.read_eq_ok hconst,
        Effect.andThen_ok]
      exact set_matches ip _ hs hat hroom _
  | negate =>
    obtain ⟨rfl, hs⟩ := hs
    obtain ⟨hdst, hlhs⟩ := hat
    have hneg : i.op = .negate := Stack.Instr.action?_eq_negate.mp hi
    match stk with
    | a :: stk =>
      have hdst : i.dst.toNat = stk.length := Nat.succ.inj hdst
      have hlt := hs.length_lt
      simp only [hneg, hlhs]
      rw [requiring_eq (by simpa [hdst] using hlt), hdst, Effect.read_of_holds hs,
        Effect.andThen_ok]
      apply matches_conclude _ _ (.refl _)
      intro v
      obtain ⟨t, ht, htsize, hholds⟩ := Effect.write_of_holds hs.2 hlt ip v
      exact ⟨t, ht, htsize, hholds⟩
  | binary op =>
    obtain ⟨rfl, hs⟩ := hs
    obtain ⟨hdst, hlhs, hrhs⟩ := hat
    have hbin : i.op = .binary op := Stack.Instr.action?_eq_binary.mp hi
    match stk with
    | b :: a :: stk =>
      have hdst : i.dst.toNat = stk.length := Nat.succ.inj (Nat.succ.inj hdst)
      have hrhs : i.rhs.toNat = (a :: stk).length := Nat.succ.inj hrhs
      have hlt := hs.length_lt
      have hlt' := hs.2.length_lt
      simp only [hbin, hlhs]
      rw [requiring_eq (by simpa [hdst, hrhs] using ⟨hlt', hlt, hlt'⟩), hdst, hrhs]
      simp only [Effect.read_of_holds hs.2, Effect.read_of_holds hs, Effect.andThen_ok,
        ← List.append_assoc]
      apply matches_conclude _ _ (.swap _ _ _)
      intro v
      obtain ⟨t, ht, htsize, hholds⟩ := Effect.write_of_holds hs.2.2 hlt' ip v
      exact ⟨t, ht, htsize, hholds⟩

def tracking (constants : Store) (room : Nat) : Tracking (machine constants) .checked room where
  Does := Instr.Does constants
  Holds := Holds room
  step ip _ _ _ _ hs hi hop hroom := step_matches ip hs hi hop hroom

theorem write_of_holds {room : Nat} {s : Store} {stk : List Int64} (hs : Holds room s stk)
    (hroom : stk.length < room) (v : Int64) :
    ∃ t, s.write stk.length v = .ok t ∧ Holds room t (v :: stk) := by
  obtain ⟨rfl, hs⟩ := hs
  obtain ⟨t, ht, htsize, hholds⟩ := hs.write hroom v
  exact ⟨t, ht, htsize, hholds⟩

theorem trustedStep_related {room : Nat} (ip : Nat) {i : Instr} {a : Action} {s : Store}
    {stk : List Int64} (hs : Holds room s stk) (hi : i.Does constants stk.length a)
    (hop : a.operands ≤ stk.length) (hroom : a.after stk.length ≤ room) :
    Related (Holds room) (trustedStep constants ip i s) (a.step .wrapping ip stk).2 := by
  obtain ⟨hi, hat⟩ := hi
  unfold trustedStep
  cases a with
  | load v =>
    obtain ⟨t, ht, hholds⟩ := write_of_holds hs hroom v
    have hdst : i.dst.toNat = stk.length := hat
    rcases Stack.Instr.action?_eq_load.mp hi with ⟨hload, hv⟩ | ⟨hload, hconst⟩
    · have hload : i.op = .loadInline := hload
      have hv : i.literal = v := hv
      simp only [hload, hdst, hv, ht]
      exact .ok hholds
    · have hload : i.op = .loadConst := hload
      have hconst : constants[i.arg.toNat]? = some v := hconst
      simp only [hload, hdst, Store.read_eq_ok hconst, ok_bind, ht]
      exact .ok hholds
  | negate =>
    obtain ⟨hdst, hlhs⟩ := hat
    have hneg : i.op = .negate := Stack.Instr.action?_eq_negate.mp hi
    match stk with
    | a :: stk =>
      have hdst : i.dst.toNat = stk.length := Nat.succ.inj hdst
      simp only [hneg, hlhs, hdst, hs.2.read, ok_bind]
      exact related_conclude ip .negate _
        (write_of_holds ⟨hs.1, hs.2.2⟩ (hs.1 ▸ hs.2.length_lt)) (.ok (-a))
  | binary op =>
    obtain ⟨hdst, hlhs, hrhs⟩ := hat
    have hbin : i.op = .binary op := Stack.Instr.action?_eq_binary.mp hi
    match stk with
    | b :: a :: stk =>
      have hdst : i.dst.toNat = stk.length := Nat.succ.inj (Nat.succ.inj hdst)
      have hrhs : i.rhs.toNat = (a :: stk).length := Nat.succ.inj hrhs
      simp only [hbin, hlhs, hdst, hrhs, hs.2.read, hs.2.2.read, ok_bind]
      exact related_conclude _ _ _
        (write_of_holds ⟨hs.1, hs.2.2.2⟩ (hs.1 ▸ hs.2.2.length_lt)) _

def trustedSimulation (constants : Store) (room : Nat) :
    Simulation (trustedMachine constants) .wrapping room where
  Does := Instr.Does constants
  Holds := Holds room
  step ip _ _ _ _ hs hi hop hroom := trustedStep_related ip hs hi hop hroom

end Register
end Abacus
