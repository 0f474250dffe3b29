import Abacus.Proofs.Postorder

/-!
# Machines that carry out actions

A machine follows a list of actions when each of its instructions does one of them: from a state
that holds a stack it ends in a state that holds what the action makes of the stack, or stops for
the reason the action stops. Whole runs then agree, and so do the slots that checked machines
touch, up to the order in which an operator reads its operands.
-/
namespace Abacus

inductive Related {α β : Type} (R : α → β → Prop) : Except Stop α → Except Stop β → Prop
  | ok {a b} : R a b → Related R (.ok a) (.ok b)
  | error {stop} : Related R (.error stop) (.error stop)

namespace Related

variable {α β γ δ : Type} {R : α → β → Prop} {S : γ → δ → Prop}
  {x : Except Stop α} {y : Except Stop β}

theorem bind {f : α → Except Stop γ} {g : β → Except Stop δ} (h : Related R x y)
    (hfg : ∀ a b, x = .ok a → y = .ok b → R a b → Related S (f a) (g b)) :
    Related S (x >>= f) (y >>= g) := by
  cases h with
  | ok hr => exact hfg _ _ rfl rfl hr
  | error => exact .error

theorem exists_of_ok {a : α} (h : Related R x y) (hx : x = .ok a) : ∃ b, y = .ok b ∧ R a b := by
  subst hx
  cases h with
  | ok hr => exact ⟨_, rfl, hr⟩

theorem eq {x y : Except Stop α} (h : Related Eq x y) : x = y := by
  cases h with
  | ok hr => rw [hr]
  | error => rfl

end Related

/-- Code that does a list of actions one by one. What an instruction has to be may depend on the
depth of the stack before it. -/
inductive Aligned {ι : Type} (Does : ι → Nat → Action → Prop) :
    Nat → List ι → List Action → Prop
  | nil {d} : Aligned Does d [] []
  | cons {d i a code acts} : Does i d a → Aligned Does (a.after d) code acts →
      Aligned Does d (i :: code) (a :: acts)

namespace Aligned

variable {ι : Type} {Does : ι → Nat → Action → Prop} {d : Nat} {code code' : List ι}
  {acts acts' : List Action}

theorem single {i : ι} {a : Action} (h : Does i d a) : Aligned Does d [i] [a] :=
  .cons h .nil

theorem append (h : Aligned Does d code acts)
    (h' : Aligned Does (Action.settle d acts) code' acts') :
    Aligned Does d (code ++ code') (acts ++ acts') := by
  induction h with
  | nil => exact h'
  | cons hi _ ih => exact .cons hi (ih h')

theorem of_map_eq {action? : ι → Option Action} (h : code.map action? = acts.map some) (d : Nat) :
    Aligned (fun i _ a => action? i = some a) d code acts := by
  induction code generalizing acts d with
  | nil =>
    cases acts with
    | nil => exact .nil
    | cons a acts => cases h
  | cons i code ih =>
    cases acts with
    | nil => cases h
    | cons a acts =>
      obtain ⟨hi, hrest⟩ := List.cons.inj h
      exact .cons hi (ih hrest _)

theorem length_eq (h : Aligned Does d code acts) : code.length = acts.length := by
  induction h with
  | nil => rfl
  | cons _ _ ih => rw [List.length_cons, List.length_cons, ih]

end Aligned

/-- A machine that carries out actions on stacks of at most `room` values. -/
structure Simulation {ι σ : Type} (m : Machine ι σ) (arith : Arithmetic) (room : Nat) where
  Does : ι → Nat → Action → Prop
  Holds : σ → List Int64 → Prop
  step : ∀ (ip : Nat) {i a s stk}, Holds s stk → Does i stk.length a →
    a.operands ≤ stk.length → a.after stk.length ≤ room →
    Related Holds (m.step ip i s).2 (a.step arith ip stk).2

namespace Simulation

variable {ι σ : Type} {m : Machine ι σ} {arith : Arithmetic} {room : Nat}
  (S : Simulation m arith room)

/-- Code that does a list of actions runs as the actions do. -/
theorem exec {code : List ι} {acts : List Action} {s : σ} {stk : List Int64}
    (hs : S.Holds s stk) (hc : Aligned S.Does stk.length code acts)
    (hf : Action.Fits room stk.length acts) (ip : Nat) :
    Related S.Holds (m.exec ip code s) ((Action.machine arith).exec ip acts stk) := by
  generalize hd : stk.length = d at hc hf
  induction hc generalizing ip s stk with
  | nil => exact .ok hs
  | @cons d i a code acts hi _ ih =>
    subst hd
    obtain ⟨hop, hroom, hrest⟩ := hf
    rw [Machine.exec_cons, Machine.exec_cons]
    apply (S.step ip hs hi hop hroom).bind
    intro t stk' _ hr ht
    exact ih ht (ip + 1) (Action.length_step hr) hrest

end Simulation

/-- Two effects that touch the same slots and end alike. -/
structure Matches {α β : Type} (R : α → β → Prop) (x : Effect α) (y : Effect β) : Prop where
  touched : x.1.Perm y.1
  result : Related R x.2 y.2

/-- A machine that touches the slots of the stack as the actions do. -/
structure Tracking {ι σ : Type} (m : Machine ι σ) (arith : Arithmetic) (room : Nat) where
  Does : ι → Nat → Action → Prop
  Holds : σ → List Int64 → Prop
  step : ∀ (ip : Nat) {i a s stk}, Holds s stk → Does i stk.length a →
    a.operands ≤ stk.length → a.after stk.length ≤ room →
    Matches Holds (m.step ip i s) (a.step arith ip stk)

namespace Tracking

variable {ι σ : Type} {m : Machine ι σ} {arith : Arithmetic} {room : Nat}
  (T : Tracking m arith room)

def simulation : Simulation m arith room where
  Does := T.Does
  Holds := T.Holds
  step ip _ _ _ _ hs hi hop hroom := (T.step ip hs hi hop hroom).result

/-- A relation between the slots of single steps, and between what is put together from related
parts, holds between the slots of whole runs. -/
theorem trace_rel {R : List SlotEvent → List SlotEvent → Prop} (hnil : R [] [])
    (happend : ∀ {xs ys xs' ys'}, R xs ys → R xs' ys' → R (xs ++ xs') (ys ++ ys'))
    (hstep : ∀ {ip a stk xs}, xs.Perm (Action.step arith ip a stk).1 →
      R xs (Action.step arith ip a stk).1)
    {code : List ι} {acts : List Action} {s : σ} {stk : List Int64}
    (hs : T.Holds s stk) (hc : Aligned T.Does stk.length code acts)
    (hf : Action.Fits room stk.length acts) (ip : Nat) :
    R (m.trace ip code s) ((Action.machine arith).trace ip acts stk) := by
  generalize hd : stk.length = d at hc hf
  induction hc generalizing ip s stk with
  | nil => exact hnil
  | @cons d i a code acts hi _ ih =>
    subst hd
    obtain ⟨hop, hroom, hrest⟩ := hf
    obtain ⟨htouched, hresult⟩ := T.step ip hs hi hop hroom
    generalize hr : (a.step arith ip stk).2 = r at hresult
    generalize hm : (m.step ip i s).2 = r' at hresult
    cases hresult with
    | error =>
      rw [m.trace_cons_error _ hm, (Action.machine arith).trace_cons_error _ hr]
      exact hstep htouched
    | ok ht =>
      rw [m.trace_cons_ok _ hm, (Action.machine arith).trace_cons_ok _ hr]
      exact happend (hstep htouched) (ih ht (ip + 1) (Action.length_step hr) hrest)

theorem trace {code : List ι} {acts : List Action} {s : σ} {stk : List Int64}
    (hs : T.Holds s stk) (hc : Aligned T.Does stk.length code acts)
    (hf : Action.Fits room stk.length acts) (ip : Nat) :
    (m.trace ip code s).Perm ((Action.machine arith).trace ip acts stk) :=
  T.trace_rel (.refl _) .append id hs hc hf ip

end Tracking
end Abacus
