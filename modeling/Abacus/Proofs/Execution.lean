import Abacus.Machine.Basic

/-!
# Runs of code

Running code one part after the other is running all of it. An observer that never ends a run
sees the slots that its steps touch, one list after the other, and does not change its answer.
-/
namespace Abacus

section Except

variable {ε ε' α β : Type}

@[simp] theorem ok_bind (a : α) (f : α → Except ε β) : (Except.ok a >>= f) = f a := rfl

@[simp] theorem error_bind (e : ε) (f : α → Except ε β) :
    ((Except.error e : Except ε α) >>= f) = .error e := rfl

theorem bind_eq_ok {x : Except ε α} {f : α → Except ε β} {b : β} :
    (x >>= f) = .ok b ↔ ∃ a, x = .ok a ∧ f a = .ok b := by
  cases x <;> simp

theorem then_eq_ok {x : Except ε Unit} {y : Except ε β} {b : β} :
    (x >>= fun _ => y) = .ok b ↔ x = .ok () ∧ y = .ok b := by
  cases x <;> simp

theorem bind_eq_error {x : Except ε α} {f : α → Except ε β} {e : ε} :
    (x >>= f) = .error e ↔ x = .error e ∨ ∃ a, x = .ok a ∧ f a = .error e := by
  cases x <;> simp

theorem mapError_eq_ok {x : Except ε α} {f : ε → ε'} {a : α} :
    x.mapError f = .ok a ↔ x = .ok a := by
  cases x <;> constructor <;> intro h <;> cases h <;> rfl

end Except

namespace Observer

variable {ω : Type}

theorem slots_append (o : Observer ω) (xs ys : List SlotEvent) (w : ω) :
    o.slots (xs ++ ys) w = o.slots ys (o.slots xs w) := by
  unfold slots
  split
  · rw [List.foldl_append]
  · rfl

end Observer

namespace Machine

variable {ι σ ω : Type} (m : Machine ι σ)

@[simp] theorem exec_nil (ip : Nat) (s : σ) : m.exec ip [] s = .ok s := rfl

theorem exec_cons (ip : Nat) (i : ι) (code : List ι) (s : σ) :
    m.exec ip (i :: code) s = (m.step ip i s).2 >>= m.exec (ip + 1) code := by
  rw [exec]
  cases h : m.step ip i s with
  | mk touched r => cases r <;> rfl

theorem exec_single (ip : Nat) (i : ι) (s : σ) : m.exec ip [i] s = (m.step ip i s).2 := by
  rw [exec_cons]
  cases (m.step ip i s).2 <;> rfl

theorem exec_append (ip : Nat) (xs ys : List ι) (s : σ) :
    m.exec ip (xs ++ ys) s = m.exec ip xs s >>= m.exec (ip + xs.length) ys := by
  induction xs generalizing ip s with
  | nil => rfl
  | cons i xs ih =>
    rw [List.cons_append, exec_cons, exec_cons, List.length_cons]
    cases (m.step ip i s).2 with
    | error stop => rfl
    | ok t =>
      have h := ih (ip + 1) t
      rwa [Nat.add_right_comm, Nat.add_assoc] at h

theorem exec_append_error {ip : Nat} {xs : List ι} {s : σ} {stop : Stop} (ys : List ι)
    (h : m.exec ip xs s = .error stop) : m.exec ip (xs ++ ys) s = .error stop := by
  rw [exec_append, h, error_bind]

def trace : Nat → List ι → σ → List SlotEvent
  | _, [], _ => []
  | ip, i :: code, s =>
    match m.step ip i s with
    | (touched, .error _) => touched
    | (touched, .ok s) => touched ++ trace (ip + 1) code s

@[simp] theorem trace_nil (ip : Nat) (s : σ) : m.trace ip [] s = [] := rfl

theorem trace_cons_ok {ip : Nat} {i : ι} {s t : σ} (code : List ι)
    (h : (m.step ip i s).2 = .ok t) :
    m.trace ip (i :: code) s = (m.step ip i s).1 ++ m.trace (ip + 1) code t := by
  rw [trace]
  cases hs : m.step ip i s with
  | mk touched r =>
    rw [hs] at h
    cases h
    rfl

theorem trace_cons_error {ip : Nat} {i : ι} {s : σ} {stop : Stop} (code : List ι)
    (h : (m.step ip i s).2 = .error stop) :
    m.trace ip (i :: code) s = (m.step ip i s).1 := by
  rw [trace]
  cases hs : m.step ip i s with
  | mk touched r =>
    rw [hs] at h
    cases h
    rfl

theorem trace_single (ip : Nat) (i : ι) (s : σ) : m.trace ip [i] s = (m.step ip i s).1 := by
  cases hs : (m.step ip i s).2 with
  | error stop => exact m.trace_cons_error [] hs
  | ok t => rw [m.trace_cons_ok [] hs, trace_nil, List.append_nil]

theorem trace_append_ok {ip : Nat} {xs : List ι} {s t : σ} (ys : List ι)
    (h : m.exec ip xs s = .ok t) :
    m.trace ip (xs ++ ys) s = m.trace ip xs s ++ m.trace (ip + xs.length) ys t := by
  induction xs generalizing ip s with
  | nil =>
    cases h
    rfl
  | cons i xs ih =>
    rw [exec_cons] at h
    cases hs : (m.step ip i s).2 with
    | error stop =>
      rw [hs] at h
      cases h
    | ok u =>
      rw [hs] at h
      rw [List.cons_append, m.trace_cons_ok _ hs, m.trace_cons_ok _ hs, ih h, List.append_assoc,
        List.length_cons, Nat.add_right_comm, Nat.add_assoc]

theorem trace_append_error {ip : Nat} {xs : List ι} {s : σ} {stop : Stop} (ys : List ι)
    (h : m.exec ip xs s = .error stop) : m.trace ip (xs ++ ys) s = m.trace ip xs s := by
  induction xs generalizing ip s with
  | nil => cases h
  | cons i xs ih =>
    rw [exec_cons] at h
    cases hs : (m.step ip i s).2 with
    | error stop => rw [List.cons_append, m.trace_cons_error _ hs, m.trace_cons_error _ hs]
    | ok u =>
      rw [hs] at h
      rw [List.cons_append, m.trace_cons_ok _ hs, m.trace_cons_ok _ hs, ih h]

/-- An observer that lets every step pass learns the slots, and the run is the one that nobody
observes. -/
theorem run_eq_exec {o : Observer ω} (ho : ∀ e w, o.step e w = (true, w)) (ip : Nat)
    (code : List ι) (s : σ) (w : ω) :
    m.run o ip code s w = (m.exec ip code s, o.slots (m.trace ip code s) w) := by
  induction code generalizing ip s w with
  | nil =>
    have hn : o.slots [] w = w := by
      unfold Observer.slots
      split <;> rfl
    rw [run, exec_nil, trace_nil, hn]
  | cons i code ih =>
    rw [run, ho, exec, trace]
    cases m.step ip i s with
    | mk touched r =>
      cases r with
      | error stop => rfl
      | ok t => simp only [ih, Observer.slots_append]

end Machine
end Abacus
