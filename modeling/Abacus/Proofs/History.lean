import Abacus.Backend
import Abacus.Proofs.Execution

/-!
# The history of a run

What there is to tell of a run is settled by the program alone: it is the history of the run. An
observed run hands those events of the history that the configuration asks for to the observer,
one after the other, until the observer refuses a step. So an observer can cut a run short, and
there is nothing else that it can do to it.
-/
namespace Abacus

inductive Event where
  | step (e : StepEvent)
  | slot (e : SlotEvent)
deriving DecidableEq, Inhabited

namespace Event

def ip : Event → Nat
  | .step e => e.ip
  | .slot e => e.ip

def steps : List Event → List StepEvent
  | [] => []
  | .step e :: es => e :: steps es
  | .slot _ :: es => steps es

def slots : List Event → List SlotEvent
  | [] => []
  | .step _ :: es => slots es
  | .slot e :: es => e :: slots es

theorem mem_steps {es : List Event} {e : StepEvent} : e ∈ steps es ↔ .step e ∈ es := by
  induction es with
  | nil => simp [steps]
  | cons a es ih => cases a <;> simp [steps, ih]

@[simp] theorem steps_append (xs ys : List Event) : steps (xs ++ ys) = steps xs ++ steps ys := by
  induction xs with
  | nil => rfl
  | cons a xs ih => cases a <;> simp [steps, ih]

@[simp] theorem slots_append (xs ys : List Event) : slots (xs ++ ys) = slots xs ++ slots ys := by
  induction xs with
  | nil => rfl
  | cons a xs ih => cases a <;> simp [slots, ih]

@[simp] theorem steps_map_slot (es : List SlotEvent) : steps (es.map .slot) = [] := by
  induction es with
  | nil => rfl
  | cons e es ih => exact ih

@[simp] theorem slots_map_slot (es : List SlotEvent) : slots (es.map .slot) = es := by
  induction es with
  | nil => rfl
  | cons e es ih => exact congrArg (e :: ·) ih

end Event

namespace ObserverConfig

def reports (c : ObserverConfig) : Event → Bool
  | .step e => c.wantsStep e.ip
  | .slot _ => c.slots

theorem slots_normalize (c : ObserverConfig) : c.normalize.slots = c.slots := by
  unfold normalize
  split <;> rfl

theorem stepMode_normalize (c : ObserverConfig) : c.normalize.stepMode = c.stepMode := by
  unfold normalize
  split <;> rfl

theorem slots_filter_reports {c : ObserverConfig} (h : c.slots = true) (es : List Event) :
    Event.slots (es.filter c.reports) = Event.slots es := by
  induction es with
  | nil => rfl
  | cons e es ih =>
    cases e with
    | step e => by_cases he : c.wantsStep e.ip <;> simp [reports, he, Event.slots, ih]
    | slot e => simp [reports, h, Event.slots, ih]

theorem steps_filter_reports (c : ObserverConfig) (es : List Event) :
    Event.steps (es.filter c.reports) = (Event.steps es).filter (c.wantsStep ·.ip) := by
  induction es with
  | nil => rfl
  | cons e es ih =>
    cases e with
    | step e => by_cases he : c.wantsStep e.ip <;> simp [reports, he, Event.steps, ih]
    | slot e => by_cases he : c.slots <;> simp [reports, he, Event.steps, ih]

end ObserverConfig

namespace Observer

variable {ω : Type} (o : Observer ω)

/-- Tells an observer of events up to the first step that it refuses, and says which one it is. -/
def tell : List Event → ω → Option StepEvent × ω
  | [], w => (none, w)
  | .step e :: es, w =>
    match o.onStep e w with
    | (false, w) => (some e, w)
    | (true, w) => tell es w
  | .slot e :: es, w => tell es (o.onSlot e w)

/-- The events of a history that the observer is told of if it lets every step pass. -/
def hears (es : List Event) : List Event :=
  es.filter o.config.normalize.reports

variable {o}

theorem tell_passed {e : StepEvent} {w w' : ω} (h : o.onStep e w = (true, w')) (es : List Event) :
    o.tell (.step e :: es) w = o.tell es w' := by
  rw [tell, h]

theorem tell_refused {e : StepEvent} {w w' : ω} (h : o.onStep e w = (false, w'))
    (es : List Event) : o.tell (.step e :: es) w = (some e, w') := by
  rw [tell, h]

variable (o)

theorem tell_hears_slots (touched : List SlotEvent) (es : List Event) (w : ω) :
    o.tell (o.hears (touched.map .slot ++ es)) w = o.tell (o.hears es) (o.slots touched w) := by
  unfold hears slots
  induction touched generalizing w with
  | nil => simp
  | cons e touched ih =>
    by_cases h : o.config.normalize.slots = true
    · simp_all [ObserverConfig.reports, tell]
    · simp_all [ObserverConfig.reports]

/-- A step that nobody asked for counts as passed. -/
theorem tell_hears_step (e : StepEvent) (es : List Event) (w : ω) :
    o.tell (o.hears (.step e :: es)) w =
      if (o.step e w).1 then o.tell (o.hears es) (o.step e w).2 else (some e, (o.step e w).2) := by
  unfold step hears
  by_cases h : o.config.normalize.wantsStep e.ip = true
  · cases hstep : o.onStep e w with
    | mk passed w' => cases passed <;> simp [ObserverConfig.reports, h, tell, hstep]
  · simp [ObserverConfig.reports, h]

/-- What becomes of a run: it ends at the step that was refused, or as it does unobserved. -/
def conclude {α : Type} (r : Except Stop α) : Option StepEvent × ω → Except Stop α × ω
  | (none, w) => (r, w)
  | (some e, w) => (.error (.fault (Fault.halted ⟨e.ip, e.opcode⟩)), w)

theorem conclude_bind {α β : Type} (r : Except Stop α) (k : α → Except Stop β)
    (t : Option StepEvent × ω) :
    ((conclude r t).1 >>= k, (conclude r t).2) = conclude (r >>= k) t := by
  obtain ⟨halt, w⟩ := t
  cases halt <;> rfl

/-- An observer that refuses no step hears a history to its end. -/
theorem tell_hears_of_pass (ho : ∀ e w, (o.step e w).1 = true) (es : List Event) (w : ω) :
    (o.tell (o.hears es) w).1 = none := by
  induction es generalizing w with
  | nil => rfl
  | cons a es ih =>
    cases a with
    | step e =>
      rw [tell_hears_step, if_pos (ho e w)]
      exact ih _
    | slot e =>
      have hslots := o.tell_hears_slots [e] es w
      rw [List.map_singleton, List.singleton_append] at hslots
      rw [hslots]
      exact ih _

end Observer

namespace Machine

variable {ι σ ω : Type} (m : Machine ι σ)

def history : Nat → List ι → σ → List Event
  | _, [], _ => []
  | ip, i :: code, s =>
    .step ⟨ip, m.opcode i, m.depth s⟩ ::
      match m.step ip i s with
      | (touched, .error _) => touched.map .slot
      | (touched, .ok s) => touched.map .slot ++ history (ip + 1) code s

variable {m}

theorem history_cons_ok {ip : Nat} {i : ι} {s t : σ} {touched : List SlotEvent}
    (h : m.step ip i s = (touched, .ok t)) (code : List ι) :
    m.history ip (i :: code) s =
      .step ⟨ip, m.opcode i, m.depth s⟩ :: (touched.map .slot ++ m.history (ip + 1) code t) := by
  rw [history, h]

theorem history_cons_error {ip : Nat} {i : ι} {s : σ} {touched : List SlotEvent} {stop : Stop}
    (h : m.step ip i s = (touched, .error stop)) (code : List ι) :
    m.history ip (i :: code) s =
      .step ⟨ip, m.opcode i, m.depth s⟩ :: touched.map .slot := by
  rw [history, h]

variable (m)

/-- A run under an observer is the run itself, with its history told until a step is refused. -/
theorem run_eq_tell (o : Observer ω) (ip : Nat) (code : List ι) (s : σ) (w : ω) :
    m.run o ip code s w =
      Observer.conclude (m.exec ip code s) (o.tell (o.hears (m.history ip code s)) w) := by
  induction code generalizing ip s w with
  | nil => rfl
  | cons i code ih =>
    rw [run, exec]
    cases hstep : m.step ip i s with
    | mk touched r =>
      cases r with
      | error stop =>
        have hslots := o.tell_hears_slots touched []
        rw [List.append_nil] at hslots
        rw [history_cons_error hstep, Observer.tell_hears_step, hslots]
        cases o.step ⟨ip, m.opcode i, m.depth s⟩ w with
        | mk passed w' => cases passed <;> rfl
      | ok t =>
        rw [history_cons_ok hstep, Observer.tell_hears_step, Observer.tell_hears_slots]
        cases o.step ⟨ip, m.opcode i, m.depth s⟩ w with
        | mk passed w' =>
          cases passed with
          | false => rfl
          | true => exact ih (ip + 1) t (o.slots touched w')

theorem slots_history (ip : Nat) (code : List ι) (s : σ) :
    Event.slots (m.history ip code s) = m.trace ip code s := by
  induction code generalizing ip s with
  | nil => rfl
  | cons i code ih =>
    rw [trace]
    cases hstep : m.step ip i s with
    | mk touched r =>
      cases r with
      | error stop =>
        rw [history_cons_error hstep]
        exact Event.slots_map_slot touched
      | ok t =>
        rw [history_cons_ok hstep]
        simp only [Event.slots, Event.slots_append, Event.slots_map_slot, ih]

end Machine

namespace Executable

variable {ω : Type}

def history : Executable → List Event
  | .rpn p => Rpn.machine.history 0 p.code #[]
  | .stack p =>
    match Stack.size p with
    | .error _ => []
    | .ok n => (Stack.machine p.constants).history 0 p.code ⟨Store.zeros n, 0⟩
  | .register p =>
    match Register.size p with
    | .error _ => []
    | .ok n => (Register.machine p.constants).history 0 p.code (Store.zeros n)

theorem observe_eq_tell (x : Executable) (o : Observer ω) (w : ω) :
    x.observe o w = Observer.conclude x.run (o.tell (o.hears x.history) w) := by
  cases x with
  | rpn p =>
    rw [observe, Rpn.observe, Machine.run_eq_tell]
    exact Observer.conclude_bind _ _ _
  | stack p =>
    rw [observe, Stack.observe, run, Stack.run, history]
    cases Stack.size p with
    | error stop => rfl
    | ok n =>
      simp only [Machine.run_eq_tell]
      exact Observer.conclude_bind _ _ _
  | register p =>
    rw [observe, Register.observe, run, Register.run, history]
    cases Register.size p with
    | error stop => rfl
    | ok n =>
      simp only [Machine.run_eq_tell]
      exact Observer.conclude_bind _ _ _

theorem observe_fst {o : Observer ω} (ho : ∀ e w, (o.step e w).1 = true) (x : Executable) (w : ω) :
    (x.observe o w).1 = x.run := by
  have htell := o.tell_hears_of_pass ho x.history w
  rw [observe_eq_tell]
  generalize o.tell (o.hears x.history) w = t at htell
  obtain ⟨halt, w'⟩ := t
  cases htell
  rfl

end Executable
end Abacus
