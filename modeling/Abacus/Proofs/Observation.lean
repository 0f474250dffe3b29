import Abacus.Proofs.History

/-!
# Observed runs

To see what an observer is told and what it answers, a record is kept beside it; this changes
nothing for the observer or for the run. The record of a run is its history, as far as the
configuration asks for it, up to the step at which the observer ends the run.
-/
namespace Abacus

structure Entry where
  event : Event
  passed : Bool
deriving DecidableEq, Inhabited

namespace Entry

def pass (e : Event) : Entry :=
  ⟨e, true⟩

@[simp] theorem events_map_pass (es : List Event) : (es.map pass).map (·.event) = es := by
  rw [List.map_map]
  exact List.map_id es

end Entry

namespace Observer

variable {ω : Type} (o : Observer ω)

def recording : Observer (ω × List Entry) where
  config := o.config
  onStep e w :=
    let r := o.onStep e w.1
    (r.1, r.2, w.2 ++ [⟨.step e, r.1⟩])
  onSlot e w := (o.onSlot e w.1, w.2 ++ [⟨.slot e, true⟩])

variable {o}

theorem onStep_recording {e : StepEvent} {w w' : ω} {passed : Bool}
    (h : o.onStep e w = (passed, w')) (past : List Entry) :
    o.recording.onStep e (w, past) = (passed, w', past ++ [⟨.step e, passed⟩]) := by
  simp only [recording, h]

variable (o)

inductive Told (es : List Event) : Option StepEvent → List Entry → Prop
  | all : Told es none (es.map .pass)
  | halted (before : List Event) (e : StepEvent) (after : List Event) :
      es = before ++ .step e :: after →
      Told es (some e) (before.map .pass ++ [⟨.step e, false⟩])

theorem Told.cons {es : List Event} {halt : Option StepEvent} {log : List Entry} (a : Event)
    (h : Told es halt log) : Told (a :: es) halt (⟨a, true⟩ :: log) := by
  cases h with
  | all => exact .all
  | halted before e after h => exact .halted (a :: before) e after (congrArg (a :: ·) h)

theorem Told.of_all {es : List Event} {halt : Option StepEvent} {log : List Entry}
    (h : Told es halt log) (hall : ∀ entry ∈ log, entry.passed = true) :
    halt = none ∧ log.map (·.event) = es := by
  cases h with
  | all => exact ⟨rfl, Entry.events_map_pass es⟩
  | halted _ _ _ _ =>
    have hlast := hall _ (List.mem_append_right _ (List.mem_singleton_self _))
    cases hlast

/-- Keeping a record changes nothing for the observer, and the record is complete. -/
theorem tell_recording (es : List Event) (w : ω) (past : List Entry) :
    ∃ halt w' log, o.tell es w = (halt, w') ∧
      o.recording.tell es (w, past) = (halt, w', past ++ log) ∧ Told es halt log := by
  induction es generalizing w past with
  | nil => exact ⟨none, w, [], rfl, by rw [List.append_nil]; rfl, .all⟩
  | cons a es ih =>
    cases a with
    | slot e =>
      obtain ⟨halt, w', log, htell, hlog, htold⟩ := ih (o.onSlot e w) (past ++ [⟨.slot e, true⟩])
      rw [← List.append_cons] at hlog
      exact ⟨halt, w', ⟨.slot e, true⟩ :: log, htell, hlog, htold.cons (.slot e)⟩
    | step e =>
      cases hstep : o.onStep e w with
      | mk passed w₁ =>
        have hrecord := onStep_recording hstep past
        cases passed with
        | false =>
          exact ⟨some e, w₁, [⟨.step e, false⟩], tell_refused hstep es, tell_refused hrecord es,
            .halted [] e es rfl⟩
        | true =>
          obtain ⟨halt, w', log, htell, hlog, htold⟩ := ih w₁ (past ++ [⟨.step e, true⟩])
          rw [← List.append_cons] at hlog
          exact ⟨halt, w', ⟨.step e, true⟩ :: log, (tell_passed hstep es).trans htell,
            (tell_passed hrecord es).trans hlog, htold.cons (.step e)⟩

end Observer

namespace Executable

variable {ω : Type}

/-- What an observer is told in the checked run of a program, with its answers. -/
def log (x : Executable) (o : Observer ω) (w : ω) : List Entry :=
  (x.observe o.recording (w, [])).2.2

def told (x : Executable) (o : Observer ω) (w : ω) : List Event :=
  (x.log o w).map (·.event)

def Unhalted (x : Executable) (o : Observer ω) (w : ω) : Prop :=
  ∀ entry ∈ x.log o w, entry.passed = true

/-- Keeping a record does not disturb the run, and the record is that of the run's history, whole
or up to the step that was refused. -/
theorem observe_recording (x : Executable) (o : Observer ω) (w : ω) :
    ∃ halt w', x.observe o w = Observer.conclude x.run (halt, w') ∧
      x.observe o.recording (w, []) = Observer.conclude x.run (halt, w', x.log o w) ∧
      Observer.Told (o.hears x.history) halt (x.log o w) := by
  obtain ⟨halt, w', log, htell, hrecord, htold⟩ := o.tell_recording (o.hears x.history) w []
  have hobserve := x.observe_eq_tell o.recording (w, [])
  rw [show o.recording.hears = o.hears from rfl, hrecord, List.nil_append] at hobserve
  have hlog : x.log o w = log := by
    rw [Executable.log, hobserve]
    cases halt <;> rfl
  rw [hlog]
  refine ⟨halt, w', ?_, hobserve, htold⟩
  rw [observe_eq_tell, htell]

/-- An observer that lets every step pass is told of all that it asks for, and the run ends as it
does unobserved. -/
theorem Unhalted.told_eq {x : Executable} {o : Observer ω} {w : ω} (h : x.Unhalted o w) :
    x.told o w = o.hears x.history ∧ (x.observe o w).1 = x.run := by
  obtain ⟨halt, w', hobserve, _, htold⟩ := x.observe_recording o w
  obtain ⟨rfl, hevents⟩ := htold.of_all h
  exact ⟨hevents, congrArg Prod.fst hobserve⟩

theorem Unhalted.slots_told {x : Executable} {o : Observer ω} {w : ω} (h : x.Unhalted o w)
    (hslots : o.config.slots = true) : Event.slots (x.told o w) = Event.slots x.history := by
  rw [h.told_eq.1, Observer.hears]
  apply ObserverConfig.slots_filter_reports
  rw [ObserverConfig.slots_normalize, hslots]

theorem steps_hears_all (x : Executable) {o : Observer ω} (h : o.config.stepMode = .all) :
    Event.steps (o.hears x.history) = Event.steps x.history := by
  rw [Observer.hears, ObserverConfig.steps_filter_reports, List.filter_eq_self]
  intro e _
  unfold ObserverConfig.wantsStep
  rw [ObserverConfig.stepMode_normalize, h]

end Executable

/-- Lets `n` of the steps pass that it is told of. -/
def Observer.lenient (config : ObserverConfig) (n : Nat) : Observer Nat where
  config
  onStep _ k := (decide (k < n), k + 1)
  onSlot _ k := k

end Abacus
