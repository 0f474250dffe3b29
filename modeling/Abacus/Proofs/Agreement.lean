import Abacus.Agreement
import Abacus.Proofs.History
import Abacus.Proofs.Refusal
import Abacus.Proofs.StorageSize

/-!
# The comparison of all runs

The comparison finds nothing on any tree that all encoders accept, and on other trees it gives the
fault of an encoder. One kind of tree gets no answer: the comparison prints a tree whose evaluation
has failed in arithmetic before it looks for holes, and a tree with a hole has no text.
-/
namespace Abacus

namespace Expr

def hasHole : Expr → Bool
  | .hole _ => true
  | .int _ _ _ => false
  | .unary _ _ x => x.hasHole
  | .binary _ _ x y => x.hasHole || y.hasHole

theorem isSome_textOnto? (e : Expr) (rest : Bytes) : (e.textOnto? rest).isSome = !e.hasHole := by
  induction e generalizing rest with
  | hole kind => rfl
  | int p literal v => rfl
  | unary p op x ih =>
    rw [textOnto?, hasHole, ← ih (Bytes.rparen :: rest)]
    cases x.textOnto? (Bytes.rparen :: rest) <;> rfl
  | binary p op x y ihx ihy =>
    rw [textOnto?, hasHole, Bool.not_or, ← ihy (Bytes.rparen :: rest)]
    cases y.textOnto? (Bytes.rparen :: rest) with
    | none => exact (Bool.and_false _).symm
    | some r =>
      rw [← ihx (Bytes.space :: op.symbol BinaryOp.symbol :: Bytes.space :: r)]
      cases h : x.textOnto? (Bytes.space :: op.symbol BinaryOp.symbol :: Bytes.space :: r) <;>
        simp [h]

theorem string?_eq_none_iff {e : Expr} : e.string? = none ↔ e.hasHole = true := by
  rw [string?, Option.map_eq_none_iff, text?, ← Option.not_isSome_iff_eq_none, isSome_textOnto?]
  simp

theorem WellFormed.hasHole_eq_false {e : Expr} (h : e.WellFormed) : e.hasHole = false := by
  induction h with
  | int => rfl
  | unary _ ih => exact ih
  | binary _ _ ihx ihy => simp [hasHole, ihx, ihy]

def FailsBeforeHole (e : Expr) : Prop :=
  e.hasHole = true ∧ ∃ c, e.eval = .error (Fault.arithmetic none c)

end Expr

theorem Answers.agrees {answer : Except Fault Int64} {r : Except Stop Int64}
    (h : Answers id answer r) : (Outcome.ofEval answer).agrees (.ofRun r) = true := by
  rcases h with ⟨v, rfl, rfl⟩ | ⟨c, site, rfl, rfl⟩
  · exact decide_eq_true rfl
  · change (true && c.text == c.text) = true
    simp

section Runs

variable {b : Backend} {e : Expr} {x : Executable}

theorem backend_of_compile (h : compile b e = .ok x) : x.backend = b := by
  cases b with
  | rpn =>
    cases hp : Rpn.compile e <;> rw [compile, hp] at h <;> cases h
    rfl
  | stack =>
    cases hp : Stack.compile e <;> rw [compile, hp] at h <;> cases h
    rfl
  | register =>
    cases hp : Register.compile e <;> rw [compile, hp] at h <;> cases h
    rfl

theorem storageSize_of_compile (h : compile b e = .ok x) : x.stats.storageSize = e.need := by
  rcases compile_cases h with ⟨p, hp, rfl⟩ | ⟨p, hp, rfl⟩ | ⟨p, hp, rfl⟩
  · exact Rpn.depth_eq_need hp
  · exact (Stack.compile_ok hp).2.2.1
  · exact (Register.compile_ok hp).2.2.1

theorem exists_of_failure_eq_none {r : Except Stop Int64}
    (h : (Outcome.ofRun r).failure = none) : ∃ v, r = .ok v := by
  cases r with
  | ok v => exact ⟨v, rfl⟩
  | error stop => cases h

theorem checked_discrepancies (h : compile b e = .ok x) (wrapping : Outcome) :
    Report.discrepanciesOf (.ofEval e.eval) wrapping e.need
      ⟨x.backend, .checked, .ofRun (x.observe SlotUsage.observer {}).1,
        (x.observe SlotUsage.observer {}).2.peak⟩ = [] := by
  have hobserve : (x.observe SlotUsage.observer {}).1 = x.run :=
    Executable.observe_fst (fun _ _ => rfl) x _
  have hanswers : Answers id e.eval (x.observe SlotUsage.observer {}).1 := by
    rw [hobserve, run_eq_perform h]
    exact Expr.perform_answers .checked (wellFormed_of_compile h)
  unfold Report.discrepanciesOf
  simp only [hanswers.agrees, if_true, List.nil_append]
  refine if_neg ?_
  rintro ⟨_, hnone, hsize⟩
  obtain ⟨v, hv⟩ := exists_of_failure_eq_none hnone
  exact hsize (congrArg Nat.cast ((tallies_observe h).eq v hv))

theorem trusted_discrepancies (h : compile b e = .ok x) (oracle : Outcome) (size : Int) :
    Report.discrepanciesOf oracle (.ofEval e.wrapping) size
      ⟨x.backend, .trusted, .ofRun x.runTrusted, 0⟩ = [] := by
  have hanswers : Answers id e.wrapping x.runTrusted := by
    rw [runTrusted_eq_perform h]
    exact Expr.perform_answers .wrapping (wellFormed_of_compile h)
  unfold Report.discrepanciesOf
  simp only [hanswers.agrees, if_true, List.nil_append]
  refine if_neg ?_
  rintro ⟨hmode, _⟩
  cases hmode

theorem discrepanciesOf_eq_nil (h : compile b e = .ok x) {r : RunReport}
    (hr : r ∈ Report.runsOf x) :
    Report.discrepanciesOf (.ofEval e.eval) (.ofEval e.wrapping) e.need r = [] := by
  rcases List.mem_cons.mp hr with rfl | hr
  · exact checked_discrepancies h _
  · cases List.mem_singleton.mp hr
    exact trusted_discrepancies h _ _

end Runs

section Check

variable {e : Expr}

theorem eval_cases (e : Expr) :
    ((∃ v, e.eval = .ok v) ∧ e.WellFormed) ∨ (∃ c, e.eval = .error (Fault.arithmetic none c)) ∨
      ((∃ c, e.eval = .error (Fault.compile c)) ∧ ¬ e.WellFormed) := by
  have hjudged := e.judged_evalWith .checked
  change e.Judged e.eval at hjudged
  generalize e.eval = r at hjudged
  cases hjudged with
  | value hnone => exact Or.inl ⟨⟨_, rfl⟩, Expr.defect?_eq_none_iff.mp hnone⟩
  | arithmetic => exact Or.inr (Or.inl ⟨_, rfl⟩)
  | defect hsome =>
    refine Or.inr (Or.inr ⟨⟨_, rfl⟩, fun he => ?_⟩)
    cases hsome.symm.trans (Expr.defect?_eq_none_iff.mpr he)

def reportOn (e : Expr) (expr : String) (rpn stack register : Executable) : Report where
  expr := expr
  oracle := .ofEval e.eval
  wrapping := .ofEval e.wrapping
  runs := [rpn, stack, register].flatMap Report.runsOf
  rpnDepth := rpn.stats.storageSize
  stackSize := stack.stats.storageSize
  registerCount := register.stats.storageSize

theorem check_of_defect {c : Cause} (h : e.eval = .error (Fault.compile c)) :
    check e = some (.error (.fault (Fault.compile c))) := by
  unfold check
  rw [h]
  rfl

theorem check_of_answer
    (h : (∃ v, e.eval = .ok v) ∨ ∃ c, e.eval = .error (Fault.arithmetic none c)) :
    check e = e.string?.map fun expr => do
      let rpn ← (compile .rpn e).mapError .fault
      let stack ← (compile .stack e).mapError .fault
      let register ← (compile .register e).mapError .fault
      return reportOn e expr rpn stack register := by
  unfold check reportOn
  rcases h with ⟨v, hv⟩ | ⟨c, hc⟩
  · rw [hv]
    cases e.string? <;> rfl
  · rw [hc]
    cases e.string? <;> rfl

/-- A report on the runs of each encoding in each mode, with nothing to complain about. -/
def Report.Clean (r : Report) : Prop :=
  r.runs.map (fun run => (run.backend, run.mode)) =
    Backend.all.flatMap (fun b => Mode.all.map fun m => (b, m)) ∧
  r.discrepancies = []

theorem clean_reportOn {rpn stack register : Executable} (hrpn : compile .rpn e = .ok rpn)
    (hstack : compile .stack e = .ok stack) (hregister : compile .register e = .ok register)
    (expr : String) : (reportOn e expr rpn stack register).Clean := by
  have hsize (b : Backend) : (reportOn e expr rpn stack register).size b = e.need := by
    cases b with
    | rpn => exact storageSize_of_compile hrpn
    | stack => exact storageSize_of_compile hstack
    | register => exact storageSize_of_compile hregister
  constructor
  · change [(rpn.backend, Mode.checked), (rpn.backend, Mode.trusted),
      (stack.backend, Mode.checked), (stack.backend, Mode.trusted),
      (register.backend, Mode.checked), (register.backend, Mode.trusted)] = _
    rw [backend_of_compile hrpn, backend_of_compile hstack, backend_of_compile hregister]
    rfl
  · refine List.flatMap_eq_nil_iff.mpr fun r hr => ?_
    rw [hsize]
    obtain ⟨x, hx, hrun⟩ := List.mem_flatMap.mp hr
    simp only [List.mem_cons, List.not_mem_nil, or_false] at hx
    rcases hx with rfl | rfl | rfl
    · exact discrepanciesOf_eq_nil hrpn hrun
    · exact discrepanciesOf_eq_nil hstack hrun
    · exact discrepanciesOf_eq_nil hregister hrun

theorem exists_compile_error (h : ¬ e.WellFormed) : ∃ f, compile .rpn e = .error f := by
  rcases Rpn.encode_cases e with ⟨hnone, _⟩ | ⟨c, f, _, hf, _⟩
  · exact absurd (Expr.defect?_eq_none_iff.mp hnone) h
  · refine ⟨f, ?_⟩
    rw [compile, Rpn.compile, hf]
    rfl

/-- A tree that has a text, and whose evaluation tells no defect, gets a clean report or the fault
of the first encoder that refuses it. -/
theorem check_of_text {expr : String} (htext : e.string? = some expr)
    (h : (∃ v, e.eval = .ok v) ∨ ∃ c, e.eval = .error (Fault.arithmetic none c)) :
    ((∃ b f, compile b e = .error f) ∧
      ∃ f, check e = some (.error (.fault f)) ∧ f.kind = .compile) ∨
    ((∀ b, ∃ x, compile b e = .ok x) ∧ ∃ r, check e = some (.ok r) ∧ r.Clean) := by
  rw [check_of_answer h, htext, Option.map_some]
  cases hrpn : compile .rpn e with
  | error f =>
    exact Or.inl ⟨⟨_, f, hrpn⟩, f, rfl, compileOnly_compile _ _ f hrpn⟩
  | ok rpn =>
    cases hstack : compile .stack e with
    | error f =>
      exact Or.inl ⟨⟨_, f, hstack⟩, f, rfl, compileOnly_compile _ _ f hstack⟩
    | ok stack =>
      cases hregister : compile .register e with
      | error f =>
        exact Or.inl ⟨⟨_, f, hregister⟩, f, rfl, compileOnly_compile _ _ f hregister⟩
      | ok register =>
        refine Or.inr ⟨fun b => ?_, _, rfl, clean_reportOn hrpn hstack hregister expr⟩
        cases b with
        | rpn => exact ⟨rpn, hrpn⟩
        | stack => exact ⟨stack, hstack⟩
        | register => exact ⟨register, hregister⟩

theorem check_cases (e : Expr) :
    (e.FailsBeforeHole ∧ (∃ b f, compile b e = .error f) ∧ check e = none) ∨
    (¬ e.FailsBeforeHole ∧ (∃ b f, compile b e = .error f) ∧
      ∃ f, check e = some (.error (.fault f)) ∧ f.kind = .compile) ∨
    (¬ e.FailsBeforeHole ∧ (∀ b, ∃ x, compile b e = .ok x) ∧
      ∃ r, check e = some (.ok r) ∧ r.Clean) := by
  by_cases hhole : e.hasHole = true
  · have hrefused : ¬ e.WellFormed := by
      intro he
      rw [he.hasHole_eq_false] at hhole
      cases hhole
    obtain ⟨f, hf⟩ := exists_compile_error hrefused
    rcases eval_cases e with ⟨_, he⟩ | ⟨c, hc⟩ | ⟨⟨c, hc⟩, _⟩
    · exact absurd he hrefused
    · refine Or.inl ⟨⟨hhole, c, hc⟩, ⟨_, f, hf⟩, ?_⟩
      rw [check_of_answer (Or.inr ⟨c, hc⟩), Expr.string?_eq_none_iff.mpr hhole]
      rfl
    · refine Or.inr (Or.inl ⟨?_, ⟨_, f, hf⟩, _, check_of_defect hc, rfl⟩)
      rintro ⟨_, d, hd⟩
      cases hc.symm.trans hd
  · have hprinted : ¬ e.FailsBeforeHole := fun h => hhole h.1
    obtain ⟨expr, htext⟩ : ∃ expr, e.string? = some expr :=
      Option.ne_none_iff_exists'.mp fun h => hhole (Expr.string?_eq_none_iff.mp h)
    rcases eval_cases e with ⟨hv, _⟩ | hc | ⟨⟨c, hc⟩, hrefused⟩
    · exact Or.inr ((check_of_text htext (Or.inl hv)).imp (⟨hprinted, ·⟩) (⟨hprinted, ·⟩))
    · exact Or.inr ((check_of_text htext (Or.inr hc)).imp (⟨hprinted, ·⟩) (⟨hprinted, ·⟩))
    · obtain ⟨f, hf⟩ := exists_compile_error hrefused
      exact Or.inr (Or.inl ⟨hprinted, ⟨_, f, hf⟩, _, check_of_defect hc, rfl⟩)

theorem check_of_compile {e : Expr} (h : ∀ b, ∃ x, compile b e = .ok x) :
    ∃ r, check e = some (.ok r) ∧ r.Clean := by
  rcases check_cases e with ⟨_, ⟨b, f, hf⟩, _⟩ | ⟨_, ⟨b, f, hf⟩, _⟩ | ⟨_, _, hclean⟩
  · obtain ⟨x, hx⟩ := h b
    cases hx.symm.trans hf
  · obtain ⟨x, hx⟩ := h b
    cases hx.symm.trans hf
  · exact hclean

/-- The comparison has no answer exactly on a tree with a hole whose evaluation fails in
arithmetic first. On all others it answers with a fault of encoding where some encoder refuses the
tree, and with a report on six runs and no discrepancy where none does. -/
theorem check_raises_no_false_alarm (e : Expr) :
    (check e = none ↔ e.FailsBeforeHole) ∧
    ((∃ f, check e = some (.error (.fault f)) ∧ f.kind = .compile) ↔
      (∃ b f, compile b e = .error f) ∧ ¬ e.FailsBeforeHole) ∧
    ((∃ r, check e = some (.ok r) ∧ r.Clean) ↔ ∀ b, ∃ x, compile b e = .ok x) := by
  rcases check_cases e with ⟨hfails, ⟨b, f, hf⟩, hcheck⟩ |
    ⟨hfails, ⟨b, f, hf⟩, g, hcheck, hkind⟩ | ⟨hfails, hall, r, hcheck, hclean⟩
  · refine ⟨by simp [hcheck, hfails], by simp [hcheck, hfails], by simp [hcheck], fun hall => ?_⟩
    obtain ⟨x, hx⟩ := hall b
    cases hx.symm.trans hf
  · refine ⟨by simp [hcheck, hfails], ⟨fun _ => ⟨⟨b, f, hf⟩, hfails⟩, fun _ => ⟨g, hcheck, hkind⟩⟩,
      by simp [hcheck], fun hall => ?_⟩
    obtain ⟨x, hx⟩ := hall b
    cases hx.symm.trans hf
  · refine ⟨by simp [hcheck, hfails], ⟨by simp [hcheck], ?_⟩, fun _ => hall,
      fun _ => ⟨r, hcheck, hclean⟩⟩
    rintro ⟨⟨b, f, hf⟩, _⟩
    obtain ⟨x, hx⟩ := hall b
    cases hx.symm.trans hf

/-- The sum of a quotient by zero and a missing node is refused by an encoder, and yet gets no
answer. -/
theorem check_of_quotient_beside_hole :
    compile .rpn (.ofBinary .add (.ofBinary .div (.ofInt 1) (.ofInt 0)) (.hole .int)) =
      .error (Fault.compile .missingNode) ∧
    check (.ofBinary .add (.ofBinary .div (.ofInt 1) (.ofInt 0)) (.hole .int)) = none :=
  ⟨rfl, rfl⟩

end Check
end Abacus
