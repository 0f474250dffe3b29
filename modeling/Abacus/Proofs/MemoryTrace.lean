import Abacus.Proofs.Observation
import Abacus.Proofs.Contents

/-!
# Slot events as a trace of the storage

The three checked machines tell by their slot events what their storage holds. A register that was
never written holds zero; a stack machine reads no slot before it has been written. So the events
alone say what every read gives, and what the result of the run is.
-/
namespace Abacus

namespace Rpn

theorem recounts_step (ip : Nat) (i : Instr) {past : List SlotEvent} {s : Store}
    (h : Remembers none past s s.size) :
    Recounts none ip past (fun past t => Remembers none past t t.size) (step ip i s) := by
  obtain ⟨op, value⟩ := i
  unfold step
  cases op with
  | loadInt =>
    refine .single rfl (fun hread => ?_) ?_
    · cases hread
    · rw [Array.size_push]
      exact h.push ip value
  | binary op =>
    dsimp only
    split
    · exact .fault _
    · refine (Recounts.read h (by omega)).andThen fun past b h => ?_
      refine (Recounts.read h (by omega)).andThen fun past a h => ?_
      refine .arithmetic _ _ fun r => ?_
      have hpop : s.size - 2 < s.pop.size := by
        rw [Array.size_pop]
        omega
      exact .write hpop (h.pop.set_all ip hpop r)
  | negate =>
    dsimp only
    split
    · exact .fault _
    · have hlast : s.size - 1 < s.size := by omega
      refine (Recounts.read h hlast).andThen fun past a h => ?_
      refine .arithmetic _ _ fun r => ?_
      exact .write hlast (h.set_all ip hlast r)
  | _ => exact .fault _

end Rpn

namespace Stack

variable {constants : Store}

theorem recounts_push (site : Location) (ip : Nat) (v : Int64) {past : List SlotEvent} {s : Slots}
    (h : Remembers none past s.store s.sp) :
    Recounts none ip past (fun past t => Remembers none past t.store t.sp) (push site ip s v) := by
  unfold push
  split
  · exact .fault _
  · rename_i hfull
    have hlt : s.sp < s.store.size := Nat.lt_of_not_le hfull
    refine (Recounts.write (P := fun past t => Remembers none past t (s.sp + 1)) hlt ?_).andThen ?_
    · exact h.set ip hlt v hlt fun j hj => by omega
    · intro past t ht
      exact .untouched fun u hu => by cases hu; exact ht

theorem recounts_step (ip : Nat) (i : Instr) {past : List SlotEvent} {s : Slots}
    (h : Remembers none past s.store s.sp) :
    Recounts none ip past (fun past t => Remembers none past t.store t.sp)
      (step constants ip i s) := by
  have hle := h.le
  obtain ⟨op, arg⟩ := i
  unfold step
  cases op with
  | loadInline => exact recounts_push _ ip _ h
  | loadConst => exact .constant _ _ _ fun v => recounts_push _ ip v h
  | binary op =>
    dsimp only
    split
    · exact .fault _
    · have hsecond : s.sp - 2 < s.store.size := by omega
      refine (Recounts.read h (by omega)).andThen fun past b h => ?_
      refine (Recounts.read h (by omega)).andThen fun past a h => ?_
      refine .arithmetic _ _ fun r => ?_
      refine (Recounts.write (P := fun past t => Remembers none past t (s.sp - 1)) hsecond
        ?_).andThen ?_
      · exact h.set ip hsecond r (by omega) fun j hj => by omega
      · intro past t ht
        exact .untouched fun u hu => by cases hu; exact ht
  | negate =>
    dsimp only
    split
    · exact .fault _
    · have htop : s.sp - 1 < s.store.size := by omega
      refine (Recounts.read h (by omega)).andThen fun past a h => ?_
      refine .arithmetic _ _ fun r => ?_
      refine (Recounts.write (P := fun past t => Remembers none past t s.sp) htop ?_).andThen ?_
      · exact h.set ip htop r hle fun j hj => Or.inr hj
      · intro past t ht
        exact .untouched fun u hu => by cases hu; exact ht
  | _ => exact .fault _

end Stack

namespace Register

variable {constants : Store} {past : List SlotEvent} {s : Store}

theorem recounts_requiring {site : Location} {ip : Nat} {rs : List UInt8} {x : Effect Store}
    {P : List SlotEvent → Store → Prop}
    (h : (∀ r ∈ rs, r.toNat < s.size) → Recounts (some 0) ip past P x) :
    Recounts (some 0) ip past P (requiring site s rs x) := by
  unfold requiring
  cases hfind : rs.find? (s.size ≤ ·.toNat) with
  | some r => exact .fault _
  | none =>
    apply h
    intro r hr
    simpa using List.find?_eq_none.mp hfind r hr

theorem recounts_set (site : Location) (ip : Nat) (dst : UInt8) (v : Int64)
    (h : Remembers (some 0) past s s.size) :
    Recounts (some 0) ip past (fun past t => Remembers (some 0) past t t.size)
      (set site ip s dst v) := by
  apply recounts_requiring
  intro hrs
  have hdst := hrs dst (List.mem_singleton_self dst)
  exact .write hdst (h.set_all ip hdst v)

theorem recounts_step (ip : Nat) (i : Instr) (h : Remembers (some 0) past s s.size) :
    Recounts (some 0) ip past (fun past t => Remembers (some 0) past t t.size)
      (step constants ip i s) := by
  obtain ⟨op, dst, lhs, rhs, arg⟩ := i
  unfold step
  cases op with
  | loadInline => exact recounts_set _ ip dst _ h
  | loadConst => exact .constant _ _ _ fun v => recounts_set _ ip dst v h
  | binary op =>
    apply recounts_requiring
    intro hrs
    refine (Recounts.read h (hrs lhs (by simp))).andThen fun past a h => ?_
    refine (Recounts.read h (hrs rhs (by simp))).andThen fun past b h => ?_
    refine .arithmetic _ _ fun r => ?_
    exact .write (hrs dst (by simp)) (h.set_all ip _ r)
  | negate =>
    apply recounts_requiring
    intro hrs
    refine (Recounts.read h (hrs lhs (by simp))).andThen fun past a h => ?_
    refine .arithmetic _ _ fun r => ?_
    exact .write (hrs dst (by simp)) (h.set_all ip _ r)
  | _ => exact .fault _

end Register

def Rpn.recounting : Recounting Rpn.machine none where
  State past s := Remembers none past s s.size
  step ip i _ _ h := Rpn.recounts_step ip i h

def Stack.recounting (constants : Store) : Recounting (Stack.machine constants) none where
  State past s := Remembers none past s.store s.sp
  step ip i _ _ h := Stack.recounts_step ip i h

def Register.recounting (constants : Store) : Recounting (Register.machine constants) (some 0) where
  State past s := Remembers (some 0) past s s.size
  step ip i _ _ h := Register.recounts_step ip i h

namespace Executable

/-- What a slot holds that was never written, where a machine reads such slots at all. -/
def blank : Executable → Option Int64
  | .rpn _ => none
  | .stack _ => none
  | .register _ => some 0

structure Recounted (blank : Option Int64) (es : List Event) (r : Except Stop Int64) : Prop where
  ordered : es.Pairwise (·.ip ≤ ·.ip)
  faithful : Faithful blank [] (Event.slots es)
  result : ∀ v, r = .ok v → contentAfter blank (Event.slots es) 0 = some v

theorem recounted_exec {ι σ : Type} {m : Machine ι σ} {blank : Option Int64}
    (R : Recounting m blank) {s : σ} (hs : R.State [] s) (code : List ι)
    {result : σ → Except Stop Int64}
    (hresult : ∀ past t v, R.State past t → result t = .ok v → contentAfter blank past 0 = some v) :
    Recounted blank (m.history 0 code s) (m.exec 0 code s >>= result) := by
  obtain ⟨hfaithful, hend⟩ := R.run hs 0 code
  rw [← m.slots_history] at hfaithful hend
  refine ⟨(R.ordered_history hs 0 code).2, hfaithful, fun v hv => ?_⟩
  obtain ⟨t, ht, hv⟩ := bind_eq_ok.mp hv
  exact hresult _ t v (hend t ht) hv

theorem recounted_refused (blank : Option Int64) (stop : Stop) :
    Recounted blank [] (.error stop) := by
  refine ⟨.nil, trivial, fun v hv => ?_⟩
  cases hv

theorem recounted_run (x : Executable) : Recounted x.blank x.history x.run := by
  cases x with
  | rpn p =>
    refine recounted_exec Rpn.recounting ⟨Nat.le_refl _, fun i hi => ?_⟩ p.code ?_
    · cases hi
    · intro past t v ht hv
      have ht : Remembers none past t t.size := ht
      unfold Rpn.result at hv
      split at hv
      · exact ht.content_of_read (by omega) hv
      · cases hv
  | stack p =>
    rw [history, run, Stack.run]
    cases Stack.size p with
    | error stop => exact recounted_refused _ stop
    | ok n =>
      refine recounted_exec (Stack.recounting p.constants) ⟨Nat.zero_le _, fun i hi => ?_⟩ p.code ?_
      · cases hi
      · intro past t v ht hv
        have ht : Remembers none past t.store t.sp := ht
        unfold Stack.result at hv
        split at hv
        · exact ht.content_of_read (by omega) hv
        · cases hv
  | register p =>
    rw [history, run, Register.run]
    cases Register.size p with
    | error stop => exact recounted_refused _ stop
    | ok n =>
      refine recounted_exec (Register.recounting p.constants) (.zeros n) p.code ?_
      intro past t v ht hv
      have ht : Remembers (some 0) past t t.size := ht
      unfold Register.result at hv
      split at hv
      · cases hv
      · exact ht.content_of_read (by omega) hv

/-- Slots that a stack machine reads have been written, and a register that was not is zero. -/
theorem lastWrite_of_content {x : Executable} {past : List SlotEvent} {slot : Nat} {v : Int64}
    (h : contentAfter x.blank past slot = some v) :
    v = (lastWrite slot past).getD 0 ∧ (x.backend ≠ .register → lastWrite slot past = some v) := by
  unfold contentAfter at h
  cases x with
  | rpn p =>
    have h : lastWrite slot past = some v := (Option.or_none).symm.trans h
    exact ⟨by rw [h]; rfl, fun _ => h⟩
  | stack p =>
    have h : lastWrite slot past = some v := (Option.or_none).symm.trans h
    exact ⟨by rw [h]; rfl, fun _ => h⟩
  | register p =>
    refine ⟨?_, fun hbackend => absurd rfl hbackend⟩
    cases hlast : lastWrite slot past <;> rw [hlast] at h <;> cases h <;> rfl

end Executable

/-- The slot events of a run that is watched to its end are a trace of the storage. They come in
the order of the instructions; what is read from a slot is what was last written to it, or zero; and
the result is what was last written to slot zero, or zero. On a stack there always is such a write,
so only register code can meet the zero. -/
theorem slot_events_trace_storage (x : Executable) {ω : Type} (o : Observer ω) (w : ω)
    (hslots : o.config.slots = true) (hpass : x.Unhalted o w) :
    (x.told o w).Pairwise (·.ip ≤ ·.ip) ∧
    (∀ before e after, Event.slots (x.told o w) = before ++ e :: after → e.write = false →
      e.value = (lastWrite e.slot before).getD 0 ∧
        (x.backend ≠ .register → lastWrite e.slot before = some e.value)) ∧
    ∀ v, (x.observe o w).1 = .ok v →
      v = (lastWrite 0 (Event.slots (x.told o w))).getD 0 ∧
        (x.backend ≠ .register → lastWrite 0 (Event.slots (x.told o w)) = some v) := by
  obtain ⟨htold, hrun⟩ := hpass.told_eq
  obtain ⟨hordered, hfaithful, hresult⟩ := x.recounted_run
  rw [hpass.slots_told hslots, hrun]
  refine ⟨?_, ?_, ?_⟩
  · rw [htold]
    exact hordered.filter _
  · intro before e after hes hread
    rw [hes] at hfaithful
    exact Executable.lastWrite_of_content (hfaithful.content_eq hread)
  · intro v hv
    exact Executable.lastWrite_of_content (hresult v hv)

/-- A register that was never written is read as zero. -/
theorem sum_with_blank_register :
    ∃ x : Executable, x = .register {
        code := [{ op := .loadInline, arg := 5 }, .ofBinary .add 0 0 2], size := 3 } ∧
      Event.slots (x.told SlotUsage.observer {}) = [⟨0, 0, true, 5⟩, ⟨1, 0, false, 5⟩] ++
        ⟨1, 2, false, 0⟩ :: [⟨1, 0, true, 5⟩] ∧
      0 = (lastWrite 2 [⟨0, 0, true, 5⟩, ⟨1, 0, false, 5⟩]).getD 0 ∧
      5 = (lastWrite 0 (Event.slots (x.told SlotUsage.observer {}))).getD 0 := by
  obtain ⟨x, hx⟩ : ∃ x : Executable, x = .register {
    code := [{ op := .loadInline, arg := 5 }, .ofBinary .add 0 0 2], size := 3 } := ⟨_, rfl⟩
  have hpass : x.Unhalted SlotUsage.observer {} := by
    rw [hx]
    unfold Executable.Unhalted
    decide
  have hslots : Event.slots (x.told SlotUsage.observer {}) = [⟨0, 0, true, 5⟩, ⟨1, 0, false, 5⟩] ++
      ⟨1, 2, false, 0⟩ :: [⟨1, 0, true, 5⟩] := by
    rw [hx]
    rfl
  have hrun : (x.observe SlotUsage.observer {}).1 = .ok 5 := by
    rw [hx]
    rfl
  obtain ⟨_, hread, hresult⟩ := slot_events_trace_storage x SlotUsage.observer {} rfl hpass
  exact ⟨x, hx, hslots, (hread _ _ _ hslots rfl).1, (hresult 5 hrun).1⟩

end Abacus
