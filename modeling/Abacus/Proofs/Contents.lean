import Abacus.Proofs.History
import Abacus.Proofs.Slots

/-!
# Events that tell the storage

The slot events of a run tell what the storage holds, with nothing of the storage itself at hand:
a slot holds what was last written to it. This is kept up from one access to the next, for effects
that are put together from reads and writes, and from there for instructions and whole runs.
-/
namespace Abacus

def lastWrite (slot : Nat) (es : List SlotEvent) : Option Int64 :=
  (es.filter fun e => e.write && e.slot == slot).getLast?.map (·.value)

/-- What a slot holds after some events. A slot that was not written holds what storage is blank
with, and nothing that may be read where that is `none`. -/
def contentAfter (blank : Option Int64) (past : List SlotEvent) (slot : Nat) : Option Int64 :=
  (lastWrite slot past).or blank

section ContentAfter

variable {blank : Option Int64} (past : List SlotEvent) (ip slot : Nat) (v : Int64)

@[simp] theorem contentAfter_read (i : Nat) :
    contentAfter blank (past ++ [⟨ip, i, false, v⟩]) slot = contentAfter blank past slot := by
  simp [contentAfter, lastWrite]

@[simp] theorem contentAfter_write :
    contentAfter blank (past ++ [⟨ip, slot, true, v⟩]) slot = some v := by
  simp [contentAfter, lastWrite]

theorem contentAfter_write_of_ne {i : Nat} (h : slot ≠ i) :
    contentAfter blank (past ++ [⟨ip, i, true, v⟩]) slot = contentAfter blank past slot := by
  simp [contentAfter, lastWrite, Ne.symm h]

end ContentAfter

/-- The events go on from a past truthfully: what is read is what the slot holds. -/
def Faithful (blank : Option Int64) : List SlotEvent → List SlotEvent → Prop
  | _, [] => True
  | past, e :: es =>
    (e.write = false → contentAfter blank past e.slot = some e.value) ∧
      Faithful blank (past ++ [e]) es

theorem faithful_append {blank : Option Int64} {past xs ys : List SlotEvent} :
    Faithful blank past (xs ++ ys) ↔ Faithful blank past xs ∧ Faithful blank (past ++ xs) ys := by
  induction xs generalizing past with
  | nil => simp [Faithful]
  | cons e xs ih => simp [Faithful, ih, and_assoc]

theorem Faithful.content_eq {blank : Option Int64} {past before after : List SlotEvent}
    {e : SlotEvent} (h : Faithful blank past (before ++ e :: after)) (he : e.write = false) :
    contentAfter blank (past ++ before) e.slot = some e.value :=
  (faithful_append.mp h).2.1 he

/-- The past tells what the first `n` slots of a store hold. -/
structure Remembers (blank : Option Int64) (past : List SlotEvent) (s : Store) (n : Nat) :
    Prop where
  le : n ≤ s.size
  content_eq : ∀ i < n, contentAfter blank past i = s[i]?

namespace Remembers

variable {blank : Option Int64} {past : List SlotEvent} {s : Store} {n : Nat}

theorem read (h : Remembers blank past s n) (ip i : Nat) (v : Int64) :
    Remembers blank (past ++ [⟨ip, i, false, v⟩]) s n := by
  refine ⟨h.le, fun j hj => ?_⟩
  rw [contentAfter_read]
  exact h.content_eq j hj

theorem set (h : Remembers blank past s n) (ip : Nat) {i k : Nat} (hi : i < s.size) (v : Int64)
    (hk : k ≤ s.size) (hknown : ∀ j < k, j = i ∨ j < n) :
    Remembers blank (past ++ [⟨ip, i, true, v⟩]) (s.set i v hi) k := by
  refine ⟨by rwa [Array.size_set], fun j hj => ?_⟩
  by_cases hji : j = i
  · subst hji
    rw [contentAfter_write, Array.getElem?_set_self]
  · rw [contentAfter_write_of_ne _ _ _ _ hji, Array.getElem?_set_ne hi (Ne.symm hji)]
    exact h.content_eq j ((hknown j hj).resolve_left hji)

theorem set_all (h : Remembers blank past s s.size) (ip : Nat) {i : Nat} (hi : i < s.size)
    (v : Int64) :
    Remembers blank (past ++ [⟨ip, i, true, v⟩]) (s.set i v hi) (s.set i v hi).size := by
  rw [Array.size_set]
  exact h.set ip hi v (Nat.le_refl _) fun _ hj => Or.inr hj

theorem push (h : Remembers blank past s s.size) (ip : Nat) (v : Int64) :
    Remembers blank (past ++ [⟨ip, s.size, true, v⟩]) (s.push v) (s.size + 1) := by
  refine ⟨by simp, fun j hj => ?_⟩
  by_cases hji : j = s.size
  · subst hji
    rw [contentAfter_write, Array.getElem?_push_size]
  · rw [contentAfter_write_of_ne _ _ _ _ hji, Array.getElem?_push, if_neg hji]
    exact h.content_eq j (by omega)

theorem pop (h : Remembers blank past s s.size) : Remembers blank past s.pop s.pop.size := by
  refine ⟨Nat.le_refl _, fun j hj => ?_⟩
  rw [Array.size_pop] at hj
  rw [Array.getElem?_pop, if_pos hj]
  exact h.content_eq j (by omega)

theorem content_of_read (h : Remembers blank past s n) {i : Nat} (hi : i < n) {v : Int64}
    (hv : s.read i = .ok v) : contentAfter blank past i = some v := by
  rw [h.content_eq i hi]
  unfold Store.read at hv
  cases hslot : s[i]? with
  | none =>
    rw [hslot] at hv
    cases hv
  | some a =>
    rw [hslot] at hv
    cases hv
    rfl

theorem zeros (n : Nat) : Remembers (some 0) [] (Store.zeros n) (Store.zeros n).size := by
  refine ⟨Nat.le_refl _, fun i hi => ?_⟩
  rw [Store.zeros, Array.size_replicate] at hi
  simp [Store.zeros, hi, contentAfter, lastWrite]

end Remembers

/-- An effect at an instruction tells the truth about what it touches, and what it leaves is told
by the events up to there. -/
structure Recounts {α : Type} (blank : Option Int64) (ip : Nat) (past : List SlotEvent)
    (P : List SlotEvent → α → Prop) (x : Effect α) : Prop where
  place : ∀ e ∈ x.1, e.ip = ip
  faithful : Faithful blank past x.1
  after : ∀ a, x.2 = .ok a → P (past ++ x.1) a

namespace Recounts

variable {α β : Type} {blank : Option Int64} {ip : Nat} {past : List SlotEvent}
  {P : List SlotEvent → α → Prop} {Q : List SlotEvent → β → Prop} {x : Effect α}

theorem untouched {r : Except Stop α} (h : ∀ a, r = .ok a → P past a) :
    Recounts blank ip past P ([], r) := by
  refine ⟨fun e he => ?_, trivial, fun a ha => ?_⟩
  · cases he
  · rw [List.append_nil]
    exact h a ha

theorem fault (f : Fault) : Recounts blank ip past P (Effect.fault f) :=
  untouched fun a ha => by cases ha

theorem andThen {next : α → Effect β} (h : Recounts blank ip past P x)
    (hnext : ∀ past a, P past a → Recounts blank ip past Q (next a)) :
    Recounts blank ip past Q (x.andThen next) := by
  obtain ⟨touched, r⟩ := x
  cases r with
  | error stop => exact ⟨h.place, h.faithful, fun b hb => by cases hb⟩
  | ok a =>
    have hrest := hnext _ a (h.after a rfl)
    refine ⟨?_, faithful_append.mpr ⟨h.faithful, hrest.faithful⟩, ?_⟩
    · intro e he
      exact (List.mem_append.mp he).elim (h.place e) (hrest.place e)
    · intro b hb
      change Q (past ++ (touched ++ (next a).1)) b
      rw [← List.append_assoc]
      exact hrest.after b hb

theorem single {e : SlotEvent} {a : α} (hip : e.ip = ip)
    (he : e.write = false → contentAfter blank past e.slot = some e.value)
    (ha : P (past ++ [e]) a) : Recounts blank ip past P ([e], .ok a) := by
  refine ⟨?_, ⟨he, trivial⟩, ?_⟩
  · intro e' he'
    rwa [List.mem_singleton.mp he']
  · intro a' ha'
    cases ha'
    exact ha

variable {s : Store} {n : Nat}

theorem read (h : Remembers blank past s n) {i : Nat} (hi : i < n) :
    Recounts blank ip past (fun past _ => Remembers blank past s n) (Effect.read ip s i) := by
  have hlt : i < s.size := Nat.lt_of_lt_of_le hi h.le
  have hsome : s[i]? = some s[i] := Array.getElem?_eq_getElem hlt
  unfold Effect.read
  rw [Store.read_eq_ok hsome]
  exact single rfl (fun _ => (h.content_eq i hi).trans hsome) (h.read ip i _)

theorem write {P : List SlotEvent → Store → Prop} {i : Nat} {v : Int64} (hi : i < s.size)
    (h : P (past ++ [⟨ip, i, true, v⟩]) (s.set i v hi)) :
    Recounts blank ip past P (Effect.write ip s i v) := by
  unfold Effect.write Store.write
  rw [dif_pos hi]
  refine single rfl ?_ h
  intro hwrite
  cases hwrite

theorem arithmetic {store : Int64 → Effect β} (site : Location) (r : Except ArithmeticError Int64)
    (h : ∀ v, Recounts blank ip past Q (store v)) :
    Recounts blank ip past Q ((Effect.arithmetic site r).andThen store) := by
  cases r with
  | error e => exact fault _
  | ok v => exact h v

theorem constant {store : Int64 → Effect β} (site : Location) (constants : Store) (index : Nat)
    (h : ∀ v, Recounts blank ip past Q (store v)) :
    Recounts blank ip past Q ((Effect.constant site constants index).andThen store) := by
  unfold Effect.constant
  split
  · exact fault _
  · refine (untouched fun _ _ => rfl).andThen (P := fun p _ => p = past) ?_
    rintro _ v rfl
    exact h v

end Recounts

structure Recounting {ι σ : Type} (m : Machine ι σ) (blank : Option Int64) where
  State : List SlotEvent → σ → Prop
  step : ∀ (ip : Nat) (i : ι) {past : List SlotEvent} {s : σ}, State past s →
    Recounts blank ip past State (m.step ip i s)

namespace Recounting

variable {ι σ : Type} {m : Machine ι σ} {blank : Option Int64} (R : Recounting m blank)

/-- A run tells the truth from start to end. -/
theorem run {past : List SlotEvent} {s : σ} (hs : R.State past s) (ip : Nat) (code : List ι) :
    Faithful blank past (m.trace ip code s) ∧
      ∀ t, m.exec ip code s = .ok t → R.State (past ++ m.trace ip code s) t := by
  induction code generalizing ip past s with
  | nil =>
    refine ⟨trivial, fun t ht => ?_⟩
    cases ht
    rwa [Machine.trace_nil, List.append_nil]
  | cons i code ih =>
    obtain ⟨_, hfaithful, hafter⟩ := R.step ip i hs
    rw [Machine.exec_cons]
    cases hr : (m.step ip i s).2 with
    | error stop =>
      rw [m.trace_cons_error code hr]
      refine ⟨hfaithful, fun t ht => ?_⟩
      cases ht
    | ok u =>
      obtain ⟨hrest, hend⟩ := ih (hafter u hr) (ip + 1)
      rw [m.trace_cons_ok code hr, faithful_append, ← List.append_assoc]
      exact ⟨⟨hfaithful, hrest⟩, hend⟩

theorem history_cons {past : List SlotEvent} {s : σ} (hs : R.State past s) (ip : Nat) (i : ι)
    (code : List ι) :
    ∃ here rest, m.history ip (i :: code) s = here ++ rest ∧ (∀ e ∈ here, e.ip = ip) ∧
      (rest = [] ∨ ∃ past t, R.State past t ∧ rest = m.history (ip + 1) code t) := by
  obtain ⟨hplace, _, hafter⟩ := R.step ip i hs
  cases hstep : m.step ip i s with
  | mk touched r =>
    rw [hstep] at hplace hafter
    refine ⟨.step ⟨ip, m.opcode i, m.depth s⟩ :: touched.map .slot, ?_⟩
    have hhere : ∀ e ∈ Event.step ⟨ip, m.opcode i, m.depth s⟩ :: touched.map .slot, e.ip = ip := by
      intro e he
      rcases List.mem_cons.mp he with rfl | he
      · rfl
      · obtain ⟨a, ha, rfl⟩ := List.mem_map.mp he
        exact hplace a ha
    cases r with
    | error stop =>
      refine ⟨[], ?_, hhere, Or.inl rfl⟩
      rw [Machine.history_cons_error hstep, List.append_nil]
    | ok t =>
      refine ⟨_, ?_, hhere, Or.inr ⟨_, t, hafter t rfl, rfl⟩⟩
      rw [Machine.history_cons_ok hstep, List.cons_append]

theorem ordered_history {past : List SlotEvent} {s : σ} (hs : R.State past s) (ip : Nat)
    (code : List ι) :
    (∀ e ∈ m.history ip code s, ip ≤ e.ip) ∧ (m.history ip code s).Pairwise (·.ip ≤ ·.ip) := by
  induction code generalizing ip past s with
  | nil =>
    refine ⟨fun e he => ?_, .nil⟩
    cases he
  | cons i code ih =>
    obtain ⟨here, rest, hsplit, hhere, hrest⟩ := R.history_cons hs ip i code
    obtain ⟨hlater, hpairwise⟩ :
        (∀ e ∈ rest, ip + 1 ≤ e.ip) ∧ rest.Pairwise (·.ip ≤ ·.ip) := by
      rcases hrest with rfl | ⟨past, t, ht, rfl⟩
      · refine ⟨fun e he => ?_, .nil⟩
        cases he
      · exact ih ht (ip + 1)
    rw [hsplit]
    refine ⟨fun e he => ?_, List.pairwise_append.mpr ⟨?_, hpairwise, fun a ha b hb => ?_⟩⟩
    · rcases List.mem_append.mp he with he | he
      · exact Nat.le_of_eq (hhere e he).symm
      · exact Nat.le_of_succ_le (hlater e he)
    · apply List.pairwise_of_forall_mem_list
      intro a ha b hb
      exact Nat.le_of_eq ((hhere a ha).trans (hhere b hb).symm)
    · rw [hhere a ha]
      exact Nat.le_of_succ_le (hlater b hb)

end Recounting

end Abacus
