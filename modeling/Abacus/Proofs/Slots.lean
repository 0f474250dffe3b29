import Abacus.Proofs.Simulation

/-!
# Stacks in stores

A store holds a stack when its first slots have the values of the stack, the bottom in slot zero.
Slots above are free: what they contain does not matter, and writing there changes nothing. All
machines keep their operands in this way, whether the depth is a counter, the length of the store,
or written into the register numbers of the instructions.
-/
namespace Abacus

namespace Store

theorem read_eq_ok {s : Store} {i : Nat} {v : Int64} (h : s[i]? = some v) : s.read i = .ok v := by
  unfold read
  rw [h]

def Holds (s : Store) : List Int64 → Prop
  | [] => True
  | v :: stk => s[stk.length]? = some v ∧ Holds s stk

namespace Holds

variable {s t : Store} {stk : List Int64} {v : Int64}

theorem length_lt (h : s.Holds (v :: stk)) : stk.length < s.size :=
  (Array.getElem?_eq_some_iff.mp h.1).1

theorem length_le (h : s.Holds stk) : stk.length ≤ s.size := by
  cases stk with
  | nil => exact Nat.zero_le _
  | cons v stk => exact h.length_lt

theorem read (h : s.Holds (v :: stk)) : s.read stk.length = .ok v :=
  read_eq_ok h.1

theorem of_agree (h : s.Holds stk) (hst : ∀ i < stk.length, t[i]? = s[i]?) : t.Holds stk := by
  induction stk with
  | nil => trivial
  | cons v stk ih =>
    refine ⟨?_, ih h.2 fun i hi => hst i (Nat.lt_succ_of_lt hi)⟩
    rw [hst _ (Nat.lt_succ_self _)]
    exact h.1

/-- Writing just above a stack pushes a value, also where the slot held another one. -/
theorem write (h : s.Holds stk) (hlt : stk.length < s.size) (v : Int64) :
    ∃ t, s.write stk.length v = .ok t ∧ t.size = s.size ∧ t.Holds (v :: stk) := by
  refine ⟨s.set stk.length v hlt, dif_pos hlt, Array.size_set hlt, ?_, ?_⟩
  · exact Array.getElem?_set_self hlt
  · apply h.of_agree
    intro i hi
    exact Array.getElem?_set_ne hlt (Nat.ne_of_gt hi)

theorem push (h : s.Holds stk) (hs : s.size = stk.length) (v : Int64) :
    Store.Holds (s.push v) (v :: stk) := by
  refine ⟨?_, ?_⟩
  · rw [← hs]
    exact Array.getElem?_push_size
  · apply h.of_agree
    intro i hi
    rw [Array.getElem?_push, if_neg (by omega)]

theorem pop (h : s.Holds (v :: stk)) (hs : s.size = stk.length + 1) :
    s.pop.size = stk.length ∧ Store.Holds s.pop stk := by
  refine ⟨by rw [Array.size_pop, hs, Nat.add_sub_cancel], ?_⟩
  apply h.2.of_agree
  intro i hi
  rw [Array.getElem?_pop, if_pos (by omega)]

end Holds
end Store

namespace Effect

theorem andThen_ok {α β : Type} (touched : List SlotEvent) (a : α) (next : α → Effect β) :
    Effect.andThen (touched, .ok a) next = (touched ++ (next a).1, (next a).2) := rfl

theorem read_of_holds {s : Store} {stk : List Int64} {v : Int64} (h : s.Holds (v :: stk))
    (ip : Nat) : Effect.read ip s stk.length = ([⟨ip, stk.length, false, v⟩], .ok v) := by
  unfold Effect.read
  rw [h.read]

theorem write_of_holds {s : Store} {stk : List Int64} (h : s.Holds stk)
    (hlt : stk.length < s.size) (ip : Nat) (v : Int64) :
    ∃ t, Effect.write ip s stk.length v = ([⟨ip, stk.length, true, v⟩], .ok t) ∧
      t.size = s.size ∧ t.Holds (v :: stk) := by
  obtain ⟨t, ht, hsize, hholds⟩ := h.write hlt v
  refine ⟨t, ?_, hsize, hholds⟩
  unfold Effect.write
  rw [ht]

end Effect

structure Slots.Holds (room : Nat) (s : Slots) (stk : List Int64) : Prop where
  size : s.store.size = room
  depth : s.sp = stk.length
  stack : s.store.Holds stk

theorem Slots.Holds.length_le {room : Nat} {s : Slots} {stk : List Int64} (h : s.Holds room stk) :
    stk.length ≤ room :=
  h.size ▸ h.stack.length_le

theorem Store.Holds.store_slot {s : Store} {stk : List Int64} {room : Nat} (h : s.Holds stk)
    (hsize : s.size = room) (hlt : stk.length < room) (v : Int64) :
    ∃ t, (do let store ← s.write stk.length v; return ⟨store, stk.length + 1⟩) = Except.ok t ∧
      Slots.Holds room t (v :: stk) := by
  subst hsize
  obtain ⟨t, ht, htsize, hholds⟩ := h.write hlt v
  refine ⟨⟨t, stk.length + 1⟩, ?_, htsize, rfl, hholds⟩
  rw [ht]
  rfl

theorem Effect.store_slot {s : Store} {stk : List Int64} {room : Nat} (h : s.Holds stk)
    (hsize : s.size = room) (hlt : stk.length < room) (ip : Nat) (v : Int64) :
    ∃ t, ((Effect.write ip s stk.length v).andThen fun store =>
        ([], .ok ⟨store, stk.length + 1⟩)) = ([⟨ip, stk.length, true, v⟩], .ok t) ∧
      Slots.Holds room t (v :: stk) := by
  subst hsize
  obtain ⟨t, ht, htsize, hholds⟩ := Effect.write_of_holds h hlt ip v
  refine ⟨⟨t, stk.length + 1⟩, ?_, htsize, rfl, hholds⟩
  rw [ht]
  rfl

section Operators

variable {σ : Type} {R : σ → List Int64 → Prop} {stk : List Int64} (ip : Nat) (op : Opcode)

/-- An operator that computes its result and then stores it in the place of its operands. -/
theorem matches_conclude {store : Int64 → Effect σ} {reads reads' : List SlotEvent}
    (hp : reads.Perm reads')
    (hstore : ∀ v, ∃ t, store v = ([⟨ip, stk.length, true, v⟩], .ok t) ∧ R t (v :: stk))
    (r : Except ArithmeticError Int64) :
    Matches R (reads ++ ((Effect.arithmetic ⟨ip, op⟩ r).andThen store).1,
      ((Effect.arithmetic ⟨ip, op⟩ r).andThen store).2) (Action.conclude ip op stk reads' r) := by
  cases r with
  | error e =>
    refine ⟨?_, .error⟩
    simpa [Effect.arithmetic, Effect.fault, Effect.andThen, Action.conclude] using hp
  | ok v =>
    obtain ⟨t, ht, hr⟩ := hstore v
    simp only [Effect.arithmetic, Effect.andThen, ht, Action.conclude, List.nil_append]
    exact ⟨hp.append_right _, .ok hr⟩

theorem related_conclude {store : Int64 → Except Stop σ} (reads : List SlotEvent)
    (hstore : ∀ v, ∃ t, store v = .ok t ∧ R t (v :: stk)) (r : Except ArithmeticError Int64) :
    Related R ((r.mapError fun e => Stop.fault (Fault.arithmetic (some ⟨ip, op⟩) e)) >>= store)
      (Action.conclude ip op stk reads r).2 := by
  cases r with
  | error e => exact .error
  | ok v =>
    obtain ⟨t, ht, hr⟩ := hstore v
    change Related R (store v) _
    rw [ht]
    exact .ok hr

end Operators

section Trusted

variable {s : Store} {stk : List Int64} {room : Nat}

theorem Store.Holds.negate_slot {a : Int64} (h : s.Holds (a :: stk)) (hsize : s.size = room)
    (ip : Nat) :
    Related (Slots.Holds room)
      (do
        let a ← s.read stk.length
        let store ← s.write stk.length (-a)
        return ⟨store, stk.length + 1⟩)
      (Action.step .wrapping ip .negate (a :: stk)).2 := by
  rw [h.read, ok_bind]
  exact related_conclude ip .negate _ (h.2.store_slot hsize (hsize ▸ h.length_lt)) (.ok (-a))

theorem Store.Holds.binary_slot {a b : Int64} (h : s.Holds (b :: a :: stk))
    (hsize : s.size = room) (ip : Nat) (op : BinaryOp) :
    Related (Slots.Holds room)
      (do
        let a ← s.read stk.length
        let b ← s.read (stk.length + 1)
        let r ← (Arithmetic.wrapping.binary op a b).mapError fun e =>
          .fault (Fault.arithmetic (some ⟨ip, .binary op⟩) e)
        let store ← s.write stk.length r
        return ⟨store, stk.length + 1⟩)
      (Action.step .wrapping ip (.binary op) (b :: a :: stk)).2 := by
  have hb : s.read (stk.length + 1) = .ok b := h.read
  rw [h.2.read, ok_bind, hb, ok_bind]
  exact related_conclude _ _ _ (h.2.2.store_slot hsize (hsize ▸ h.2.length_lt)) _

end Trusted
end Abacus
