import Abacus.Proofs.Limits

/-!
# The first request that is refused

On its way through a tree an encoder asks for one thing after the other: a node that it knows, an
entry of the pool for a literal that does not fit, a register for a right operand. The requests
are listed here without the encoders, and each encoder turns out to fail at the first of them that
it cannot grant.
-/
namespace Abacus

namespace Expr

def nodes : Expr → List Expr
  | .hole kind => [.hole kind]
  | .int p literal v => [.int p literal v]
  | .unary p op x => .unary p op x :: x.nodes
  | .binary p op x y => .binary p op x y :: (x.nodes ++ y.nodes)

/-- Why a node is refused for itself, whatever its operands are. -/
def flaw? : Expr → Option Cause
  | .hole _ => some .missingNode
  | .unary _ (.unknown _) _ => some .unknownOperator
  | .binary _ (.unknown _) _ _ => some .unknownOperator
  | _ => none

theorem defect?_eq_findSome? (e : Expr) : e.defect? = e.nodes.findSome? flaw? := by
  induction e with
  | hole kind => rfl
  | int p literal v => rfl
  | unary p op x ih =>
    cases op with
    | unknown c => rfl
    | known op => simpa [defect?, nodes, List.findSome?_cons, flaw?] using ih
  | binary p op x y ihx ihy =>
    cases op with
    | unknown c => rfl
    | known op => simp [defect?, nodes, List.findSome?_cons, flaw?, ihx, ihy]

theorem wellFormed_iff_flaw? {e : Expr} : e.WellFormed ↔ ∀ x ∈ e.nodes, x.flaw? = none := by
  rw [← defect?_eq_none_iff, defect?_eq_findSome?, List.findSome?_eq_none_iff]

end Expr

inductive Request where
  /-- A node; the one that is there is flawed. -/
  | node (flaw : Cause)
  /-- An entry of the pool. -/
  | constant
  /-- The register of this number. -/
  | register (n : Nat)
deriving DecidableEq

namespace Request

/-- Why an encoder refuses a request, when it has put so many entries into the pool. Without a
pool or registers there is nothing to run out of. -/
def refusal? (b : Backend) (entries : Nat) : Request → Option Cause
  | .node flaw => some flaw
  | .constant => if b = .rpn ∨ entries < maxConstants then none else some .tooManyConstants
  | .register n => if b ≠ .register ∨ n < maxRegisters then none else some .tooManyRegisters

def Granted (b : Backend) : Nat → List Request → Prop
  | _, [] => True
  | k, r :: rs => r.refusal? b k = none ∧ Granted b (k + [r].count .constant) rs

theorem granted_append {b : Backend} {k : Nat} {rs qs : List Request} :
    Granted b k (rs ++ qs) ↔ Granted b k rs ∧ Granted b (k + rs.count .constant) qs := by
  induction rs generalizing k with
  | nil => simp [Granted]
  | cons r rs ih =>
    have hcount : (r :: rs).count .constant = [r].count .constant + rs.count .constant := by
      rw [← List.count_append, List.singleton_append]
    simp only [List.cons_append, Granted, ih, hcount, Nat.add_assoc, and_assoc]

end Request

namespace Expr

/-- What encoding a tree into the register `r` asks for, in order. The left operand goes into the
same register, and the next one is asked for when its code is complete. -/
def requests : Expr → Nat → List Request
  | .hole _, _ => [.node .missingNode]
  | .int _ _ v, _ => if fitsInline v then [] else [.constant]
  | .unary _ (.unknown _) _, _ => [.node .unknownOperator]
  | .unary _ (.known _) x, r => x.requests r
  | .binary _ (.unknown _) _ _, _ => [.node .unknownOperator]
  | .binary _ (.known _) x y, r => x.requests r ++ .register (r + 1) :: y.requests (r + 1)

/-- The left operand asks for its constant before the register of the right one is asked for. -/
example : (ofBinary .add (.ofInt 70000) (.ofUnary .negate (.ofInt 80000))).requests 0 =
    [.constant, .register 1, .constant] :=
  rfl

theorem WellFormed.count_requests {e : Expr} (h : e.WellFormed) (r : Nat) :
    (e.requests r).count .constant = e.pooled.length := by
  induction h generalizing r with
  | @int _ _ v =>
    rw [requests, pooled]
    split <;> rfl
  | unary _ ih => exact ih r
  | binary _ _ ihx ihy =>
    rw [requests, pooled, List.count_append, List.count_cons_of_ne (by simp), ihx, ihy,
      List.length_append]

end Expr

/-- What becomes of work that makes the requests, when the pool holds `k` entries before: it is
done if all are granted, and else it fails for the first that is refused. -/
inductive Served {α : Type} (b : Backend) (k : Nat) (rs : List Request) : Except Fault α → Prop
  | done {a} : Request.Granted b k rs → Served b k rs (.ok a)
  | refused (before r after) {c f} : rs = before ++ r :: after → Request.Granted b k before →
      r.refusal? b (k + before.count .constant) = some c → f.kind = .compile →
      f.cause = some c → Served b k rs (.error f)

namespace Served

variable {α β : Type} {b : Backend} {k : Nat} {rs qs : List Request} {r : Except Fault α}

theorem bind {g : α → Except Fault β} (h : Served b k rs r)
    (hg : ∀ a, r = .ok a → Served b (k + rs.count .constant) qs (g a)) :
    Served b k (rs ++ qs) (r >>= g) := by
  cases h with
  | @done a hrs =>
    have hqs := hg a rfl
    rw [ok_bind]
    generalize g a = s at hqs
    cases hqs with
    | done hqs => exact .done (Request.granted_append.mpr ⟨hrs, hqs⟩)
    | refused before q after hsplit hbefore hq hkind hcause =>
      refine .refused (rs ++ before) q after ?_ ?_ ?_ hkind hcause
      · rw [hsplit, List.append_assoc]
      · exact Request.granted_append.mpr ⟨hrs, hbefore⟩
      · rwa [List.count_append, ← Nat.add_assoc]
  | refused before q after hsplit hbefore hq hkind hcause =>
    refine .refused before q (after ++ qs) ?_ hbefore hq hkind hcause
    rw [hsplit, List.append_assoc, List.cons_append]

theorem map (h : Served b k rs r) (g : α → β) : Served b k rs (r >>= fun a => .ok (g a)) := by
  cases h with
  | done hrs => exact .done hrs
  | refused before q after hsplit hbefore hq hkind hcause =>
    exact .refused before q after hsplit hbefore hq hkind hcause

theorem cons {q : Request} (hq : q.refusal? b k = none)
    (h : Served b (k + [q].count .constant) rs r) : Served b k (q :: rs) r := by
  have hgranted : Served b k [q] (.ok () : Except Fault Unit) := .done ⟨hq, trivial⟩
  exact hgranted.bind fun _ _ => h

theorem single {q : Request} {f : Fault} {c : Cause} (hq : q.refusal? b k = some c)
    (hkind : f.kind = .compile) (hcause : f.cause = some c) :
    Served b k [q] (.error f : Except Fault α) :=
  .refused [] q [] rfl trivial hq hkind hcause

theorem exists_ok_iff (h : Served b k rs r) : (∃ a, r = .ok a) ↔ Request.Granted b k rs := by
  cases h with
  | done hrs => exact ⟨fun _ => hrs, fun _ => ⟨_, rfl⟩⟩
  | refused before q after hsplit _ hq _ _ =>
    constructor
    · rintro ⟨_, h⟩
      cases h
    · intro hrs
      rw [hsplit, Request.granted_append] at hrs
      cases hq.symm.trans hrs.2.1

theorem exists_refused {f : Fault} (h : Served b k rs (.error f : Except Fault α)) :
    f.kind = .compile ∧ ∃ before r after c, rs = before ++ r :: after ∧
      Request.Granted b k before ∧ r.refusal? b (k + before.count .constant) = some c ∧
      f.cause = some c := by
  cases h with
  | refused before q after hsplit hbefore hq hkind hcause =>
    exact ⟨hkind, before, q, after, _, hsplit, hbefore, hq, hcause⟩

end Served

theorem Rpn.served_encode (e : Expr) (k r : Nat) :
    Served .rpn k (e.requests r) (encode e) := by
  induction e generalizing k r with
  | hole kind => exact .single rfl rfl rfl
  | int p literal v =>
    rw [Expr.requests]
    split
    · exact .done trivial
    · exact .done ⟨rfl, trivial⟩
  | unary p op x ih =>
    cases op with
    | unknown c => exact .single rfl rfl rfl
    | known op =>
      cases op with
      | identity => exact ih k r
      | negate => exact (ih k r).map _
  | binary p op x y ihx ihy =>
    cases op with
    | unknown c => exact .single rfl rfl rfl
    | known op =>
      refine (ihx k r).bind fun cx _ => .cons rfl ?_
      exact (ihy _ (r + 1)).map _

theorem Pool.served_add {b : Backend} (hb : b ≠ .rpn) (pool : Pool) (v : Int64) :
    Served b pool.values.size [.constant] (pool.add v) := by
  unfold add
  split
  · rename_i hlt
    exact .done ⟨by simp [Request.refusal?, hlt], trivial⟩
  · rename_i hfull
    exact .single (by simp [Request.refusal?, hb, hfull]) rfl rfl

theorem Registers.alloc_empty : alloc {} = .ok (0, ⟨1, 1⟩) :=
  rfl

theorem Registers.served_alloc (k : Nat) (r : Registers) :
    Served .register k [.register r.live] r.alloc := by
  unfold alloc
  split
  · rename_i hlt
    exact .done ⟨by simp [Request.refusal?, hlt], trivial⟩
  · rename_i hfull
    exact .single (by simp [Request.refusal?, hfull]) rfl rfl

namespace Stack

theorem served_load {b : Backend} (hb : b ≠ .rpn) (v : Int64) (pool : Pool) :
    Served b pool.values.size (if fitsInline v then [] else [.constant]) (load v pool) := by
  unfold load
  split
  · exact .done trivial
  · exact (pool.served_add hb v).map _

theorem served_encode (e : Expr) (r : Nat) (s : State) :
    Served .stack s.pool.values.size (e.requests r) (encode e s) := by
  induction e generalizing r s with
  | hole kind => exact .single rfl rfl rfl
  | int p literal v => exact (served_load (by decide) v s.pool).map _
  | unary p op x ih =>
    cases op with
    | unknown c => exact .single rfl rfl rfl
    | known op =>
      cases op with
      | identity => exact ih r s
      | negate => exact (ih r s).map _
  | binary p op x y ihx ihy =>
    cases op with
    | unknown c => exact .single rfl rfl rfl
    | known op =>
      refine (ihx r s).bind ?_
      rintro ⟨cx, sx⟩ hx
      have hencoded := encode_ok hx
      rw [hencoded.wellFormed.count_requests, ← hencoded.size_pool]
      exact .cons rfl ((ihy (r + 1) sx).map _)

end Stack

namespace Register

theorem served_load (v : Int64) (dst : UInt8) (pool : Pool) :
    Served .register pool.values.size (if fitsInline v then [] else [.constant])
      (load v dst pool) := by
  rw [load_eq]
  exact (Stack.served_load (by decide) v pool).map _

theorem served_encode (e : Expr) (dst : UInt8) (s : State)
    (hlive : s.registers.live = dst.toNat + 1) (hpeak : s.registers.live ≤ s.registers.peak) :
    Served .register s.pool.values.size (e.requests dst.toNat) (encode e dst s) := by
  induction e generalizing dst s with
  | hole kind => exact .single rfl rfl rfl
  | int p literal v => exact (served_load v dst s.pool).map _
  | unary p op x ih =>
    cases op with
    | unknown c => exact .single rfl rfl rfl
    | known op =>
      cases op with
      | identity => exact ih dst s hlive hpeak
      | negate => exact (ih dst s hlive hpeak).map _
  | binary p op x y ihx ihy =>
    cases op with
    | unknown c => exact .single rfl rfl rfl
    | known op =>
      refine (ihx dst s hlive hpeak).bind ?_
      rintro ⟨cx, sx⟩ hx
      have hencoded := encode_ok hx hlive hpeak
      have hsxlive := hencoded.live
      have hsxpeak := hencoded.peak
      rw [hencoded.wellFormed.count_requests, ← hencoded.size_pool, ← hencoded.live]
      refine (sx.registers.served_alloc _).bind ?_
      rintro ⟨rhs, registers⟩ halloc
      obtain ⟨hrhs, hrlive, hrpeak, _⟩ := Registers.alloc_ok halloc
      rw [← hrhs]
      exact (ihy rhs { sx with registers } (by simp only; omega) (by simp only; omega)).map _

end Register

theorem served_compile (b : Backend) (e : Expr) : Served b 0 (e.requests 0) (compile b e) := by
  cases b with
  | rpn => exact ((Rpn.served_encode e 0 0).map _).map _
  | stack => exact ((Stack.served_encode e 0 {}).map _).map _
  | register =>
    have hencode := Register.served_encode e 0 { registers := ⟨1, 1⟩ } rfl (Nat.le_refl 1)
    rw [compile, Register.compile, Registers.alloc_empty, ok_bind]
    exact (hencode.map _).map _

end Abacus
