import Abacus.Expr.Basic

/-!
# Walks over trees

Two walks visit a node before its operands, left to right. `inspect` lets the visitor skip what
lies below a node; `preorder` lets it end the walk. Both thread the visitor's state. A walk that
would go on below a missing operator node has no result.
-/
namespace Abacus
namespace Expr

variable {σ : Type}

/-- What lies below a hole: nothing, unless operands were expected there. -/
def belowHole : Hole → σ → Option σ
  | .node, s => some s
  | .int, s => some s
  | .unary, _ => none
  | .binary, _ => none

/-- Walks an operand that is not missing. -/
def skipMissing (x : Expr) (walk : σ → Option σ) (s : σ) : Option σ :=
  match x with
  | .hole .node => some s
  | _ => walk s

/-- Visits a node and, where the visitor answers `true`, goes on to its operands. Missing operands
are passed over, but a tree that is itself missing is visited. -/
def inspect (visit : Expr → σ → Bool × σ) : Expr → σ → Option σ
  | .hole kind, s => below (visit (.hole kind) s) (belowHole kind)
  | .int p literal v, s => below (visit (.int p literal v) s) some
  | .unary p op x, s => below (visit (.unary p op x) s) (skipMissing x (inspect visit x))
  | .binary p op x y, s =>
    below (visit (.binary p op x y) s) fun s =>
      skipMissing x (inspect visit x) s >>= skipMissing y (inspect visit y)
where
  below : Bool × σ → (σ → Option σ) → Option σ
    | (true, s), walk => walk s
    | (false, s), _ => some s

/-- Goes on with a walk while the visitor answers `true`. -/
def proceed (r : Bool × σ) (walk : σ → Option (Bool × σ)) : Option (Bool × σ) :=
  match r with
  | (true, s) => walk s
  | (false, s) => some (false, s)

/-- Visits the nodes of a tree in order until the visitor answers `false`; the result tells
whether it never did. Missing operands are visited. -/
def preorderFrom (visit : Expr → σ → Bool × σ) : Expr → σ → Option (Bool × σ)
  | .hole kind, s => proceed (visit (.hole kind) s) fun s => (belowHole kind s).map (true, ·)
  | .int p literal v, s => some (visit (.int p literal v) s)
  | .unary p op x, s => proceed (visit (.unary p op x) s) (preorderFrom visit x)
  | .binary p op x y, s =>
    proceed (visit (.binary p op x y) s) fun s =>
      preorderFrom visit x s >>= (proceed · (preorderFrom visit y))

/-- The walk over a whole tree; a tree that is missing is not visited. -/
def preorder (visit : Expr → σ → Bool × σ) (e : Expr) (s : σ) : Option (Bool × σ) :=
  match e with
  | .hole .node => some (true, s)
  | e => preorderFrom visit e s

/-- The number of nodes visited by the walk in order. -/
def count? (e : Expr) : Option Nat :=
  (preorder (fun _ n => (true, n + 1)) e 0).map (·.2)

end Expr
end Abacus
