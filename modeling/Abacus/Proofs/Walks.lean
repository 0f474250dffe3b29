import Abacus.Expr.Walk
import Abacus.Proofs.Agreement
import Abacus.Proofs.Requests

/-!
# What walks visit

On a tree without holes both walks are walks along its nodes in order. One goes along them until
the visitor has enough. The other leaves out what lies below a node at which the visitor answers
`false`; to say what that is, nodes that look alike are told apart by the path that leads to them.
-/
namespace Abacus
namespace Expr

variable {σ : Type}

/-- Hands nodes to a visitor until it answers `false`; the result tells whether it never did. -/
def feed (visit : Expr → σ → Bool × σ) : List Expr → σ → Bool × σ
  | [], s => (true, s)
  | x :: xs, s => if (visit x s).1 then feed visit xs (visit x s).2 else visit x s

section Preorder

variable (visit : Expr → σ → Bool × σ)

theorem proceed_feed (x : Expr) (xs : List Expr) (s : σ) :
    (proceed (visit x s) fun s => some (feed visit xs s)) = some (feed visit (x :: xs) s) := by
  rw [feed]
  cases visit x s with
  | mk passed s' => cases passed <;> rfl

theorem proceed_feed_append (xs ys : List Expr) (s : σ) :
    (proceed (feed visit xs s) fun s => some (feed visit ys s)) =
      some (feed visit (xs ++ ys) s) := by
  induction xs generalizing s with
  | nil => rfl
  | cons x xs ih =>
    rw [List.cons_append, feed, feed]
    cases visit x s with
    | mk passed s' =>
      cases passed with
      | true => exact ih s'
      | false => rfl

theorem preorderFrom_eq_feed {e : Expr} (h : e.hasHole = false) (s : σ) :
    e.preorderFrom visit s = some (feed visit e.nodes s) := by
  induction e generalizing s with
  | hole kind => cases h
  | int p literal v =>
    rw [preorderFrom, nodes, ← proceed_feed]
    cases visit (.int p literal v) s with
    | mk passed s' => cases passed <;> rfl
  | unary p op x ih =>
    have hx : x.preorderFrom visit = fun s => some (feed visit x.nodes s) := funext (ih h)
    rw [preorderFrom, nodes, hx, proceed_feed]
  | binary p op x y ihx ihy =>
    obtain ⟨hx, hy⟩ := Bool.or_eq_false_iff.mp h
    have hboth (s : σ) : (x.preorderFrom visit s >>= (proceed · (y.preorderFrom visit))) =
        some (feed visit (x.nodes ++ y.nodes) s) := by
      have hy' : y.preorderFrom visit = fun s => some (feed visit y.nodes s) := funext (ihy hy)
      rw [ihx hx, hy', ← proceed_feed_append]
      rfl
    rw [preorderFrom, nodes, funext hboth, proceed_feed]

theorem preorder_eq_feed {e : Expr} (h : e.hasHole = false) (s : σ) :
    e.preorder visit s = some (feed visit e.nodes s) := by
  rw [← preorderFrom_eq_feed visit h]
  cases e with
  | hole kind => cases h
  | _ => rfl

variable {visit}

theorem feed_of_true (f : Expr → σ → σ) (xs : List Expr) (s : σ) :
    feed (fun x s => (true, f x s)) xs s = (true, xs.foldl (fun s x => f x s) s) := by
  induction xs generalizing s with
  | nil => rfl
  | cons x xs ih => exact ih (f x s)

def collect (k : Nat) (x : Expr) (seen : List Expr) : Bool × List Expr :=
  (decide (seen.length < k), seen ++ [x])

theorem feed_collect {k : Nat} (xs seen : List Expr) (h : seen.length ≤ k) :
    feed (collect k) xs seen =
      (decide (seen.length + xs.length ≤ k), seen ++ xs.take (k + 1 - seen.length)) := by
  induction xs generalizing seen with
  | nil => simp [feed, h]
  | cons x xs ih =>
    have hroom : k + 1 - seen.length = k - seen.length + 1 := by omega
    rw [feed, collect, hroom, List.take_succ_cons]
    by_cases hlt : seen.length < k
    · have hseen : (seen ++ [x]).length = seen.length + 1 := by simp
      have hrest := ih (seen ++ [x]) (by omega)
      rw [hseen, Nat.add_sub_add_right, List.append_assoc, List.singleton_append,
        Nat.add_right_comm, Nat.add_assoc] at hrest
      rw [if_pos (by simpa using hlt)]
      exact hrest
    · have hfull : k - seen.length = 0 := by omega
      rw [if_neg (by simpa using hlt), hfull, List.take_zero, List.length_cons]
      simp only [hlt, decide_false, Prod.mk.injEq, and_true]
      rw [eq_comm, decide_eq_false_iff_not]
      omega

theorem count?_eq {e : Expr} (h : e.hasHole = false) : e.count? = some e.nodes.length := by
  rw [count?, preorder_eq_feed _ h, feed_of_true (fun _ n => n + 1)]
  simp

end Preorder
end Expr

/-- A node and where it stands: the numbers of the operands on the way to it. -/
structure Place where
  path : List Nat
  node : Expr
deriving DecidableEq

namespace Place

/-- The place in a tree of which the tree so far is the operand `i`. -/
def under (i : Nat) (x : Place) : Place :=
  ⟨i :: x.path, x.node⟩

def isBelow (x y : Place) : Bool :=
  go x.path y.path
where
  go : List Nat → List Nat → Bool
    | [], _ => false
    | _ :: _, [] => true
    | i :: p, j :: q => i == j && go p q

theorem isBelow_iff {x y : Place} : x.isBelow y = true ↔ ∃ i p, x.path = y.path ++ i :: p := by
  unfold isBelow
  generalize x.path = p
  generalize y.path = q
  fun_induction isBelow.go p q with
  | case1 q => simp
  | case2 i p => simp
  | case3 i p j q ih =>
    rw [Bool.and_eq_true, beq_iff_eq, ih]
    constructor
    · rintro ⟨rfl, k, r, rfl⟩
      exact ⟨k, r, rfl⟩
    · rintro ⟨k, r, h⟩
      obtain ⟨rfl, rfl⟩ := List.cons.inj h
      exact ⟨rfl, k, r, rfl⟩

@[simp] theorem isBelow_under (i j : Nat) (x y : Place) :
    (x.under i).isBelow (y.under j) = (i == j && x.isBelow y) := rfl

end Place

structure Visit where
  place : Place
  answer : Bool
deriving DecidableEq

namespace Visit

def under (i : Nat) (v : Visit) : Visit :=
  ⟨v.place.under i, v.answer⟩

def entry (v : Visit) : Expr × Bool :=
  (v.place.node, v.answer)

/-- Whether a place lies below one at which the visitor answered `false`. -/
def hides (vs : List Visit) (x : Place) : Bool :=
  vs.any fun v => !v.answer && x.isBelow v.place

/-- The visits are, in order, to all places but those below a visited one that was refused. -/
def Prunes (vs : List Visit) (xs : List Place) : Prop :=
  vs.map (·.place) = xs.filter fun x => !hides vs x

theorem entry_under (i : Nat) (vs : List Visit) : (vs.map (under i)).map entry = vs.map entry := by
  rw [List.map_map]
  rfl

theorem hides_under (i j : Nat) (vs : List Visit) (x : Place) :
    hides (vs.map (under i)) (x.under j) = (j == i && hides vs x) := by
  induction vs with
  | nil => simp [hides]
  | cons v vs ih =>
    simp only [hides, List.map_cons, List.any_cons, under, Place.isBelow_under] at ih ⊢
    rw [ih]
    cases j == i <;> simp

theorem map_place_under (i : Nat) (vs : List Visit) :
    (vs.map (under i)).map (·.place) = (vs.map (·.place)).map (Place.under i) := by
  rw [List.map_map, List.map_map]
  rfl

/-- In an operand the same places are left out as in the tree that it is alone. -/
theorem Prunes.filter_under {vs : List Visit} {xs : List Place} (h : Prunes vs xs) {i : Nat}
    {hidden : Place → Bool} (hhidden : ∀ x, hidden (x.under i) = hides vs x) :
    (xs.map (Place.under i)).filter (fun x => !hidden x) =
      (vs.map (under i)).map (·.place) := by
  rw [map_place_under, h, List.filter_map]
  congr 1
  apply List.filter_congr
  intro x _
  exact congrArg (!·) (hhidden x)

theorem prunes_leaf (e : Expr) (answer : Bool) : Prunes [⟨⟨[], e⟩, answer⟩] [⟨[], e⟩] := by
  have hroot : hides [⟨⟨[], e⟩, answer⟩] ⟨[], e⟩ = false := by
    simp [hides, Place.isBelow, Place.isBelow.go]
  simp [Prunes, hroot]

theorem prunes_refused {e : Expr} {xs : List Place} (h : ∀ x ∈ xs, x.path ≠ []) :
    Prunes [⟨⟨[], e⟩, false⟩] (⟨[], e⟩ :: xs) := by
  have hroot : hides [⟨⟨[], e⟩, false⟩] ⟨[], e⟩ = false := by
    simp [hides, Place.isBelow, Place.isBelow.go]
  have hbelow : xs.filter (fun x => !hides [⟨⟨[], e⟩, false⟩] x) = [] := by
    rw [List.filter_eq_nil_iff]
    intro x hx
    have hx : x.isBelow ⟨[], e⟩ = true := by
      obtain ⟨i, p, hp⟩ := List.exists_cons_of_ne_nil (h x hx)
      exact Place.isBelow_iff.mpr ⟨i, p, hp⟩
    simp [hides, hx]
  rw [Prunes, List.filter_cons_of_pos (by rw [hroot]; rfl), hbelow]
  rfl

/-- Operands are visited apart: what is refused in one is not on the way to the other. -/
theorem prunes_passed {e : Expr} {xs ys : List Place} {vs us : List Visit} (hx : Prunes vs xs)
    (hy : Prunes us ys) :
    Prunes (⟨⟨[], e⟩, true⟩ :: (vs.map (under 0) ++ us.map (under 1)))
      (⟨[], e⟩ :: (xs.map (Place.under 0) ++ ys.map (Place.under 1))) := by
  have hroot (ws : List Visit) : hides ws ⟨[], e⟩ = false := by
    simp [hides, Place.isBelow, Place.isBelow.go]
  have hsplit (x : Place) :
      hides (⟨⟨[], e⟩, true⟩ :: (vs.map (under 0) ++ us.map (under 1))) x =
        (hides (vs.map (under 0)) x || hides (us.map (under 1)) x) := by
    simp [hides]
  have hleft (x : Place) : hides (⟨⟨[], e⟩, true⟩ :: (vs.map (under 0) ++ us.map (under 1)))
      (x.under 0) = hides vs x := by
    rw [hsplit, hides_under, hides_under]
    exact Bool.or_false _
  have hright (x : Place) : hides (⟨⟨[], e⟩, true⟩ :: (vs.map (under 0) ++ us.map (under 1)))
      (x.under 1) = hides us x := by
    rw [hsplit, hides_under, hides_under]
    exact Bool.false_or _
  rw [Prunes, List.filter_cons_of_pos (by rw [hroot]; rfl), List.filter_append,
    hx.filter_under hleft, hy.filter_under hright, List.map_cons, List.map_append]

end Visit

namespace Expr

variable {σ : Type}

def places : Expr → List Place
  | .hole kind => [⟨[], .hole kind⟩]
  | .int p literal v => [⟨[], .int p literal v⟩]
  | .unary p op x => ⟨[], .unary p op x⟩ :: x.places.map (.under 0)
  | .binary p op x y =>
    ⟨[], .binary p op x y⟩ :: (x.places.map (.under 0) ++ y.places.map (.under 1))

theorem map_node_places (e : Expr) : e.places.map (·.node) = e.nodes := by
  have hunder (i : Nat) (xs : List Place) :
      (xs.map (Place.under i)).map (·.node) = xs.map (·.node) := by
    rw [List.map_map]
    rfl
  induction e with
  | hole kind => rfl
  | int p literal v => rfl
  | unary p op x ih => rw [places, nodes, List.map_cons, hunder, ih]
  | binary p op x y ihx ihy =>
    rw [places, nodes, List.map_cons, List.map_append, hunder, hunder, ihx, ihy]

def recording (visit : Expr → σ → Bool × σ) (x : Expr) (s : σ × List (Expr × Bool)) :
    Bool × σ × List (Expr × Bool) :=
  let r := visit x s.1
  (r.1, r.2, s.2 ++ [(x, r.1)])

theorem skipMissing_eq {x : Expr} (h : x.hasHole = false) (walk : σ → Option σ) :
    skipMissing x walk = walk := by
  funext s
  cases x with
  | hole kind => cases h
  | _ => rfl

theorem inspect_eq_foldl {e : Expr} (h : e.hasHole = false) (f : Expr → σ → σ) (s : σ) :
    e.inspect (fun x s => (true, f x s)) s = some (e.nodes.foldl (fun s x => f x s) s) := by
  induction e generalizing s with
  | hole kind => cases h
  | int p literal v => rfl
  | unary p op x ih =>
    have hx : x.hasHole = false := h
    rw [inspect, inspect.below, skipMissing_eq hx, ih hx]
    rfl
  | binary p op x y ihx ihy =>
    obtain ⟨hx, hy⟩ := Bool.or_eq_false_iff.mp h
    rw [inspect, inspect.below, skipMissing_eq hx, skipMissing_eq hy, ihx hx, nodes,
      List.foldl_cons, List.foldl_append]
    exact ihy hy _

/-- A walk from the state `s` to `s'` that makes these visits. -/
structure Inspects (visit : Expr → σ → Bool × σ) (e : Expr) (s s' : σ) (vs : List Visit) :
    Prop where
  result : e.inspect visit s = some s'
  record : ∀ past, e.inspect (recording visit) (s, past) = some (s', past ++ vs.map Visit.entry)
  prunes : Visit.Prunes vs e.places

theorem exists_places_eq (e : Expr) : ∃ xs, e.places = ⟨[], e⟩ :: xs ∧ ∀ x ∈ xs, x.path ≠ [] := by
  have hunder {i : Nat} {xs : List Place} : ∀ x ∈ xs.map (Place.under i), x.path ≠ [] := by
    intro x hx
    obtain ⟨y, _, rfl⟩ := List.mem_map.mp hx
    exact List.cons_ne_nil i y.path
  cases e with
  | hole kind => exact ⟨[], rfl, List.forall_mem_nil _⟩
  | int p literal v => exact ⟨[], rfl, List.forall_mem_nil _⟩
  | unary p op x => exact ⟨_, rfl, hunder⟩
  | binary p op x y => exact ⟨_, rfl, List.forall_mem_append.mpr ⟨hunder, hunder⟩⟩

theorem inspect_of_refused {visit : Expr → σ → Bool × σ} {e : Expr} {s s' : σ}
    (h : visit e s = (false, s')) : e.inspect visit s = some s' := by
  cases e <;> rw [inspect, h, inspect.below]

theorem recording_eq {visit : Expr → σ → Bool × σ} {x : Expr} {s s' : σ} {answer : Bool}
    (h : visit x s = (answer, s')) (past : List (Expr × Bool)) :
    recording visit x (s, past) = (answer, s', past ++ [(x, answer)]) := by
  simp only [recording, h]

theorem inspects_of_refused {visit : Expr → σ → Bool × σ} {e : Expr} {s s' : σ}
    (h : visit e s = (false, s')) : Inspects visit e s s' [⟨⟨[], e⟩, false⟩] where
  result := inspect_of_refused h
  record past := inspect_of_refused (recording_eq h past)
  prunes := by
    obtain ⟨xs, hplaces, hxs⟩ := e.exists_places_eq
    rw [hplaces]
    exact Visit.prunes_refused hxs

/-- Whatever the visitor does, it is shown the places of the tree in order, without those below a
place at which it answered `false`. -/
theorem exists_inspects (visit : Expr → σ → Bool × σ) {e : Expr} (h : e.hasHole = false) (s : σ) :
    ∃ s' vs, Inspects visit e s s' vs := by
  induction e generalizing s with
  | hole kind => cases h
  | int p literal v =>
    cases hvisit : visit (.int p literal v) s with
    | mk answer s₁ =>
      cases answer with
      | false => exact ⟨_, _, inspects_of_refused hvisit⟩
      | true =>
        refine ⟨s₁, [⟨⟨[], _⟩, true⟩], ?_, fun past => ?_, Visit.prunes_leaf _ true⟩
        · rw [inspect, hvisit, inspect.below]
        · rw [inspect, recording_eq hvisit, inspect.below]
          rfl
  | unary p op x ih =>
    have hx : x.hasHole = false := h
    cases hvisit : visit (.unary p op x) s with
    | mk answer s₁ =>
      cases answer with
      | false => exact ⟨_, _, inspects_of_refused hvisit⟩
      | true =>
        obtain ⟨s', vs, hresult, hrecord, hprunes⟩ := ih hx s₁
        have hnone : Visit.Prunes [] [] := rfl
        have hpassed := Visit.prunes_passed (e := .unary p op x) hprunes hnone
        simp only [List.map_nil, List.append_nil] at hpassed
        refine ⟨s', _, ?_, fun past => ?_, hpassed⟩
        · rw [inspect, hvisit, inspect.below, skipMissing_eq hx, hresult]
        · rw [inspect, recording_eq hvisit, inspect.below, skipMissing_eq hx, hrecord,
            List.map_cons, Visit.entry_under, List.append_assoc]
          rfl
  | binary p op x y ihx ihy =>
    obtain ⟨hx, hy⟩ := Bool.or_eq_false_iff.mp h
    cases hvisit : visit (.binary p op x y) s with
    | mk answer s₁ =>
      cases answer with
      | false => exact ⟨_, _, inspects_of_refused hvisit⟩
      | true =>
        obtain ⟨s₂, vs, hresult, hrecord, hprunes⟩ := ihx hx s₁
        obtain ⟨s', us, hresult', hrecord', hprunes'⟩ := ihy hy s₂
        refine ⟨s', _, ?_, fun past => ?_, Visit.prunes_passed hprunes hprunes'⟩
        · rw [inspect, hvisit, inspect.below, skipMissing_eq hx, skipMissing_eq hy, hresult]
          exact hresult'
        · rw [inspect, recording_eq hvisit, inspect.below, skipMissing_eq hx, skipMissing_eq hy,
            hrecord, List.map_cons, List.map_append, Visit.entry_under, Visit.entry_under]
          refine (hrecord' _).trans ?_
          simp [Visit.entry]

end Expr

/-- The two walks agree on a tree without holes. A visitor that always answers `true` is shown the
same nodes in the same order by both; a walk that is ended goes along these up to the node at
which it is ended; and a visitor that answers `false` at some nodes, however it comes by its
answers, is shown the nodes that do not lie below one of those that it was shown. -/
theorem walks_agree {e : Expr} (h : e.hasHole = false) :
    (∀ {σ : Type} (f : Expr → σ → σ) (s : σ),
      e.preorder (fun x s => (true, f x s)) s = some (true, e.nodes.foldl (fun s x => f x s) s) ∧
      e.inspect (fun x s => (true, f x s)) s = some (e.nodes.foldl (fun s x => f x s) s)) ∧
    (∀ k, e.preorder (Expr.collect k) [] =
      some (decide (e.nodes.length ≤ k), e.nodes.take (k + 1))) ∧
    (e.places.map (·.node) = e.nodes ∧
      ∀ {σ : Type} (visit : Expr → σ → Bool × σ) (s : σ), ∃ s' vs,
        e.inspect visit s = some s' ∧
        e.inspect (Expr.recording visit) (s, []) = some (s', vs.map Visit.entry) ∧
        vs.map (·.place) = e.places.filter fun x => !Visit.hides vs x) ∧
    e.count? = some e.nodes.length := by
  refine ⟨?_, ?_, ⟨e.map_node_places, ?_⟩, Expr.count?_eq h⟩
  · intro σ f s
    refine ⟨?_, Expr.inspect_eq_foldl h f s⟩
    rw [Expr.preorder_eq_feed _ h, Expr.feed_of_true]
  · intro k
    rw [Expr.preorder_eq_feed _ h, Expr.feed_collect _ _ (Nat.zero_le k)]
    simp
  · intro σ visit s
    obtain ⟨s', vs, hresult, hrecord, hprunes⟩ := Expr.exists_inspects visit h s
    exact ⟨s', vs, hresult, hrecord [], hprunes⟩

/-- A sum of two equal sums, under an operator that names none. -/
def Expr.equalSums : Expr :=
  .binary {} (.unknown 9) (.ofBinary .add (.ofInt 1) (.ofInt 2))
    (.ofBinary .add (.ofInt 1) (.ofInt 2))

/-- Of two sums that look alike the first is refused, and the other is walked. -/
theorem first_of_equal_sums_skipped :
    Expr.equalSums.count? = some 7 ∧
      Expr.equalSums.preorder (Expr.collect 2) [] = some (false, Expr.equalSums.nodes.take 3) ∧
      ∃ (s' : Nat) (vs : List Visit),
        Expr.equalSums.inspect (Expr.recording fun _ n => (decide (n ≠ 1), n + 1)) (0, []) =
          some (s', vs.map Visit.entry) ∧
        vs.map (·.answer) = [true, false, true, true, true] := by
  obtain ⟨_, hcollect, ⟨_, hinspect⟩, hcount⟩ := walks_agree (e := .equalSums) (by decide)
  obtain ⟨s', vs, _, hrecord, _⟩ := hinspect (fun _ n => (decide (n ≠ 1), n + 1)) 0
  refine ⟨hcount, hcollect 2, s', vs, hrecord, ?_⟩
  have hanswers : (Expr.equalSums.inspect (Expr.recording fun _ n => (decide (n ≠ 1), n + 1))
      (0, [])).map (fun r => r.2.map (·.2)) = some [true, false, true, true, true] := rfl
  rw [hrecord, Option.map_some, List.map_map] at hanswers
  exact Option.some.inj hanswers

end Abacus
