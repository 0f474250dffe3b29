import Abacus.Proofs.InOrder

/-!
# What the reader complains about

Every complaint is about one token of the text or about its end. Either that token is illegal, or
the tokens before it have been read and it cannot follow them. The limit on the depth plays no part
in this but to stop the reading: as long as it does not, any higher limit gives the same answer.
-/
namespace Abacus

namespace Scan

def toList (s : Scan) : List Token :=
  s.tokens ++ [s.last]

theorem kind_last (source : Bytes) : (ofBytes source).last.kind = .eof := by
  obtain ⟨_, _, _, hlast, _⟩ := Cursor.collect_eq ⟨source, {}⟩ []
  exact hlast

theorem kind_ne_eof {source : Bytes} {t : Token} (ht : t ∈ (ofBytes source).tokens) :
    t.kind ≠ .eof := by
  obtain ⟨n, htokens, hkind⟩ := exists_firstTokens source
  rw [htokens] at ht
  exact hkind t ht

theorem laid_toList (source : Bytes) : Laid source [] (ofBytes source).toList := by
  obtain ⟨n, hn, _, _, hnext⟩ := Cursor.collect_eq ⟨source, {}⟩ []
  have hall : (ofBytes source).toList = firstTokens source (n + 1) := by
    change (Cursor.collect ⟨source, {}⟩ []).1 ++ [(Cursor.collect ⟨source, {}⟩ []).2] =
      firstTokens.go ⟨source, {}⟩ (n + 1)
    rw [hnext, hn]
    rfl
  rw [hall]
  exact laid_firstTokens source (n + 1)

end Scan

namespace Parse

variable {limits : Limits} {s : State} {c : Complaint}

section Refusals

theorem complain_eq_error {α : Type} {t : Token} {r : Except ParseError.Reason α} :
    complain t r = .error c ↔ r = .error c.reason ∧ c.found = t := by
  constructor
  · intro h
    cases r with
    | ok a => cases h
    | error reason =>
      cases h
      exact ⟨rfl, rfl⟩
  · rintro ⟨rfl, rfl⟩
    rfl

theorem lookahead_eq_error {ts : List Token} (h : lookahead ts = .error c) :
    ∃ b vs, ts = c.found :: vs ∧ c.found.kind = .illegal b ∧ c.reason = .illegalByte b := by
  cases ts with
  | nil => cases h
  | cons t ts =>
    rw [lookahead] at h
    split at h
    · rename_i b hkind
      cases h
      exact ⟨b, ts, rfl, hkind, rfl⟩
    · cases h

/-- Why a walk from the state `s` that has come over the tokens `us` ends with a complaint. -/
inductive Blames (limits : Limits) (s : State) (us : List Token) (c : Complaint) : Prop
  | illegal (b : UInt8) : c.found.kind = .illegal b → c.reason = .illegalByte b →
      Blames limits s us c
  | refused (u : State) : us.foldlM (advance limits) s = .ok u →
      advance limits u c.found = .error c.reason → Blames limits s us c

theorem Blames.cons {u : State} {t : Token} {us : List Token} (h : Blames limits u us c)
    (ht : advance limits s t = .ok u) : Blames limits s (t :: us) c := by
  cases h with
  | illegal b hkind hreason => exact .illegal b hkind hreason
  | refused v hwalk hfound =>
    apply Blames.refused v _ hfound
    rw [List.foldlM_cons, ht, ok_bind, hwalk]

theorem run_cons_eq_error {t : Token} {ts : List Token}
    (h : run limits s (t :: ts) = .error c) :
    lookahead ts = .error c ∨ (advance limits s t = .error c.reason ∧ c.found = t) ∨
      ∃ u, advance limits s t = .ok u ∧ run limits u ts = .error c := by
  cases s <;>
    simp only [run, advance, bind_eq_error, bind_eq_ok, complain_eq_error, complain_eq_ok] at h ⊢ <;>
    grind

/-- A run that fails has read the tokens before the one it complains about. -/
theorem run_eq_error {ts : List Token} (h : run limits s ts = .error c) :
    ∃ us vs, ts = us ++ c.found :: vs ∧ Blames limits s us c := by
  induction ts generalizing s with
  | nil => cases s <;> cases h
  | cons t ts ih =>
    rcases run_cons_eq_error h with hlook | ⟨hstep, hfound⟩ | ⟨u, hu, hrun⟩
    · obtain ⟨b, vs, rfl, hkind, hreason⟩ := lookahead_eq_error hlook
      exact ⟨[t], vs, rfl, .illegal b hkind hreason⟩
    · rw [← hfound] at hstep ⊢
      exact ⟨[], ts, rfl, .refused s rfl hstep⟩
    · obtain ⟨us, vs, rfl, hblames⟩ := ih hrun
      exact ⟨t :: us, vs, rfl, hblames.cons hu⟩

theorem close_zero_cases (frames : List Frame) (e : Expr) :
    (∃ e', close 0 frames e = ([], e')) ∨ ∃ fs e', close 0 frames e = (.group :: fs, e') := by
  induction frames generalizing e with
  | nil => exact Or.inl ⟨e, rfl⟩
  | cons f frames ih =>
    cases f with
    | group => exact Or.inr ⟨frames, e, rfl⟩
    | unary op p => exact ih _
    | binary x op p =>
      rw [close, if_pos (Nat.zero_le _)]
      exact ih _

/-- The end of the input is complained about as any token is that can neither begin nor end an
operand. -/
theorem finish_eq_error {last : Token} (hlast : last.kind = .eof)
    (h : finish limits last s = .error c) :
    c.found = last ∧ advance limits s last = .error c.reason := by
  cases s with
  | operand frames =>
    have hbegin : beginOperand frames last = .error .noOperand := by
      rw [beginOperand, hlast]
      rfl
    simp only [finish, bind_eq_error, complain_eq_ok, complain_eq_error] at h
    rcases h with ⟨hallow, hfound⟩ | ⟨_, hallow, hc⟩
    · simp [advance, hallow, hfound]
    · cases hc
      simp [advance, hallow, hbegin]
  | operator frames e =>
    rw [advance, endOperand, hlast]
    simp only [binaryOp?]
    rw [finish] at h
    rcases close_zero_cases frames e with ⟨e', hclose⟩ | ⟨fs, e', hclose⟩
    · rw [hclose] at h
      cases h
    · rw [hclose] at h ⊢
      cases h
      exact ⟨rfl, rfl⟩

theorem tokens_eq_error {scan : Scan} (hlast : scan.last.kind = .eof)
    (h : tokens limits scan = .error c) :
    ∃ us vs, scan.toList = us ++ c.found :: vs ∧ Blames limits (.operand []) us c := by
  rw [tokens, bind_eq_error] at h
  unfold Scan.toList
  rcases h with hlook | ⟨_, _, h⟩
  · obtain ⟨b, vs, hts, hkind, hreason⟩ := lookahead_eq_error hlook
    exact ⟨[], vs ++ [scan.last], by simp [hts], .illegal b hkind hreason⟩
  · rcases bind_eq_error.mp h with hrun | ⟨s, hrun, hfinish⟩
    · obtain ⟨us, vs, hts, hblames⟩ := run_eq_error hrun
      exact ⟨us, vs ++ [scan.last], by simp [hts], hblames⟩
    · obtain ⟨hfound, hstep⟩ := finish_eq_error hlast hfinish
      rw [← hfound] at hstep ⊢
      exact ⟨scan.tokens, [], rfl, .refused s (run_eq_ok.mp hrun).2 hstep⟩

theorem parse_eq_error {source : Bytes} {err : ParseError}
    (h : parse source limits = .error err) :
    ∃ c us vs, err = c.toError source ∧ (Scan.ofBytes source).toList = us ++ c.found :: vs ∧
      Blames limits (.operand []) us c := by
  unfold parse at h
  cases htokens : tokens limits (Scan.ofBytes source) with
  | ok e =>
    rw [htokens] at h
    cases h
  | error c =>
    rw [htokens] at h
    cases h
    obtain ⟨us, vs, hts, hblames⟩ := tokens_eq_error (Scan.kind_last source) htokens
    exact ⟨c, us, vs, rfl, hts, hblames⟩

theorem Complaint.toError_eq (source : Bytes) (h : ∀ i, c.reason ≠ .interrupted i) :
    c.toError source = ⟨c.reason, c.found, lineAt source c.found.start⟩ := by
  unfold toError
  split
  · rename_i i hreason
    exact absurd hreason (h i)
  · rfl

end Refusals

section Limits

variable {α β : Type} {interruption : Option Interruption} {m n : Int}

def SameUnlessDeep (r r' : Except Complaint α) : Prop :=
  (∃ t, r = .error ⟨.tooDeep, t⟩) ∨ r' = r

theorem SameUnlessDeep.bind {r r' : Except Complaint α} {f f' : α → Except Complaint β}
    (h : SameUnlessDeep r r') (hf : ∀ a, SameUnlessDeep (f a) (f' a)) :
    SameUnlessDeep (r >>= f) (r' >>= f') := by
  rcases h with ⟨t, rfl⟩ | rfl
  · exact Or.inl ⟨t, rfl⟩
  · cases r' with
    | error c => exact Or.inr rfl
    | ok a => exact hf a

theorem sameUnlessDeep_allow (h : m ≤ n) (frames : List Frame) (t : Token) :
    SameUnlessDeep (complain t (allow ⟨m, interruption⟩ frames t))
      (complain t (allow ⟨n, interruption⟩ frames t)) := by
  unfold allow
  by_cases hempty : frames = [] ∧ t.kind = .eof
  · simp [SameUnlessDeep, hempty]
  · simp only [if_neg hempty]
    cases interruption with
    | some i => exact Or.inr rfl
    | none =>
      by_cases hdeep : frames.length + 1 > m
      · exact Or.inl ⟨t, by rw [if_pos hdeep]; rfl⟩
      · right
        rw [if_neg hdeep, if_neg (by omega)]

theorem sameUnlessDeep_run (h : m ≤ n) (s : State) (ts : List Token) :
    SameUnlessDeep (run ⟨m, interruption⟩ s ts) (run ⟨n, interruption⟩ s ts) := by
  induction ts generalizing s with
  | nil => cases s <;> exact Or.inr rfl
  | cons t ts ih =>
    cases s with
    | operand frames =>
      rw [run, run]
      apply SameUnlessDeep.bind (Or.inr rfl)
      intro _
      apply (sameUnlessDeep_allow h frames t).bind
      intro _
      exact SameUnlessDeep.bind (Or.inr rfl) ih
    | operator frames last =>
      rw [run, run]
      apply SameUnlessDeep.bind (Or.inr rfl)
      intro s
      apply SameUnlessDeep.bind (Or.inr rfl)
      intro _
      exact ih s

theorem sameUnlessDeep_tokens (h : m ≤ n) (scan : Scan) :
    SameUnlessDeep (tokens ⟨m, interruption⟩ scan) (tokens ⟨n, interruption⟩ scan) := by
  unfold tokens
  apply SameUnlessDeep.bind (Or.inr rfl)
  intro _
  apply (sameUnlessDeep_run h (.operand []) scan.tokens).bind
  intro s
  cases s with
  | operator frames e => exact Or.inr rfl
  | operand frames =>
    apply (sameUnlessDeep_allow h frames scan.last).bind
    intro _
    exact Or.inr rfl

end Limits
end Parse

/-- A tree that is read with one limit on the depth is read with every higher one, and an error
that is not about the depth is kept as it is: its reason, the token it is about, and the line. -/
theorem raised_limit_keeps_answer (source : Bytes) {m n : Int} (h : m ≤ n) :
    (∀ e, parse source { maxDepth := m } = .ok e → parse source { maxDepth := n } = .ok e) ∧
    ∀ err, parse source { maxDepth := m } = .error err → err.reason ≠ .tooDeep →
      parse source { maxDepth := n } = .error err := by
  have hlimits : Parse.SameUnlessDeep (Parse.tokens { maxDepth := m } (Scan.ofBytes source))
      (Parse.tokens { maxDepth := n } (Scan.ofBytes source)) :=
    Parse.sameUnlessDeep_tokens h (Scan.ofBytes source)
  unfold parse
  rcases hlimits with ⟨t, hdeep⟩ | hsame
  · rw [hdeep]
    constructor
    · intro e he
      cases he
    · intro err herr hreason
      cases herr
      exact absurd rfl hreason
  · rw [hsame]
    exact ⟨fun _ he => he, fun _ herr _ => herr⟩

/-- With two levels `-1` is read and `(1` is found to lack its parenthesis. -/
theorem two_levels_raised_to_many :
    (∃ e, parse [45, 49] { maxDepth := 2 } = .ok e ∧
      parse [45, 49] { maxDepth := 500 } = .ok e) ∧
    ∃ err, parse [40, 49] { maxDepth := 2 } = .error err ∧ err.reason = .unclosedGroup ∧
      parse [40, 49] { maxDepth := 500 } = .error err := by
  have hle : (2 : Int) ≤ 500 := by decide
  constructor
  · obtain ⟨e, he⟩ : ∃ e, parse [45, 49] { maxDepth := 2 } = .ok e := ⟨_, by with_unfolding_all rfl⟩
    exact ⟨e, he, (raised_limit_keeps_answer [45, 49] hle).1 e he⟩
  · obtain ⟨err, herr, hreason⟩ :
        ∃ err, parse [40, 49] { maxDepth := 2 } = .error err ∧ err.reason = .unclosedGroup :=
      ⟨_, by with_unfolding_all rfl, rfl⟩
    refine ⟨err, herr, hreason, (raised_limit_keeps_answer [40, 49] hle).2 err herr ?_⟩
    rw [hreason]
    decide

end Abacus
