import Formulary.Formula
import Formulary.Proofs.Grammar.Course
import Formulary.Proofs.Token.Segmentation

/-!
# The guard against deep nesting

The limit on nested productions does one thing: it refuses what nests deeper. Everything else is read
as it would be without a limit, and what is refused is exactly what opens too many productions at
once.

- `Level.unlimited` nests without a limit. `Level.deepen_eq_iff` says that it is the only level whose
  productions are those that it has below itself.
- `Grammar.Enters` and `Grammar.Nests` say which productions a reading without a limit opens, and how
  many of them at once.
- `Grammar.Course.guarded` compares any course with a limit and without one.
- `Formula.guard_only_refuses` is the statement about whole texts.
-/

namespace Formulary

open Grammar

variable {ρ : ProviderId}

/-! ## Nesting without a limit -/

namespace Grammar.Course

variable {m : Nat} {α : Type} {Q : α → Prop} {f : Level → Except Failure α} {level other : Level}

/-- Two levels that agree within reach make no difference. -/
theorem congr (h : Course m Q f) (hlevel : level.Advances)
    (hagree : ∀ k c, k.reach c < m → other.read k c = level.read k c) : f other = f level := by
  induction h with
  | ok | error => rfl
  | @nest k c f reach _ ih =>
      dsimp only
      rw [hagree k c reach]
      cases hr : level.read k c with
      | error e => rfl
      | ok r => exact ih r (hlevel k hr)

/-- An excess of nesting comes from below. -/
theorem fault_ne (h : Course m Q f) (hlevel : level.Advances)
    (hbelow : ∀ k c e, k.reach c < m → level.read k c = .error e → ∀ limit, e.fault ≠ .tooDeep limit)
    {e : Failure} (he : f level = .error e) (limit : Nat) : e.fault ≠ .tooDeep limit := by
  induction h with
  | ok => cases he
  | error fault =>
      cases he
      exact fault limit
  | @nest k c f reach _ ih =>
      dsimp only at he
      cases hr : level.read k c with
      | error e' =>
          rw [hr] at he
          cases he
          exact hbelow k c e reach hr limit
      | ok r =>
          rw [hr] at he
          exact ih r (hlevel k hr) he

end Grammar.Course

namespace Level

/-- The level that nests without a limit: it opens as many levels as there can be. -/
def unlimited (ρ : ProviderId) : Level where
  statement c := (ofBudget ρ 0 (Opening.reach .statement c + 1)).statement c
  expression c := (ofBudget ρ 0 (Opening.reach .expression c + 1)).expression c
  exponent c := (ofBudget ρ 0 (Opening.reach .exponent c + 1)).exponent c
  unary c := (ofBudget ρ 0 (Opening.reach .unary c + 1)).unary c

/-- A production without a limit is the one that opens as many levels as it can reach. -/
theorem unlimited_read (k : Opening) (c : Cursor) :
    (unlimited ρ).read k c = (ofBudget ρ 0 (k.reach c + 1)).read k c := by
  cases k <;> rfl

theorem advances_unlimited : (unlimited ρ).Advances := by
  intro k c r h
  rw [unlimited_read] at h
  exact advances_ofBudget _ _ k h

/-- A budget beyond the reach of a production does not show. -/
theorem ofBudget_read {k : Opening} {c : Cursor} {n : Nat} (limit : Nat) (h : k.reach c < n) :
    (ofBudget ρ limit n).read k c = (unlimited ρ).read k c := by
  -- induction on the reach, which is smaller for each production nested in this one
  generalize hreach : k.reach c = reach at h
  induction reach using Nat.strongRecOn generalizing k c n limit with
  | ind reach ih =>
      obtain ⟨n, rfl⟩ := Nat.exists_eq_add_of_lt h
      rw [unlimited_read, hreach]
      refine (k.course c).congr (advances_ofBudget 0 reach) fun k' c' hlt => ?_
      rw [hreach] at hlt
      rw [ih _ hlt limit rfl (by omega), ih _ hlt 0 rfl hlt]

/-- One level more makes no difference where there is no limit. -/
theorem deepen_unlimited : (unlimited ρ).deepen ρ = unlimited ρ := by
  refine eq_of_read fun k c => ?_
  rw [unlimited_read]
  exact (k.course c).congr (advances_ofBudget 0 _) fun k' c' hlt => (ofBudget_read 0 hlt).symm

/-- There is one level only that is the level above itself. -/
theorem deepen_eq_iff {level : Level} : level.deepen ρ = level ↔ level = unlimited ρ := by
  constructor
  · intro h
    refine eq_of_read fun k c => ?_
    generalize hreach : k.reach c = reach
    induction reach using Nat.strongRecOn generalizing k c with
    | ind reach ih =>
        rw [← h, ← deepen_unlimited]
        refine (k.course c).congr advances_unlimited fun k' c' hlt => ?_
        exact ih _ (hreach ▸ hlt) k' c' rfl
  · rintro rfl
    exact deepen_unlimited

/-- Without a limit nothing is refused as nested too deep. -/
theorem unlimited_fault_ne {k : Opening} {c : Cursor} {e : Failure}
    (h : (unlimited ρ).read k c = .error e) (limit : Nat) : e.fault ≠ .tooDeep limit := by
  generalize hreach : k.reach c = reach
  induction reach using Nat.strongRecOn generalizing k c e limit with
  | ind reach ih =>
      rw [← deepen_unlimited] at h
      refine (k.course c).fault_ne advances_unlimited (fun k' c' e' hlt he' limit' => ?_) h limit
      exact ih _ (hreach ▸ hlt) he' limit' rfl

/-- The level that refuses one production at one cursor, and nests without a limit elsewhere. -/
def refusing (ρ : ProviderId) (k : Opening) (c : Cursor) (e : Failure) : Level where
  statement c' := if k = .statement ∧ c = c' then .error e else (unlimited ρ).statement c'
  expression c' := if k = .expression ∧ c = c' then .error e else (unlimited ρ).expression c'
  exponent c' := if k = .exponent ∧ c = c' then .error e else (unlimited ρ).exponent c'
  unary c' := if k = .unary ∧ c = c' then .error e else (unlimited ρ).unary c'

/-- A refusal at one place changes nothing elsewhere. -/
theorem refusing_read (k : Opening) (c : Cursor) (e : Failure) (k' : Opening) (c' : Cursor) :
    (refusing ρ k c e).read k' c' = if k = k' ∧ c = c' then .error e else (unlimited ρ).read k' c' := by
  cases k' <;> rfl

end Level

/-! ## Productions that are open at once -/

namespace Grammar

variable {α : Type}

/-- A reading without a limit comes to open a production at a cursor. Since it ends with the first
refusal that it gets, this is the case exactly if it ends with any refusal that is put there. -/
def Enters (ρ : ProviderId) (f : Level → Except Failure α) (k : Opening) (c : Cursor) : Prop :=
  ∀ e, f (Level.refusing ρ k c e) = .error e

/-- In a reading without a limit, `n` productions are open at once at some time: each is opened by
the one before. -/
def Nests (ρ : ProviderId) : (n : Nat) → {α : Type} → (Level → Except Failure α) → Prop
  | 0, _, _ => True
  | n + 1, _, f => ∃ k c, Enters ρ f k c ∧ Nests ρ n (fun level => (level.deepen ρ).read k c)

theorem not_enters_ok {a : α} {k : Opening} {c : Cursor} : ¬ Enters ρ (fun _ => .ok a) k c :=
  fun h => nomatch h ⟨.unexpectedEnd, 0⟩

theorem not_enters_error {e : Failure} {k : Opening} {c : Cursor} :
    ¬ Enters ρ (α := α) (fun _ => .error e) k c := by
  intro h
  have hzero := Except.error.inj (h ⟨.unexpectedEnd, 0⟩)
  have hone := Except.error.inj (h ⟨.unexpectedEnd, 1⟩)
  cases hzero.symm.trans hone

/-- A reading opens the production that it nests first, and what it goes on to open behind it. -/
theorem enters_nest_iff {k k' : Opening} {c c' : Cursor}
    {f : Node × Cursor → Level → Except Failure α} :
    Enters ρ (fun level => level.read k c >>= fun r => f r level) k' c'
      ↔ (k' = k ∧ c' = c) ∨ ∃ r, (Level.unlimited ρ).read k c = .ok r ∧ Enters ρ (f r) k' c' := by
  by_cases hsame : k' = k ∧ c' = c
  · refine ⟨fun _ => .inl hsame, fun _ e => ?_⟩
    show (Level.refusing ρ k' c' e).read k c >>= _ = _
    rw [Level.refusing_read, if_pos hsame]
    rfl
  · simp only [Enters, Level.refusing_read, hsame, if_false, false_or]
    -- elsewhere, the first production is read as ever
    cases (Level.unlimited ρ).read k c with
    | error e =>
        refine ⟨fun h => absurd h (not_enters_error (ρ := ρ) (k := k') (c := c')), ?_⟩
        rintro ⟨r, hr, -⟩
        cases hr
    | ok r =>
        constructor
        · intro h
          exact ⟨r, rfl, h⟩
        · rintro ⟨r', hr, h⟩
          cases hr
          exact h

/-- The deepest productions are open below the next one that a course takes, or later on. -/
theorem nests_nest_iff {n : Nat} {k : Opening} {c : Cursor}
    {f : Node × Cursor → Level → Except Failure α} :
    Nests ρ (n + 1) (fun level => level.read k c >>= fun r => f r level)
      ↔ Nests ρ n (fun level => (level.deepen ρ).read k c)
        ∨ ∃ r, (Level.unlimited ρ).read k c = .ok r ∧ Nests ρ (n + 1) (f r) := by
  constructor
  · rintro ⟨k', c', henters, hnests⟩
    rcases enters_nest_iff.mp henters with ⟨rfl, rfl⟩ | ⟨r, hr, henters⟩
    · exact .inl hnests
    · exact .inr ⟨r, hr, k', c', henters, hnests⟩
  · rintro (hnests | ⟨r, hr, k', c', henters, hnests⟩)
    · exact ⟨k, c, enters_nest_iff.mpr (.inl ⟨rfl, rfl⟩), hnests⟩
    · exact ⟨k', c', enters_nest_iff.mpr (.inr ⟨r, hr, henters⟩), hnests⟩

/-- Where many productions are open at once, so are fewer. -/
theorem Nests.of_le {n m : Nat} {f : Level → Except Failure α} (h : Nests ρ m f) (hle : n ≤ m) :
    Nests ρ n f := by
  induction n generalizing m α f with
  | zero => trivial
  | succ n ih =>
      obtain ⟨m, rfl⟩ := Nat.exists_eq_add_of_lt hle
      obtain ⟨k, c, henters, hnests⟩ := h
      exact ⟨k, c, henters, ih hnests (by omega)⟩

/-! ## Reading within a limit -/

/-- A budget refuses a reading that opens more productions at once, and changes nothing for others. -/
structure Guarded (ρ : ProviderId) (limit n : Nat) (f : Level → Except Failure α) : Prop where
  refused : Nests ρ (n + 1) f → ∃ i, f (Level.ofBudget ρ limit n) = .error ⟨.tooDeep limit, i⟩
  unchanged : ¬ Nests ρ (n + 1) f → f (Level.ofBudget ρ limit n) = f (.unlimited ρ)

/-- The same for a production of the level itself, which is the first of those that are open. -/
structure GuardedRead (ρ : ProviderId) (limit n : Nat) (k : Opening) (c : Cursor) : Prop where
  refused : Nests ρ n (fun level => (level.deepen ρ).read k c) →
    ∃ i, (Level.ofBudget ρ limit n).read k c = .error ⟨.tooDeep limit, i⟩
  unchanged : ¬ Nests ρ n (fun level => (level.deepen ρ).read k c) →
    (Level.ofBudget ρ limit n).read k c = (Level.unlimited ρ).read k c

/-- A course is guarded if the productions that it takes are. -/
theorem Course.guarded_of_read {m : Nat} {Q : α → Prop} {f : Level → Except Failure α}
    (h : Course m Q f) {limit n : Nat} (hread : ∀ k c, GuardedRead ρ limit n k c) :
    Guarded ρ limit n f := by
  induction h with
  | ok =>
      refine ⟨?_, fun _ => rfl⟩
      rintro ⟨k, c, henters, -⟩
      exact absurd henters not_enters_ok
  | error =>
      refine ⟨?_, fun _ => rfl⟩
      rintro ⟨k, c, henters, -⟩
      exact absurd henters not_enters_error
  | @nest k c f reach _ ih =>
      have hdeep : Nests ρ n (fun level => (level.deepen ρ).read k c) →
          ∃ i, ((Level.ofBudget ρ limit n).read k c >>= fun r => f r (Level.ofBudget ρ limit n))
            = .error ⟨.tooDeep limit, i⟩ := by
        intro hnests
        obtain ⟨i, hi⟩ := (hread k c).refused hnests
        exact ⟨i, by rw [hi]; rfl⟩
      constructor
      · intro hnests
        -- too many are open below this production, or else this one is read as without a limit
        by_cases hbelow : Nests ρ n (fun level => (level.deepen ρ).read k c)
        · exact hdeep hbelow
        · obtain ⟨r, hr, hnests⟩ := (nests_nest_iff.mp hnests).resolve_left hbelow
          rw [(hread k c).unchanged hbelow, hr]
          exact (ih r (Level.advances_unlimited k hr)).refused hnests
      · intro hnests
        obtain ⟨hbelow, hbehind⟩ := not_or.mp (mt nests_nest_iff.mpr hnests)
        rw [(hread k c).unchanged hbelow]
        cases hr : (Level.unlimited ρ).read k c with
        | error e => rfl
        | ok r =>
            refine (ih r (Level.advances_unlimited k hr)).unchanged fun hnests => ?_
            exact hbehind ⟨r, hr, hnests⟩

/-- Productions are guarded, by induction on how many more may be opened. -/
theorem guardedRead (limit n : Nat) (k : Opening) (c : Cursor) : GuardedRead ρ limit n k c := by
  induction n generalizing k c with
  | zero =>
      refine ⟨fun _ => ?_, fun h => absurd trivial h⟩
      cases k <;> exact ⟨c.index, rfl⟩
  | succ n ih =>
      obtain ⟨hrefused, hunchanged⟩ := (k.course c).guarded_of_read ih
      refine ⟨hrefused, fun hnests => ?_⟩
      rw [← Level.deepen_unlimited]
      exact hunchanged hnests

/-- So every course is guarded. -/
theorem Course.guarded {m : Nat} {Q : α → Prop} {f : Level → Except Failure α}
    (h : Course m Q f) (limit n : Nat) : Guarded ρ limit n f :=
  h.guarded_of_read (guardedRead limit n)

end Grammar

/-! ## Whole texts -/

/-- A whole program is a course, within the reach of all its tokens. -/
theorem readProgram_course (tokens : List Token) :
    Course (2 * tokens.length + 2) (fun _ => True) (Level.readProgram · tokens) :=
  .bind (statementList_course (Nat.lt_succ_self _)) fun _ _ => .ok trivial

/-- No lexeme is refused for its nesting. -/
theorem Refused.kind_ne {text : Text} {fault : Fault} (h : Refused text fault) :
    fault.kind ≠ .expressionTooComplex := by
  cases h <;> exact FaultKind.noConfusion

namespace Formula

/-- While a text is read without a limit, `n` productions are open at once at some time. -/
def NestsIn (ρ : ProviderId) (source : Text) (n : Nat) : Prop :=
  ∃ tokens, tokenize source = .ok tokens ∧ Nests ρ n (Level.readProgram · (tokens.map (·.toToken)))

/-- A text is refused as too complex. -/
def IsTooComplex (result : Except ParseError Formula) : Prop :=
  ∃ e, result = .error e ∧ e.fault.kind = .expressionTooComplex

/-- Where many productions are open at once in a text, so are fewer. -/
theorem NestsIn.of_le {source : Text} {n m : Nat} (h : NestsIn ρ source m) (hle : n ≤ m) :
    NestsIn ρ source n := by
  obtain ⟨tokens, htokens, hnests⟩ := h
  exact ⟨tokens, htokens, hnests.of_le hle⟩

/-- A text without tokens is refused on every level for the same cause. -/
theorem parseAt_of_error {source : Text} {e : ParseError} (h : tokenize source = .error e)
    (level : Level) : parseAt level source = .error e := by
  rw [parseAt, h]
  rfl

/-- A limit that is not exceeded changes nothing. -/
theorem parseWithin_eq_unlimited {source : Text} {n : Nat} (h : ¬ NestsIn ρ source (n + 1)) :
    parseWithin ρ n source = parseAt (.unlimited ρ) source := by
  rw [parseWithin]
  cases htokens : tokenize source with
  | error e => rw [parseAt_of_error htokens, parseAt_of_error htokens]
  | ok tokens =>
      have hguarded : Guarded ρ n n (Level.readProgram · (tokens.map (·.toToken))) :=
        (readProgram_course _).guarded n n
      have hread := hguarded.unchanged fun hnests => h ⟨tokens, htokens, hnests⟩
      rw [parseAt, parseAt, htokens, ok_bind, ok_bind, hread]

/-- A text with tokens is too complex exactly if reading its statements ends so. -/
theorem isTooComplex_iff {source : Text} {tokens : List PlacedToken}
    (h : tokenize source = .ok tokens) (level : Level) :
    IsTooComplex (parseAt level source)
      ↔ ∃ limit i, level.readProgram (tokens.map (·.toToken)) = .error ⟨.tooDeep limit, i⟩ := by
  rw [parseAt, h, ok_bind]
  cases level.readProgram (tokens.map (·.toToken)) with
  | ok result =>
      constructor
      · rintro ⟨e, he, -⟩
        cases he
      · rintro ⟨limit, i, hi⟩
        cases hi
  | error e =>
      obtain ⟨fault, i⟩ := e
      constructor
      · rintro ⟨e, he, hkind⟩
        cases he
        cases fault with
        | tooDeep limit => exact ⟨limit, i, rfl⟩
        | _ => cases hkind
      · rintro ⟨limit, i, hi⟩
        cases hi
        exact ⟨_, rfl, rfl⟩

/-- Without a limit, no text is too complex. -/
theorem not_isTooComplex_unlimited (source : Text) :
    ¬ IsTooComplex (parseAt (.unlimited ρ) source) := by
  cases htokens : tokenize source with
  | error e =>
      have hrefused := (scanFrom_eq_error_iff.mp (tokenize_eq_error_iff.mp htokens).2).2
      rw [parseAt_of_error htokens]
      rintro ⟨e', he', hkind⟩
      cases he'
      exact hrefused.kind_ne hkind
  | ok tokens =>
      rw [isTooComplex_iff htokens]
      rintro ⟨limit, i, hi⟩
      exact (readProgram_course _).fault_ne Level.advances_unlimited
        (fun _ _ _ _ he => Level.unlimited_fault_ne he) hi limit rfl

/-- A text that opens more productions at once than the limit is refused as too complex. -/
theorem isTooComplex_of_nestsIn {source : Text} {n : Nat} (h : NestsIn ρ source (n + 1)) :
    IsTooComplex (parseWithin ρ n source) := by
  obtain ⟨tokens, htokens, hnests⟩ := h
  exact (isTooComplex_iff htokens _).mpr
    ⟨n, ((readProgram_course _).guarded n n).refused hnests⟩

/-- The limit on nested productions turns results into refusals for an excess of nesting, and does
nothing else. A text that is not refused so under a limit gives the same result under every higher
limit, and without one. It is refused so exactly if more productions than the limit are open at once
when the text is read without a limit, by the one level whose productions nest into themselves. -/
theorem guard_only_refuses (source : Text) (n : Nat) :
    (∀ level : Level, level.deepen ρ = level ↔ level = .unlimited ρ)
      ∧ (¬ IsTooComplex (parseWithin ρ n source) →
        parseAt (.unlimited ρ) source = parseWithin ρ n source
          ∧ ∀ m, n ≤ m → parseWithin ρ m source = parseWithin ρ n source)
      ∧ (IsTooComplex (parseWithin ρ n source) ↔ NestsIn ρ source (n + 1)) := by
  refine ⟨fun level => Level.deepen_eq_iff, ?_, ?_, isTooComplex_of_nestsIn⟩
  · intro hcomplex
    have hnests : ¬ NestsIn ρ source (n + 1) := mt isTooComplex_of_nestsIn hcomplex
    rw [parseWithin_eq_unlimited hnests]
    refine ⟨rfl, fun m hle => parseWithin_eq_unlimited fun h => hnests ?_⟩
    exact h.of_le (Nat.succ_le_succ hle)
  · intro hcomplex
    refine Classical.byContradiction fun hnests => ?_
    rw [parseWithin_eq_unlimited hnests] at hcomplex
    exact not_isTooComplex_unlimited source hcomplex

example : parseWithin ⟨0⟩ 3 (Text.ofString "((1))")
    = .error ⟨.tooDeep 3, Text.ofString "((1))", 2⟩ := by
  rfl

end Formula

end Formulary
