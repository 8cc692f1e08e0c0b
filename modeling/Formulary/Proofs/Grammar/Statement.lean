import Formulary.Proofs.Grammar.Expression

/-!
# Reading statements

Each production of a statement reads exactly its phrases, given that the productions one level
further in do. Lists of statements are read by a loop that skips semicolons.

- `statementList_sound` and `statementList_complete` are the loop.
- `statement_reads` puts the forms of a statement together.
-/

namespace Formulary

namespace Cursor

variable {i : Nat} {r : List Token} {s : Scope}

/-! ## Semicolons -/

theorem skipSemicolons_semicolon {t : Token} (h : t.lexeme = .mark .semicolon) :
    skipSemicolons ⟨i, t :: r, s⟩ = skipSemicolons ⟨i + 1, r, s⟩ := by
  simp only [skipSemicolons, semicolons, List.takeWhile_cons, h, decide_true, if_true,
    List.length_cons, List.drop_succ_cons]
  rw [Nat.add_assoc, Nat.add_comm 1]

/-- In front of another token nothing is skipped. -/
theorem skipSemicolons_of_ne (h : lexeme ⟨i, r, s⟩ ≠ .mark .semicolon) :
    skipSemicolons ⟨i, r, s⟩ = ⟨i, r, s⟩ := by
  cases r with
  | nil => rfl
  | cons t r =>
      have ht : t.lexeme ≠ .mark .semicolon := h
      simp [skipSemicolons, semicolons, ht]

/-- Skipping takes semicolons only. -/
theorem exists_skipSemicolons (i : Nat) (r : List Token) (s : Scope) :
    ∃ semis rest, r = semis ++ rest ∧ (∀ t ∈ semis, t.lexeme = .mark .semicolon)
      ∧ skipSemicolons ⟨i, r, s⟩ = ⟨i + semis.length, rest, s⟩ := by
  induction r generalizing i with
  | nil => exact ⟨[], [], rfl, fun _ h => (nomatch h), rfl⟩
  | cons t r ih =>
      by_cases ht : t.lexeme = .mark .semicolon
      · obtain ⟨semis, rest, rfl, hsemis, heq⟩ := ih (i + 1)
        refine ⟨t :: semis, rest, rfl, ?_, ?_⟩
        · intro u hu
          rcases List.mem_cons.mp hu with rfl | hu
          · exact ht
          · exact hsemis u hu
        · rw [skipSemicolons_semicolon ht, heq, List.length_cons, Nat.add_assoc, Nat.add_comm 1]
      · exact ⟨[], t :: r, rfl, fun _ h => (nomatch h), skipSemicolons_of_ne ht⟩

theorem length_skipSemicolons_le (i : Nat) (r : List Token) (s : Scope) :
    (skipSemicolons ⟨i, r, s⟩).rest.length ≤ r.length := by
  obtain ⟨semis, rest, rfl, -, heq⟩ := exists_skipSemicolons i r s
  rw [heq, List.length_append]
  exact Nat.le_add_left _ _

end Cursor

namespace Grammar

variable {ρ : ProviderId} {inner : Level} {n : Nat}

/-- Semicolons in front of a list of statements leave its trees as they are. -/
theorem Derives.semicolons {d : Nat} {semis ts rest : List Token} {nodes : List Node}
    (hsemis : ∀ t ∈ semis, t.lexeme = .mark .semicolon)
    (h : Derives ρ d .statements ts nodes rest) : Derives ρ d .statements (semis ++ ts) nodes rest := by
  induction semis with
  | nil => exact h
  | cons t semis ih =>
      exact .semicolon (hsemis t List.mem_cons_self)
        (ih (fun u hu => hsemis u (List.mem_cons_of_mem t hu)))

/-! ## Lists of statements -/

/-- What the loop over statements accepts is a list of statements before a lexeme that ends it. -/
theorem statements_sound {p : Production} (hp : Reads ρ p n .statement) (ends : Lexeme → Bool) :
    ∀ (fuel i : Nat) (r : List Token) (s : Scope) (nodes : List Node) (c : Cursor),
      r.length < fuel → statements p ends fuel ⟨i, r, s⟩ = .ok (nodes, c) →
        ∃ d, d ≤ n ∧ ∃ ts rest, r = ts ++ rest ∧ Derives ρ d .statements ts nodes rest
          ∧ ends c.lexeme = true ∧ c = ⟨i + ts.length, rest, s.visitAll nodes⟩ := by
  intro fuel
  induction fuel with
  | zero => intro i r s nodes c hfuel; exact absurd hfuel (Nat.not_lt_zero _)
  | succ fuel ih =>
      intro i r s nodes c hfuel h
      rw [statements] at h
      split at h
      · rename_i hends
        cases h
        exact ⟨0, Nat.zero_le _, [], r, rfl, .none, hends, rfl⟩
      · obtain ⟨⟨first, c₁⟩, hfirst, h⟩ := bind_eq_ok_iff.mp h
        obtain ⟨d, hd, ts, rest, rfl, hder, rfl⟩ := hp.sound hfirst
        obtain ⟨⟨others, c₂⟩, hothers, h⟩ := bind_eq_ok_iff.mp h
        cases h
        obtain ⟨semis, us, rfl, hsemis, heq⟩ :=
          Cursor.exists_skipSemicolons (i + ts.length) rest (s.visit first)
        rw [heq] at hothers
        have hlen : us.length < fuel := by
          obtain ⟨t, us', rfl, -⟩ := hder.statement_opens
          simp only [List.length_append, List.length_cons] at hfuel
          omega
        obtain ⟨e, he, us, rest, rfl, hder', hends, rfl⟩ := ih _ _ _ _ _ hlen hothers
        refine ⟨max (d + 1) e, by omega, ts ++ (semis ++ us), rest, by simp, ?_, hends, ?_⟩
        · rw [← List.append_assoc] at hder
          exact .cons hder (.semicolons hsemis hder')
        · simp only [List.length_append, Scope.visitAll_cons]
          rw [show i + (ts.length + (semis.length + us.length))
            = i + ts.length + semis.length + us.length by omega]

/-- Lists of statements end where no statement begins. -/
def Closes (ends : Lexeme → Bool) : Prop :=
  ∀ l, ends l = true → l ≠ .mark .semicolon ∧ ¬ (Opens l ∨ l = .mark .openBrace)

/-- No statement begins at the end of the text. -/
theorem closes_endsProgram : Closes endsProgram := by
  intro l h
  rw [of_decide_eq_true h]
  refine ⟨Lexeme.noConfusion, ?_⟩
  rintro (h | h) <;> exact nomatch h

/-- No statement begins at a closing brace, or at the end of the text. -/
theorem closes_endsBlock : Closes endsBlock := by
  intro l h
  rcases Bool.or_eq_true_iff.mp h with h | h
  · rw [of_decide_eq_true h]
    refine ⟨fun h => (nomatch h), ?_⟩
    rintro (h | h) <;> exact nomatch h
  · rw [of_decide_eq_true h]
    refine ⟨Lexeme.noConfusion, ?_⟩
    rintro (h | h) <;> exact nomatch h

/-- A statement does not begin with a semicolon. -/
theorem Derives.lexeme_ne_semicolon {d : Nat} {ts rest : List Token} {nodes : List Node}
    (h : Derives ρ d .statement ts nodes rest) (i : Nat) (s : Scope) :
    Cursor.lexeme ⟨i, ts ++ rest, s⟩ ≠ .mark .semicolon := by
  obtain ⟨t, us, rfl, ht⟩ := h.statement_opens
  intro hsemi
  have ht' : t.lexeme = .mark .semicolon := hsemi
  rw [ht'] at ht
  rcases ht with ht | ht <;> exact nomatch ht

/-- In front of a statement, the loop over statements reads it and goes on behind its semicolons. -/
theorem statements_cons {p : Production} {ends : Lexeme → Bool} (hcloses : Closes ends) {d : Nat}
    {ts rest : List Token} {node : Node} (h : Derives ρ d .statement ts [node] rest)
    (i fuel : Nat) (s : Scope) :
    statements p ends (fuel + 1) (Cursor.skipSemicolons ⟨i, ts ++ rest, s⟩)
      = (do
        let (first, c) ← p ⟨i, ts ++ rest, s⟩
        let (others, c) ← statements p ends fuel c.skipSemicolons
        return (first :: others, c)) := by
  have hsemi := h.lexeme_ne_semicolon i s
  obtain ⟨t, us, rfl, ht⟩ := h.statement_opens
  have hopen : ¬ ends (Cursor.lexeme ⟨i, t :: us ++ rest, s⟩) = true :=
    fun hends => (hcloses _ hends).2 ht
  rw [Cursor.skipSemicolons_of_ne hsemi, statements, if_neg hopen]

/-- Behind a statement fewer tokens remain, also when its semicolons are skipped. -/
theorem length_skipSemicolons_lt {d i j fuel : Nat} {ts rest : List Token} {node : Node}
    {s s' : Scope} (h : Derives ρ d .statement ts [node] rest)
    (hfuel : (Cursor.skipSemicolons ⟨i, ts ++ rest, s⟩).rest.length < fuel + 1) :
    (Cursor.skipSemicolons ⟨j, rest, s'⟩).rest.length < fuel := by
  have hle := Cursor.length_skipSemicolons_le j rest s'
  rw [Cursor.skipSemicolons_of_ne (h.lexeme_ne_semicolon i s)] at hfuel
  obtain ⟨t, us, rfl, -⟩ := h.statement_opens
  simp only [List.length_append, List.length_cons] at hfuel
  omega

/-- A list of statements before a lexeme that ends it is what the loop over statements accepts. -/
theorem statements_complete {p : Production} (hp : Reads ρ p n .statement) {ends : Lexeme → Bool}
    (hcloses : Closes ends) {d : Nat} {k : Category} {ts rest : List Token} {nodes : List Node}
    (h : Derives ρ d k ts nodes rest) (hk : k = .statements) (hd : d ≤ n) (i fuel : Nat) (s : Scope)
    (hends : ends (Cursor.lexeme ⟨i, rest, s⟩) = true)
    (hfuel : (Cursor.skipSemicolons ⟨i, ts ++ rest, s⟩).rest.length < fuel) :
    statements p ends fuel (Cursor.skipSemicolons ⟨i, ts ++ rest, s⟩)
      = .ok (nodes, ⟨i + ts.length, rest, s.visitAll nodes⟩) := by
  induction h generalizing i fuel s with
  | none =>
      rw [List.nil_append, Cursor.skipSemicolons_of_ne (hcloses _ hends).1] at hfuel ⊢
      cases fuel with
      | zero => exact absurd hfuel (Nat.not_lt_zero _)
      | succ fuel =>
          rw [statements, if_pos hends]
          rfl
  | @semicolon d t ts nodes rest mark others ih =>
      rw [List.cons_append, Cursor.skipSemicolons_semicolon mark] at hfuel ⊢
      rw [ih rfl hd (i + 1) fuel s hends hfuel, List.length_cons, Nat.add_assoc, Nat.add_comm 1]
  | @cons d e ts us node nodes rest first others _ ih =>
      rw [List.append_assoc] at hfuel ⊢
      cases fuel with
      | zero => exact absurd hfuel (Nat.not_lt_zero _)
      | succ fuel =>
          rw [statements_cons hcloses first, hp.complete (by omega) first, ok_bind]
          dsimp only
          rw [ih rfl (by omega) (i + ts.length) fuel (s.visit node) hends
              (length_skipSemicolons_lt first hfuel),
            ok_bind, Scope.visitAll_cons, List.length_append, Nat.add_assoc]
          rfl
  | _ => cases hk

/-- What is read as all statements up to a lexeme is a list of statements in front of it. -/
theorem statementList_sound (hin : inner.Reads ρ n) {ends : Lexeme → Bool} {i : Nat}
    {r : List Token} {s : Scope} {nodes : List Node} {c : Cursor}
    (h : statementList inner ends ⟨i, r, s⟩ = .ok (nodes, c)) :
    ∃ d, d ≤ n ∧ ∃ ts rest, r = ts ++ rest ∧ Derives ρ d .statements ts nodes rest
      ∧ ends c.lexeme = true ∧ c = ⟨i + ts.length, rest, s.visitAll nodes⟩ := by
  obtain ⟨semis, rest, rfl, hsemis, heq⟩ := Cursor.exists_skipSemicolons i r s
  rw [statementList, heq] at h
  obtain ⟨d, hd, ts, rest, rfl, hder, hends, rfl⟩ :=
    statements_sound hin.statement ends _ _ _ _ _ _ (Nat.lt_succ_self _) h
  refine ⟨d, hd, semis ++ ts, rest, by simp, .semicolons hsemis hder, hends, ?_⟩
  rw [List.length_append, Nat.add_assoc]

/-- A list of statements in front of a lexeme that ends it is read, and the loop has steps enough.
-/
theorem statementList_complete (hin : inner.Reads ρ n) {ends : Lexeme → Bool}
    (hcloses : Closes ends) {i d : Nat} {ts rest : List Token} {s : Scope} {nodes : List Node}
    (hd : d ≤ n) (h : Derives ρ d .statements ts nodes rest)
    (hends : ends (Cursor.lexeme ⟨i, rest, s⟩) = true) :
    statementList inner ends ⟨i, ts ++ rest, s⟩
      = .ok (nodes, ⟨i + ts.length, rest, s.visitAll nodes⟩) :=
  statements_complete hin.statement hcloses h rfl hd i _ s hends (Nat.lt_succ_self _)

/-! ## Forms of a statement -/

theorem lexeme_of_isLet {l : Lexeme} (h : l.isLet) : l = .name (Text.ofString "let") :=
  of_decide_eq_true h

theorem lexeme_of_isIf {l : Lexeme} (h : l.isIf) : l = .name (Text.ofString "if") :=
  of_decide_eq_true h

theorem lexeme_of_isElse {l : Lexeme} (h : l.isElse) : l = .name (Text.ofString "else") :=
  of_decide_eq_true h

/-- The words of the language differ. -/
theorem not_isLet_of_isIf {l : Lexeme} (h : l.isIf) : ¬ l.isLet := by
  rw [lexeme_of_isIf h]
  decide

/-- What is read as a declaration is one, with a first value or without. -/
theorem declaration_sound (hin : inner.Reads ρ n) {l : Token} {i : Nat} {r : List Token}
    {s : Scope} {node : Node} {c : Cursor} (hl : l.lexeme.isLet)
    (h : declaration inner ⟨i, l :: r, s⟩ = .ok (node, c)) :
    ∃ d, d ≤ n ∧ ∃ ts rest, l :: r = ts ++ rest ∧ Derives ρ d .statement ts [node] rest
      ∧ c = ⟨i + ts.length, rest, s.visit node⟩ := by
  rw [declaration] at h
  dsimp only at h
  rw [Cursor.advance_cons (lexeme_of_isLet hl) (by simp)] at h
  split at h
  · rename_i name hname
    obtain ⟨t, r, rfl, ht⟩ := (Cursor.lexeme_eq_iff (by simp)).mp hname
    rw [Cursor.advance_cons ht (by simp), Cursor.bind] at h
    split at h
    · rename_i hjoin
      obtain ⟨o, r, rfl, ho⟩ := (Cursor.joining?_iff.mp hjoin).cons_of
      rw [Cursor.advance_cons ho.1 (by simp)] at h
      obtain ⟨⟨value, c₁⟩, hvalue, h⟩ := bind_eq_ok_iff.mp h
      obtain ⟨d, hd, ts, rest, rfl, hder, rfl⟩ := hin.expression.sound hvalue
      cases h
      refine ⟨d + 1, hd, l :: t :: o :: ts, rest, rfl, .declareAs hl ht ho hder, ?_⟩
      simp only [List.length_cons, Scope.visit]
      rw [show i + (ts.length + 1 + 1 + 1) = i + 1 + 1 + 1 + ts.length by omega]
    · rename_i hjoin
      cases h
      refine ⟨0, Nat.zero_le _, [l, t], r, rfl, .declare hl ht ?_, by rw [Scope.visit]; rfl⟩
      exact fun hc => hjoin (Cursor.joining?_iff.mpr hc)
  · cases h

/-- A declaration without a first value is read. -/
theorem declaration_declare {l t : Token} {name : Text} {i : Nat} {rest : List Token} {s : Scope}
    (hl : l.lexeme.isLet) (ht : t.lexeme = .name name)
    (hends : ¬ Continues rest (.operator .assign)) :
    declaration inner ⟨i, l :: t :: rest, s⟩
      = .ok (.declare name, ⟨i + 1 + 1, rest, s.visit (.declare name)⟩) := by
  rw [declaration]
  dsimp only
  rw [Cursor.advance_cons (lexeme_of_isLet hl) (by simp), Cursor.lexeme_cons, ht]
  dsimp only
  rw [Cursor.advance_cons ht (by simp), Cursor.bind,
    if_neg (fun h => hends (Cursor.joining?_iff.mp h)), Scope.visit]

/-- A declaration with a first value is read. -/
theorem declaration_declareAs (hin : inner.Reads ρ n) {l t o : Token} {name : Text} {value : Node}
    {i d : Nat} {ts rest : List Token} {s : Scope} (hd : d < n) (hl : l.lexeme.isLet)
    (ht : t.lexeme = .name name) (ho : o.Joins (.operator .assign))
    (hvalue : Derives ρ d .expression ts [value] rest) :
    declaration inner ⟨i, l :: t :: o :: (ts ++ rest), s⟩
      = .ok (.declareAs name value,
        ⟨i + (ts.length + 1 + 1 + 1), rest, s.visit (.declareAs name value)⟩) := by
  rw [declaration]
  dsimp only
  rw [Cursor.advance_cons (lexeme_of_isLet hl) (by simp), Cursor.lexeme_cons, ht]
  dsimp only
  rw [Cursor.advance_cons ht (by simp), Cursor.bind, Cursor.token_cons,
    if_pos (Token.joining?_eq_some_iff.mpr ho), Cursor.advance_cons ho.1 (by simp),
    hin.expression.complete hd hvalue, ok_bind, Scope.visit,
    show i + (ts.length + 1 + 1 + 1) = i + 1 + 1 + 1 + ts.length by omega]
  rfl

/-- The other statement of a conditional opens behind at most one semicolon. -/
theorem opensElse_iff {r : List Token} :
    OpensElse r ↔ ∃ seps w rest, Separator seps ∧ w.lexeme.isElse ∧ r = seps ++ w :: rest := by
  constructor
  · intro h
    match r, h with
    | [t], h => exact ⟨[], t, [], trivial, h, rfl⟩
    | t :: u :: r, .inl h => exact ⟨[], t, u :: r, trivial, h, rfl⟩
    | t :: u :: r, .inr ⟨ht, hu⟩ => exact ⟨[t], u, r, ht, hu, rfl⟩
  · rintro ⟨seps, w, rest, hseps, hw, rfl⟩
    match seps, hseps, rest with
    | [], _, [] => exact hw
    | [], _, _ :: _ => exact .inl hw
    | [t], ht, _ => exact .inr ⟨ht, hw⟩

/-- The semicolon in front of another statement is skipped. -/
theorem skipBeforeElse_of_separator {i : Nat} {s : Scope} {seps rest : List Token} {w : Token}
    (hseps : Separator seps) (hw : w.lexeme.isElse) :
    skipBeforeElse ⟨i, seps ++ w :: rest, s⟩ = ⟨i + seps.length, w :: rest, s⟩ := by
  match seps, hseps with
  | [], _ =>
      have hne : ¬ (w.lexeme = .mark .semicolon) := by
        rw [lexeme_of_isElse hw]
        exact Lexeme.noConfusion
      simp [skipBeforeElse, hne]
  | [t], ht =>
      have ht' : t.lexeme = .mark .semicolon := ht
      have hfollowing : (Cursor.following ⟨i, t :: w :: rest, s⟩).lexeme.isElse := hw
      rw [List.singleton_append, skipBeforeElse, Cursor.lexeme_cons, ht', hfollowing,
        if_pos (by simp), Cursor.advance_cons ht' (by simp)]
      rfl

/-- Where no other statement opens, nothing is skipped and the word is not found. -/
theorem skipBeforeElse_of_not {i : Nat} {s : Scope} {r : List Token} (h : ¬ OpensElse r) :
    skipBeforeElse ⟨i, r, s⟩ = ⟨i, r, s⟩ ∧ ¬ (Cursor.lexeme ⟨i, r, s⟩).isElse := by
  match r, h with
  | [], _ => exact ⟨rfl, Bool.noConfusion⟩
  | [t], h =>
      refine ⟨?_, h⟩
      have hend : (Cursor.following ⟨i, [t], s⟩).lexeme.isElse = false := rfl
      rw [skipBeforeElse, hend, Bool.and_false, if_neg Bool.noConfusion]
  | t :: u :: r, h =>
      have hno : ¬ (t.lexeme = .mark .semicolon ∧ u.lexeme.isElse) := fun hc => h (.inr hc)
      refine ⟨?_, fun hc => h (.inl hc)⟩
      have hfollowing : (Cursor.following ⟨i, t :: u :: r, s⟩) = u := rfl
      rw [skipBeforeElse, Cursor.lexeme_cons, hfollowing, if_neg (by simpa using hno)]

/-- What is read as a conditional is one, with another statement or without. -/
theorem conditional_sound (hin : inner.Reads ρ n) {w : Token} {i : Nat} {r : List Token}
    {s : Scope} {node : Node} {c : Cursor} (hw : w.lexeme.isIf)
    (h : conditional inner ⟨i, w :: r, s⟩ = .ok (node, c)) :
    ∃ d, d ≤ n ∧ ∃ ts rest, w :: r = ts ++ rest ∧ Derives ρ d .statement ts [node] rest
      ∧ c = ⟨i + ts.length, rest, s.visit node⟩ := by
  rw [conditional, Cursor.advance_cons (lexeme_of_isIf hw) (by simp)] at h
  obtain ⟨c₁, hopen, h⟩ := bind_eq_ok_iff.mp h
  obtain ⟨p, r, rfl, hp, rfl⟩ := Cursor.expect_eq_ok_iff.mp hopen
  obtain ⟨⟨condition, c₂⟩, htest, h⟩ := bind_eq_ok_iff.mp h
  obtain ⟨d, hd, ts, rest, rfl, hder, rfl⟩ := hin.expression.sound htest
  obtain ⟨c₃, hclose, h⟩ := bind_eq_ok_iff.mp h
  obtain ⟨q, r, rfl, hq, rfl⟩ := Cursor.expect_eq_ok_iff.mp hclose
  obtain ⟨⟨body, c₄⟩, hbody, h⟩ := bind_eq_ok_iff.mp h
  obtain ⟨e, he, us, rest, rfl, hder', rfl⟩ := hin.statement.sound hbody
  dsimp only at h
  by_cases helse : OpensElse rest
  · obtain ⟨seps, v, rest, hseps, hv, rfl⟩ := opensElse_iff.mp helse
    rw [skipBeforeElse_of_separator hseps hv, Cursor.lexeme_cons, if_pos hv,
      Cursor.advance_cons (lexeme_of_isElse hv) (by simp)] at h
    obtain ⟨⟨otherwise, c₅⟩, hother, h⟩ := bind_eq_ok_iff.mp h
    obtain ⟨f, hf, vs, rest, rfl, hder'', rfl⟩ := hin.statement.sound hother
    cases h
    refine ⟨max d (max e f) + 1, by omega, w :: p :: (ts ++ q :: (us ++ (seps ++ v :: vs))), rest,
      by simp, .ifElse hw hp hder hq hder' hseps hv hder'', ?_⟩
    simp only [List.length_cons, List.length_append, Scope.visit]
    rw [show i + (ts.length + (us.length + (seps.length + (vs.length + 1)) + 1) + 1 + 1)
      = i + 1 + 1 + ts.length + 1 + us.length + seps.length + 1 + vs.length by omega]
  · obtain ⟨hskip, hno⟩ := skipBeforeElse_of_not (i := i + 1 + 1 + ts.length + 1 + us.length)
      (s := (s.visit condition).visit body) helse
    rw [hskip, if_neg hno] at h
    cases h
    refine ⟨max d e + 1, by omega, w :: p :: (ts ++ q :: us), rest, by simp,
      .ifThen hw hp hder hq hder' helse, ?_⟩
    simp only [List.length_cons, List.length_append, Scope.visit]
    rw [show i + (ts.length + (us.length + 1) + 1 + 1) = i + 1 + 1 + ts.length + 1 + us.length
      by omega]

/-- Up to its first statement, a conditional is read in the same way with and without another. -/
theorem conditional_eq (hin : inner.Reads ρ n) {w p q : Token} {i d e : Nat}
    {ts us rest : List Token} {s : Scope} {condition body : Node} (hw : w.lexeme.isIf)
    (hp : p.lexeme = .mark .openParen) (hd : d < n)
    (htest : Derives ρ d .expression ts [condition] (q :: (us ++ rest)))
    (hq : q.lexeme = .mark .closeParen) (he : e < n)
    (hbody : Derives ρ e .statement us [body] rest) :
    conditional inner ⟨i, w :: p :: (ts ++ q :: (us ++ rest)), s⟩
      = (let c := skipBeforeElse
          ⟨i + 1 + 1 + ts.length + 1 + us.length, rest, (s.visit condition).visit body⟩
        if c.lexeme.isElse then do
          let (otherwise, c) ← inner.statement c.advance
          return (.ifElse condition body otherwise, c)
        else return (.ifThen condition body, c)) := by
  rw [conditional, Cursor.advance_cons (lexeme_of_isIf hw) (by simp),
    Cursor.expect_eq_ok_iff.mpr ⟨p, _, rfl, hp, rfl⟩, ok_bind,
    hin.expression.complete hd htest, ok_bind]
  dsimp only
  rw [Cursor.expect_eq_ok_iff.mpr ⟨q, _, rfl, hq, rfl⟩, ok_bind,
    hin.statement.complete he hbody, ok_bind]

/-- A conditional is read that no other statement follows. -/
theorem conditional_ifThen (hin : inner.Reads ρ n) {w p q : Token} {i d e : Nat}
    {ts us rest : List Token} {s : Scope} {condition body : Node} (hw : w.lexeme.isIf)
    (hp : p.lexeme = .mark .openParen) (hd : d < n)
    (htest : Derives ρ d .expression ts [condition] (q :: (us ++ rest)))
    (hq : q.lexeme = .mark .closeParen) (he : e < n)
    (hbody : Derives ρ e .statement us [body] rest) (hends : ¬ OpensElse rest) :
    conditional inner ⟨i, w :: p :: (ts ++ q :: (us ++ rest)), s⟩
      = .ok (.ifThen condition body, ⟨i + (ts.length + (us.length + 1) + 1 + 1), rest,
        s.visit (.ifThen condition body)⟩) := by
  rw [conditional_eq hin hw hp hd htest hq he hbody]
  obtain ⟨hskip, hno⟩ := skipBeforeElse_of_not (i := i + 1 + 1 + ts.length + 1 + us.length)
    (s := (s.visit condition).visit body) hends
  dsimp only
  rw [hskip, if_neg hno, Scope.visit, show i + (ts.length + (us.length + 1) + 1 + 1)
    = i + 1 + 1 + ts.length + 1 + us.length by omega]
  rfl

/-- A conditional is read with its other statement. -/
theorem conditional_ifElse (hin : inner.Reads ρ n) {w p q v : Token} {i d e f : Nat}
    {ts us seps vs rest : List Token} {s : Scope} {condition body otherwise : Node}
    (hw : w.lexeme.isIf) (hp : p.lexeme = .mark .openParen) (hd : d < n)
    (htest : Derives ρ d .expression ts [condition] (q :: (us ++ (seps ++ v :: (vs ++ rest)))))
    (hq : q.lexeme = .mark .closeParen) (he : e < n)
    (hbody : Derives ρ e .statement us [body] (seps ++ v :: (vs ++ rest)))
    (hseps : Separator seps) (hv : v.lexeme.isElse) (hf : f < n)
    (hother : Derives ρ f .statement vs [otherwise] rest) :
    conditional inner ⟨i, w :: p :: (ts ++ q :: (us ++ (seps ++ v :: (vs ++ rest)))), s⟩
      = .ok (.ifElse condition body otherwise,
        ⟨i + (ts.length + (us.length + (seps.length + (vs.length + 1)) + 1) + 1 + 1), rest,
          s.visit (.ifElse condition body otherwise)⟩) := by
  rw [conditional_eq hin hw hp hd htest hq he hbody]
  dsimp only
  rw [skipBeforeElse_of_separator hseps hv, Cursor.lexeme_cons, if_pos hv,
    Cursor.advance_cons (lexeme_of_isElse hv) (by simp), hin.statement.complete hf hother, ok_bind,
    Scope.visit,
    show i + (ts.length + (us.length + (seps.length + (vs.length + 1)) + 1) + 1 + 1)
      = i + 1 + 1 + ts.length + 1 + us.length + seps.length + 1 + vs.length by omega]
  rfl

/-- What is read as a block is a list of statements in braces. -/
theorem block_sound (hin : inner.Reads ρ n) {p : Token} {i : Nat} {r : List Token} {s : Scope}
    {node : Node} {c : Cursor} (hp : p.lexeme = .mark .openBrace)
    (h : block inner ⟨i, p :: r, s⟩ = .ok (node, c)) :
    ∃ d, d ≤ n ∧ ∃ ts rest, p :: r = ts ++ rest ∧ Derives ρ d .statement ts [node] rest
      ∧ c = ⟨i + ts.length, rest, s.visit node⟩ := by
  rw [block, Cursor.advance_cons hp (by simp)] at h
  obtain ⟨⟨nodes, c₁⟩, hbody, h⟩ := bind_eq_ok_iff.mp h
  obtain ⟨d, hd, ts, rest, rfl, hder, -, rfl⟩ := statementList_sound hin hbody
  obtain ⟨c₂, hclose, h⟩ := bind_eq_ok_iff.mp h
  obtain ⟨q, rest, rfl, hq, rfl⟩ := Cursor.expect_eq_ok_iff.mp hclose
  cases h
  refine ⟨d, hd, p :: (ts ++ [q]), rest, by simp, .block hp hder hq, ?_⟩
  rw [Scope.visit_collapse s .empty (by rw [Scope.visit])]
  simp only [List.length_cons, List.length_append, List.length_nil]
  rw [show i + (ts.length + (0 + 1) + 1) = i + 1 + ts.length + 1 by omega]

/-- A block is read: its closing brace ends the list of statements. -/
theorem block_complete (hin : inner.Reads ρ n) {p q : Token} {i d : Nat} {ts rest : List Token}
    {s : Scope} {nodes : List Node} (hp : p.lexeme = .mark .openBrace) (hd : d ≤ n)
    (hbody : Derives ρ d .statements ts nodes (q :: rest)) (hq : q.lexeme = .mark .closeBrace) :
    block inner ⟨i, p :: (ts ++ q :: rest), s⟩
      = .ok (collapse .empty nodes,
        ⟨i + (ts.length + 1 + 1), rest, s.visit (collapse .empty nodes)⟩) := by
  have hends : ∀ j s, endsBlock (Cursor.lexeme ⟨j, q :: rest, s⟩) = true := by
    intro j s
    rw [Cursor.lexeme_cons, hq]
    rfl
  rw [block, Cursor.advance_cons hp (by simp),
    statementList_complete hin closes_endsBlock hd hbody (hends _ _), ok_bind]
  dsimp only
  rw [Cursor.expect_eq_ok_iff.mpr ⟨q, rest, rfl, hq, rfl⟩, ok_bind,
    Scope.visit_collapse s .empty (by rw [Scope.visit]),
    show i + (ts.length + 1 + 1) = i + 1 + ts.length + 1 by omega]
  rfl

/-- The operator behind the next token assigns. -/
theorem continuesAssignment_iff {i : Nat} {t : Token} {r : List Token} {s : Scope} :
    ContinuesAssignment r ↔ ∃ asg,
      (Cursor.following ⟨i, t :: r, s⟩).joining?.bind Operator.assignment? = some asg := by
  have hfollowing : Cursor.following ⟨i, t :: r, s⟩ = Cursor.token ⟨i, r, s⟩ := rfl
  rw [hfollowing]
  constructor
  · rintro ⟨op, asg, hasg, hc⟩
    exact ⟨asg, Cursor.bind_joining?_iff.mpr ⟨op, assignment?_eq_some_iff.mpr hasg, hc⟩⟩
  · rintro ⟨asg, h⟩
    obtain ⟨op, hb, hc⟩ := Cursor.bind_joining?_iff.mp h
    exact ⟨op, asg, assignment?_eq_some_iff.mp hb, hc⟩

/-- What is read from a token that is no word of the language is an assignment or an expression. -/
theorem assignment_sound (hin : inner.Reads ρ n) {i : Nat} {r : List Token} {s : Scope}
    {node : Node} {c : Cursor} (hlet : ¬ (Cursor.lexeme ⟨i, r, s⟩).isLet)
    (hif : ¬ (Cursor.lexeme ⟨i, r, s⟩).isIf) (h : assignment inner ⟨i, r, s⟩ = .ok (node, c)) :
    ∃ d, d ≤ n ∧ ∃ ts rest, r = ts ++ rest ∧ Derives ρ d .statement ts [node] rest
      ∧ c = ⟨i + ts.length, rest, s.visit node⟩ := by
  rw [assignment] at h
  split at h
  · rename_i name asg hname hasg
    obtain ⟨t, r, rfl, ht⟩ := (Cursor.lexeme_eq_iff (by simp)).mp hname
    obtain ⟨op, hb, hc⟩ := Cursor.bind_joining?_iff (i := i) (s := s).mp hasg
    obtain ⟨o, r, rfl, ho⟩ := hc.cons_of
    rw [Cursor.advance_cons ht (by simp), Cursor.advance_cons ho.1 (by simp)] at h
    obtain ⟨⟨value, c₁⟩, hvalue, h⟩ := bind_eq_ok_iff.mp h
    obtain ⟨d, hd, ts, rest, rfl, hder, rfl⟩ := hin.expression.sound hvalue
    cases h
    refine ⟨d + 1, hd, t :: o :: ts, rest, rfl,
      .assign ht ⟨hlet, hif⟩ (assignment?_eq_some_iff.mp hb) ho hder, ?_⟩
    rw [Cursor.bind, Scope.visit]
    simp only [List.length_cons]
    rw [show i + (ts.length + 1 + 1) = i + 1 + 1 + ts.length by omega]
  · rename_i hno
    obtain ⟨d, hd, ts, rest, rfl, hder, rfl⟩ := hin.expression.sound h
    refine ⟨d + 1, hd, ts, rest, rfl, .evaluate hder ?_, rfl⟩
    obtain ⟨t, us, rfl, -⟩ := hder.opens trivial
    rintro (hl | hi | ⟨⟨name, hname⟩, hassign⟩)
    · exact hlet hl
    · exact hif hi
    · obtain ⟨asg, hasg⟩ := continuesAssignment_iff (i := i) (t := t) (s := s).mp hassign
      exact hno name asg hname hasg

/-- A name in front of an operator that assigns is read as a target. -/
theorem assignment_assign (hin : inner.Reads ρ n) {t o : Token} {name : Text} {op : Operator}
    {asg : AssignmentOp} {value : Node} {i d : Nat} {ts rest : List Token} {s : Scope} (hd : d < n)
    (ht : t.lexeme = .name name) (hop : Assigns op asg) (ho : o.Joins (.operator op))
    (hvalue : Derives ρ d .expression ts [value] rest) :
    assignment inner ⟨i, t :: o :: (ts ++ rest), s⟩
      = .ok (.assign asg name value,
        ⟨i + (ts.length + 1 + 1), rest, s.visit (.assign asg name value)⟩) := by
  have hasg : (Cursor.following ⟨i, t :: o :: (ts ++ rest), s⟩).joining?.bind
      Operator.assignment? = some asg :=
    Cursor.bind_joining?_iff (i := i) (s := s).mpr
      ⟨op, assignment?_eq_some_iff.mpr hop, continues_cons.mpr ho⟩
  rw [assignment, hasg, Cursor.lexeme_cons, ht]
  dsimp only
  rw [Cursor.advance_cons ht (by simp), Cursor.advance_cons ho.1 (by simp),
    hin.expression.complete hd hvalue, ok_bind, Scope.visit,
    show i + (ts.length + 1 + 1) = i + 1 + 1 + ts.length by omega]
  rfl

/-- An expression is read where no other form of a statement opens. -/
theorem assignment_evaluate (hin : inner.Reads ρ n) {i d : Nat} {ts rest : List Token} {s : Scope}
    {node : Node} (hd : d < n) (hvalue : Derives ρ d .expression ts [node] rest)
    (hplain : ¬ OpensSpecial (ts ++ rest)) :
    assignment inner ⟨i, ts ++ rest, s⟩ = .ok (node, ⟨i + ts.length, rest, s.visit node⟩) := by
  rw [assignment]
  split
  · rename_i name asg hname hasg
    obtain ⟨t, us, rfl, -⟩ := hvalue.opens trivial
    exact absurd (.inr (.inr ⟨⟨name, hname⟩, continuesAssignment_iff.mpr ⟨asg, hasg⟩⟩)) hplain
  · exact hin.expression.complete hd hvalue

/-! ## Statements -/

/-- What is read as a statement is one; its form is told by its first token. -/
theorem statement_sound (hin : inner.Reads ρ n) {i : Nat} {r : List Token} {s : Scope} {node : Node}
    {c : Cursor} (h : statement inner ⟨i, r, s⟩ = .ok (node, c)) :
    ∃ d, d ≤ n ∧ ∃ ts rest, r = ts ++ rest ∧ Derives ρ d .statement ts [node] rest
      ∧ c = ⟨i + ts.length, rest, s.visit node⟩ := by
  rw [statement] at h
  split at h
  · rename_i hlet
    obtain ⟨l, r, rfl, -⟩ := (Cursor.lexeme_eq_iff (by simp)).mp (lexeme_of_isLet hlet)
    exact declaration_sound hin hlet h
  · rename_i hlet
    split at h
    · rename_i hif
      obtain ⟨w, r, rfl, -⟩ := (Cursor.lexeme_eq_iff (by simp)).mp (lexeme_of_isIf hif)
      exact conditional_sound hin hif h
    · rename_i hif
      split at h
      · rename_i hbrace
        obtain ⟨p, r, rfl, hp⟩ := (Cursor.lexeme_eq_iff (by simp)).mp hbrace
        exact block_sound hin hp h
      · exact assignment_sound hin hlet hif h

/-- The form of a statement is told by its first token. -/
theorem statement_complete (hin : inner.Reads ρ n) {i d : Nat} {s : Scope} {ts rest : List Token}
    {node : Node} (hd : d < n + 1) (h : Derives ρ d .statement ts [node] rest) :
    statement inner ⟨i, ts ++ rest, s⟩ = .ok (node, ⟨i + ts.length, rest, s.visit node⟩) := by
  rw [statement]
  cases h with
  | declare word target ends => exact (if_pos word).trans (declaration_declare word target ends)
  | declareAs word target sign initializer =>
      exact (if_pos word).trans
        (declaration_declareAs hin (by omega) word target sign initializer)
  | ifThen word opening test closing branch ends =>
      simp only [List.cons_append, List.append_assoc, List.length_cons, List.length_append]
      exact (if_neg (not_isLet_of_isIf word)).trans ((if_pos word).trans
        (conditional_ifThen hin word opening (by omega) test closing (by omega) branch ends))
  | ifElse word opening test closing branch separator other alternative =>
      simp only [List.cons_append, List.append_assoc, List.length_cons, List.length_append]
      exact (if_neg (not_isLet_of_isIf word)).trans ((if_pos word).trans
        (conditional_ifElse hin word opening (by omega) test closing (by omega) branch separator
          other (by omega) alternative))
  | @block _ p _ _ _ _ opening body closing =>
      have hlet : ¬ p.lexeme.isLet := by
        rw [opening]
        exact Bool.noConfusion
      have hif : ¬ p.lexeme.isIf := by
        rw [opening]
        exact Bool.noConfusion
      simp only [List.cons_append, List.append_assoc, List.nil_append, List.length_cons,
        List.length_append, List.length_nil]
      exact (if_neg hlet).trans ((if_neg hif).trans ((if_pos opening).trans
        (block_complete hin opening (by omega) body closing)))
  | @assign _ t _ _ _ _ _ _ _ target plain kind sign assigned =>
      have hbrace : ¬ t.lexeme = .mark .openBrace := by
        rw [target]
        exact Lexeme.noConfusion
      exact (if_neg plain.1).trans ((if_neg plain.2).trans ((if_neg hbrace).trans
        (assignment_assign hin (by omega) target kind sign assigned)))
  | evaluate value plain =>
      have hread := assignment_evaluate hin (i := i) (s := s) (by omega) value plain
      obtain ⟨t, us, rfl, ht⟩ := value.opens trivial
      have hbrace : ¬ t.lexeme = .mark .openBrace := by
        intro h
        rw [h] at ht
        cases ht
      exact (if_neg fun h => plain (.inl h)).trans
        ((if_neg fun h => plain (.inr (.inl h))).trans ((if_neg hbrace).trans hread))

/-- A statement one level further out is read exactly. -/
theorem statement_reads (hin : inner.Reads ρ n) :
    Reads ρ (statement inner) (n + 1) .statement where
  sound := by
    intro i r s node c h
    obtain ⟨d, hd, hrest⟩ := statement_sound hin h
    exact ⟨d, Nat.lt_succ_of_le hd, hrest⟩
  complete := statement_complete hin

end Grammar

end Formulary
