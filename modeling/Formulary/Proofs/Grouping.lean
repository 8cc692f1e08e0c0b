import Formulary.Proofs.Concatenation
import Formulary.Proofs.Grammar.Depth
import Formulary.Proofs.Grammar.Guard
import Formulary.Proofs.Grammar.Levels

/-!
# Texts in braces and in parentheses

A program in braces is one statement that stands for the same tree, and an expression in parentheses
is the same expression. Both nest one level deeper. Parentheses also take away the line breaks
inside, so that it has to be shown that nothing is drawn together that stood apart: in an expression
nothing did, for a line break that ends a phrase would have ended the expression.

- `scanFrom_inside` says that scanning between parentheses gives the same tokens without line breaks,
  and `Formula.tokenize_enclosed` gives the tokens of a text between two marks.
- `Grammar.Milder` compares what follows a phrase, and `Grammar.Derives.unbroken` says that an
  expression stays one without its line breaks.
- `Formula.parse_grouped` is the statement about texts.
-/

namespace Formulary

variable {ρ : ProviderId}

open Grammar

/-! ## Tokens between marks -/

/-- The token without a line break before it. -/
def Token.unbroken (t : Token) : Token := { t with lineBreakBefore := false }

/-- More parentheses open before some tokens are more open behind them. -/
theorem openParens_mono {n m : Nat} (h : n ≤ m) (ts : List Token) :
    openParens n ts ≤ openParens m ts := by
  induction ts generalizing n m with
  | nil => exact h
  | cons t ts ih =>
      rw [openParens_cons, openParens_cons]
      refine ih ?_
      unfold ScanState.depthAfter
      split <;> omega

/-- Tokens that close what they open, and no more, leave a parenthesis open that was opened before
them. -/
theorem openParens_pos {ts us vs : List Token} (h : ∀ n, openParens n ts = n)
    (hts : ts = us ++ vs) : 0 < openParens 1 us := by
  refine Nat.pos_of_ne_zero fun hzero => ?_
  have hnone : openParens 0 us = 0 := by
    have hle := openParens_mono (Nat.zero_le 1) us
    rw [hzero] at hle
    exact Nat.le_zero.mp hle
  -- behind `us` nothing would tell any more whether a parenthesis was open at the start
  have hsame : openParens 1 ts = openParens 0 ts := by
    rw [hts, openParens_append, openParens_append, hzero, hnone]
  rw [h, h] at hsame
  exact Nat.one_ne_zero hsame

namespace Formula

/-- The end of the text is dropped from the end only. -/
theorem phrase_cons (t : PlacedToken) {others : List PlacedToken} (h : others ≠ []) :
    phrase (t :: others) = t.toToken :: phrase others := by
  rw [phrase, List.dropLast_cons_of_ne_nil h]
  rfl

end Formula

open Formula in
/-- A scan that starts elsewhere, and during which a parenthesis is always open, gives the same
tokens without line breaks. -/
theorem scanFrom_inside {text : Text} {skip : Nat} {s s' : ScanState} {tokens : List PlacedToken}
    (h : scanFrom skip text s = .ok tokens)
    (hopen : ∀ us vs, phrase tokens = us ++ vs → 0 < openParens s'.depth us) :
    ∃ tokens', scanFrom skip text s' = .ok tokens'
      ∧ phrase tokens' = (phrase tokens).map Token.unbroken := by
  induction text generalizing skip s s' tokens with
  | nil =>
      cases h
      exact ⟨[s'.place .endOfText], rfl, rfl⟩
  | cons unit rest ih =>
      cases skip with
      | succ skip => exact ih h hopen
      | zero =>
          rw [scanFrom] at h ⊢
          split at h
          · rename_i hblank
            rw [if_pos hblank]
            exact ih h hopen
          · rename_i hblank
            rw [if_neg hblank]
            split at h
            · cases h
            · rename_i lexeme hfirst
              cases hscan : scanFrom (lexeme.text.length - 1) rest (s.pass lexeme) with
              | error e =>
                  rw [hscan] at h
                  cases h
              | ok others =>
                  rw [hscan] at h
                  cases h
                  have hphrase := phrase_cons (s.place lexeme) (ne_nil_of_scanFrom hscan)
                  rw [hphrase] at hopen ⊢
                  obtain ⟨others', hscan', hothers⟩ :
                      ∃ others', scanFrom (lexeme.text.length - 1) rest (s'.pass lexeme) = .ok others'
                        ∧ phrase others' = (phrase others).map Token.unbroken :=
                    ih hscan fun us vs heq =>
                      hopen ((s.place lexeme).toToken :: us) vs (by rw [heq]; rfl)
                  refine ⟨s'.place lexeme :: others', by rw [hscan']; rfl, ?_⟩
                  have hdepth : 0 < s'.depth := hopen [] _ rfl
                  have htoken : (s'.place lexeme).toToken = (s.place lexeme).toToken.unbroken := by
                    show Token.mk lexeme (s'.sawLineBreak && s'.depth == 0) = ⟨lexeme, false⟩
                    rw [beq_false_of_ne (Nat.ne_of_gt hdepth), Bool.and_false]
                  rw [phrase_cons _ (ne_nil_of_scanFrom hscan'), hothers, htoken, List.map_cons]

/-- No lexeme reaches over a mark. -/
theorem Mark.separates (m : Mark) : ∃ u, m.spelling = [u] ∧ u.Separates := by
  cases m <;> exact ⟨_, rfl, by decide, by decide, fun op => by cases op <;> decide⟩

/-- A mark in front of a text is its first token. -/
theorem scanFrom_mark (m : Mark) (more : Text) (s : ScanState) :
    scanFrom 0 (m.spelling ++ more) s
      = (scanFrom 0 more (s.pass (.mark m))).map (s.place (.mark m) :: ·) := by
  cases m <;> exact scanFrom_first s (by decide) rfl rfl

/-- A text between two marks. -/
def Text.enclosed (opening closing : Mark) (source : Text) : Text :=
  opening.spelling ++ (source ++ closing.spelling)

/-- A text between two marks has the tokens that it has behind the first of them. -/
theorem Formula.tokenize_enclosed (opening closing : Mark) {source : Text}
    {tokens : List PlacedToken}
    (h : scanFrom 0 source (ScanState.start.pass (.mark opening)) = .ok tokens) :
    ∃ whole b, tokenize (source.enclosed opening closing) = .ok whole
      ∧ phrase whole = ⟨.mark opening, false⟩ :: (phrase tokens ++ [⟨.mark closing, b⟩]) := by
  obtain ⟨u, hu, hseparates⟩ := closing.separates
  obtain ⟨init, s, rfl, -, hmore⟩ := scanFrom_append hseparates h (Nat.zero_le _)
  have hclosing : scanFrom 0 [u] s
      = .ok [s.place (.mark closing), (s.pass (.mark closing)).place .endOfText] := by
    rw [← List.append_nil [u], ← hu, scanFrom_mark]
    rfl
  refine ⟨ScanState.start.place (.mark opening) ::
    (init ++ [s.place (.mark closing), (s.pass (.mark closing)).place .endOfText]),
    (s.place (.mark closing)).lineBreakBefore, ?_, ?_⟩
  · rw [tokenize_eq_ok_iff, Text.enclosed, scanFrom_mark, hu, hmore, hclosing]
    rfl
  · rw [phrase_cons _ (by simp), phrase, phrase, List.dropLast_append_of_ne_nil (by simp),
      List.dropLast_concat, List.map_append]
    rfl

/-! ## Expressions without line breaks -/

namespace Grammar

/-- What follows a phrase goes on with no phrase, unless the other tokens do so as well. -/
def Milder (rest rest' : List Token) : Prop :=
  ∀ l : Lexeme, l.strength?.isSome → Continues rest' l → Continues rest l

/-- A token that binds nothing goes on with nothing, whatever stood in its place. -/
theorem milder_of_strength {t : Token} (h : t.lexeme.strength? = none) (rest more : List Token) :
    Milder rest (t :: more) := by
  intro l hl hc
  have hjoins : t.Joins l := hc
  rw [← hjoins.1, h] at hl
  cases hl

/-- A token that went on with its line goes on with no more without line breaks. -/
theorem milder_of_joins {t : Token} {l : Lexeme} (h : t.Joins l) (more more' : List Token) :
    Milder (t :: more) (t.unbroken :: more') := by
  intro l' _ hc
  have hjoins : t.unbroken.Joins l' := hc
  exact ⟨hjoins.1, h.2⟩

namespace Milder

variable {rest rest' : List Token}

theorem layer (h : Milder rest rest') {l : Layer} (hends : ¬ ContinuesLayer rest l) :
    ¬ ContinuesLayer rest' l := by
  rintro ⟨op, build, hbuild, hc⟩
  exact hends ⟨op, build, hbuild, h _ (by rw [hbuild.strength?]; rfl) hc⟩

theorem comparison (h : Milder rest rest') (hends : ¬ ContinuesComparison rest) :
    ¬ ContinuesComparison rest' := by
  rintro ⟨op, cmp, hcmp, hc⟩
  exact hends ⟨op, cmp, hcmp, h _ (by cases hcmp <;> rfl) hc⟩

end Milder

/-- An expression stays one without the line breaks before its tokens, in front of what does not go
on with it. -/
theorem Derives.unbroken {d : Nat} {k : Category} {ts rest rest' : List Token} {nodes : List Node}
    (h : Derives ρ d k ts nodes rest) (hk : k.IsExpression) (hrest : Milder rest rest') :
    Derives ρ d k (ts.map Token.unbroken) nodes rest' := by
  -- a token that goes on with a phrase has no line break before it, and one that closes a phrase
  -- goes on with none
  induction h generalizing rest' with
  | none | semicolon | cons | declare | declareAs | ifThen | ifElse | block | assign | evaluate =>
      exact hk.elim
  | plain _ ends ih => exact .plain (ih trivial hrest) fun hc => ends (hrest _ rfl hc)
  | choice _ question _ colon _ ih₁ ih₂ ih₃ =>
      simp only [List.map_append, List.map_cons]
      refine .choice (ih₁ trivial (milder_of_joins question _ _)) ⟨question.1, rfl⟩
        (ih₂ trivial (milder_of_strength ?_ _ _)) colon (ih₃ trivial hrest)
      exact congrArg Lexeme.strength? colon
  | layer _ ends ih => exact .layer (ih trivial hrest) (hrest.layer ends)
  | first _ ih => exact .first (ih (Layer.isExpression_operand _) hrest)
  | next _ kind sign _ ih₁ ih₂ =>
      simp only [List.map_append, List.map_cons]
      exact .next (ih₁ trivial (milder_of_joins sign _ _)) kind ⟨sign.1, rfl⟩
        (ih₂ (Layer.isExpression_operand _) hrest)
  | uncompared _ ends ih => exact .uncompared (ih trivial hrest) (hrest.comparison ends)
  | compared _ kind sign _ ih₁ ih₂ =>
      simp only [List.map_append, List.map_cons]
      exact .compared (ih₁ trivial (milder_of_joins sign _ _)) kind ⟨sign.1, rfl⟩
        (ih₂ trivial hrest)
  | base _ ends ih => exact .base (ih trivial hrest) fun hc => ends (hrest _ rfl hc)
  | power _ sign _ ih₁ ih₂ =>
      simp only [List.map_append, List.map_cons]
      exact .power (ih₁ trivial (milder_of_joins sign _ _)) ⟨sign.1, rfl⟩ (ih₂ trivial hrest)
  | unsigned _ ih => exact .unsigned (ih trivial hrest)
  | signed kind sign _ ih => exact .signed kind sign (ih trivial hrest)
  | group opening _ closing ih =>
      simp only [List.map_append, List.map_cons, List.map_nil]
      refine .group opening (ih trivial (milder_of_strength ?_ _ _)) closing
      exact congrArg Lexeme.strength? closing
  | number literal => exact .number literal
  | read target ends => exact .read target fun hc => ends (hrest _ rfl hc)
  | callEmpty callee opening closing call => exact .callEmpty callee ⟨opening.1, rfl⟩ closing call
  | call callee opening _ closing call ih =>
      simp only [List.map_append, List.map_cons, List.map_nil]
      refine .call callee ⟨opening.1, rfl⟩ (ih trivial (milder_of_strength ?_ _ _)) closing call
      exact congrArg Lexeme.strength? closing
  | last _ ih => exact .last (ih trivial hrest)
  | more _ comma _ ih₁ ih₂ =>
      simp only [List.map_append, List.map_cons]
      refine .more (ih₁ trivial (milder_of_strength ?_ _ _)) comma (ih₂ trivial hrest)
      exact congrArg Lexeme.strength? comma

/-- One statement without semicolons that nothing but an expression can open is an expression, two
levels further in. -/
theorem Derives.sole_expression {d : Nat} {ts : List Token} {node : Node}
    (h : Derives ρ d .statements ts [node] [])
    (hsemicolon : ∀ t ∈ ts, t.lexeme ≠ .mark .semicolon) (hplain : ¬ OpensSpecial ts)
    (hbrace : ∀ t ∈ ts.head?, t.lexeme ≠ .mark .openBrace) :
    ∃ e, d = e + 2 ∧ Derives ρ e .expression ts [node] [] := by
  cases h with
  | semicolon mark => exact absurd mark (hsemicolon _ List.mem_cons_self)
  | cons first others =>
      cases others with
      | semicolon mark =>
          exact absurd mark (hsemicolon _ (List.mem_append_right _ List.mem_cons_self))
      | none =>
          rw [List.append_nil] at hplain hbrace ⊢
          rw [List.append_nil] at first
          cases first with
          | declare word => exact absurd (.inl word) hplain
          | declareAs word => exact absurd (.inl word) hplain
          | ifThen word => exact absurd (.inr (.inl word)) hplain
          | ifElse word => exact absurd (.inr (.inl word)) hplain
          | block opening => exact absurd opening (hbrace _ rfl)
          | assign target _ kind sign =>
              exact absurd (.inr (.inr ⟨⟨_, target⟩, _, _, kind, sign⟩)) hplain
          | evaluate value => exact ⟨_, Nat.max_zero _, value⟩

end Grammar

/-! ## Texts -/

namespace Formula

/-- A text that is one statement, an expression, and has no semicolon. A statement is an expression
unless a word of the language, an assignment or a brace opens it. -/
def WritesExpression (ρ : ProviderId) (source : Text) : Prop :=
  ∃ tokens node, tokenize source = .ok tokens ∧ statements ρ source = [node]
    ∧ (∀ t ∈ phrase tokens, t.lexeme ≠ .mark .semicolon) ∧ ¬ OpensSpecial (phrase tokens)
    ∧ ∀ t ∈ (phrase tokens).head?, t.lexeme ≠ .mark .openBrace

/-- A text that is accepted without reaching the limit. -/
theorem derives_of_not_nestsIn {source : Text} {f : Formula} (hf : parse ρ source = .ok f)
    (hlevels : ¬ NestsIn ρ source nestingLimit) :
    ∃ tokens d, tokenize source = .ok tokens ∧ d < nestingLimit
      ∧ Derives ρ d .statements (phrase tokens) (statements ρ source) []
      ∧ f = ⟨source, collapse (.constant 0) (statements ρ source),
        (Scope.empty.visitAll (statements ρ source)).inputs⟩ := by
  have hlower : parseWithin ρ (nestingLimit - 1) source = .ok f := by
    have hmore : ¬ NestsIn ρ source (nestingLimit + 1) := fun h => hlevels (h.of_le (Nat.le_succ _))
    rw [parseWithin_eq_unlimited (n := nestingLimit - 1) hlevels,
      ← parseWithin_eq_unlimited hmore]
    exact hf
  obtain ⟨tokens, htokens⟩ := tokenize_of_parseWithin hf
  obtain ⟨d, hd, nodes, hder, rfl⟩ := (parseWithin_eq_ok_iff htokens).mp hlower
  have hlt : d < nestingLimit := Nat.lt_of_le_of_lt hd (by decide)
  obtain rfl := statements_eq htokens (Nat.le_of_lt hlt) hder
  exact ⟨tokens, d, htokens, hlt, hder, rfl⟩

/-- What an empty list stands for does not matter to another. -/
theorem collapse_of_ne_nil {nodes : List Node} (h : nodes ≠ []) (whenEmpty other : Node) :
    collapse whenEmpty nodes = collapse other nodes := by
  match nodes, h with
  | [_], _ => rfl
  | _ :: _ :: _, _ => rfl

/-- A program in braces is one statement. -/
theorem parse_braces {source : Text} {tokens : List PlacedToken}
    (htokens : tokenize source = .ok tokens) {d : Nat} (hd : d < nestingLimit) {nodes : List Node}
    (hder : Derives ρ d .statements (phrase tokens) nodes []) :
    parse ρ (source.enclosed .openBrace .closeBrace)
      = .ok ⟨source.enclosed .openBrace .closeBrace, collapse .empty nodes,
        (Scope.empty.visitAll nodes).inputs⟩ := by
  have hdepth : (ScanState.start.pass (.mark .openBrace)).depth = ScanState.start.depth := rfl
  have hbreak : (ScanState.start.pass (.mark .openBrace)).sawLineBreak
      = (ScanState.start.sawLineBreak || false) := rfl
  obtain ⟨inside, hscan, hinside⟩ := scanFrom_shift hdepth hbreak (tokenize_eq_ok_iff.mp htokens)
  obtain ⟨whole, b, hwhole, hphrase⟩ := tokenize_enclosed .openBrace .closeBrace hscan
  rw [phrase_eq_of_map hinside, Bool.false_and, breakFirst_false] at hphrase
  have hclosed : Derives ρ d .statements (phrase tokens) nodes [⟨.mark .closeBrace, b⟩] :=
    hder.detach (detached_of_mark rfl (by decide) (by decide) Bool.false_ne_true)
  have hblock : Derives ρ (d + 1) .statements (phrase whole) [collapse .empty nodes] [] := by
    rw [hphrase]
    exact (Derives.block rfl hclosed rfl).single
  refine (parseWithin_eq_ok_iff hwhole).mpr ⟨d + 1, hd, _, hblock, ?_⟩
  rw [Scope.visitAll_cons, Scope.visitAll_nil, Scope.visit_collapse _ _ (by rw [Scope.visit])]
  rfl

/-- An expression in parentheses is an expression. -/
theorem parse_parens {source : Text} {tokens : List PlacedToken}
    (htokens : tokenize source = .ok tokens) {d : Nat} (hd : d + 2 < nestingLimit) {node : Node}
    (hder : Derives ρ d .expression (phrase tokens) [node] []) :
    parse ρ (source.enclosed .openParen .closeParen)
      = .ok ⟨source.enclosed .openParen .closeParen, node, (Scope.empty.visitAll [node]).inputs⟩ := by
  obtain ⟨inside, hscan, hinside⟩ :
      ∃ inside, scanFrom 0 source (ScanState.start.pass (.mark .openParen)) = .ok inside
        ∧ phrase inside = (phrase tokens).map Token.unbroken :=
    scanFrom_inside (tokenize_eq_ok_iff.mp htokens)
      fun us vs heq => openParens_pos hder.openParens_eq heq
  obtain ⟨whole, b, hwhole, hphrase⟩ := tokenize_enclosed .openParen .closeParen hscan
  rw [hinside] at hphrase
  have hinner : Derives ρ d .expression ((phrase tokens).map Token.unbroken) [node]
      [⟨.mark .closeParen, b⟩] :=
    hder.unbroken trivial (milder_of_strength rfl _ _)
  have hgroup : Derives ρ (d + 1) .expression (phrase whole) [node] [] := by
    have hprimary := Derives.group (p := ⟨.mark .openParen, false⟩) rfl hinner rfl
    rw [hphrase]
    exact Derives.loosen (j := 8) (k := 0) (Nat.le_refl 8) (Nat.zero_le 8) hprimary
      (.of_detached detached_nil)
  have hplain : ¬ OpensSpecial (phrase whole ++ []) := by
    rw [hphrase]
    rintro (h | h | ⟨⟨name, h⟩, -⟩) <;> cases h
  exact (parseWithin_eq_ok_iff hwhole).mpr ⟨d + 3, hd, _, (hgroup.evaluate hplain).single, rfl⟩

variable {σ : Type} [RandomProvider σ]

/-- Grouping leaves no trace. A text that is accepted with fewer levels than the limit has the same
tree and the same inputs in braces, if it has a statement; without one the tree is the empty block,
which is evaluated to zero as the text is. And it has the same tree and the same inputs in
parentheses, if it is one expression, over however many lines. -/
theorem parse_grouped {source : Text} {f : Formula} (hf : parse ρ source = .ok f)
    (hlevels : ¬ NestsIn ρ source nestingLimit) :
    (statements ρ source ≠ [] →
      parse ρ (source.enclosed .openBrace .closeBrace)
        = .ok ⟨source.enclosed .openBrace .closeBrace, f.root, f.requiredInputs⟩)
    ∧ (statements ρ source = [] →
      ∃ g, parse ρ (source.enclosed .openBrace .closeBrace) = .ok g
        ∧ g.root = .empty ∧ g.requiredInputs = f.requiredInputs
        ∧ ∀ (context : Context) (sources : Sources σ),
          (g.evaluateIn context sources).outcome = .ok 0
            ∧ g.evaluateIn context sources = f.evaluateIn context sources)
    ∧ (WritesExpression ρ source →
      parse ρ (source.enclosed .openParen .closeParen)
        = .ok ⟨source.enclosed .openParen .closeParen, f.root, f.requiredInputs⟩) := by
  obtain ⟨tokens, d, htokens, hd, hder, rfl⟩ := derives_of_not_nestsIn hf hlevels
  have hbraces := parse_braces htokens hd hder
  refine ⟨fun hsome => ?_, fun hnone => ?_, ?_⟩
  · rw [hbraces, collapse_of_ne_nil hsome]
  · refine ⟨_, hbraces, ?_, rfl, fun context sources => ⟨?_, ?_⟩⟩
    · rw [hnone]
      rfl
    · rw [hnone]
      rfl
    · rw [hnone]
      rfl
  · rintro ⟨tokens', node, htokens', hnode, hsemicolon, hplain, hbrace⟩
    obtain rfl := Except.ok.inj (htokens.symm.trans htokens')
    rw [hnode] at hder ⊢
    obtain ⟨e, rfl, hexpression⟩ := hder.sole_expression hsemicolon hplain hbrace
    exact parse_parens htokens hd hexpression

/-- The sum stands over two lines in parentheses of its own, and the product over two lines outside
of them. A text of semicolons has no statement. -/
theorem parse_grouped_lines :
    ∃ f : Formula, f.root = .arithmetic .multiply (.negate (.read (Text.ofString "a")))
        (.arithmetic .add (.read (Text.ofString "b")) (.read (Text.ofString "c")))
      ∧ parse ⟨0⟩ (Text.ofString "-a *\n(b\n+ c)\n") = .ok f
      ∧ parse ⟨0⟩ (Text.ofString "\x7b-a *\n(b\n+ c)\n\x7d")
        = .ok ⟨Text.ofString "\x7b-a *\n(b\n+ c)\n\x7d", f.root, f.requiredInputs⟩
      ∧ parse ⟨0⟩ (Text.ofString "(-a *\n(b\n+ c)\n)")
        = .ok ⟨Text.ofString "(-a *\n(b\n+ c)\n)", f.root, f.requiredInputs⟩
      ∧ ∃ g, parse ⟨0⟩ (Text.ofString "\x7b;\n;\x7d") = .ok g ∧ g.root = .empty := by
  have hf : parse ⟨0⟩ (Text.ofString "-a *\n(b\n+ c)\n")
      = .ok ⟨Text.ofString "-a *\n(b\n+ c)\n",
        .arithmetic .multiply (.negate (.read (Text.ofString "a")))
          (.arithmetic .add (.read (Text.ofString "b")) (.read (Text.ofString "c"))),
        ["a", "b", "c"].map Text.ofString⟩ := rfl
  have hempty : parse ⟨0⟩ (Text.ofString ";\n;") = .ok ⟨Text.ofString ";\n;", .constant 0, []⟩ := rfl
  have hshallow : ∀ {source : Text} {f : Formula}, parseWithin ⟨0⟩ 255 source = .ok f →
      ¬ NestsIn ⟨0⟩ source nestingLimit := by
    intro source f h hnests
    obtain ⟨e, he, -⟩ := isTooComplex_of_nestsIn hnests
    cases h.symm.trans he
  have hstatements : statements ⟨0⟩ (Text.ofString "-a *\n(b\n+ c)\n")
      = [.arithmetic .multiply (.negate (.read (Text.ofString "a")))
          (.arithmetic .add (.read (Text.ofString "b")) (.read (Text.ofString "c")))] := rfl
  obtain ⟨hbraces, -, hparens⟩ := parse_grouped (σ := FixedFraction) hf (hshallow rfl)
  obtain ⟨-, hnone, -⟩ := parse_grouped (σ := FixedFraction) hempty (hshallow rfl)
  obtain ⟨g, hg, hroot, -⟩ := hnone rfl
  refine ⟨_, rfl, hf, hbraces ?_, hparens ⟨_, _, rfl, hstatements, ?_, ?_, ?_⟩, g, hg, hroot⟩
  · rw [hstatements]
    exact List.cons_ne_nil _ _
  · decide
  · rintro (h | h | ⟨⟨name, h⟩, -⟩) <;> cases h
  · rintro t ⟨⟩ h
    cases h

end Formula

end Formulary
