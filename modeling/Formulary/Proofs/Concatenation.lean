import Formulary.Proofs.Evaluation.Sequencing
import Formulary.Proofs.Grammar.Joining
import Formulary.Proofs.Grammar.Program

/-!
# Programs put together

Two texts with a line break or a semicolon between them are one program: the statements of the
first, then those of the second. Only a second text that begins with `else` could be drawn into the
last statement of the first.

- `Formula.statements` are the statements of a text.
- `Formula.tokenize_lineFeed` and `Formula.tokenize_semicolon` give the tokens of the whole.
- `Formula.parse_join` says what is read, which inputs there are, and how it is evaluated.
-/

namespace Formulary

open Grammar

namespace Formula

/-- The statements of a text that is accepted, before they are put into one tree. -/
def statements (ρ : ProviderId) (source : Text) : List Node :=
  match tokenize source with
  | .error _ => []
  | .ok tokens =>
    match (Level.ofBudget ρ nestingLimit nestingLimit).readProgram (tokens.map (·.toToken)) with
    | .error _ => []
    | .ok (nodes, _) => nodes

variable {ρ : ProviderId}

theorem statements_eq {source : Text} {tokens : List PlacedToken}
    (htokens : tokenize source = .ok tokens) {d : Nat} (hd : d ≤ nestingLimit) {nodes : List Node}
    (hder : Derives ρ d .statements (phrase tokens) nodes []) : statements ρ source = nodes := by
  rw [statements, htokens]
  dsimp only
  rw [(readProgram_tokens_iff htokens).mpr ⟨⟨d, hd, hder⟩, rfl⟩]

/-- A text that is accepted: its statements are a program within the limit, and they are all that
its formula is made of. -/
theorem derives_of_parse {source : Text} {f : Formula} (hf : parse ρ source = .ok f) :
    ∃ tokens d, tokenize source = .ok tokens ∧ d ≤ nestingLimit
      ∧ Derives ρ d .statements (phrase tokens) (statements ρ source) []
      ∧ f = ⟨source, collapse (.constant 0) (statements ρ source),
        (Scope.empty.visitAll (statements ρ source)).inputs⟩ := by
  obtain ⟨tokens, htokens⟩ := tokenize_of_parseWithin hf
  obtain ⟨d, hd, nodes, hder, rfl⟩ := (parseWithin_eq_ok_iff htokens).mp hf
  obtain rfl := statements_eq htokens hd hder
  exact ⟨tokens, d, htokens, hd, hder, rfl⟩

/-! ## The tokens of the whole -/

/-- Behind a separating unit that is passed with the state `s`, the second text gives its own
tokens. -/
theorem tokenize_append {u : CodeUnit} (hu : u.Separates) {s₁ : Text} {tokens₁ : List PlacedToken}
    (h₁ : tokenize s₁ = .ok tokens₁) (hclosed : openParens 0 (phrase tokens₁) = 0) :
    ∃ s' : ScanState, s'.depth = 0 ∧ ∀ {s₂ : Text} {others : List PlacedToken},
      scanFrom 0 (u :: s₂) s' = .ok others → others ≠ [] →
      ∃ tokens, tokenize (s₁ ++ u :: s₂) = .ok tokens
        ∧ phrase tokens = phrase tokens₁ ++ phrase others := by
  obtain ⟨init, s', rfl, hdepth, hmore⟩ :=
    scanFrom_append hu (tokenize_eq_ok_iff.mp h₁) (Nat.zero_le _)
  rw [phrase, List.dropLast_concat] at hclosed ⊢
  refine ⟨s', hdepth.trans hclosed, fun {s₂ others} hothers hne => ?_⟩
  refine ⟨init ++ others, ?_, ?_⟩
  · rw [tokenize_eq_ok_iff, hmore, hothers]
    rfl
  · rw [phrase, phrase, List.dropLast_append_of_ne_nil hne, List.map_append]

theorem phrase_eq_of_map {tokens tokens' : List PlacedToken} {b : Bool}
    (h : tokens'.map (·.toToken) = breakFirst b (tokens.map (·.toToken))) :
    phrase tokens' = breakFirst b (phrase tokens) := by
  rw [phrase, List.map_dropLast, h, dropLast_breakFirst, phrase, List.map_dropLast]

theorem ne_nil_of_scanFrom {text : Text} {skip : Nat} {s : ScanState} {tokens : List PlacedToken}
    (h : scanFrom skip text s = .ok tokens) : tokens ≠ [] := by
  obtain ⟨init, last, rfl, -⟩ := scanFrom_end h
  simp

/-- A line feed comes to stand before the first token of the second text. -/
theorem tokenize_lineFeed {s₁ s₂ : Text} {tokens₁ tokens₂ : List PlacedToken}
    (h₁ : tokenize s₁ = .ok tokens₁) (h₂ : tokenize s₂ = .ok tokens₂)
    (hclosed : openParens 0 (phrase tokens₁) = 0) :
    ∃ tokens, tokenize (s₁ ++ 0x0A :: s₂) = .ok tokens
      ∧ phrase tokens = phrase tokens₁ ++ breakFirst true (phrase tokens₂) := by
  obtain ⟨s', hdepth, hmore⟩ := tokenize_append CodeUnit.separates_lineFeed h₁ hclosed
  have hstart : (s'.skipBlank 0x0A).depth = ScanState.start.depth := hdepth
  have hbreak : (s'.skipBlank 0x0A).sawLineBreak = (ScanState.start.sawLineBreak || true) :=
    Bool.or_true _
  obtain ⟨others, hscan, hothers⟩ := scanFrom_shift hstart hbreak (tokenize_eq_ok_iff.mp h₂)
  have hscan' : scanFrom 0 (0x0A :: s₂) s' = .ok others := hscan
  obtain ⟨tokens, htokens, hphrase⟩ := hmore hscan' (ne_nil_of_scanFrom hscan)
  exact ⟨tokens, htokens, by rw [hphrase, phrase_eq_of_map hothers]; rfl⟩

/-- A semicolon becomes a token of its own. -/
theorem tokenize_semicolon {s₁ s₂ : Text} {tokens₁ tokens₂ : List PlacedToken}
    (h₁ : tokenize s₁ = .ok tokens₁) (h₂ : tokenize s₂ = .ok tokens₂)
    (hclosed : openParens 0 (phrase tokens₁) = 0) :
    ∃ tokens b, tokenize (s₁ ++ 0x3B :: s₂) = .ok tokens
      ∧ phrase tokens = phrase tokens₁ ++ ⟨.mark .semicolon, b⟩ :: phrase tokens₂ := by
  obtain ⟨s', hdepth, hmore⟩ := tokenize_append CodeUnit.separates_semicolon h₁ hclosed
  have hstart : (s'.pass (.mark .semicolon)).depth = ScanState.start.depth := hdepth
  have hbreak : (s'.pass (.mark .semicolon)).sawLineBreak
      = (ScanState.start.sawLineBreak || false) := rfl
  obtain ⟨others, hscan, hothers⟩ := scanFrom_shift hstart hbreak (tokenize_eq_ok_iff.mp h₂)
  have hscan' : scanFrom 0 (0x3B :: s₂) s' = .ok (s'.place (.mark .semicolon) :: others) := by
    have hfirst : Lexeme.first 0x3B s₂ = .ok (.mark .semicolon) := rfl
    rw [scanFrom, if_neg (by decide), hfirst]
    show (do let tokens ← scanFrom 0 s₂ (s'.pass (.mark .semicolon)); _) = _
    rw [hscan]
    rfl
  obtain ⟨tokens, htokens, hphrase⟩ := hmore hscan' (by simp)
  have hbehind : phrase others = phrase tokens₂ :=
    (phrase_eq_of_map hothers).trans (breakFirst_false _)
  refine ⟨tokens, (s'.place (.mark .semicolon)).lineBreakBefore, htokens, hphrase.trans ?_⟩
  rw [← hbehind, phrase, phrase, phrase,
    List.dropLast_cons_of_ne_nil (ne_nil_of_scanFrom hscan), List.map_cons]
  rfl

/-! ## The whole -/

/-- The first token that is no semicolon is `else`. -/
def leadsWithElse (ts : List Token) : Bool :=
  match ts.dropWhile (fun t => t.lexeme = .mark .semicolon) with
  | [] => false
  | t :: _ => t.lexeme.isElse

theorem leadsWithElse_semicolon {t : Token} (h : t.lexeme = .mark .semicolon) (ts : List Token) :
    leadsWithElse (t :: ts) = leadsWithElse ts := by
  rw [leadsWithElse, List.dropWhile_cons_of_pos (by simpa using h), leadsWithElse]

theorem leadsWithElse_isElse {t : Token} (h : t.lexeme.isElse) (ts : List Token) :
    leadsWithElse (t :: ts) = true := by
  have hname := of_decide_eq_true h
  rw [leadsWithElse, List.dropWhile_cons_of_neg (by simp [hname])]
  exact h

theorem leadsWithElse_breakFirst (b : Bool) (ts : List Token) :
    leadsWithElse (breakFirst b ts) = leadsWithElse ts := by
  cases ts with
  | nil => rfl
  | cons t ts =>
      by_cases h : t.lexeme = .mark .semicolon
      · rw [leadsWithElse_semicolon h, breakFirst, leadsWithElse_semicolon (by exact h)]
      · rw [leadsWithElse, breakFirst, leadsWithElse, List.dropWhile_cons_of_neg (by simpa using h),
          List.dropWhile_cons_of_neg (by simpa using h)]

/-- Tokens that do not lead with `else` do not open another statement. -/
theorem not_opensElse {ts : List Token} (h : leadsWithElse ts = false) : ¬ OpensElse ts := by
  have hfirst : ∀ {t : Token} {us : List Token}, leadsWithElse (t :: us) = false →
      ¬ t.lexeme.isElse := fun h hc => nomatch (leadsWithElse_isElse hc _).symm.trans h
  match ts, h with
  | [], _ => exact id
  | [t], h => exact hfirst h
  | t :: u :: us, h =>
      rintro (hc | ⟨ht, hc⟩)
      · exact hfirst h hc
      · rw [leadsWithElse_semicolon ht] at h
        exact hfirst h hc

variable {σ : Type} [RandomProvider σ]

/-- From the tokens of the whole to the whole: what is read, its inputs and its evaluation. -/
theorem parse_of_append {s₁ s₂ source : Text} {f₁ f₂ : Formula} (h₁ : parse ρ s₁ = .ok f₁)
    (h₂ : parse ρ s₂ = .ok f₂) {tokens : List PlacedToken} (htokens : tokenize source = .ok tokens)
    {d : Nat} (hd : d ≤ nestingLimit)
    (hder : Derives ρ d .statements (phrase tokens) (statements ρ s₁ ++ statements ρ s₂) []) :
    ∃ f, parse ρ source = .ok f ∧ statements ρ source = statements ρ s₁ ++ statements ρ s₂
      ∧ f.requiredInputs = f₁.requiredInputs ++ f₂.requiredInputs.filter
        (fun name => .bind name ∉ f₁.root.mentions ∧ name ∉ f₁.requiredInputs)
      ∧ (statements ρ s₂ ≠ [] → ∀ (context : Context) (sources : Sources σ),
        f.evaluateIn context sources
          = (f₁.evaluateIn context sources).andThen f₂.evaluateIn) := by
  obtain ⟨-, -, -, -, -, rfl⟩ := derives_of_parse h₁
  obtain ⟨-, -, -, -, -, rfl⟩ := derives_of_parse h₂
  refine ⟨_, (parseWithin_eq_ok_iff htokens).mpr ⟨d, hd, _, hder, rfl⟩,
    statements_eq htokens hd hder, ?_, fun hne context sources => ?_⟩
  · dsimp only
    rw [Scope.visitAll_append, Scope.visitAll_eq_foldl (statements ρ s₂), Scope.inputs_foldl,
      ← Scope.visitAll_eq_foldl]
    have hlocals : ∀ name, name ∈ (Scope.empty.visitAll (statements ρ s₁)).locals
        ↔ .bind name ∈ (collapse (.constant 0) (statements ρ s₁)).mentions := by
      intro name
      rw [Scope.visitAll_eq_foldl, Scope.mem_locals_foldl,
        Node.mentions_collapse (by rw [Node.mentions])]
      exact or_iff_right List.not_mem_nil
    simp only [hlocals]
  · exact Node.run_collapse_append _ hne context sources

/-- Two programs with a line break or a semicolon between them are one. -/
theorem parse_join {s₁ s₂ : Text} {f₁ f₂ : Formula} (h₁ : parse ρ s₁ = .ok f₁)
    (h₂ : parse ρ s₂ = .ok f₂) {tokens₂ : List PlacedToken} (htokens₂ : tokenize s₂ = .ok tokens₂)
    (helse : leadsWithElse (phrase tokens₂) = false) {separator : Text}
    (hseparator : separator = Text.ofString "\n" ∨ separator = Text.ofString ";") :
    ∃ f, parse ρ (s₁ ++ separator ++ s₂) = .ok f
      ∧ statements ρ (s₁ ++ separator ++ s₂) = statements ρ s₁ ++ statements ρ s₂
      ∧ f.requiredInputs = f₁.requiredInputs ++ f₂.requiredInputs.filter
        (fun name => .bind name ∉ f₁.root.mentions ∧ name ∉ f₁.requiredInputs)
      ∧ (statements ρ s₂ ≠ [] → ∀ (context : Context) (sources : Sources σ),
        f.evaluateIn context sources
          = (f₁.evaluateIn context sources).andThen f₂.evaluateIn) := by
  obtain ⟨tokens₁, d₁, htokens₁, hd₁, hder₁, -⟩ := derives_of_parse h₁
  obtain ⟨tokens, d₂, htokens, hd₂, hder₂, -⟩ := derives_of_parse h₂
  obtain rfl := Except.ok.inj (htokens.symm.trans htokens₂)
  have hclosed := hder₁.openParens_eq 0
  have hd : max d₁ d₂ ≤ nestingLimit := Nat.max_le.mpr ⟨hd₁, hd₂⟩
  rw [List.append_assoc]
  rcases hseparator with rfl | rfl
  · obtain ⟨whole, hwhole, hphrase⟩ := tokenize_lineFeed htokens₁ htokens hclosed
    refine parse_of_append h₁ h₂ hwhole hd ?_
    rw [hphrase]
    have hdetached : Detached (breakFirst true (phrase tokens)) := by
      have hother := not_opensElse ((leadsWithElse_breakFirst true _).trans helse)
      cases hts : phrase tokens with
      | nil => exact detached_nil
      | cons t ts =>
          rw [hts] at hother
          exact detached_of_lineBreak (Bool.or_true _) hother
    have hfirst := hder₁.detach hdetached
    rw [← List.append_nil (breakFirst true (phrase tokens))] at hfirst
    exact hfirst.append (hder₂.breakFirst true)
  · obtain ⟨whole, b, hwhole, hphrase⟩ := tokenize_semicolon htokens₁ htokens hclosed
    refine parse_of_append h₁ h₂ hwhole hd ?_
    rw [hphrase]
    have hother := not_opensElse
      ((leadsWithElse_semicolon (t := ⟨.mark .semicolon, b⟩) rfl _).trans helse)
    have hfirst := hder₁.detach (detached_of_mark rfl (by decide) (by decide) hother)
    rw [← List.append_nil (_ :: phrase tokens)] at hfirst
    exact hfirst.append (.semicolon rfl hder₂)

/-- A sign on the next line is not drawn into the conditional, and its operand is no input. -/
theorem parse_join_sign :
    ∃ f f₁ f₂, parse ⟨0⟩ (Text.ofString "if (x) a = x") = .ok f₁
      ∧ parse ⟨0⟩ (Text.ofString "-a + y") = .ok f₂
      ∧ parse ⟨0⟩ (Text.ofString "if (x) a = x" ++ Text.ofString "\n" ++ Text.ofString "-a + y") = .ok f
      ∧ f.requiredInputs = [Text.ofString "x", Text.ofString "y"]
      ∧ f.evaluateIn .empty (.own fun _ => FixedFraction.half)
        = (f₁.evaluateIn .empty (.own fun _ => FixedFraction.half)).andThen f₂.evaluateIn := by
  have h₁ : parse ⟨0⟩ (Text.ofString "if (x) a = x")
      = .ok ⟨Text.ofString "if (x) a = x", .ifThen (.read (Text.ofString "x"))
        (.assign .set (Text.ofString "a") (.read (Text.ofString "x"))), [Text.ofString "x"]⟩ := rfl
  have h₂ : parse ⟨0⟩ (Text.ofString "-a + y")
      = .ok ⟨Text.ofString "-a + y", .arithmetic .add (.negate (.read (Text.ofString "a")))
        (.read (Text.ofString "y")), [Text.ofString "a", Text.ofString "y"]⟩ := rfl
  have htokens₂ : tokenize (Text.ofString "-a + y")
      = .ok [⟨⟨.operator .minus, false⟩, 0⟩, ⟨⟨.name (Text.ofString "a"), false⟩, 1⟩,
        ⟨⟨.operator .plus, false⟩, 3⟩, ⟨⟨.name (Text.ofString "y"), false⟩, 5⟩,
        ⟨⟨.endOfText, false⟩, 6⟩] := rfl
  have hsome : statements ⟨0⟩ (Text.ofString "-a + y") ≠ [] := by
    intro h
    obtain ⟨-, -, -, -, -, hf⟩ := derives_of_parse h₂
    rw [h] at hf
    exact nomatch hf
  obtain ⟨f, hf, -, hinputs, heval⟩ :=
    parse_join (σ := FixedFraction) h₁ h₂ htokens₂ (by decide) (.inl rfl)
  exact ⟨f, _, _, h₁, h₂, hf, hinputs.trans (by decide), heval hsome _ _⟩

end Formula

end Formulary
