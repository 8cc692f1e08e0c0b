import Formulary.Formula
import Formulary.Proofs.Grammar.Following
import Formulary.Proofs.Grammar.Statement
import Formulary.Proofs.Token.Scanning

/-!
# Reading exactly the grammar

The reader accepts a text exactly if its tokens are a program of the grammar that nests no deeper
than the limit, and the tree it builds is the tree of the program.

- `Level.ofBudget_reads` ties the two recursions: the reader goes down one level of nesting for each
  level that a derivation counts.
- `Formula.parseWithin_eq_ok_iff` says all there is to say about a text that is accepted: its tree
  and its inputs.
- `Formula.parse_root_iff_program` is the statement about trees.
-/

namespace Formulary

/-! ## Levels of nesting -/

namespace Level

variable {ρ : ProviderId}

theorem exhausted_reads (limit : Nat) : (exhausted limit).Reads ρ 0 where
  statement := ⟨fun h => (nomatch h), fun hd => absurd hd (Nat.not_lt_zero _)⟩
  expression := ⟨fun h => (nomatch h), fun hd => absurd hd (Nat.not_lt_zero _)⟩
  exponent := ⟨fun h => (nomatch h), fun hd => absurd hd (Nat.not_lt_zero _)⟩
  unary := ⟨fun h => (nomatch h), fun hd => absurd hd (Nat.not_lt_zero _)⟩

theorem deepen_reads {inner : Level} {n : Nat} (h : inner.Reads ρ n) :
    (inner.deepen ρ).Reads ρ (n + 1) where
  statement := Grammar.statement_reads h
  expression := Grammar.choice_reads h
  exponent := Grammar.exponent_reads h
  unary := Grammar.unary_reads h

/-- A budget of `n` levels reads exactly the phrases that nest less than `n` levels deep. -/
theorem ofBudget_reads (limit n : Nat) : (ofBudget ρ limit n).Reads ρ n := by
  induction n with
  | zero => exact exhausted_reads limit
  | succ n ih => exact deepen_reads ih

end Level

/-! ## Whole texts -/

open Grammar

variable {ρ : ProviderId}

/-- Before the end of the text, the program is all that is read. -/
theorem Level.readProgram_eq_ok_iff {inner : Level} {n : Nat} (hin : inner.Reads ρ n)
    {ts : List Token} {last : Token} (hlast : last.lexeme = .endOfText)
    (hts : ∀ t ∈ ts, t.lexeme ≠ .endOfText) {nodes : List Node} {scope : Scope} :
    inner.readProgram (ts ++ [last]) = .ok (nodes, scope)
      ↔ (∃ d, d ≤ n ∧ Derives ρ d .statements ts nodes []) ∧ scope = Scope.empty.visitAll nodes := by
  constructor
  · intro h
    obtain ⟨⟨nodes', c⟩, hlist, h⟩ := bind_eq_ok_iff.mp h
    cases h
    obtain ⟨d, hd, us, rest, heq, hder, hends, rfl⟩ := statementList_sound hin hlist
    -- neither list of tokens holds the end of the text, so that the two are the same
    have hrest : us = ts := by
      have hus := hder.ne_endOfText
      rcases List.append_eq_append_iff.mp heq with ⟨ws, rfl, hws⟩ | ⟨ws, rfl, hws⟩
      · cases ws with
        | nil => exact List.append_nil _
        | cons w ws =>
            obtain ⟨rfl, -⟩ := List.cons.inj hws
            exact absurd hlast (hus _ (by simp))
      · cases ws with
        | nil => exact (List.append_nil _).symm
        | cons w ws =>
            rw [hws] at hends
            exact absurd (of_decide_eq_true hends) (hts w (by simp))
    subst hrest
    refine ⟨⟨d, hd, ?_⟩, rfl⟩
    exact hder.detach detached_nil
  · rintro ⟨⟨d, hd, hder⟩, rfl⟩
    have hder' : Derives ρ d .statements ts nodes [last] :=
      hder.detach (detached_end hlast)
    have hends : endsProgram (Cursor.lexeme ⟨0, [last], .empty⟩) = true := by
      rw [Cursor.lexeme_cons, hlast]
      rfl
    rw [readProgram, Cursor.start,
      statementList_complete hin closes_endsProgram hd hder' hends]
    rfl

namespace Formula

/-- The tokens of a text before its end. -/
def phrase (tokens : List PlacedToken) : List Token := tokens.dropLast.map (·.toToken)

/-- The tokens of a text are read as a program exactly if they are one within the limit. -/
theorem readProgram_tokens_iff {limit : Nat} {source : Text} {tokens : List PlacedToken}
    (htokens : tokenize source = .ok tokens) {nodes : List Node} {scope : Scope} :
    (Level.ofBudget ρ limit limit).readProgram (tokens.map (·.toToken)) = .ok (nodes, scope)
      ↔ (∃ d, d ≤ limit ∧ Derives ρ d .statements (phrase tokens) nodes [])
        ∧ scope = Scope.empty.visitAll nodes := by
  obtain ⟨init, last, rfl, hlast, hinit⟩ := scanFrom_end (tokenize_eq_ok_iff.mp htokens)
  have hend : ∀ t ∈ init.map (·.toToken), t.lexeme ≠ .endOfText := by
    intro t ht
    obtain ⟨u, hu, rfl⟩ := List.mem_map.mp ht
    exact hinit u hu
  rw [phrase, List.dropLast_concat, List.map_append, List.map_singleton]
  exact Level.readProgram_eq_ok_iff (Level.ofBudget_reads limit limit) hlast hend

/-- A text that is accepted is made of tokens. -/
theorem tokenize_of_parseWithin {limit : Nat} {source : Text} {f : Formula}
    (h : parseWithin ρ limit source = .ok f) : ∃ tokens, tokenize source = .ok tokens := by
  obtain ⟨tokens, htokens, -⟩ := bind_eq_ok_iff.mp h
  exact ⟨tokens, htokens⟩

/-- The text is accepted exactly as a program within the limit. Its tree is the tree of the program,
and its inputs are those of one pass over the tree. -/
theorem parseWithin_eq_ok_iff {limit : Nat} {source : Text} {tokens : List PlacedToken}
    (htokens : tokenize source = .ok tokens) {f : Formula} :
    parseWithin ρ limit source = .ok f
      ↔ ∃ d, d ≤ limit ∧ ∃ nodes, Derives ρ d .statements (phrase tokens) nodes []
        ∧ f = ⟨source, collapse (.constant 0) nodes, (Scope.empty.visitAll nodes).inputs⟩ := by
  rw [parseWithin, parseAt, htokens, ok_bind]
  constructor
  · intro h
    split at h
    · rename_i nodes scope hread
      obtain ⟨⟨d, hd, hder⟩, rfl⟩ := (readProgram_tokens_iff htokens).mp hread
      cases h
      exact ⟨d, hd, nodes, hder, rfl⟩
    · exact nomatch h
  · rintro ⟨d, hd, nodes, hder, rfl⟩
    rw [(readProgram_tokens_iff htokens).mpr ⟨⟨d, hd, hder⟩, rfl⟩]
    rfl

/-- A text is accepted with the tree `root` exactly if its tokens are a program with the tree
`root` that nests within the limit. -/
theorem parse_root_iff_program {source : Text} {tokens : List PlacedToken}
    (htokens : tokenize source = .ok tokens) (root : Node) :
    (∃ f, parse ρ source = .ok f ∧ f.root = root)
      ↔ ∃ depth, depth ≤ nestingLimit ∧ Program ρ depth (phrase tokens) root := by
  constructor
  · rintro ⟨f, hf, rfl⟩
    obtain ⟨d, hd, nodes, hder, rfl⟩ := (parseWithin_eq_ok_iff htokens).mp hf
    exact ⟨d, hd, nodes, hder, rfl⟩
  · rintro ⟨d, hd, nodes, hder, rfl⟩
    exact ⟨_, (parseWithin_eq_ok_iff htokens).mpr ⟨d, hd, nodes, hder, rfl⟩, rfl⟩

/-- The other statement goes to the inner conditional, and a sign on a new line opens a statement. -/
theorem program_dangling_else :
    ∃ tokens, tokenize (Text.ofString "if (x) if (y) a; else b\n-c") = .ok tokens
      ∧ ∃ depth, depth ≤ nestingLimit ∧ Program ⟨0⟩ depth (phrase tokens)
        (.sequence [.ifThen (.read (Text.ofString "x"))
            (.ifElse (.read (Text.ofString "y")) (.read (Text.ofString "a"))
              (.read (Text.ofString "b"))),
          .negate (.read (Text.ofString "c"))]) := by
  have hf : parse ⟨0⟩ (Text.ofString "if (x) if (y) a; else b\n-c")
      = .ok ⟨Text.ofString "if (x) if (y) a; else b\n-c",
        .sequence [.ifThen (.read (Text.ofString "x"))
            (.ifElse (.read (Text.ofString "y")) (.read (Text.ofString "a"))
              (.read (Text.ofString "b"))),
          .negate (.read (Text.ofString "c"))],
        ["x", "y", "a", "b", "c"].map Text.ofString⟩ := rfl
  obtain ⟨tokens, htokens⟩ := tokenize_of_parseWithin hf
  exact ⟨tokens, htokens, (parse_root_iff_program htokens _).mp ⟨_, hf, rfl⟩⟩

end Formula

end Formulary
