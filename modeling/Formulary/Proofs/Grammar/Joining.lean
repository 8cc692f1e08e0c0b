import Formulary.Proofs.Grammar.Following
import Formulary.Proofs.Token.Separation

/-!
# Programs one behind the other

Two programs make one program if what stands between them keeps the first from going on into the
second: a semicolon, or a line break before the first token of the second.

- `Derives.openParens_eq` says that a phrase closes the parentheses that it opens, so that a line
  break behind it counts.
- `Derives.breakFirst` says that a line break before a phrase does not change it.
- `Derives.append` puts the statements of two programs into one.
-/

namespace Formulary

variable {ρ : ProviderId}

/-! ## Parentheses -/

@[simp] theorem openParens_cons (n : Nat) (t : Token) (ts : List Token) :
    openParens n (t :: ts) = openParens (ScanState.depthAfter n t.lexeme) ts := rfl

@[simp] theorem openParens_append (n : Nat) (ts us : List Token) :
    openParens n (ts ++ us) = openParens (openParens n ts) us := List.foldl_append

namespace Grammar

theorem Separator.openParens_eq {seps : List Token} (h : Separator seps) (n : Nat) :
    openParens n seps = n := by
  match seps, h with
  | [], _ => rfl
  | [t], ht =>
      have hlexeme : t.lexeme = .mark .semicolon := ht
      rw [openParens_cons, hlexeme]
      rfl

/-- A phrase closes the parentheses that it opens, and no others. -/
theorem Derives.openParens_eq {d : Nat} {k : Category} {ts rest : List Token} {nodes : List Node}
    (h : Derives ρ d k ts nodes rest) : ∀ n, openParens n ts = n := by
  induction h with
  | none => intro n; rfl
  | semicolon mark _ ih => intro n; simp [mark, ScanState.depthAfter, ih]
  | cons _ _ ih₁ ih₂ => intro n; simp [ih₁, ih₂]
  | declare word target =>
      intro n
      have hlet := of_decide_eq_true word
      rw [openParens_cons, openParens_cons, hlet, target]
      rfl
  | declareAs word target sign _ ih =>
      intro n
      have hlet := of_decide_eq_true word
      simp [hlet, target, sign.1, ScanState.depthAfter, ih]
  | ifThen word opening _ closing _ _ ih₁ ih₂ =>
      intro n
      have hif := of_decide_eq_true word
      simp [hif, opening, closing, ScanState.depthAfter, ih₁, ih₂]
  | ifElse word opening _ closing _ separator other _ ih₁ ih₂ ih₃ =>
      intro n
      have hif := of_decide_eq_true word
      have helse := of_decide_eq_true other
      simp [hif, helse, opening, closing, separator.openParens_eq, ScanState.depthAfter, ih₁, ih₂,
        ih₃]
  | block opening _ closing ih | group opening _ closing ih =>
      intro n
      rw [openParens_cons, openParens_append, ih, openParens_cons, opening, closing]
      rfl
  | assign target _ _ sign _ ih => intro n; simp [target, sign.1, ScanState.depthAfter, ih]
  | evaluate _ _ ih | plain _ _ ih | layer _ _ ih | uncompared _ _ ih | base _ _ ih => exact ih
  | first _ ih | unsigned _ ih | last _ ih => exact ih
  | choice _ question _ colon _ ih₁ ih₂ ih₃ =>
      intro n
      simp [question.1, colon, ScanState.depthAfter, ih₁, ih₂, ih₃]
  | next _ _ sign _ ih₁ ih₂ | compared _ _ sign _ ih₁ ih₂ | power _ sign _ ih₁ ih₂ =>
      intro n
      simp [sign.1, ScanState.depthAfter, ih₁, ih₂]
  | signed _ sign _ ih => intro n; simp [sign, ScanState.depthAfter, ih]
  | number lexeme | read lexeme =>
      intro n
      rw [openParens_cons, lexeme]
      rfl
  | callEmpty callee opening closing =>
      intro n
      rw [openParens_cons, openParens_cons, openParens_cons, callee, opening.1, closing]
      rfl
  | call callee opening _ closing _ ih =>
      intro n
      rw [openParens_cons, openParens_cons, openParens_append, ih, openParens_cons, callee,
        opening.1, closing]
      rfl
  | more _ comma _ ih₁ ih₂ => intro n; simp [comma, ScanState.depthAfter, ih₁, ih₂]

/-! ## The first token of a phrase -/

theorem Derives.replace_first {d : Nat} {k : Category} {ts rest : List Token} {nodes : List Node}
    (h : Derives ρ d k ts nodes rest) {t t' : Token} {us : List Token} (hts : ts = t :: us)
    (hlexeme : t'.lexeme = t.lexeme) : Derives ρ d k (t' :: us) nodes rest := by
  -- only tokens that go on with a phrase are asked for line breaks, and the first goes on with none
  induction h generalizing us with
  | none => exact nomatch hts
  | semicolon mark others _ =>
      cases hts
      exact .semicolon (hlexeme.trans mark) others
  | cons first others ih _ =>
      obtain ⟨v, vs, rfl, -⟩ := first.statement_opens
      cases hts
      exact .cons (ih rfl) others
  | declare word target ends =>
      cases hts
      exact .declare (by rwa [hlexeme]) target ends
  | declareAs word target sign initializer _ =>
      cases hts
      exact .declareAs (by rwa [hlexeme]) target sign initializer
  | ifThen word opening test closing branch ends _ _ =>
      cases hts
      exact .ifThen (by rwa [hlexeme]) opening test closing branch ends
  | ifElse word opening test closing branch separator other alternative _ _ _ =>
      cases hts
      exact .ifElse (by rwa [hlexeme]) opening test closing branch separator other alternative
  | block opening body closing _ =>
      cases hts
      exact .block (hlexeme.trans opening) body closing
  | assign target plain kind sign assigned _ =>
      cases hts
      exact .assign (hlexeme.trans target) (by rwa [hlexeme]) kind sign assigned
  | evaluate value plain ih =>
      cases hts
      refine .evaluate (ih rfl) ?_
      rwa [List.cons_append, OpensSpecial, hlexeme]
  | plain _ ends ih => exact .plain (ih hts) ends
  | choice test question left colon right ih _ _ =>
      obtain ⟨v, vs, rfl, -⟩ := test.opens trivial
      cases hts
      exact .choice (ih rfl) question left colon right
  | layer _ ends ih => exact .layer (ih hts) ends
  | first _ ih => exact .first (ih hts)
  | next operands kind sign operand ih _ =>
      obtain ⟨v, vs, rfl, -⟩ := operands.opens trivial
      cases hts
      exact .next (ih rfl) kind sign operand
  | uncompared _ ends ih => exact .uncompared (ih hts) ends
  | compared smaller kind sign larger ih _ =>
      obtain ⟨v, vs, rfl, -⟩ := smaller.opens trivial
      cases hts
      exact .compared (ih rfl) kind sign larger
  | base _ ends ih => exact .base (ih hts) ends
  | power raised sign power ih _ =>
      obtain ⟨v, vs, rfl, -⟩ := raised.opens trivial
      cases hts
      exact .power (ih rfl) sign power
  | unsigned _ ih => exact .unsigned (ih hts)
  | signed kind sign value _ =>
      cases hts
      exact .signed kind (hlexeme.trans sign) value
  | group opening inner closing _ =>
      cases hts
      exact .group (hlexeme.trans opening) inner closing
  | number literal =>
      cases hts
      exact .number (hlexeme.trans literal)
  | read target ends =>
      cases hts
      exact .read (hlexeme.trans target) ends
  | callEmpty callee opening closing call =>
      cases hts
      exact .callEmpty (hlexeme.trans callee) opening closing call
  | call callee opening given closing call _ =>
      cases hts
      exact .call (hlexeme.trans callee) opening given closing call
  | last _ ih => exact .last (ih hts)
  | more argument comma others ih _ =>
      obtain ⟨v, vs, rfl, -⟩ := argument.opens trivial
      cases hts
      exact .more (ih rfl) comma others

/-- A line break before a phrase leaves the phrase as it is. -/
theorem Derives.breakFirst {d : Nat} {k : Category} {ts rest : List Token} {nodes : List Node}
    (h : Derives ρ d k ts nodes rest) (b : Bool) :
    Derives ρ d k (Formulary.breakFirst b ts) nodes rest := by
  cases ts with
  | nil => exact h
  | cons t ts => exact h.replace_first rfl rfl

/-! ## Statements behind statements -/

/-- Statements in front of other statements are statements, as deep as the deeper of the two. -/
theorem Derives.append {d e : Nat} {ts us rest : List Token} {nodes more : List Node}
    (h : Derives ρ d .statements ts nodes (us ++ rest)) (h' : Derives ρ e .statements us more rest) :
    Derives ρ (max d e) .statements (ts ++ us) (nodes ++ more) rest := by
  generalize hk : Category.statements = k at h
  generalize hr : us ++ rest = r at h
  induction h with
  | none => rwa [Nat.zero_max]
  | semicolon mark _ ih => exact .semicolon mark (ih hk hr)
  | @cons d e' ts vs node nodes r first _ _ ih =>
      subst hr
      have hfirst : Derives ρ d .statement ts [node] ((vs ++ us) ++ rest) := by
        rwa [List.append_assoc]
      rw [List.append_assoc, List.cons_append, Nat.max_assoc]
      exact .cons hfirst (ih hk rfl)
  | _ => exact nomatch hk

/-- A line break keeps a phrase from going on, but not from having another statement. -/
theorem detached_of_lineBreak {t : Token} {ts : List Token} (h : t.lineBreakBefore = true)
    (hother : ¬ OpensElse (t :: ts)) : Detached (t :: ts) := by
  have hno : ∀ l, ¬ Continues (t :: ts) l := by
    intro l hl
    have hjoins : t.Joins l := hl
    exact nomatch h.symm.trans hjoins.2
  exact ⟨fun op => hno _, hno _, hno _, hother⟩

end Grammar

end Formulary
