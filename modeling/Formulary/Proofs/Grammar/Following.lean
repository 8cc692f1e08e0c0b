import Formulary.Proofs.Grammar.Derivation

/-!
# What follows a phrase

A phrase looks at what follows only to see that it cannot go on. So it stays a phrase, with the
same trees, in front of any tokens that do not go on with it.

- `Detached` tokens continue nothing: they begin with no operator, question mark or parenthesis on
  the same line, and open no other statement of a conditional.
- `Derives.detach` puts detached tokens in the place of those that follow a phrase, and
  `Derives.detaches` in the place of the last of them.
- `Derives.ne_endOfText` says that no phrase contains the end of the text.
-/

namespace Formulary.Grammar

variable {ρ : ProviderId}

/-- The tokens go on with no phrase. -/
structure Detached (rest : List Token) : Prop where
  operator : ∀ op, ¬ Continues rest (.operator op)
  question : ¬ Continues rest (.mark .question)
  call : ¬ Continues rest (.mark .openParen)
  other : ¬ OpensElse rest

theorem detached_nil : Detached [] := ⟨fun _ => id, id, id, id⟩

/-- The end of the text goes on with nothing. -/
theorem detached_end {t : Token} (h : t.lexeme = .endOfText) : Detached [t] := by
  refine ⟨fun op hc => ?_, fun hc => ?_, fun hc => ?_, fun hc => ?_⟩
  · exact Lexeme.noConfusion (h.symm.trans hc.1)
  · exact Lexeme.noConfusion (h.symm.trans hc.1)
  · exact Lexeme.noConfusion (h.symm.trans hc.1)
  · have hc' : t.lexeme.isElse := hc
    rw [h] at hc'
    exact Bool.noConfusion hc'

/-- A mark that neither asks nor calls goes on with nothing, unless it stands before the other
statement of a conditional. -/
theorem detached_of_mark {t : Token} {ts : List Token} {m : Mark} (h : t.lexeme = .mark m)
    (hquestion : m ≠ .question) (hcall : m ≠ .openParen) (hother : ¬ OpensElse (t :: ts)) :
    Detached (t :: ts) := by
  have hno : ∀ l, .mark m ≠ l → ¬ Continues (t :: ts) l := by
    intro l hne hl
    have hjoins : t.Joins l := hl
    exact hne (h.symm.trans hjoins.1)
  refine ⟨fun op => hno _ Lexeme.noConfusion, hno _ ?_, hno _ ?_, hother⟩
  · exact fun heq => hquestion (Lexeme.mark.inj heq)
  · exact fun heq => hcall (Lexeme.mark.inj heq)

theorem Detached.not_continuesAssignment {rest : List Token} (h : Detached rest) :
    ¬ ContinuesAssignment rest := by
  rintro ⟨op, asg, -, hc⟩
  exact h.operator op hc

variable {us rest rest' : List Token}

theorem not_continues_append {l : Lexeme} (h : ¬ Continues (us ++ rest) l)
    (h' : ¬ Continues rest' l) : ¬ Continues (us ++ rest') l := by
  cases us with
  | nil => exact h'
  | cons t us => exact h

theorem not_opensElse_append (h : ¬ OpensElse (us ++ rest)) (h' : ¬ OpensElse rest') :
    ¬ OpensElse (us ++ rest') := by
  match us, rest, rest' with
  | [], _, _ => exact h'
  | [t], [], [] => exact h
  | [t], _ :: _, [] => exact fun hc => h (.inl hc)
  | [t], [], [v] =>
      rintro (hc | ⟨-, hv⟩)
      · exact h hc
      · exact h' hv
  | [t], [], v :: _ :: _ =>
      rintro (hc | ⟨-, hv⟩)
      · exact h hc
      · exact h' (.inl hv)
  | [t], _ :: _, [v] =>
      rintro (hc | ⟨-, hv⟩)
      · exact h (.inl hc)
      · exact h' hv
  | [t], _ :: _, v :: _ :: _ =>
      rintro (hc | ⟨-, hv⟩)
      · exact h (.inl hc)
      · exact h' (.inl hv)
  | t :: u :: us, _, _ => exact h

theorem not_opensSpecial_append {ts : List Token} (h : ¬ OpensSpecial (ts ++ (us ++ rest)))
    (hne : ∃ t ts', ts = t :: ts') (h' : ∀ op, ¬ Continues rest' (.operator op)) :
    ¬ OpensSpecial (ts ++ (us ++ rest')) := by
  obtain ⟨t, ts', rfl⟩ := hne
  rw [List.cons_append, ← List.append_assoc] at h ⊢
  rintro (hl | hi | ⟨hname, op, asg, hasg, hc⟩)
  · exact h (.inl hl)
  · exact h (.inr (.inl hi))
  · have hno : ¬ Continues (ts' ++ us ++ rest) (.operator op) :=
      fun hc' => h (.inr (.inr ⟨hname, op, asg, hasg, hc'⟩))
    exact not_continues_append hno (h' op) hc

theorem not_continuesLayer_append {l : Layer} (h : ¬ ContinuesLayer (us ++ rest) l)
    (h' : ∀ op, ¬ Continues rest' (.operator op)) : ¬ ContinuesLayer (us ++ rest') l := by
  rintro ⟨op, build, hb, hc⟩
  exact not_continues_append (fun hc => h ⟨op, build, hb, hc⟩) (h' op) hc

theorem not_continuesComparison_append (h : ¬ ContinuesComparison (us ++ rest))
    (h' : ∀ op, ¬ Continues rest' (.operator op)) : ¬ ContinuesComparison (us ++ rest') := by
  rintro ⟨op, cmp, hcmp, hc⟩
  exact not_continues_append (fun hc => h ⟨op, cmp, hcmp, hc⟩) (h' op) hc

/-- What holds in front of some tokens holds when `rest'` stands in the place of `rest` at their
end. -/
def Detaches (rest rest' : List Token) (P : List Token → Prop) (r : List Token) : Prop :=
  ∀ us, r = us ++ rest → P (us ++ rest')

/-- The tokens before the end may be parted anywhere. -/
theorem Detaches.under {P : List Token → Prop} {r : List Token} (vs : List Token)
    (h : Detaches rest rest' P (vs ++ r)) : Detaches rest rest' (fun r => P (vs ++ r)) r := by
  rintro us rfl
  have hwhole := h (vs ++ us) (List.append_assoc vs us rest).symm
  rwa [List.append_assoc] at hwhole

/-- A phrase stays a phrase when detached tokens come to stand behind it, at any distance. -/
theorem Derives.detaches {d : Nat} {k : Category} {ts r : List Token} {nodes : List Node}
    (h : Derives ρ d k ts nodes r) (hrest' : Detached rest') :
    Detaches rest rest' (Derives ρ d k ts nodes) r := by
  -- each side condition looks at `us` first, and at `rest'` only where `us` has run out
  induction h with (rintro us rfl)
  | none => exact .none
  | semicolon mark _ ih => exact .semicolon mark (ih us rfl)
  | @cons _ _ _ vs _ _ _ _ _ ih₁ ih₂ => exact .cons (ih₁.under vs us rfl) (ih₂ us rfl)
  | declare word target ends =>
      exact .declare word target (not_continues_append ends (hrest'.operator _))
  | declareAs word target sign _ ih => exact .declareAs word target sign (ih us rfl)
  | @ifThen _ _ _ _ q _ vs _ _ _ word opening _ closing _ ends ih₁ ih₂ =>
      exact .ifThen word opening (ih₁.under (q :: vs) us rfl) closing (ih₂ us rfl)
        (not_opensElse_append ends hrest'.other)
  | @ifElse _ _ _ _ _ q w _ us' seps vs _ _ _ _ word opening _ closing _ separator other _ ih₁ ih₂
      ih₃ =>
      exact .ifElse word opening (((ih₁.under (q :: us')).under seps).under (w :: vs) us rfl) closing
        ((ih₂.under seps).under (w :: vs) us rfl) separator other (ih₃ us rfl)
  | @block _ _ q _ _ _ opening _ closing ih =>
      exact .block opening (ih.under [q] us rfl) closing
  | assign target plain kind sign _ ih => exact .assign target plain kind sign (ih us rfl)
  | evaluate value plain ih =>
      obtain ⟨t, ts', rfl, -⟩ := value.opens trivial
      exact .evaluate (ih us rfl) (not_opensSpecial_append plain ⟨t, ts', rfl⟩ hrest'.operator)
  | plain _ ends ih => exact .plain (ih us rfl) (not_continues_append ends hrest'.question)
  | @choice _ _ _ q k _ us' vs _ _ _ _ _ question _ colon _ ih₁ ih₂ ih₃ =>
      exact .choice ((ih₁.under (q :: us')).under (k :: vs) us rfl) question
        (ih₂.under (k :: vs) us rfl) colon (ih₃ us rfl)
  | layer _ ends ih => exact .layer (ih us rfl) (not_continuesLayer_append ends hrest'.operator)
  | first _ ih => exact .first (ih us rfl)
  | @next _ _ _ o _ vs _ _ _ _ _ _ kind sign _ ih₁ ih₂ =>
      exact .next (ih₁.under (o :: vs) us rfl) kind sign (ih₂ us rfl)
  | uncompared _ ends ih =>
      exact .uncompared (ih us rfl) (not_continuesComparison_append ends hrest'.operator)
  | @compared _ _ o _ vs _ _ _ _ _ _ kind sign _ ih₁ ih₂ =>
      exact .compared (ih₁.under (o :: vs) us rfl) kind sign (ih₂ us rfl)
  | base _ ends ih => exact .base (ih us rfl) (not_continues_append ends (hrest'.operator _))
  | @power _ _ o _ vs _ _ _ _ sign _ ih₁ ih₂ =>
      exact .power (ih₁.under (o :: vs) us rfl) sign (ih₂ us rfl)
  | unsigned _ ih => exact .unsigned (ih us rfl)
  | signed kind sign _ ih => exact .signed kind sign (ih us rfl)
  | @group _ _ q _ _ _ opening _ closing ih =>
      exact .group opening (ih.under [q] us rfl) closing
  | number literal => exact .number literal
  | read target ends => exact .read target (not_continues_append ends hrest'.call)
  | callEmpty callee opening closing call => exact .callEmpty callee opening closing call
  | @call _ _ _ q _ _ _ _ _ callee opening _ closing call ih =>
      exact .call callee opening (ih.under [q] us rfl) closing call
  | last _ ih => exact .last (ih us rfl)
  | @more _ _ k _ vs _ _ _ _ comma _ ih₁ ih₂ =>
      exact .more (ih₁.under (k :: vs) us rfl) comma (ih₂ us rfl)

theorem Derives.detach {d : Nat} {k : Category} {ts : List Token} {nodes : List Node}
    (h : Derives ρ d k ts nodes rest) (hrest' : Detached rest') : Derives ρ d k ts nodes rest' :=
  h.detaches hrest' [] rfl

/-! ## The end of the text -/

/-- A separator is a semicolon or nothing. -/
theorem Separator.ne_endOfText {seps : List Token} (h : Separator seps) :
    ∀ t ∈ seps, t.lexeme ≠ .endOfText := by
  match seps, h with
  | [], _ => intro t ht; exact nomatch ht
  | [u], hu =>
      intro t ht
      rw [List.mem_singleton.mp ht, show u.lexeme = .mark .semicolon from hu]
      exact Lexeme.noConfusion

/-- No phrase contains the end of the text. -/
theorem Derives.ne_endOfText {d : Nat} {k : Category} {ts r : List Token} {nodes : List Node}
    (h : Derives ρ d k ts nodes r) : ∀ t ∈ ts, t.lexeme ≠ .endOfText := by
  have hword : ∀ {l : Lexeme} {text : Text}, l = .name text → l ≠ .endOfText := by
    rintro l text rfl
    exact Lexeme.noConfusion
  induction h with
  | none => intro t ht; exact nomatch ht
  | semicolon mark _ ih => simpa [mark] using ih
  | cons _ _ ih₁ ih₂ => exact List.forall_mem_append.mpr ⟨ih₁, ih₂⟩
  | declare word target => simp [hword (of_decide_eq_true word), target]
  | declareAs word target sign _ ih =>
      simpa [hword (of_decide_eq_true word), target, sign.1] using ih
  | ifThen word opening _ closing _ _ ih₁ ih₂ =>
      simp only [List.forall_mem_cons, List.forall_mem_append, opening, closing]
      exact ⟨hword (of_decide_eq_true word), by simp, ih₁, by simp, ih₂⟩
  | ifElse word opening _ closing _ separator other _ ih₁ ih₂ ih₃ =>
      simp only [List.forall_mem_cons, List.forall_mem_append, opening, closing]
      exact ⟨hword (of_decide_eq_true word), by simp, ih₁, by simp, ih₂, separator.ne_endOfText,
        hword (of_decide_eq_true other), ih₃⟩
  | block opening _ closing ih | group opening _ closing ih =>
      simp only [List.forall_mem_cons, List.forall_mem_append, opening, closing]
      exact ⟨by simp, ih, by simp, fun _ ht => (nomatch ht)⟩
  | assign target _ _ sign _ ih => simpa [target, sign.1] using ih
  | evaluate _ _ ih | plain _ _ ih | layer _ _ ih | uncompared _ _ ih | base _ _ ih => exact ih
  | first _ ih | unsigned _ ih | last _ ih => exact ih
  | choice _ question _ colon _ ih₁ ih₂ ih₃ =>
      simp only [List.forall_mem_cons, List.forall_mem_append, question.1, colon]
      exact ⟨ih₁, by simp, ih₂, by simp, ih₃⟩
  | next _ _ sign _ ih₁ ih₂ | compared _ _ sign _ ih₁ ih₂ | power _ sign _ ih₁ ih₂ =>
      simp only [List.forall_mem_cons, List.forall_mem_append, sign.1]
      exact ⟨ih₁, by simp, ih₂⟩
  | signed _ sign _ ih => simpa [sign] using ih
  | number literal => simp [literal]
  | read target => simp [target]
  | callEmpty callee opening closing => simp [callee, opening.1, closing]
  | call callee opening _ closing _ ih =>
      simp only [List.forall_mem_cons, List.forall_mem_append, callee, opening.1, closing]
      exact ⟨by simp, by simp, ih, by simp, fun _ ht => (nomatch ht)⟩
  | more _ comma _ ih₁ ih₂ =>
      simp only [List.forall_mem_cons, List.forall_mem_append, comma]
      exact ⟨ih₁, by simp, ih₂⟩

end Formulary.Grammar
