import Formulary.Proofs.Evaluation.DefiniteAssignment

/-!
# The inputs of a tree

A reader of a text notes names while it goes, from deep inside its productions. What it has noted in
the end can be told from the tree alone: the names that the tree reads before it binds them. Nothing
that leaves no trace in the tree, such as parentheses, plus signs, braces or callees, plays a part.

- `Mention.freeReads` finds these names in one pass from left to right, and `Mention.mem_freeReads`
  says which they are.
- `Scope.inputs_foldl_eq_freeReads` compares the pass with what a scope has collected.
- `Formula.requiredInputs_eq_freeReads` is the statement about formulas.
-/

namespace Formulary

variable {ρ : ProviderId}

namespace Mention

/-- The names that are read while they are not local, each as often as that happens. A name is local
from the first time on that it is bound, wherever that is. -/
def freeReads (locals : List Text) : List Mention → List Text
  | [] => []
  | .read name :: rest =>
    if locals.contains name then freeReads locals rest else name :: freeReads locals rest
  | .bind name :: rest => freeReads (name :: locals) rest

/-- A name is read while it is not local exactly if some mention reads it and none before that binds
it. -/
theorem mem_freeReads {name : Text} {locals : List Text} {ms : List Mention} :
    name ∈ freeReads locals ms
      ↔ name ∉ locals
        ∧ ∃ before after, ms = before ++ .read name :: after ∧ .bind name ∉ before := by
  induction ms generalizing locals with
  | nil => simp [freeReads]
  | cons m ms ih =>
      -- the mention that reads the name is the first one or stands behind it
      have hsplit : (∃ before after, m :: ms = before ++ .read name :: after ∧ .bind name ∉ before)
          ↔ m = .read name ∨ m ≠ .bind name
            ∧ ∃ before after, ms = before ++ .read name :: after ∧ .bind name ∉ before := by
        constructor
        · rintro ⟨before, after, heq, hbefore⟩
          cases before with
          | nil => exact .inl (List.cons.inj heq).1
          | cons m' before =>
              obtain ⟨rfl, rfl⟩ := List.cons.inj heq
              obtain ⟨hm, hrest⟩ := List.ne_and_not_mem_of_not_mem_cons hbefore
              exact .inr ⟨Ne.symm hm, before, after, rfl, hrest⟩
        · rintro (rfl | ⟨hm, before, after, rfl, hbefore⟩)
          · exact ⟨[], ms, rfl, List.not_mem_nil⟩
          · exact ⟨m :: before, after, rfl, List.not_mem_cons_of_ne_of_not_mem (Ne.symm hm) hbefore⟩
      rw [hsplit]
      cases m with
      | read other =>
          rw [freeReads]
          split <;> grind
      | bind other =>
          rw [freeReads, ih]
          grind

end Mention

/-- A scope collects the names that are read while they are not local, each once and in the order of
its first time. -/
theorem Scope.inputs_foldl_eq_freeReads (ms : List Mention) (s : Scope) :
    (ms.foldl note s).inputs
      = s.inputs ++ ((Mention.freeReads s.locals ms).filter (· ∉ s.inputs)).eraseDups := by
  induction ms generalizing s with
  | nil => simp [Mention.freeReads]
  | cons m ms ih =>
      rw [List.foldl_cons, ih]
      cases m with
      | bind name => rfl
      | read name =>
          rw [note, locals_use, Mention.freeReads]
          by_cases hlocal : name ∈ s.locals
          · rw [if_pos (List.contains_iff_mem.mpr hlocal), use, if_pos (.inl hlocal)]
          · rw [if_neg (hlocal ∘ List.contains_iff_mem.mp)]
            by_cases hinput : name ∈ s.inputs
            · rw [use, if_pos (.inr hinput), List.filter_cons_of_neg (by simpa using hinput)]
            · -- the first time: what follows is told apart from the name itself
              rw [use, if_neg (not_or.mpr ⟨hlocal, hinput⟩),
                List.filter_cons_of_pos (by simpa using hinput), List.eraseDups_cons,
                List.filter_filter, List.append_assoc, List.singleton_append]
              congr 4
              funext other
              rw [Bool.eq_iff_iff]
              simp [and_comm]

namespace Formula

/-- The inputs of a formula are the names that its tree reads while they are not local, in the order
of their first use: those with a read before which nothing binds them. -/
theorem requiredInputs_eq_freeReads {source : Text} {f : Formula} (hf : parse ρ source = .ok f) :
    f.requiredInputs = (Mention.freeReads [] f.root.mentions).eraseDups
      ∧ ∀ name, name ∈ f.requiredInputs
        ↔ ∃ before after, f.root.mentions = before ++ .read name :: after
          ∧ .bind name ∉ before := by
  have hinputs : f.requiredInputs = (Mention.freeReads [] f.root.mentions).eraseDups := by
    have hall : (Mention.freeReads [] f.root.mentions).filter (· ∉ Scope.empty.inputs)
        = Mention.freeReads [] f.root.mentions :=
      List.filter_eq_self.mpr fun _ _ => decide_eq_true List.not_mem_nil
    rw [(inputs_of_parse hf).2, Scope.visit_eq_foldl, Scope.inputs_foldl_eq_freeReads]
    exact congrArg List.eraseDups hall
  refine ⟨hinputs, fun name => ?_⟩
  rw [hinputs, List.mem_eraseDups, Mention.mem_freeReads]
  exact and_iff_right List.not_mem_nil

/-- A declared name is local in its own value and an assigned one is not; a name bound in a branch
stays local, and a callee is not read. -/
theorem requiredInputs_eq_freeReads_branch :
    ∃ f, parse ⟨0⟩ (Text.ofString "let t=t+a;if(b)\x7bc=+(c)\x7delse d-=c;max(d,max)") = .ok f
      ∧ f.requiredInputs = ["a", "b", "c", "max"].map Text.ofString
      ∧ f.requiredInputs = (Mention.freeReads [] f.root.mentions).eraseDups := by
  have hf : parse ⟨0⟩ (Text.ofString "let t=t+a;if(b)\x7bc=+(c)\x7delse d-=c;max(d,max)")
      = .ok ⟨Text.ofString "let t=t+a;if(b)\x7bc=+(c)\x7delse d-=c;max(d,max)",
        .sequence [.declareAs (Text.ofString "t")
            (.arithmetic .add (.read (Text.ofString "t")) (.read (Text.ofString "a"))),
          .ifElse (.read (Text.ofString "b"))
            (.assign .set (Text.ofString "c") (.read (Text.ofString "c")))
            (.assign .subtract (Text.ofString "d") (.read (Text.ofString "c"))),
          .multiCall .max [.read (Text.ofString "d"), .read (Text.ofString "max")]],
        ["a", "b", "c", "max"].map Text.ofString⟩ := rfl
  exact ⟨_, hf, rfl, (requiredInputs_eq_freeReads hf).1⟩

end Formula

end Formulary
