import Formulary.Proofs.Evaluation.Footprint
import Formulary.Proofs.Grammar.Nesting
import Formulary.Proofs.Printing.RoundTrip

/-!
# How deep an evaluation goes

An evaluation calls itself for the trees right below a node, so that as many calls are open at once
as the tree is high. Here the calls are counted: an evaluation that may not open more than a number
of calls is no different as long as the tree is lower than that.

- `Node.evaluateWithin` gives up when too many calls are open, and
  `Node.evaluateWithin_of_height_lt` says how many are enough.
- `Formula.evaluation_depth` bounds the calls by the limit on nesting and the longest chain, and
  `Formula.evaluation_depth_unbounded` says that the limit alone does not.
-/

namespace Formulary

variable {σ : Type} {ρ : ProviderId}

namespace Node

/-! ## Calls -/

section Calls

variable [RandomProvider σ]

/-- The evaluation that has at most so many calls open at once, and does `overflow` in the place of
one more. -/
def evaluateWithin (overflow : Evaluation σ Number) : Nat → Node → Evaluation σ Number
  | 0, _ => overflow
  | calls + 1, node => node.evaluateWith fun child _ => evaluateWithin overflow calls child

/-- As many calls as the tree is high, and one for the node at the top, are enough. -/
theorem evaluateWithin_of_height_lt (overflow : Evaluation σ Number) {calls : Nat} {node : Node}
    (h : node.height < calls) : node.evaluateWithin overflow calls = node.evaluate := by
  induction calls generalizing node with
  | zero => exact absurd h (Nat.not_lt_zero _)
  | succ calls ih =>
      rw [evaluateWithin, evaluate]
      congr 1
      funext child below
      have hlt := height_lt_of_mem below
      exact ih (by omega)

end Calls

end Node

/-! ## Long sums -/

namespace Printing

def one : Numeral := ⟨Text.ofString "1", by decide, by decide⟩

/-- One with one added to it so many times. -/
def ones : Nat → Expression
  | 0 => .number one
  | n + 1 => .binary (.arithmetic .add) (ones n) (.number one)

theorem height_ones (n : Nat) : ((ones n).node ρ).height = n := by
  induction n with
  | zero => rfl
  | succ n ih =>
      show max (((ones n).node ρ).height + 1) 1 = n + 1
      rw [ih]
      omega

theorem needsParens_ones (n : Nat) (start : Bool) {level : Nat} (h : level ≤ 4) :
    (ones n).needsParens start level = false := by
  have hlevel : level ≤ (ones n).level := by
    cases n with
    | zero => exact Nat.le_trans h (by decide)
    | succ n => exact h
  have hname : (ones n).isReserved = false := by cases n <;> rfl
  rw [Expression.needsParens, decide_eq_false (Nat.not_lt.mpr hlevel), hname, Bool.and_false]
  rfl

/-- A sum stays on one level, however long it is. -/
theorem depth_ones (n : Nat) (start : Bool) : (ones n).depth start = 0 := by
  induction n with
  | zero => rfl
  | succ n ih =>
      show max (operandDepth (ones n) start 4 (ones n).depth) 0 = 0
      rw [operandDepth, needsParens_ones n start (Nat.le_refl 4), if_neg (by decide), ih]
      rfl

theorem programDepth_ones (n : Nat) : (Statement.evaluate (ones n)).programDepth = 2 := by
  show operandDepth (ones n) true 0 (ones n).depth + 1 + 1 = 2
  rw [operandDepth, needsParens_ones n true (Nat.zero_le 4), if_neg (by decide), depth_ones]

theorem parse_ones (n : Nat) :
    ∃ f, Formula.parse ρ (Statement.evaluate (ones n)).print = .ok f ∧ f.root = (ones n).node ρ := by
  obtain ⟨tokens, htokens, hphrase⟩ := tokenize_write (Statement.evaluate (ones n)).program
  have hprogram := (Statement.evaluate (ones n)).program_derives (ρ := ρ)
  rw [← hphrase] at hprogram
  refine (Formula.parseWithin_isOk_iff htokens hprogram).mpr ?_
  rw [programDepth_ones]
  decide

variable [RandomProvider σ]

theorem evaluate_ones (n : Nat) (m : Machine σ) :
    ∃ value, ((ones n).node ρ).evaluate m = .ok value m := by
  induction n with
  | zero => exact ⟨_, rfl⟩
  | succ n ih =>
      obtain ⟨value, hvalue⟩ := ih
      refine ⟨value + Number.ofNumeral one.digits, ?_⟩
      show (Node.arithmetic .add ((ones n).node ρ)
        (.constant (Number.ofNumeral one.digits))).evaluate m = _
      rw [Node.evaluate]
      show (((ones n).node ρ).evaluate >>= _) m = _
      rw [Evaluation.bind_apply, hvalue]
      rfl

/-- Without a call for each of its operators, the evaluation of a sum gives up. -/
theorem evaluateWithin_ones {calls n : Nat} (h : calls ≤ n) (e : EvaluationError) (m : Machine σ) :
    ((ones n).node ρ).evaluateWithin (throw e) calls m = .error e m := by
  induction calls generalizing n with
  | zero => rfl
  | succ calls ih =>
      cases n with
      | zero => exact absurd h (Nat.not_succ_le_zero _)
      | succ n =>
          show (((ones n).node ρ).evaluateWithin (throw e) calls >>= _) m = _
          rw [Evaluation.bind_apply, ih (Nat.le_of_succ_le_succ h)]

end Printing

/-! ## Bounded calls -/

/-- The limit on nesting bounds every way down the tree of a text that is read, if steps that go on
with a chain are not counted. So the height of the tree is less than the product of that number and
the length of the longest chain, each with one added, and the evaluation needs no more open calls
than this. -/
theorem Formula.evaluation_depth [RandomProvider σ] {limit : Nat} {source : Text} {f : Formula}
    (h : parseWithin ρ limit source = .ok f) :
    f.root.nesting ≤ 8 * limit + 1
      ∧ ∀ longest, f.root.ChainsWithin longest →
        f.root.height < (8 * limit + 2) * (longest + 1)
        ∧ ∀ overflow : Evaluation σ Number,
          f.root.evaluateWithin overflow ((8 * limit + 2) * (longest + 1)) = f.root.evaluate := by
  have hnesting := nesting_le_of_parse h
  refine ⟨hnesting, fun longest hlongest => ?_⟩
  have hheight : f.root.height < (8 * limit + 2) * (longest + 1) := by
    calc f.root.height
        ≤ f.root.nesting * (longest + 1) + f.root.chain := f.root.height_le hlongest
      _ ≤ (8 * limit + 1) * (longest + 1) + longest :=
        Nat.add_le_add (Nat.mul_le_mul_right _ hnesting) (hlongest f.root .here)
      _ < (8 * limit + 2) * (longest + 1) := by
        rw [Nat.succ_mul (8 * limit + 1)]
        omega
  exact ⟨hheight, fun overflow => Node.evaluateWithin_of_height_lt overflow hheight⟩

/-- A difference of three is a chain in which one operator follows another. -/
theorem Formula.evaluation_depth_difference :
    ∃ f, parse ⟨0⟩ (Text.ofString "a - b - c") = .ok f
      ∧ f.root.nesting ≤ 2049 ∧ f.root.ChainsWithin 1 ∧ f.root.height < 4100
      ∧ ∀ overflow : Evaluation FixedFraction Number,
        f.root.evaluateWithin overflow 4100 = f.root.evaluate := by
  have hf : parse ⟨0⟩ (Text.ofString "a - b - c")
      = .ok ⟨Text.ofString "a - b - c",
        .arithmetic .subtract
          (.arithmetic .subtract (.read (Text.ofString "a")) (.read (Text.ofString "b")))
          (.read (Text.ofString "c")),
        ["a", "b", "c"].map Text.ofString⟩ := rfl
  have hread : ∀ name, (Node.read name).ChainsWithin 1 := by
    intro name
    refine Node.chainsWithin_iff.mpr ⟨Nat.zero_le _, fun child hchild => ?_⟩
    cases hchild
  obtain ⟨hnesting, hdepth⟩ := evaluation_depth (σ := FixedFraction) hf
  refine ⟨_, hf, hnesting, ?chains, hdepth 1 ?chains⟩
  refine Node.chainsWithin_iff.mpr ⟨by decide,
    List.forall_mem_cons.mpr ⟨?_, List.forall_mem_singleton.mpr (hread _)⟩⟩
  exact Node.chainsWithin_iff.mpr ⟨by decide,
    List.forall_mem_cons.mpr ⟨hread _, List.forall_mem_singleton.mpr (hread _)⟩⟩

/-- No number bounds the height of the trees that are read or the calls that their evaluations have
open at once. -/
theorem Formula.evaluation_depth_unbounded :
    ¬ ∃ ρ bound, ∀ source f, parse ρ source = .ok f →
      f.root.height ≤ bound
        ∨ ∀ overflow : Evaluation FixedFraction Number,
          f.root.evaluateWithin overflow bound = f.root.evaluate := by
  rintro ⟨ρ, bound, h⟩
  obtain ⟨f, hf, hroot⟩ := Printing.parse_ones (bound + 1)
  rcases h _ f hf with hheight | hcalls
  · rw [hroot, Printing.height_ones] at hheight
    omega
  · let m : Machine FixedFraction := ⟨.empty, .own fun _ => .half, []⟩
    obtain ⟨value, hvalue⟩ := Printing.evaluate_ones (ρ := ρ) (bound + 1) m
    have hgives := Printing.evaluateWithin_ones (ρ := ρ) (Nat.le_succ bound) (.missingVariable []) m
    rw [← hroot] at hvalue hgives
    rw [hcalls, hvalue] at hgives
    cases hgives

end Formulary
