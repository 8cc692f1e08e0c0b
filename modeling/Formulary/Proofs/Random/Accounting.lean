import Formulary.Random.Family
import Formulary.Proofs.Evaluation.Substitution

/-!
# Where a generator stands

A generator's state is a matter of counting: it is the seed and one increment for each value that has
been drawn from it, or that had been drawn from the generator it was copied from. What is drawn next
depends on that count alone, whatever else is drawn from the other members of its family in between.

- `Generator.stateAfter` is the state behind a number of draws, and `Generator.wordAfter` the word
  that the next draw gives.
- `Family.accountsAfter` keeps the count for every member of a family, looking at the steps and at
  what came of them and never at a state.
- `Family.perform_accounted` is one step, and `Family.draws_accounted` says it of all runs, of a
  family and of a seeded provider.
-/

namespace Formulary

/-- The integer part of a value modulo 2^32, as a signed integer; zero if there is none. -/
def Number.toInt32 (x : Number) : Int :=
  match x.integerPart? with
  | none => 0
  | some n => n.bmod UInt32.size

/-- The word of a value is its 32-bit integer modulo 2^32. -/
theorem Number.toInt32_emod (x : Number) : x.toInt32 % UInt32.size = x.toWord.toNat := by
  rw [toInt32, toWord]
  cases x.integerPart? with
  | none => rfl
  | some n =>
      have hsize : Int.pow 2 32 = UInt32.size := by decide
      have hpos : (0 : Int) < UInt32.size := by decide
      have hnonneg : 0 ≤ n % (UInt32.size : Int) := Int.emod_nonneg n (Int.ne_of_gt hpos)
      have hlt : n % (UInt32.size : Int) < UInt32.size := Int.emod_lt_of_pos n hpos
      show n.bmod UInt32.size % UInt32.size = _
      rw [Int.bmod_emod, hsize, UInt32.toNat_ofNat_of_lt' (by omega), Int.toNat_of_nonneg hnonneg]

namespace Generator

/-! ## States and words -/

/-- The state behind `k` draws from a seed. -/
def stateAfter (seed : Number) (k : Nat) : UInt32 :=
  UInt32.ofNat ((seed.toInt32 + k * 0x6d2b79f5) % UInt32.size).toNat

/-- The word that the next draw gives behind `k` draws from a seed. -/
def wordAfter (seed : Number) (k : Nat) : UInt32 := scramble (stateAfter seed (k + 1))

/-- The states form an arithmetic progression modulo 2^32. -/
theorem toNat_stateAfter (seed : Number) (k : Nat) :
    ((stateAfter seed k).toNat : Int) = (seed.toInt32 + k * 0x6d2b79f5) % UInt32.size := by
  have hpos : (0 : Int) < UInt32.size := by decide
  have hnonneg := Int.emod_nonneg (seed.toInt32 + k * 0x6d2b79f5) (Int.ne_of_gt hpos)
  have hlt := Int.emod_lt_of_pos (seed.toInt32 + k * 0x6d2b79f5) hpos
  rw [stateAfter, UInt32.toNat_ofNat_of_lt' (by omega), Int.toNat_of_nonneg hnonneg]

theorem ofSeed_eq (seed : Number) : ofSeed seed = ⟨stateAfter seed 0⟩ := by
  have hstate := toNat_stateAfter seed 0
  rw [Int.natCast_zero, Int.zero_mul, Int.add_zero, seed.toInt32_emod] at hstate
  rw [ofSeed, UInt32.toNat_inj.mp (Int.ofNat.inj hstate)]

/-- A draw adds one increment to the state. -/
theorem advance_stateAfter (seed : Number) (k : Nat) :
    advance ⟨stateAfter seed k⟩ = ⟨stateAfter seed (k + 1)⟩ := by
  have hk := toNat_stateAfter seed k
  have hsucc := toNat_stateAfter seed (k + 1)
  have hincrement : increment.toNat = 0x6d2b79f5 := rfl
  have hsum : (stateAfter seed k + increment).toNat = (stateAfter seed (k + 1)).toNat := by
    rw [UInt32.toNat_add, hincrement]
    simp only [UInt32.size] at hk hsucc
    omega
  rw [advance, UInt32.toNat_inj.mp hsum]

/-- A draw takes the word of the state behind it. -/
theorem draw_stateAfter (seed : Number) (k : Nat) :
    draw ⟨stateAfter seed k⟩ = (wordAfter seed k, ⟨stateAfter seed (k + 1)⟩) := by
  rw [draw, advance_stateAfter]
  rfl

/-- A draw changes the state. -/
theorem advance_ne (g : Generator) : g.advance ≠ g := by
  intro h
  have hstate : g.state + increment = g.state := congrArg Generator.state h
  have hzero : increment = 0 := by
    rwa [UInt32.add_eq_left] at hstate
  exact absurd hzero (by decide)

/-! ## What a word becomes -/

/-- The double of the integer that a word gives between two bounds. -/
def integerOf (word : UInt32) (low high : Int) : Number :=
  let value := spread Rounding.toDouble word low high
  Float.ofInt value.num / Float.ofNat value.den

/-- What a request makes of the word that is drawn for it. An integer is drawn exactly if the bounds
are integers of magnitude below 2^53 and the lower one is the lesser. -/
def Request.outcome (word : UInt32) : Request → Except RangeFault Number
  | .fraction => .ok (Generator.fraction word)
  | .below bound => .ok (Generator.fraction word * bound)
  | .between low high =>
    match low.toSafeInteger?, high.toSafeInteger? with
    | some a, some b => if a < b then .ok (integerOf word a b) else .error (.emptyRange a b)
    | _, _ => .error .unsafeBound

/-- An integer that is taken from a value is of magnitude below 2^53. -/
theorem isSafe_of_toSafeInteger? {x : Number} {n : Int} (h : x.toSafeInteger? = some n) :
    isSafe n = true := by
  rw [Number.toSafeInteger?] at h
  split at h
  · cases h
  · rename_i d _
    split at h
    · rename_i hsafe
      have hmagnitude := of_decide_eq_true (Bool.and_eq_true_iff.mp hsafe).2
      have hmax : Number.maxSafeInteger = 9007199254740991 := by decide
      obtain rfl : d.whole = n := Option.some.inj h
      rw [isSafe, Dyadic.whole, hmax, Bool.and_eq_true, decide_eq_true_iff, decide_eq_true_iff]
      rw [hmax] at hmagnitude
      split <;> omega
    · cases h

/-- Between two safe bounds only an empty range is refused. -/
theorem drawInteger_eq {low high : Int} (hlow : isSafe low = true) (hhigh : isSafe high = true)
    (g : Generator) :
    g.drawInteger low high
      = if low < high then .ok (integerOf g.draw.1 low high, g.draw.2)
        else .error (.emptyRange low high) := by
  rw [drawInteger, drawIntegerWith, hlow, hhigh, Bool.and_self, if_pos rfl]
  split <;> rfl

/-- A request that is met takes one draw, and one that is refused takes none. -/
theorem respond_eq (g : Generator) (request : Request) :
    g.respond request = (request.outcome g.draw.1).map fun x => (x, g.draw.2) := by
  cases request with
  | fraction => rfl
  | below bound => rfl
  | between low high =>
      rw [respond, drawBetween, Request.outcome]
      cases hlow : low.toSafeInteger? with
      | none => rfl
      | some a =>
          cases hhigh : high.toSafeInteger? with
          | none => rfl
          | some b =>
              dsimp only
              rw [drawInteger_eq (isSafe_of_toSafeInteger? hlow) (isSafe_of_toSafeInteger? hhigh)]
              split <;> rfl

end Generator

/-! ## Accounts of a family -/

/-- What has been drawn from a generator. -/
structure Account where
  /-- How many values were drawn from it. -/
  own : Nat
  /-- How many draws the generator that it was copied from had behind it then. -/
  inherited : Nat
  deriving DecidableEq, Repr

/-- All draws that lie behind a generator. -/
def Account.total (a : Account) : Nat := a.own + a.inherited

namespace Family

open Generator

/-- The accounts behind a step, by what came of it. -/
def record (accounts : List Account) : Step → Reply → List Account
  | .draw number _, .value _ => accounts.modify number fun a => { a with own := a.own + 1 }
  | .copy number, .copied _ =>
    accounts ++ (accounts[number]?.map fun a => ⟨0, a.total⟩).toList
  | _, _ => accounts

/-- The accounts behind some steps that a family takes in turn. -/
def accountsAfter (family : Family) (accounts : List Account) : List Step → List Account
  | [] => accounts
  | step :: steps =>
    let (reply, next) := family.perform step
    accountsAfter next (record accounts step reply) steps

/-- The family whose members stand where their accounts say. -/
def ofAccounts (seed : Number) (accounts : List Account) : Family :=
  accounts.map fun a => ⟨stateAfter seed a.total⟩

/-- What comes of a request to a generator with an account, if there is one. -/
def replyTo (seed : Number) (request : Generator.Request) : Option Account → Reply
  | none => .missing
  | some a =>
    match request.outcome (wordAfter seed a.total) with
    | .ok x => .value x
    | .error fault => .refused fault

/-- Each member stands where its account says. -/
theorem getElem?_ofAccounts (seed : Number) (accounts : List Account) (number : Nat) :
    (ofAccounts seed accounts)[number]?
      = accounts[number]?.map fun a => (⟨stateAfter seed a.total⟩ : Generator) :=
  List.getElem?_map

/-- One more draw is one more state. -/
theorem set_ofAccounts (seed : Number) {accounts : List Account} {number : Nat} {a : Account}
    (h : accounts[number]? = some a) :
    (ofAccounts seed accounts).set number ⟨stateAfter seed (a.total + 1)⟩
      = ofAccounts seed (accounts.modify number fun a => { a with own := a.own + 1 }) := by
  refine List.ext_getElem? fun i => ?_
  rw [getElem?_ofAccounts, List.getElem?_set, List.getElem?_modify, getElem?_ofAccounts]
  by_cases hi : number = i
  · subst hi
    have hlt : number < (ofAccounts seed accounts).length := by
      rw [ofAccounts, List.length_map]
      exact (List.getElem?_eq_some_iff.mp h).1
    simp only [if_pos, hlt, h]
    show some _ = some (⟨stateAfter seed (a.own + 1 + a.inherited)⟩ : Generator)
    rw [Account.total, Nat.add_right_comm]
  · simp only [if_neg hi]
    cases accounts[i]? <;> rfl

/-- What is drawn depends on the account of the generator that is asked and on nothing else. -/
theorem perform_draw (seed : Number) (accounts : List Account) (number : Nat)
    (request : Generator.Request) :
    (ofAccounts seed accounts).perform (.draw number request)
      = (replyTo seed request accounts[number]?,
        ofAccounts seed (record accounts (.draw number request)
          (replyTo seed request accounts[number]?))) := by
  rw [perform, getElem?_ofAccounts]
  cases haccount : accounts[number]? with
  | none => rfl
  | some a =>
      dsimp only [Option.map_some]
      rw [respond_eq, draw_stateAfter, replyTo]
      cases request.outcome (wordAfter seed a.total) with
      | ok x =>
          show (Reply.value x, (ofAccounts seed accounts).set number _) = _
          rw [set_ofAccounts seed haccount]
          rfl
      | error fault => rfl

/-- A copy stands where the generator does that it was made from. -/
theorem perform_copy (seed : Number) (accounts : List Account) (number : Nat) :
    ((ofAccounts seed accounts).perform (.copy number)).2
      = ofAccounts seed (record accounts (.copy number)
        ((ofAccounts seed accounts).perform (.copy number)).1) := by
  rw [perform, getElem?_ofAccounts]
  cases haccount : accounts[number]? with
  | none => rfl
  | some a =>
      show _ = ofAccounts seed (accounts ++ (accounts[number]?.map _).toList)
      rw [haccount, ofAccounts, ofAccounts, List.map_append]
      show _ = _ ++ [(⟨stateAfter seed (0 + a.total)⟩ : Generator)]
      rw [Nat.zero_add]
      rfl

/-- One step: the accounts behind it say where every member stands. -/
theorem perform_accounted (seed : Number) (accounts : List Account) (step : Step) :
    ((ofAccounts seed accounts).perform step).2
      = ofAccounts seed (record accounts step ((ofAccounts seed accounts).perform step).1) := by
  cases step with
  | draw number request => rw [perform_draw]
  | copy number => exact perform_copy seed accounts number

/-- A whole run: every member stands where its account says. -/
theorem after_accounted (seed : Number) (accounts : List Account) (steps : List Step) :
    (ofAccounts seed accounts).after steps
      = ofAccounts seed (accountsAfter (ofAccounts seed accounts) accounts steps) := by
  induction steps generalizing accounts with
  | nil => rfl
  | cons step steps ih =>
      show after ((ofAccounts seed accounts).perform step).2 steps = ofAccounts seed
        (accountsAfter ((ofAccounts seed accounts).perform step).2
          (record accounts step ((ofAccounts seed accounts).perform step).1) steps)
      rw [perform_accounted seed accounts step]
      exact ih _

end Family

/-! ## Accounts of a provider -/

namespace Draw

/-- Whether an answer takes a draw: it does, except that an integer is drawn only below a bound whose
integer part is positive and of magnitude below 2^53. -/
def counts : Draw → Bool
  | .fraction => true
  | .below _ => true
  | .integerBelow bound =>
    bound.integerPart?.any fun n => 0 < n && n ≤ Number.maxSafeInteger

/-- What a request makes of the word that is drawn for it; zero where none is drawn. -/
def outcome (word : UInt32) : Draw → Number
  | .fraction => Generator.fraction word
  | .below bound => Generator.fraction word * bound
  | .integerBelow bound =>
    match positiveBound? bound with
    | none => 0
    | some n => Generator.integerOf word 0 n

/-- A request takes no draw exactly if no integer can be drawn below its bound. -/
theorem counts_eq_false_iff (bound : Number) :
    counts (.integerBelow bound) = false
      ↔ ¬ ∃ n, bound.integerPart? = some n ∧ 0 < n ∧ n ≤ Number.maxSafeInteger := by
  rw [counts, ← Bool.not_eq_true]
  refine not_congr ?_
  cases bound.integerPart? with
  | none => simp
  | some n => simp

/-- A request for an integer counts exactly if its bound is positive and safe. -/
theorem counts_integerBelow (bound : Number) :
    counts (.integerBelow bound) = (positiveBound? bound).isSome := by
  rw [counts, positiveBound?]
  cases bound.integerPart? with
  | none => rfl
  | some n =>
      show (decide (0 < n) && decide (n ≤ Number.maxSafeInteger)) = _
      cases hn : (decide (0 < n) && decide (n ≤ Number.maxSafeInteger)) <;> simp [hn]

/-- A bound that integers can be drawn below is positive and safe. -/
theorem positiveBound?_eq_some {bound : Number} {n : Int} (h : positiveBound? bound = some n) :
    0 < n ∧ n ≤ Number.maxSafeInteger := by
  rw [positiveBound?] at h
  split at h
  · cases h
  · split at h
    · rename_i hn
      cases h
      rw [Bool.and_eq_true, decide_eq_true_iff, decide_eq_true_iff] at hn
      exact hn
    · cases h

end Draw

namespace Generator

/-- No range is refused; a request that counts takes one draw, and one that does not takes none. -/
theorem answer?_eq (g : Generator) (request : Draw) :
    g.answer? request
      = .ok (request.outcome g.draw.1, if request.counts then g.draw.2 else g) := by
  cases request with
  | fraction => rfl
  | below bound => rfl
  | integerBelow bound =>
      rw [answer?, Draw.outcome, Draw.counts_integerBelow]
      cases hbound : Draw.positiveBound? bound with
      | none => rfl
      | some n =>
          obtain ⟨hpos, hle⟩ := Draw.positiveBound?_eq_some hbound
          have hzero : isSafe 0 = true := by decide
          have hn : isSafe n = true := by
            rw [isSafe, Bool.and_eq_true, decide_eq_true_iff, decide_eq_true_iff]
            exact ⟨by omega, hle⟩
          dsimp only
          rw [drawInteger_eq hzero hn, if_pos hpos]
          rfl

/-- The answer as the program gives it, without the faults that never come. -/
theorem answer_eq (g : Generator) (request : Draw) :
    RandomProvider.answer g request
      = (request.outcome g.draw.1, if request.counts then g.draw.2 else g) := by
  show g.answer request = _
  rw [answer, answer?_eq]

/-- The state stays exactly if the request takes no draw. -/
theorem answer_snd_eq_iff (g : Generator) (request : Draw) :
    (RandomProvider.answer g request).2 = g ↔ request.counts = false := by
  rw [answer_eq]
  cases request.counts with
  | false => simp
  | true =>
      constructor
      · intro h
        exact absurd h (advance_ne g)
      · intro h
        cases h

/-- Some requests move the state by as many draws as count among them. -/
theorem asked_stateAfter (seed : Number) (k : Nat) (draws : List Draw) :
    RandomProvider.asked (⟨stateAfter seed k⟩ : Generator) draws
      = ⟨stateAfter seed (k + draws.countP Draw.counts)⟩ := by
  induction draws generalizing k with
  | nil => rfl
  | cons request draws ih =>
      show RandomProvider.asked (RandomProvider.answer _ request).2 draws = _
      rw [answer_eq, draw_stateAfter, List.countP_cons]
      cases request.counts with
      | false => exact ih k
      | true =>
          show RandomProvider.asked (⟨stateAfter seed (k + 1)⟩ : Generator) draws = _
          rw [ih, Nat.add_right_comm]
          rfl

end Generator

/-- Every run of a family: each member stands where its account says, and what is drawn from it next
depends on the seed, its account and the request alone. Every run of a seeded provider: the state
counts the requests that take a draw, and a request for an integer takes none exactly if the integer
part of its bound is not positive or not of magnitude below 2^53. -/
theorem Family.draws_accounted (seed : Number) :
    (∀ steps : List Step,
      let family := (ofSeed seed).after steps
      let accounts := accountsAfter (ofSeed seed) [⟨0, 0⟩] steps
      family.map (fun g => (g.state.toNat : Int))
          = accounts.map (fun a => (seed.toInt32 + a.total * 0x6d2b79f5) % UInt32.size)
        ∧ ∀ number request,
          (family.perform (.draw number request)).1 = replyTo seed request accounts[number]?)
    ∧ ∀ draws : List Draw,
      let g := RandomProvider.asked (Generator.ofSeed seed) draws
      let k := draws.countP Draw.counts
      (g.state.toNat : Int) = (seed.toInt32 + k * 0x6d2b79f5) % UInt32.size
        ∧ (∀ request, (RandomProvider.answer g request).1
          = request.outcome (Generator.wordAfter seed k))
        ∧ ∀ bound, (RandomProvider.answer g (.integerBelow bound)).2 = g
          ↔ ¬ ∃ n, bound.integerPart? = some n ∧ 0 < n ∧ n ≤ Number.maxSafeInteger := by
  have hstart : ofSeed seed = ofAccounts seed [⟨0, 0⟩] := by
    rw [ofSeed, Generator.ofSeed_eq]
    rfl
  constructor
  · intro steps
    dsimp only
    rw [hstart, after_accounted]
    constructor
    · rw [ofAccounts, List.map_map]
      refine List.map_congr_left fun a _ => ?_
      exact Generator.toNat_stateAfter seed a.total
    · intro number request
      rw [perform_draw]
  · intro draws
    dsimp only
    rw [Generator.ofSeed_eq, Generator.asked_stateAfter, Nat.zero_add]
    refine ⟨Generator.toNat_stateAfter seed _, fun request => ?_, fun bound => ?_⟩
    · rw [Generator.answer_eq, Generator.draw_stateAfter]
    · rw [Generator.answer_snd_eq_iff, Draw.counts_eq_false_iff]

example : Family.accountsAfter (Family.ofSeed 1) [⟨0, 0⟩]
    [.draw 0 .fraction, .copy 0, .draw 1 (.between 5 5), .draw 1 .fraction, .draw 0 (.between 2 7)]
      = [⟨2, 0⟩, ⟨1, 1⟩] := by
  decide

end Formulary
