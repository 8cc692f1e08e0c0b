import Formulary.Formula
import Formulary.Proofs.Evaluation.Simulation
import Formulary.Proofs.OrderedMap

/-!
# What an evaluation depends on and what it changes

An evaluation looks at the names that its tree mentions and at nothing else of its context, so that
contexts that agree on these are as good as one another; in particular it does not matter in which
form or order a caller binds names. It writes to the names that the tree declares or assigns; other
names keep their values, and names never leave a context or change places.

- `Context.Grows` is what writes to some names can do to a context, and `Evaluation.Uses.grows` says
  that an evaluation does nothing else.
- `Run.Agrees` says that two evaluations cannot be told apart by some names.
- `Context.get?_ofBindings_fields` and `Context.get?_ofBindings_of_perm` compare ways to bind names.
- `Node.run_local` is the statement about trees and formulas.
-/

namespace Formulary

/-! ## Writes -/

/-- What writes to some names can do to a context: other names keep their values, and the names that
are there stay where they are, with new ones behind them. -/
structure Context.Grows (targets : Text → Prop) (before after : Context) : Prop where
  kept : ∀ name, ¬ targets name → after.get? name = before.get? name
  order : ∃ new, after.keys = before.keys ++ new ∧ new.Nodup
    ∧ ∀ name ∈ new, targets name ∧ name ∉ before.keys

namespace Context.Grows

variable {targets : Text → Prop} {c₁ c₂ c₃ : Context}

theorem refl (context : Context) : Grows targets context context where
  kept := fun _ _ => rfl
  order := ⟨[], (List.append_nil _).symm, List.nodup_nil, fun _ h => nomatch h⟩

theorem trans (h : Grows targets c₁ c₂) (h' : Grows targets c₂ c₃) : Grows targets c₁ c₃ where
  kept := fun name hname => (h'.kept name hname).trans (h.kept name hname)
  order := by
    obtain ⟨new, hkeys, hnodup, hnew⟩ := h.order
    obtain ⟨new', hkeys', hnodup', hnew'⟩ := h'.order
    refine ⟨new ++ new', by rw [hkeys', hkeys, List.append_assoc], ?_, ?_⟩
    · refine List.nodup_append.mpr ⟨hnodup, hnodup', fun name hname name' hname' heq => ?_⟩
      -- a name that is new the second time was not there after the first
      refine (hnew' name' hname').2 ?_
      rw [hkeys, ← heq]
      exact List.mem_append_right _ hname
    · intro name hname
      rcases List.mem_append.mp hname with hname | hname
      · exact hnew name hname
      · obtain ⟨htarget, hnot⟩ := hnew' name hname
        refine ⟨htarget, fun hmem => hnot ?_⟩
        rw [hkeys]
        exact List.mem_append_left _ hmem

theorem insert {name : Text} (h : targets name) (context : Context) (value : Number) :
    Grows targets context (context.insert name value) where
  kept := by
    intro other hother
    rw [OrderedMap.get?_insert, if_neg]
    rintro rfl
    exact hother h
  order := by
    rw [OrderedMap.keys_insert]
    by_cases hmem : name ∈ context.keys
    · rw [if_pos hmem]
      exact (refl context).order
    · rw [if_neg hmem]
      refine ⟨[name], rfl, List.pairwise_singleton _ _, fun other hother => ?_⟩
      rw [List.mem_singleton.mp hother]
      exact ⟨h, hmem⟩

end Context.Grows

namespace Evaluation

variable {σ α : Type}

/-- The state behind an evaluation, whether it succeeded or failed. -/
def behind : EStateM.Result EvaluationError (Machine σ) α → Machine σ
  | .ok _ m => m
  | .error _ m => m

/-- An evaluation writes to names in `W` only. -/
theorem Uses.grows [RandomProvider σ] {R W : Text → Prop} {x : Evaluation σ α} (h : Uses R W x)
    (m : Machine σ) : Context.Grows W m.context (behind (x m)).context := by
  induction h generalizing m with
  | pure a => exact .refl _
  | @bind α β x f _ _ ihx ihf =>
      have hx := ihx m
      rw [bind_apply]
      generalize x m = r at hx
      cases r with
      | ok a m' => exact hx.trans (ihf a m')
      | error e m' => exact hx
  | @read name _ =>
      rw [Evaluation.read]
      cases m.context.get? name with
      | some value => exact .refl _
      | none => exact .refl _
  | readOrZero => exact .refl _
  | write mem value => exact .insert mem _ value
  | draw bound request => exact .refl _

end Evaluation

/-! ## Ways to bind names -/

/-- A map is determined by its entries, whatever their order, if no key is listed twice. -/
theorem OrderedMap.get?_ofList_of_mem_iff {α : Type} {m : OrderedMap α} (h : m.Distinct)
    {pairs : List (Text × α)} (hpairs : ∀ pair, pair ∈ pairs ↔ pair ∈ m.entries) (key : Text) :
    (ofList pairs).get? key = m.get? key := by
  have hagree : ∀ pair ∈ pairs, m.get? pair.1 = some pair.2 :=
    fun pair hpair => h.get?_of_mem ((hpairs pair).mp hpair)
  rw [ofList, get?_insertAll_of_agree _ _ hagree]
  by_cases hkey : key ∈ pairs.map (·.1)
  · rw [if_pos hkey]
  · rw [if_neg hkey, get?_empty]
    cases hget : m.get? key with
    | none => rfl
    | some value =>
        have hmem := (hpairs (key, value)).mpr (mem_of_get? hget)
        exact absurd (List.mem_map_of_mem hmem) hkey

namespace Context

theorem distinct_ofList (pairs : List (Text × Number)) : (OrderedMap.ofList pairs).Distinct :=
  OrderedMap.distinct_empty.insertAll pairs

/-- A record binds names to the same values as the pairs that it is made of. -/
theorem get?_ofBindings_fields (pairs : List (Text × Number)) (name : Text) :
    (ofBindings (.fields pairs)).get? name = (ofBindings (.pairs pairs)).get? name := by
  have hpairs : ofBindings (.pairs pairs) = OrderedMap.ofList pairs :=
    OrderedMap.ofList_entries (distinct_ofList pairs)
  rw [hpairs]
  exact OrderedMap.get?_ofList_of_mem_iff (distinct_ofList pairs)
    (fun entry => Bindings.mem_indicesFirst) name

/-- Pairs with different names bind them to the same values in any order. -/
theorem get?_ofBindings_of_perm {pairs others : List (Text × Number)} (h : others.Perm pairs)
    (hnodup : (pairs.map (·.1)).Nodup) (name : Text) :
    (ofBindings (.pairs others)).get? name = (ofBindings (.pairs pairs)).get? name := by
  have hdistinct : OrderedMap.Distinct ⟨pairs⟩ := hnodup
  have hpairs : ofBindings (.pairs pairs) = ⟨pairs⟩ := ofBindings_entries hdistinct
  have hothers : ofBindings (.pairs others) = OrderedMap.ofList others :=
    OrderedMap.ofList_entries (distinct_ofList others)
  rw [hpairs, hothers]
  exact OrderedMap.get?_ofList_of_mem_iff hdistinct (fun entry => h.mem_iff) name

end Context

/-! ## Trees and formulas -/

/-- A tree mentions a name as one that it reads, declares or assigns. -/
def Node.Mentions (node : Node) (name : Text) : Prop :=
  .read name ∈ node.mentions ∨ .bind name ∈ node.mentions

/-- Two evaluations have the same outcome, ask the same of their providers, and leave the same values
under some names. -/
structure Run.Agrees {σ : Type} (names : Text → Prop) (r r' : Run σ) : Prop where
  outcome : r.outcome = r'.outcome
  calls : r.calls = r'.calls
  sources : r.sources = r'.sources
  context : ∀ name, names name → r.context.get? name = r'.context.get? name

variable {σ : Type} [RandomProvider σ]

/-- Two states hold the same values under some names, and the same but for the context. -/
structure Machine.Agrees (names : Text → Prop) (m m' : Machine σ) : Prop where
  context : ∀ name, names name → m.context.get? name = m'.context.get? name
  sources : m.sources = m'.sources
  calls : m.calls = m'.calls

/-- No step within two sets of names tells contexts apart that agree on them. -/
theorem Machine.preserved_agrees (R W : Text → Prop) (D : ProviderId → Prop) :
    Evaluation.Preserved R W D id (Agrees (σ := σ) fun name => R name ∨ W name) where
  reads := fun related mem => related.context _ mem
  writes := by
    rintro m m' name ⟨hcontext, hsources, hcalls⟩ - value
    refine ⟨fun other hother => ?_, hsources, hcalls⟩
    rw [OrderedMap.get?_insert, OrderedMap.get?_insert, hcontext other hother]
  draws := by
    rintro ⟨context, sources, calls⟩ ⟨context', -, -⟩ own ⟨hcontext, rfl, rfl⟩ - request
    exact .ok _ ⟨hcontext, rfl, rfl⟩

theorem Node.run_agrees (node : Node) {context context' : Context}
    (h : ∀ name, node.Mentions name → context.get? name = context'.get? name)
    (sources : Sources σ) :
    Run.Agrees node.Mentions (node.run context sources) (node.run context' sources) := by
  have hstart : Machine.Agrees node.Mentions ⟨context, sources, []⟩ ⟨context', sources, []⟩ :=
    ⟨h, rfl, rfl⟩
  obtain ⟨houtcome, hmachine⟩ := node.run_alike (Machine.preserved_agrees _ _ _) hstart
  exact ⟨houtcome, hmachine.calls, hmachine.sources, hmachine.context⟩

theorem Node.run_grows (node : Node) (context : Context) (sources : Sources σ) :
    Context.Grows (fun name => .bind name ∈ node.mentions) context
      (node.run context sources).context := by
  have hgrows := node.evaluate_uses.grows ⟨context, sources, []⟩
  rw [run]
  generalize node.evaluate ⟨context, sources, []⟩ = r at hgrows
  cases r with
  | ok a m => exact hgrows
  | error e m => exact hgrows

/-- An evaluation depends on the names that its tree mentions and changes those that it declares or
assigns. So a formula has the same outcome in whatever form or order its inputs are bound. -/
theorem Node.run_local :
    (∀ (node : Node) (context context' : Context) (sources : Sources σ),
        (∀ name, node.Mentions name → context.get? name = context'.get? name) →
        Run.Agrees node.Mentions (node.run context sources) (node.run context' sources))
      ∧ (∀ (node : Node) (context : Context) (sources : Sources σ),
        Context.Grows (fun name => .bind name ∈ node.mentions) context
          (node.run context sources).context)
      ∧ ∀ (f : Formula) (pairs : List (Text × Number)) (sources : Sources σ),
        Run.Agrees f.root.Mentions (f.evaluate (.fields pairs) sources)
            (f.evaluate (.pairs pairs) sources)
          ∧ ((pairs.map (·.1)).Nodup → ∀ others, others.Perm pairs →
            Run.Agrees f.root.Mentions (f.evaluate (.pairs others) sources)
                (f.evaluate (.pairs pairs) sources)
              ∧ Run.Agrees f.root.Mentions (f.evaluate (.fields others) sources)
                (f.evaluate (.pairs pairs) sources)) := by
  refine ⟨fun node context context' sources h => node.run_agrees h sources, run_grows, ?_⟩
  intro f pairs sources
  refine ⟨f.root.run_agrees (fun name _ => Context.get?_ofBindings_fields pairs name) sources, ?_⟩
  intro hnodup others hperm
  have hothers := Context.get?_ofBindings_of_perm hperm hnodup
  constructor
  · exact f.root.run_agrees (fun name _ => hothers name) sources
  · refine f.root.run_agrees (fun name _ => ?_) sources
    exact (Context.get?_ofBindings_fields others name).trans (hothers name)

/-- The formula adds `x` to `a`, which nothing binds, and fails at `y`. What `z` is bound to does not
show, nor does the order of the names. -/
theorem Node.run_local_unmentioned :
    ∃ (a x y z : Text) (f : Formula) (sources : Sources FixedFraction),
      [a, x, y, z] = [Text.ofString "a", Text.ofString "x", Text.ofString "y", Text.ofString "z"]
      ∧ Formula.parse ⟨0⟩ (Text.ofString "a += x; y") = .ok f
      ∧ Run.Agrees f.root.Mentions (f.root.run ⟨[(x, 1), (z, 5)]⟩ sources)
        (f.root.run ⟨[(z, 7), (x, 1)]⟩ sources)
      ∧ (f.root.run ⟨[(x, 1), (z, 5)]⟩ sources).outcome = .error (.missingVariable y)
      ∧ Context.Grows (fun name => .bind name ∈ f.root.mentions) ⟨[(x, 1), (z, 5)]⟩
        (f.root.run ⟨[(x, 1), (z, 5)]⟩ sources).context
      ∧ Run.Agrees f.root.Mentions (f.evaluate (.fields [(y, 2), (x, 1)]) sources)
        (f.evaluate (.pairs [(x, 1), (y, 2)]) sources) := by
  obtain ⟨f, hf, hroot⟩ : ∃ f, Formula.parse ⟨0⟩ (Text.ofString "a += x; y") = .ok f
      ∧ f.root = .sequence [.assign .add (Text.ofString "a") (.read (Text.ofString "x")),
        .read (Text.ofString "y")] := ⟨_, rfl, rfl⟩
  obtain ⟨hagrees, hgrows, hforms⟩ := Node.run_local (σ := FixedFraction)
  refine ⟨_, _, _, _, f, .own fun _ => .half, rfl, hf, hagrees _ _ _ _ ?_, ?_, hgrows _ _ _, ?_⟩
  · intro name hname
    rw [Mentions, hroot] at hname
    have hcases : (name = Text.ofString "x" ∨ name = Text.ofString "y") ∨ name = Text.ofString "a" := by
      simpa [mentions] using hname
    rcases hcases with (rfl | rfl) | rfl
    · rfl
    · rfl
    · rfl
  · rw [hroot]
    rfl
  · exact ((hforms f _ _).2 (by decide) _ (List.Perm.swap _ _ _)).2

end Formulary
