import Formulary.Proofs.Evaluation.Bindings
import Formulary.Proofs.Evaluation.Footprint
import Formulary.Proofs.Grammar.Program
import Formulary.Proofs.Grammar.Shape

/-!
# Definite assignment

The inputs of a formula are collected while its text is read, long before anything is written. A
caller who supplies them all can still meet a missing name, but only one that the formula itself
would have written: in a branch that was not taken, or in a declaration that reads its own name.

- `Node.Straight` rules both out.
- `Node.IsStatement.evaluate_definite` is the invariant: the names that are local for the reader are
  bound at the same point of the run.
- `Formula.missing_only_if_bound` is the statement about whole formulas.
-/

namespace Formulary

variable {ρ : ProviderId}

namespace Node

/-- No statement runs on a condition, and no declaration reads the name that it declares. -/
structure Straight (node : Node) : Prop where
  unconditional : ∀ part : Node, part.Occurs node → part.isConditional = false
  settled : ∀ name value, (declareAs name value).Occurs node → .read name ∉ value.mentions

theorem Straight.child {child node : Node} (h : node.Straight) (hc : child ∈ node.children) :
    child.Straight where
  unconditional part hp := h.unconditional part (.inside hc hp)
  settled name value hp := h.settled name value (.inside hc hp)

theorem Straight.of_children {node : Node} (hnode : node.isConditional = false)
    (hread : ∀ name value, node = .declareAs name value → .read name ∉ value.mentions)
    (h : ∀ child ∈ node.children, child.Straight) : node.Straight where
  unconditional part hp := by
    rcases occurs_iff.mp hp with rfl | ⟨child, hc, hp⟩
    · exact hnode
    · exact (h child hc).unconditional part hp
  settled name value hp := by
    rcases occurs_iff.mp hp with rfl | ⟨child, hc, hp⟩
    · exact hread name value rfl
    · exact (h child hc).settled name value hp

/-- Expressions bind no names. -/
theorem IsExpression.bind_not_mem_mentions {x : Node} (h : x.IsExpression) (name : Text) :
    .bind name ∉ x.mentions := by
  induction h with
  | multiCall _ _ ih =>
      rw [mentions, mem_mentionsAll]
      rintro ⟨x, hx, hname⟩
      exact ih x hx hname
  | _ => simp_all [mentions]

theorem IsExpression.mem_locals_visit {x : Node} (h : x.IsExpression) {s : Scope} {name : Text} :
    name ∈ (s.visit x).locals ↔ name ∈ s.locals := by
  rw [Scope.visit_eq_foldl, Scope.mem_locals_foldl]
  exact or_iff_left (h.bind_not_mem_mentions name)

end Node

/-- The names are bound. -/
def Machine.Binds {σ : Type} (m : Machine σ) (names : List Text) : Prop :=
  ∀ name ∈ names, m.context.contains name

theorem Machine.Binds.write {σ : Type} {m : Machine σ} {names : List Text} (h : m.Binds names)
    (name : Text) (value : Number) :
    ({ m with context := m.context.insert name value } : Machine σ).Binds (name :: names) := by
  intro other hother
  rcases List.mem_cons.mp hother with rfl | hother
  · exact OrderedMap.contains_insert.mpr (.inl rfl)
  · exact OrderedMap.contains_insert.mpr (.inr (h other hother))

theorem Machine.Binds.assign {σ : Type} {m : Machine σ} {names : List Text} (h : m.Binds names)
    (op : AssignmentOp) (name : Text) (value : Number) :
    ∃ a m', Evaluation.assign op name value m = .ok a m' ∧ m'.Binds (name :: names) := by
  rw [Evaluation.assign]
  cases op.arithmetic? with
  | none => exact ⟨_, _, rfl, h.write name _⟩
  | some arithmetic => exact ⟨_, _, rfl, h.write name _⟩

namespace Node

variable {σ : Type} [RandomProvider σ] {s : Scope} {m m' : Machine σ}

/-- A bound name stays bound during an evaluation. -/
theorem binds_of_evaluate {node : Node} {value : Number} (h : node.evaluate m = .ok value m')
    {names : List Text} (hm : m.Binds names) : m'.Binds names :=
  fun name hname => (evaluate_uses node).keeps h (hm name hname)

/-- An expression succeeds where the inputs that it adds and the local names that it reads are
bound. -/
theorem IsExpression.evaluate_definite {x : Node} (h : x.IsExpression)
    (hlocals : ∀ name ∈ s.locals, .read name ∈ x.mentions → m.context.contains name)
    (hinputs : m.Binds (s.visit x).inputs) : ∃ a m', x.evaluate m = .ok a m' := by
  refine (evaluate_uses x).succeeds fun name hread => ?_
  have hknown := Scope.known_of_read hread (s := s)
  rw [← Scope.visit_eq_foldl] at hknown
  rcases hknown with hlocal | hinput
  · exact hlocals name (h.mem_locals_visit.mp hlocal) hread
  · exact hinputs name hinput

theorem inputs_visitAll_of {name : Text} (nodes : List Node) (h : name ∈ s.inputs) :
    name ∈ (s.visitAll nodes).inputs := by
  rw [Scope.visitAll_eq_foldl]
  exact Scope.mem_inputs_foldl_of _ h

/-- Statements run in turn succeed if each does. -/
theorem foldlM_definite {nodes : List Node}
    (h : ∀ node ∈ nodes, ∀ {s : Scope} {m : Machine σ}, m.Binds s.locals →
      m.Binds (s.visit node).inputs →
      ∃ a m', node.evaluate m = .ok a m' ∧ m'.Binds (s.visit node).locals)
    (hlocals : m.Binds s.locals) (hinputs : m.Binds (s.visitAll nodes).inputs) (last : Number) :
    ∃ a m', nodes.foldlM (fun _ => evaluate) last m = .ok a m'
      ∧ m'.Binds (s.visitAll nodes).locals := by
  induction nodes generalizing s m last with
  | nil => exact ⟨last, m, rfl, hlocals⟩
  | cons node rest ih =>
      rw [Scope.visitAll_cons] at hinputs ⊢
      have hfirst : m.Binds (s.visit node).inputs := fun name hname =>
        hinputs name (inputs_visitAll_of rest hname)
      obtain ⟨a, m₁, ha, hm₁⟩ := h node (by simp) hlocals hfirst
      obtain ⟨b, m₂, hb, hm₂⟩ :=
        ih (fun n hn => h n (by simp [hn])) hm₁ (binds_of_evaluate ha hinputs) a
      refine ⟨b, m₂, ?_, hm₂⟩
      rw [List.foldlM_cons]
      exact Evaluation.bind_eq_ok_iff.mpr ⟨a, m₁, ha, hb⟩

/-- A statement succeeds where the local names and the inputs are bound, and behind it the names that
are local for the reader are bound. -/
theorem IsStatement.evaluate_definite {node : Node} (h : node.IsStatement) (hs : node.Straight) :
    ∀ {s : Scope} {m : Machine σ}, m.Binds s.locals → m.Binds (s.visit node).inputs →
      ∃ a m', node.evaluate m = .ok a m' ∧ m'.Binds (s.visit node).locals := by
  induction h with
  | ifThen | ifElse => exact nomatch hs.unconditional _ .here
  | expression hx =>
      intro s m hlocals hinputs
      obtain ⟨a, m', ha⟩ := hx.evaluate_definite (fun name hname _ => hlocals name hname) hinputs
      exact ⟨a, m', ha, fun name hname =>
        binds_of_evaluate ha hlocals name (hx.mem_locals_visit.mp hname)⟩
  | declare name =>
      intro s m hlocals _
      refine ⟨0, _, ?_, hlocals.write name 0⟩
      rw [evaluate]
      rfl
  | @declareAs name x hx =>
      intro s m hlocals hinputs
      rw [Scope.visit] at hinputs ⊢
      -- the name is local for its own value, but the value does not read it
      have hbound : ∀ other ∈ (s.bind name).locals, .read other ∈ x.mentions →
          m.context.contains other := by
        intro other hother hread
        rcases List.mem_cons.mp hother with rfl | hother
        · exact absurd hread (hs.settled _ x .here)
        · exact hlocals other hother
      obtain ⟨a, m₁, ha⟩ := hx.evaluate_definite hbound hinputs
      have hwrite := (binds_of_evaluate ha hlocals).write name a
      refine ⟨a, _, ?_, fun other hother => hwrite other (hx.mem_locals_visit.mp hother)⟩
      rw [evaluate]
      exact Evaluation.bind_eq_ok_iff.mpr ⟨a, m₁, ha, rfl⟩
  | @assign op name x _ hx =>
      intro s m hlocals hinputs
      rw [Scope.visit] at hinputs ⊢
      obtain ⟨a, m₁, ha⟩ := hx.evaluate_definite (fun name hname _ => hlocals name hname) hinputs
      have hlocals₁ : m₁.Binds (s.visit x).locals := fun other hother =>
        binds_of_evaluate ha hlocals other (hx.mem_locals_visit.mp hother)
      obtain ⟨b, m₂, hb, hm₂⟩ := hlocals₁.assign op name a
      refine ⟨b, m₂, ?_, hm₂⟩
      rw [evaluate]
      exact Evaluation.bind_eq_ok_iff.mpr ⟨a, m₁, ha, hb⟩
  | sequence _ _ ih =>
      intro s m hlocals hinputs
      rw [Scope.visit] at hinputs ⊢
      rw [evaluate_sequence]
      exact foldlM_definite (fun node hn => ih node hn (hs.child hn)) hlocals hinputs 0
  | empty =>
      intro s m hlocals _
      refine ⟨0, m, ?_, hlocals⟩
      rw [evaluate]
      rfl

end Node

namespace Formula

open Grammar

/-- What the inputs and the tree of a formula have to do with each other. -/
theorem inputs_of_parse {source : Text} {f : Formula} (hf : parse ρ source = .ok f) :
    f.root.IsStatement ∧ f.requiredInputs = (Scope.empty.visit f.root).inputs := by
  obtain ⟨tokens, htokens⟩ := tokenize_of_parseWithin hf
  obtain ⟨d, -, nodes, hder, rfl⟩ := (parseWithin_eq_ok_iff htokens).mp hf
  refine ⟨Node.IsStatement.collapse (.expression (.constant 0)) hder.fits, ?_⟩
  rw [Scope.visit_collapse _ _ (by rw [Scope.visit])]

variable {σ : Type} [RandomProvider σ]

theorem outcome_evaluate (f : Formula) (bindings : Bindings) (sources : Sources σ) :
    (f.evaluate bindings sources).outcome
      = match f.root.evaluate ⟨Context.ofBindings bindings, sources, []⟩ with
        | .ok value _ => .ok value
        | .error e _ => .error e := by
  rw [evaluate, evaluateIn, Node.run]
  cases f.root.evaluate ⟨Context.ofBindings bindings, sources, []⟩ <;> rfl

/-- With all inputs supplied, only a name that the formula binds somewhere can be missing, and none
is in a formula that binds its names straight away. -/
theorem missing_only_if_bound {source : Text} {f : Formula} (hf : parse ρ source = .ok f)
    (bindings : Bindings) (sources : Sources σ)
    (hinputs : ∀ name ∈ f.requiredInputs, name ∈ bindings.names) :
    (∀ name, (f.evaluate bindings sources).outcome = .error (.missingVariable name) →
      name ∉ bindings.names ∧ name ∉ f.requiredInputs ∧ .bind name ∈ f.root.mentions)
    ∧ (f.root.Straight → ∃ value, (f.evaluate bindings sources).outcome = .ok value) := by
  obtain ⟨hshape, hrequired⟩ := inputs_of_parse hf
  rw [outcome_evaluate]
  constructor
  · intro name hmissing
    split at hmissing
    · exact nomatch hmissing
    · rename_i e m' heval
      cases hmissing
      obtain ⟨hread, hunbound⟩ := (Node.evaluate_uses f.root).missing heval
      have hcaller : name ∉ bindings.names := fun h => by
        rw [Context.contains_ofBindings.mpr h] at hunbound
        exact nomatch hunbound
      have hinput : name ∉ f.requiredInputs := fun h => hcaller (hinputs name h)
      refine ⟨hcaller, hinput, ?_⟩
      -- what is read is an input or local behind the tree, and only what is bound is local
      rw [hrequired, Scope.visit_eq_foldl] at hinput
      have hlocal := (Scope.known_of_read hread).resolve_right hinput
      exact ((Scope.mem_locals_foldl _ _).mp hlocal).resolve_left (fun h => nomatch h)
  · intro hstraight
    have hbound : Machine.Binds ⟨Context.ofBindings bindings, sources, []⟩
        (Scope.empty.visit f.root).inputs := fun name hname =>
      Context.contains_ofBindings.mpr (hinputs name (hrequired ▸ hname))
    have hlocals : Machine.Binds ⟨Context.ofBindings bindings, sources, []⟩ Scope.empty.locals :=
      fun _ h => nomatch h
    obtain ⟨value, m', heval, -⟩ := hshape.evaluate_definite hstraight hlocals hbound
    exact ⟨value, by rw [heval]⟩

/-- A declaration that reads its own name fails on it; a name that is bound first does not. -/
theorem missing_only_if_bound_declaration :
    (∃ f, parse ⟨0⟩ (Text.ofString "let b = b") = .ok f
      ∧ (f.evaluate .none (.own fun _ => FixedFraction.half)).outcome
        = .error (.missingVariable (Text.ofString "b"))
      ∧ .bind (Text.ofString "b") ∈ f.root.mentions)
    ∧ ∃ f, parse ⟨0⟩ (Text.ofString "let a = x; a += y") = .ok f ∧ f.root.Straight
      ∧ ∃ value, (f.evaluate (.pairs [(Text.ofString "x", 1), (Text.ofString "y", 2)])
        (.own fun _ => FixedFraction.half)).outcome = .ok value := by
  constructor
  · have hf : parse ⟨0⟩ (Text.ofString "let b = b")
        = .ok ⟨Text.ofString "let b = b",
          .declareAs (Text.ofString "b") (.read (Text.ofString "b")), []⟩ := rfl
    have hmissing := (missing_only_if_bound hf .none (.own fun _ => FixedFraction.half)
      (fun _ h => nomatch h)).1 (Text.ofString "b") rfl
    exact ⟨_, hf, rfl, hmissing.2.2⟩
  · have hf : parse ⟨0⟩ (Text.ofString "let a = x; a += y")
        = .ok ⟨Text.ofString "let a = x; a += y",
          .sequence [.declareAs (Text.ofString "a") (.read (Text.ofString "x")),
            .assign .add (Text.ofString "a") (.read (Text.ofString "y"))],
          [Text.ofString "x", Text.ofString "y"]⟩ := rfl
    have hread : ∀ name, (Node.read name).Straight := fun name =>
      .of_children rfl (fun _ _ h => nomatch h) (fun _ h => nomatch h)
    have hstraight : (Node.sequence [.declareAs (Text.ofString "a") (.read (Text.ofString "x")),
        .assign .add (Text.ofString "a") (.read (Text.ofString "y"))]).Straight := by
      refine .of_children rfl (fun _ _ h => nomatch h)
        (List.forall_mem_cons.mpr ⟨?_, List.forall_mem_singleton.mpr ?_⟩)
      · refine .of_children rfl ?_ (List.forall_mem_singleton.mpr (hread _))
        intro name value h
        cases h
        decide
      · exact .of_children rfl (fun _ _ h => nomatch h) (List.forall_mem_singleton.mpr (hread _))
    exact ⟨_, hf, hstraight, (missing_only_if_bound hf
      (.pairs [(Text.ofString "x", 1), (Text.ofString "y", 2)]) _ (fun _ h => h)).2 hstraight⟩

end Formula

end Formulary
