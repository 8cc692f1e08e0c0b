import Formulary.Proofs.Evaluation.Locality
import Formulary.Proofs.Evaluation.Turns

/-!
# What is asked of the provider, and in which order

An evaluation comes by the random nodes of a tree in the order of evaluation, and by each of them at
most once. A node that it comes by asks for what its kind and the value of its bound say; where the
bound is not above zero, it asks for nothing. A node that the evaluation does not come by asks for
nothing either.

- `Evaluation.Asks` says what an evaluation adds to the calls.
- `Node.request` is what a node asks for, and `Node.draws` what is asked for in a whole tree.
- `Node.evaluate_asks` says that an evaluation asks for what its tree says, and `Node.exists_failure`
  that a failed one makes all its calls before the failure.
- `Node.run_draws` is the statement about trees.
-/

namespace Formulary

/-! ## Calls -/

namespace Evaluation

variable {σ α β : Type}

/-- An evaluation makes some calls, in this order, and nobody takes the place of a provider
meanwhile. -/
structure Asks (x : Evaluation σ α) (m : Machine σ) (calls : List Call) : Prop where
  calls : (behind (x m)).calls = m.calls ++ calls
  substitute : (behind (x m)).sources.substitute = m.sources.substitute

namespace Asks

variable {x : Evaluation σ α} {f : α → Evaluation σ β} {m : Machine σ} {calls more : List Call}

/-- A step that neither asks for anything nor changes the providers. -/
theorem of_eq (hcalls : (behind (x m)).calls = m.calls)
    (hsources : (behind (x m)).sources = m.sources) : Asks x m [] where
  calls := by rw [hcalls, List.append_nil]
  substitute := by rw [hsources]

theorem pure (a : α) (m : Machine σ) : Asks (Pure.pure a : Evaluation σ α) m [] := of_eq rfl rfl

theorem read (name : Text) (m : Machine σ) : Asks (Evaluation.read name) m [] := by
  have hbehind : behind (Evaluation.read name m) = m := by
    rw [Evaluation.read]
    cases m.context.get? name <;> rfl
  exact of_eq (by rw [hbehind]) (by rw [hbehind])

theorem write (name : Text) (value : Number) (m : Machine σ) :
    Asks (Evaluation.write name value) m [] := of_eq rfl rfl

/-- An assignment asks for nothing, whether it combines or not. -/
theorem assign (op : AssignmentOp) (name : Text) (value : Number) (m : Machine σ) :
    Asks (Evaluation.assign op name value) m [] := by
  rw [Evaluation.assign]
  cases op.arithmetic? with
  | none => exact write name value m
  | some arithmetic => exact of_eq rfl rfl

/-- A draw asks for itself, from the substitute or from its own provider. -/
theorem draw [RandomProvider σ] (own : ProviderId) (request : Draw) (m : Machine σ) :
    Asks (Evaluation.draw own request) m [⟨m.sources.asked own, request⟩] := ⟨rfl, rfl⟩

/-- Two steps in turn: behind a failure nothing more is asked for. -/
theorem bind (hx : Asks x m calls) (hok : ∀ a m', x m = .ok a m' → Asks (f a) m' more)
    (herror : ∀ e m', x m = .error e m' → more = []) : Asks (x >>= f) m (calls ++ more) := by
  obtain ⟨hcalls, hsubstitute⟩ := hx
  cases hresult : x m with
  | error e m' =>
      rw [hresult] at hcalls hsubstitute
      rw [herror e m' hresult, List.append_nil]
      constructor
      · rw [bind_apply, hresult]
        exact hcalls
      · rw [bind_apply, hresult]
        exact hsubstitute
  | ok a m' =>
      rw [hresult] at hcalls hsubstitute
      obtain ⟨hcalls', hsubstitute'⟩ := hok a m' hresult
      constructor
      · rw [bind_apply, hresult]
        show (behind (f a m')).calls = _
        rw [hcalls', show m'.calls = _ from hcalls, List.append_assoc]
      · rw [bind_apply, hresult]
        exact hsubstitute'.trans hsubstitute

/-- A step that asks for nothing adds nothing. -/
theorem bind_quiet (hx : Asks x m calls) (hf : ∀ a m', Asks (f a) m' []) :
    Asks (x >>= f) m calls := by
  have hbind := hx.bind (fun a m' _ => hf a m') (fun _ _ _ => rfl)
  rwa [List.append_nil] at hbind

/-- The provider in force stays the same. -/
theorem asked {a : α} {m' : Machine σ} (h : Asks x m calls) (hok : x m = .ok a m')
    (own : ProviderId) : m'.sources.asked own = m.sources.asked own := by
  have hsubstitute := h.substitute
  rw [hok] at hsubstitute
  exact congrArg (·.getD own) hsubstitute

end Asks

end Evaluation

/-- The state that an evaluation in a context starts from. -/
def Machine.start {σ : Type} (context : Context) (sources : Sources σ) : Machine σ :=
  ⟨context, sources, []⟩

variable {σ : Type} [RandomProvider σ]

namespace Node

/-! ## Draws -/

/-- The call that a node makes when it is evaluated in a state, if any: it goes to the provider in
force where the node is bound to its own. -/
def request : Node → Machine σ → Option Call
  | .randomValue own, m => some ⟨m.sources.asked own, .fraction⟩
  | .randomInteger own bound, m =>
    match bound.evaluate m with
    | .ok x _ =>
      if x.truncate > 0 then some ⟨m.sources.asked own, .integerBelow x.truncate⟩ else none
    | .error _ _ => none
  | .randomBelow own bound, m =>
    match bound.evaluate m with
    | .ok x _ => if x > 0 then some ⟨m.sources.asked own, .below x⟩ else none
    | .error _ _ => none
  | _, _ => none

/-- The call that the node at a place makes. -/
def requestAt (node : Node) (m : Machine σ) (path : Path) : Option Call :=
  (node.reached m path).bind fun place => place.1.request place.2

/-- The calls of a tree: those that its random nodes make, in the order of evaluation. -/
def draws (node : Node) (m : Machine σ) : List Call := node.sites.filterMap (node.requestAt m)

section Draws

variable {node child : Node} {m m' : Machine σ}

/-- What is asked for in trees that are evaluated in some states, where they are. -/
def drawsIn (nodes : List Node) (states : List (Option (Machine σ))) : List Call :=
  (nodes.zip states).flatMap fun place => place.2.elim [] place.1.draws

/-- What trees in a row ask for is what the first asks for in its turn, and then the others. -/
theorem drawsIn_cons (node : Node) (nodes : List Node) (s : Option (Machine σ))
    (states : List (Option (Machine σ))) :
    drawsIn (node :: nodes) (s :: states) = s.elim [] node.draws ++ drawsIn nodes states := rfl

/-- Nothing is asked for in trees that have no turn. -/
theorem drawsIn_none (nodes : List Node) : drawsIn (σ := σ) nodes (inTurn nodes none) = [] := by
  induction nodes with
  | nil => rfl
  | cons node rest ih =>
      rw [inTurn, drawsIn_cons]
      exact ih

/-- The request at a place below a node is the one of the child, in the state of its turn. -/
theorem requestAt_cons {i : Nat} {s : Option (Machine σ)} (hchild : node.children[i]? = some child)
    (hturn : (node.turns m)[i]? = some s) (path : Path) :
    node.requestAt m (i :: path) = s.bind fun m' => child.requestAt m' path := by
  rw [requestAt, reached, hchild, hturn]
  cases s with
  | none => rfl
  | some m' => rfl

/-- The places below the children of a node, one child after the other, make the requests of the
children. -/
theorem filterMap_sitesFrom {i : Nat} {nodes : List Node} {states : List (Option (Machine σ))}
    (hlength : states.length = nodes.length)
    (hnodes : ∀ j, node.children[i + j]? = nodes[j]?)
    (hstates : ∀ j, (node.turns m)[i + j]? = states[j]?) :
    (sitesFrom i nodes).filterMap (node.requestAt m) = drawsIn nodes states := by
  induction nodes generalizing i states with
  | nil =>
      rw [sitesFrom]
      rfl
  | cons x xs ih =>
      obtain _ | ⟨s, states⟩ := states
      · cases hlength
      have hrest : (sitesFrom (i + 1) xs).filterMap (node.requestAt m) = drawsIn xs states := by
        refine ih (Nat.succ.inj hlength) (fun j => ?_) (fun j => ?_)
        · rw [Nat.add_right_comm]
          exact hnodes (j + 1)
        · rw [Nat.add_right_comm]
          exact hstates (j + 1)
      have hfirst : node.requestAt m ∘ (i :: ·) = fun path => s.bind fun m' => x.requestAt m' path :=
        funext fun path => requestAt_cons (hnodes 0) (hstates 0) path
      rw [sitesFrom, List.filterMap_append, List.filterMap_map, drawsIn_cons, hrest, hfirst]
      congr 1
      cases s with
      | none => exact List.filterMap_eq_nil_iff.mpr fun _ _ => rfl
      | some m' => rfl

/-- A node that is not random makes no call of its own. -/
theorem request_of_not_isRandom (h : node.isRandom = false) (m : Machine σ) :
    node.request m = none := by
  cases node with
  | randomValue | randomInteger | randomBelow => cases h
  | _ => rfl

/-- What is asked for in a tree: what is asked for in the trees right below, and then what the node
asks for itself. -/
theorem draws_eq (node : Node) (m : Machine σ) :
    node.draws m = drawsIn node.children (node.turns m) ++ (node.request m).toList := by
  rw [draws, sites_eq, List.filterMap_append,
    filterMap_sitesFrom (length_turns node m) (fun j => by rw [Nat.zero_add])
      (fun j => by rw [Nat.zero_add])]
  congr 1
  cases hrandom : node.isRandom with
  | true =>
      have hown : node.requestAt m [] = node.request m := rfl
      rw [if_pos rfl]
      cases hrequest : node.request m with
      | none => exact List.filterMap_cons_none (hown.trans hrequest)
      | some request => exact List.filterMap_cons_some (hown.trans hrequest)
  | false =>
      rw [request_of_not_isRandom hrandom]
      rfl

/-- A node that does not draw itself makes the requests of its children. -/
theorem draws_of_not_isRandom (h : node.isRandom = false) :
    node.draws m = drawsIn node.children (node.turns m) := by
  rw [draws_eq, request_of_not_isRandom h, Option.toList_none, List.append_nil]

end Draws

/-! ## Trees -/

section Trees

open Evaluation

variable {node child : Node} {m : Machine σ}

/-- Arguments ask one after the other, each in its turn. -/
theorem mapM_asks {nodes : List Node}
    (h : ∀ node ∈ nodes, ∀ m : Machine σ, Asks node.evaluate m (node.draws m)) (m : Machine σ) :
    Asks (nodes.mapM evaluate) m (drawsIn nodes (inTurn nodes (some m))) := by
  induction nodes generalizing m with
  | nil => exact .pure _ m
  | cons node rest ih =>
      obtain ⟨hnode, hrest⟩ := List.forall_mem_cons.mp h
      rw [List.mapM_cons, inTurn, drawsIn_cons, Option.bind_some]
      refine (hnode m).bind (fun x m' hok => ?_) (fun e m' herror => ?_)
      · rw [next_of_ok hok]
        exact (ih hrest m').bind_quiet fun xs m'' => .pure _ m''
      · rw [next_of_error herror, drawsIn_none]

variable {x y : Node} {f : Number → Evaluation σ Number}

/-- A tree, and then a step that asks for nothing. -/
theorem first_asks (hx : Asks x.evaluate m (x.draws m)) (hf : ∀ a m', Asks (f a) m' []) :
    Asks (x.evaluate >>= f) m (drawsIn [x] [some m]) := by
  have hdraws : drawsIn [x] [some m] = x.draws m := List.append_nil _
  rw [hdraws]
  exact hx.bind_quiet hf

/-- A tree, and then another one that is evaluated only if the value of the first passes a test. -/
theorem second_asks {test : Number → Bool} (hx : Asks x.evaluate m (x.draws m))
    (hyes : ∀ a m', test a = true → Asks (f a) m' (y.draws m'))
    (hno : ∀ a m', test a = false → Asks (f a) m' []) :
    Asks (x.evaluate >>= f) m (drawsIn [x, y] [some m, x.next test m]) := by
  refine hx.bind (fun a m' hok => ?_) (fun e m' herror => ?_)
  · rw [next_of_ok hok]
    cases htest : test a with
    | true =>
        show Asks (f a) m' (y.draws m' ++ [])
        rw [List.append_nil]
        exact hyes a m' htest
    | false => exact hno a m' htest
  · rw [next_of_error herror]
    rfl

/-- A left operand, and the right one where the left one does not decide. -/
theorem logical_asks (op : LogicalOp) (hx : Asks x.evaluate m (x.draws m))
    (hy : ∀ m' : Machine σ, Asks y.evaluate m' (y.draws m')) :
    Asks (Node.logical op x y).evaluate m (drawsIn [x, y] ((Node.logical op x y).turns m)) := by
  rw [evaluate]
  cases op with
  | and =>
      refine second_asks hx (fun a m' htruthy => ?_) (fun a m' hfalse => ?_)
      · rw [if_pos htruthy]
        exact (hy m').bind_quiet fun _ m'' => .pure _ m''
      · rw [if_neg (Bool.eq_false_iff.mp hfalse)]
        exact .pure 0 m'
  | or =>
      refine second_asks hx (fun a m' hpasses => ?_) (fun a m' hfails => ?_)
      · rw [if_neg (by simpa using hpasses)]
        exact (hy m').bind_quiet fun _ m'' => .pure _ m''
      · rw [if_pos (by simpa using hfails)]
        exact .pure 1 m'

/-- A condition, and then one of two branches. -/
theorem branches_asks {c : Node} (hc : Asks c.evaluate m (c.draws m))
    (hx : ∀ m' : Machine σ, Asks x.evaluate m' (x.draws m'))
    (hy : ∀ m' : Machine σ, Asks y.evaluate m' (y.draws m')) :
    Asks (c.evaluate >>= fun a => if a.isTruthy then x.evaluate else y.evaluate) m
      (drawsIn [c, x, y] [some m, c.next Number.isTruthy m, c.next (fun a => !a.isTruthy) m]) := by
  refine hc.bind (fun a m' hok => ?_) (fun e m' herror => ?_)
  · rw [next_of_ok hok, next_of_ok hok]
    cases a.isTruthy with
    | true =>
        show Asks x.evaluate m' (x.draws m' ++ [])
        rw [List.append_nil]
        exact hx m'
    | false =>
        show Asks y.evaluate m' (y.draws m' ++ [])
        rw [List.append_nil]
        exact hy m'
  · rw [next_of_error herror, next_of_error herror]
    rfl

/-- A bound, and then the call of a node that its value is for. -/
theorem bounded_asks (hx : Asks x.evaluate m (x.draws m))
    (hok : ∀ a m', x.evaluate m = .ok a m' → Asks (f a) m' (node.request m).toList)
    (herror : ∀ e m', x.evaluate m = .error e m' → node.request m = none) :
    Asks (x.evaluate >>= f) m (drawsIn [x] [some m] ++ (node.request m).toList) := by
  have hdraws : drawsIn [x] [some m] = x.draws m := List.append_nil _
  rw [hdraws]
  refine hx.bind hok fun e m' h => ?_
  rw [herror e m' h, Option.toList_none]

/-- An evaluation makes the calls that its tree says. -/
theorem evaluate_asks (node : Node) (m : Machine σ) : Asks node.evaluate m (node.draws m) := by
  induction node using induction_children generalizing m with
  | step node ih =>
  cases node with
  | constant | empty =>
      rw [draws_of_not_isRandom rfl, evaluate]
      exact .pure _ m
  | read name =>
      rw [draws_of_not_isRandom rfl, evaluate]
      exact .read name m
  | declare name =>
      rw [draws_of_not_isRandom rfl, evaluate]
      exact .write name 0 m
  | negate x | not x | mathCall _ x =>
      rw [draws_of_not_isRandom rfl, evaluate]
      exact first_asks (ih x (by simp [children]) m) fun _ m' => .pure _ m'
  | declareAs name x =>
      rw [draws_of_not_isRandom rfl, evaluate]
      exact first_asks (ih x (by simp [children]) m) fun value m' => .write name value m'
  | assign op name x =>
      rw [draws_of_not_isRandom rfl, evaluate]
      exact first_asks (ih x (by simp [children]) m) fun value m' => .assign op name value m'
  | arithmetic _ x y | comparison _ x y =>
      rw [draws_of_not_isRandom rfl, evaluate]
      refine second_asks (ih x (by simp [children]) m) (fun _ m' _ => ?_) (fun _ _ h => by cases h)
      exact (ih y (by simp [children]) m').bind_quiet fun _ m'' => .pure _ m''
  | logical op x y =>
      rw [draws_of_not_isRandom rfl]
      exact logical_asks op (ih x (by simp [children]) m) (ih y (by simp [children]))
  | choice c x y | ifElse c x y =>
      rw [draws_of_not_isRandom rfl, evaluate]
      exact branches_asks (ih c (by simp [children]) m) (ih x (by simp [children]))
        (ih y (by simp [children]))
  | ifThen c x =>
      rw [draws_of_not_isRandom rfl, evaluate]
      refine second_asks (ih c (by simp [children]) m) (fun a m' htruthy => ?_)
        (fun a m' hfalse => ?_)
      · rw [if_pos htruthy]
        exact ih x (by simp [children]) m'
      · rw [if_neg (Bool.eq_false_iff.mp hfalse)]
        exact .pure 0 m'
  | sequence statements =>
      rw [draws_of_not_isRandom rfl, evaluate_sequence, foldlM_evaluate]
      exact (mapM_asks ih m).bind_quiet fun _ m' => .pure _ m'
  | multiCall f arguments =>
      rw [draws_of_not_isRandom rfl, evaluate_multiCall]
      exact (mapM_asks ih m).bind_quiet fun _ m' => .pure _ m'
  | randomValue own =>
      rw [draws_eq, evaluate]
      exact .draw own .fraction m
  | randomInteger own x | randomBelow own x =>
      have hx := ih x (by simp [children]) m
      rw [draws_eq, evaluate]
      refine bounded_asks hx (fun a m' hok => ?_) (fun e m' herror => by rw [request, herror])
      rw [request, hok, ← hx.asked hok own]
      dsimp only
      split
      · exact .draw own _ m'
      · exact .pure 0 m'

/-- Nobody takes the place of a provider before a tree has its turn. -/
theorem next_substitute {test : Number → Bool} {m' : Machine σ} (h : node.next test m = some m') :
    m'.sources.substitute = m.sources.substitute := by
  have hasks := (node.evaluate_asks m).substitute
  cases hresult : node.evaluate m with
  | error e m₁ =>
      rw [next_of_error hresult] at h
      cases h
  | ok a m₁ =>
      rw [next_of_ok hresult] at h
      rw [hresult] at hasks
      obtain rfl : m₁ = m' := by
        split at h
        · exact Option.some.inj h
        · cases h
      exact hasks

/-- No turn changes the substitute. -/
theorem inTurn_substitute {nodes : List Node} {s : Option (Machine σ)} {id : Option ProviderId}
    (hs : ∀ m, s = some m → m.sources.substitute = id) {m' : Machine σ}
    (h : some m' ∈ inTurn nodes s) : m'.sources.substitute = id := by
  induction nodes generalizing s with
  | nil => cases h
  | cons node rest ih =>
      rw [inTurn] at h
      rcases List.mem_cons.mp h with h | h
      · exact hs m' h.symm
      · refine ih (fun m₁ hm₁ => ?_) h
        obtain ⟨m, rfl, hnext⟩ := Option.bind_eq_some_iff.mp hm₁
        exact (next_substitute hnext).trans (hs m rfl)

/-- The children of a node are evaluated with its substitute. -/
theorem turns_substitute {m' : Machine σ} (h : some m' ∈ node.turns m) :
    m'.sources.substitute = m.sources.substitute := by
  have hbranches : ∀ (c : Node) (tests : List (Number → Bool)),
      some m' ∈ some m :: tests.map (fun test => c.next test m) →
      m'.sources.substitute = m.sources.substitute := by
    intro c tests hmem
    rcases List.mem_cons.mp hmem with hsome | hmem
    · rw [Option.some.inj hsome]
    · obtain ⟨test, -, hnext⟩ := List.mem_map.mp hmem
      exact next_substitute hnext
  cases node with
  | logical op c x =>
      cases op with
      | and | or => exact hbranches c [_] h
  | choice c x y | ifElse c x y => exact hbranches c [_, _] h
  | ifThen c x => exact hbranches c [_] h
  | _ =>
      refine inTurn_substitute (fun m₁ hm₁ => ?_) h
      cases hm₁
      rfl

/-- Nobody takes the place of a provider on the way to a node. -/
theorem reached_substitute {path : Path} {part : Node} {m' : Machine σ}
    (h : node.reached m path = some (part, m')) :
    m'.sources.substitute = m.sources.substitute := by
  induction path generalizing node m with
  | nil =>
      cases h
      rfl
  | cons i path ih =>
      rw [reached] at h
      obtain ⟨child, -, h⟩ := Option.bind_eq_some_iff.mp h
      obtain ⟨m₁, hturn, h⟩ := Option.bind_eq_some_iff.mp h
      have hmem := List.mem_of_getElem? (Option.join_eq_some_iff.mp hturn)
      exact (ih h).trans (turns_substitute hmem)

variable {m' : Machine σ} {e : EvaluationError}

/-- No tree that is left out makes a call, nor does anything within it. -/
theorem requestAt_of_join {i : Nat} (h : (node.turns m)[i]?.join = none) (path : Path) :
    node.requestAt m (i :: path) = none := by
  rw [requestAt, reached, h]
  cases node.children[i]? <;> rfl

/-- A node that fails asks for nothing itself. -/
theorem request_of_error (h : node.evaluate m = .error e m') : node.request m = none := by
  cases node with
  | randomValue =>
      rw [evaluate] at h
      cases h
  | randomInteger own x | randomBelow own x =>
      rw [evaluate] at h
      have hx : x.evaluate m = .error e m' :=
        Total.eq_error (fun _ => .ite (.draw own _) (.pure 0)) h
      rw [request, hx]
  | _ => rfl

/-- A failed evaluation comes to a name without a value, and all calls are made before that. -/
theorem exists_failure (h : node.evaluate m = .error e m') :
    ∃ path name m₁, e = .missingVariable name ∧ node.reached m path = some (.read name, m₁)
      ∧ m₁.context.get? name = none
      ∧ ∀ other, (node.requestAt m other).isSome → Path.Before other path := by
  induction node using induction_children generalizing m with
  | step node ih =>
  rcases evaluate_error h with ⟨name, rfl, hnone, rfl⟩ | ⟨i, child, m₁, hchild, hturn, hfails⟩
  · refine ⟨[], name, m, rfl, rfl, hnone, fun other hsome => ?_⟩
    cases other with
    | nil => cases hsome
    | cons => cases hsome
  · obtain ⟨path, name, m₂, he, hreached, hnone, hbefore⟩ :=
      ih child (List.mem_of_getElem? hchild) hfails
    refine ⟨i :: path, name, m₂, he, ?_, hnone, fun other hsome => ?_⟩
    · rw [reached, hchild, hturn]
      exact hreached
    · cases other with
      | nil =>
          have hown : node.requestAt m [] = none := request_of_error h
          rw [hown] at hsome
          cases hsome
      | cons j other =>
          rcases Nat.lt_trichotomy j i with hlt | rfl | hlt
          · exact .left hlt other path
          · rw [requestAt_cons hchild hturn] at hsome
            exact .inside j (hbefore other hsome)
          · have hskips : node.Skips m j :=
              .failed hlt (reached_singleton.mpr ⟨hchild, hturn⟩) hfails
            rw [requestAt_of_join hskips.turns] at hsome
            cases hsome

end Trees

/-- The calls of a run are the requests of its tree. -/
theorem calls_run (node : Node) (context : Context) (sources : Sources σ) :
    (node.run context sources).calls = node.draws (.start context sources) := by
  have hcalls := (node.evaluate_asks (.start context sources)).calls
  rw [run]
  rw [Machine.start] at hcalls
  generalize node.evaluate ⟨context, sources, []⟩ = r at hcalls
  cases r with
  | ok value m => exact hcalls
  | error e m => exact hcalls

/-- The calls of an evaluation are those of the random nodes of the tree, in the order of evaluation
and each node at most once, whether the evaluation succeeds or fails. Each goes to the provider in
force at the start where the node is bound to its own. Nothing is asked for within a tree that is left
out, and an evaluation that fails does so at a name without a value, behind all calls. -/
theorem run_draws (node : Node) (context : Context) (sources : Sources σ) :
    (node.sites.Pairwise Path.Before ∧ node.sites.Nodup
      ∧ ∀ path, path ∈ node.sites ↔ ∃ part, node.at? path = some part ∧ part.isRandom = true)
    ∧ (node.run context sources).calls
      = node.sites.filterMap (node.requestAt (.start context sources))
    ∧ (∀ path part m, node.reached (.start context sources) path = some (part, m) →
      ∀ own, m.sources.asked own = sources.asked own)
    ∧ (∀ path part m i rest, node.reached (.start context sources) path = some (part, m) →
      part.Skips m i → node.requestAt (.start context sources) (path ++ i :: rest) = none)
    ∧ ∀ e, (node.run context sources).outcome = .error e →
      ∃ path name m, e = .missingVariable name
        ∧ node.reached (.start context sources) path = some (.read name, m)
        ∧ m.context.get? name = none
        ∧ ∀ other, (node.requestAt (.start context sources) other).isSome → Path.Before other path := by
  refine ⟨⟨node.sites_pairwise, node.sites_nodup, fun path => mem_sites_iff⟩,
    node.calls_run context sources, ?_, ?_, ?_⟩
  · intro path part m hreached own
    exact congrArg (·.getD own) (reached_substitute hreached)
  · intro path part m i rest hreached hskips
    have hpart := requestAt_of_join hskips.turns rest
    rw [requestAt] at hpart ⊢
    rw [reached_append, hreached]
    exact hpart
  · intro e herror
    rw [run] at herror
    cases hresult : node.evaluate (.start context sources) with
    | ok value m =>
        rw [Machine.start] at hresult
        rw [hresult] at herror
        cases herror
    | error e' m =>
        rw [Machine.start] at hresult
        rw [hresult] at herror
        cases herror
        exact exists_failure hresult

/-- A left operand decides, a bound is drawn itself, and then an argument has no value while another
one is still to come. -/
theorem run_draws_failure :
    ∃ (z : Text) (own : ProviderId) (node : Node) (sources : Sources FixedFraction),
      z = Text.ofString "z"
      ∧ node = .arithmetic .add (.logical .and (.constant 0) (.randomValue own))
        (.multiCall .max [.randomBelow own (.randomValue own), .read z, .randomValue own])
      ∧ node.sites = [[0, 1], [1, 0, 0], [1, 0], [1, 2]]
      ∧ (node.run .empty sources).calls
        = [⟨own, .fraction⟩, ⟨own, .below FixedFraction.half.value⟩]
      ∧ node.requestAt (.start .empty sources) [0, 1] = none
      ∧ ∃ path m, node.reached (.start .empty sources) path = some (.read z, m)
        ∧ ∀ other, (node.requestAt (.start .empty sources) other).isSome → Path.Before other path := by
  obtain ⟨-, hcalls, -, hskips, hfails⟩ := run_draws
    (.arithmetic .add (.logical .and (.constant 0) (.randomValue ⟨0⟩))
      (.multiCall .max [.randomBelow ⟨0⟩ (.randomValue ⟨0⟩), .read (Text.ofString "z"),
        .randomValue ⟨0⟩]))
    .empty (.own fun _ => FixedFraction.half)
  obtain ⟨path, name, m, hname, hreached, -, hbefore⟩ :=
    hfails (.missingVariable (Text.ofString "z")) rfl
  cases hname
  refine ⟨_, ⟨0⟩, _, .own fun _ => FixedFraction.half, rfl, rfl, ?_, hcalls.trans ?_, ?_, path, m,
    hreached, hbefore⟩
  · simp [sites, sitesFrom]
  · rfl
  · exact hskips [0] _ _ 1 [] rfl (.and rfl rfl)

end Node

end Formulary
