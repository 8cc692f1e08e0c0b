import Formulary.Proofs.Grammar.Program
import Formulary.Proofs.Host.Running

/-!
# Keeping formulas changes no answer

A calculator keeps the formulas of the expressions that it has seen, under ids that callers may name
and name again for another expression. Whatever it keeps, its answers are those of a calculator that
reads every expression anew.

- `Calculator.readAnew` is the evaluation that reads the expression anew.
- `Calculator.requested` and `Calculator.inputsOf` are the expression and the inputs of a request, as
  the history of commands tells them.
- `Calculator.after_transparent` says that behind every history each evaluation is one that reads
  anew, what it evaluates and what is refused.
-/

namespace Formulary

/-- A text that has no token but its end. -/
def Tokenless (text : Text) : Prop := ∃ last, tokenize text = .ok [last]

/-- A blank text is the formula that is zero. -/
theorem Formula.parse_of_blank {ρ : ProviderId} {source : Text} (h : source.isBlank = true) :
    parse ρ source = .ok ⟨source, .constant 0, []⟩ := by
  obtain ⟨t, htokens⟩ := tokenize_single_iff.mpr h
  exact (parseWithin_eq_ok_iff htokens).mpr ⟨0, Nat.zero_le _, [], .none, rfl⟩

namespace Calculator

variable {σ : Type}

/-! ## The formula under an id -/

/-- The formula of an expression is under the id afterwards, whether it was before or not. -/
theorem ensure_of_parse {host : Host σ} (hsound : host.registry.Sound) {expression : Text}
    {f : Formula} (hf : Formula.parse host.registry.provider expression = .ok f) (id : Text) :
    ensure id expression host
      = ⟨.ok (), { host with registry := host.registry.insert id f }, [], []⟩ := by
  rw [ensure, Action.bind_of_quiet rfl]
  by_cases hpresent : host.registry.expressionOf? id = some expression
  · -- the formula under the id has this very text, and so it is this formula
    obtain ⟨g, hg, hsource⟩ := Option.map_eq_some_iff.mp hpresent
    have hparse := hsound.parsed id g hg
    rw [hsource, hf] at hparse
    cases hparse
    have hsame : host.registry.insert id f = host.registry := by
      rw [Registry.insert, OrderedMap.insert_of_get? hg]
    rw [if_pos hpresent, hsame]
    rfl
  · rw [if_neg hpresent, Action.bind_of_quiet (Host.tryRegister_of_parse hf id)]
    rfl

/-- A text that is no formula is refused and leaves everything as it was. -/
theorem ensure_of_error {host : Host σ} (hsound : host.registry.Sound) {expression : Text}
    {e : ParseError} (he : Formula.parse host.registry.provider expression = .error e) (id : Text) :
    ensure id expression host = ⟨.error (.notFormula id expression e), host, [], []⟩ := by
  have hpresent : host.registry.expressionOf? id ≠ some expression := by
    intro hpresent
    obtain ⟨g, hg, hsource⟩ := Option.map_eq_some_iff.mp hpresent
    have hparse := hsound.parsed id g hg
    rw [hsource, he] at hparse
    cases hparse
  rw [ensure, Action.bind_of_quiet rfl, if_neg hpresent,
    Action.bind_of_quiet (Host.tryRegister_of_error he id)]
  rfl

/-- Once an expression is accepted, the formula under the id is found. -/
theorem lookup_ensure {host : Host σ} (hsound : host.registry.Sound) {id expression : Text}
    (h : (ensure id expression host).value = .ok ()) :
    ∃ f, Formula.parse host.registry.provider expression = .ok f
      ∧ Host.lookup id (ensure id expression host).host
        = ⟨some f, (ensure id expression host).host, [], []⟩ := by
  cases hparse : Formula.parse host.registry.provider expression with
  | error e =>
      rw [ensure_of_error hsound hparse] at h
      cases h
  | ok f =>
      rw [ensure_of_parse hsound hparse]
      refine ⟨f, rfl, Host.lookup_of_registered ?_⟩
      exact (OrderedMap.get?_insert _ id id f).trans (if_pos rfl)

/-! ## Evaluations -/

variable [RandomProvider σ]

/-- The evaluation of an expression that is read anew, in a context and with the providers as they are.
The formula is kept under the id. -/
def readAnew (c : Calculator σ) (id expression : Text) (context : Context) : CalculatorOutcome σ :=
  match Formula.parse c.host.registry.provider expression with
  | .error e => c.answer (.refused (.notFormula id expression e))
  | .ok f =>
    let run := f.evaluateIn context (.own c.host.providers)
    { reply := .value run.value
      calculator := { c with host := { c.host with
        registry := c.host.registry.insert id f
        providers := run.sources.states } }
      log := run.lines c.host.logger id
      calls := run.calls }

/-- An expression that is not blank is evaluated as if it were read anew. -/
theorem onHost_evaluate {c : Calculator σ} (hsound : c.host.registry.Sound) {expression : Text}
    (hblank : ¬ expression.isBlank = true) (bindings : Bindings) (cacheId : Option Text) :
    c.onHost (evaluate expression bindings cacheId) evaluationReply
      = c.readAnew (cacheIdFor expression cacheId) expression (Context.ofBindings bindings) := by
  rw [onHost, evaluate, if_neg hblank, readAnew]
  generalize cacheIdFor expression cacheId = id
  cases hparse : Formula.parse c.host.registry.provider expression with
  | error e =>
      rw [Action.bind_of_quiet (ensure_of_error hsound hparse id)]
      rfl
  | ok f =>
      -- the formula that was just put under the id is the one that is evaluated
      have hfound : (c.host.registry.insert id f).get? id = some f :=
        (OrderedMap.get?_insert _ id id f).trans (if_pos rfl)
      rw [Action.bind_of_quiet (ensure_of_parse hsound hparse id)]
      dsimp only
      rw [Action.map_apply, Host.evaluate_of_registered hfound bindings rfl]
      rfl

/-! ## Histories -/

/-- The calculator behind a history of commands to a new one. -/
def after (provider : ProviderId) (providers : ProviderId → σ) (logger : Option Logger)
    (history : List CalculatorCommand) : Calculator σ :=
  history.foldl (fun c command => (c.perform command).calculator)
    (Calculator.new provider providers logger)

/-- Whether the text is read anew or found, the formulas are only edited. -/
theorem ensure_edits {σ : Type} (id expression : Text) :
    (ensure (σ := σ) id expression).Edits := by
  refine (Action.Edits.inspect _).bind fun present => ?_
  by_cases hpresent : present = some expression
  · rw [if_pos hpresent]
    exact .pure _
  · rw [if_neg hpresent]
    refine (Host.tryRegister_edits id expression).bind fun result => ?_
    cases result with
    | ok f => exact .pure _
    | error e => exact .pure _

/-- An evaluation edits the formulas for its own text at most. -/
theorem evaluate_edits (expression : Text) (bindings : Bindings) (cacheId : Option Text) :
    (evaluate (σ := σ) expression bindings cacheId).Edits := by
  rw [evaluate]
  by_cases hblank : expression.isBlank = true
  · rw [if_pos hblank]
    exact .pure _
  · rw [if_neg hblank]
    refine (ensure_edits _ expression).bind fun result => ?_
    cases result with
    | error fault => exact .pure _
    | ok _ => exact (Host.evaluate_spares _ bindings).edits.map _

/-- To change a request leaves the host alone. -/
theorem update_host {σ : Type} (c : Calculator σ) (index : Nat)
    (change : Request → Except CalculatorFault Request) :
    (c.update index change).calculator.host = c.host := by
  rw [update]
  cases c.requests[index]? with
  | none => rfl
  | some r =>
      dsimp only
      cases change r with
      | ok r => rfl
      | error fault => rfl

/-- A request edits the formulas as the evaluation of its text does. -/
theorem evaluateRequest_edits (c : Calculator σ) (index : Nat) (cacheId : Option Text) :
    Registry.Edits c.host.registry (c.evaluateRequest index cacheId).calculator.host.registry := by
  rw [evaluateRequest]
  cases c.requests[index]? with
  | none => exact .refl _
  | some r => exact evaluate_edits r.expression r.bindings cacheId c.host

/-- No command changes the kept formulas in another way than by edits. -/
theorem perform_edits (c : Calculator σ) (command : CalculatorCommand) :
    Registry.Edits c.host.registry (c.perform command).calculator.host.registry := by
  cases command with
  | evaluate expression bindings cacheId => exact evaluate_edits expression bindings cacheId c.host
  | clearCache => exact .clear (.refl _)
  | request expression =>
      rw [perform]
      cases Request.new expression with
      | ok r => exact .refl _
      | error fault => exact .refl _
  | set index key value =>
      rw [perform, update_host]
      exact .refl _
  | withInputs index bindings =>
      rw [perform, update_host]
      exact .refl _
  | evaluateRequest index => exact c.evaluateRequest_edits index none
  | evaluateWithCache index cacheId =>
      rw [perform]
      by_cases hblank : cacheId.isBlank = true
      · rw [if_pos hblank]
        exact .refl _
      · rw [if_neg hblank]
        exact c.evaluateRequest_edits index (some cacheId)

/-- Whatever was asked, the formulas came about by edits. -/
theorem after_edits (provider : ProviderId) (providers : ProviderId → σ) (logger : Option Logger)
    (history : List CalculatorCommand) :
    Registry.Edits (.empty provider) (after provider providers logger history).host.registry := by
  have hrun : ∀ c : Calculator σ, Registry.Edits c.host.registry (history.foldl
      (fun c command => (c.perform command).calculator) c).host.registry := by
    induction history with
    | nil => exact fun c => .refl _
    | cons command rest ih => exact fun c => (c.perform_edits command).trans (ih _)
  exact hrun (Calculator.new provider providers logger)

/-- So each formula is the one that its own text writes. -/
theorem after_sound (provider : ProviderId) (providers : ProviderId → σ) (logger : Option Logger)
    (history : List CalculatorCommand) :
    (after provider providers logger history).host.registry.Sound :=
  (after_edits provider providers logger history).sound (Registry.sound_empty provider)

/-! ## Requests -/

/-- The expression of the request that a command makes. -/
def requestedBy : CalculatorCommand → Option Text
  | .request expression => if expression.isBlank then none else some expression
  | _ => none

/-- The expressions of the requests that a history makes, in order. -/
def requested (history : List CalculatorCommand) : List Text := history.filterMap requestedBy

/-- The inputs of a request behind a history, of which the latest command is listed first: what was
set since they were last replaced as a whole, or since the request was made. -/
def inputsOf (index : Nat) : List CalculatorCommand → Context
  | [] => .empty
  | .set i key value :: earlier =>
    if i = index ∧ key.isBlank = false then (inputsOf index earlier).insert key value
    else inputsOf index earlier
  | .withInputs i bindings :: earlier =>
    if i = index then Context.ofBindings bindings else inputsOf index earlier
  | .request expression :: earlier =>
    if expression.isBlank = false ∧ (requested earlier).length = index then .empty
    else inputsOf index earlier
  | _ :: earlier => inputsOf index earlier

/-- A change of one request, where it is not refused, is all that happens to the requests. -/
theorem getElem?_requests_update {σ : Type} (c : Calculator σ) (index : Nat)
    (change : Request → Except CalculatorFault Request) (i : Nat) :
    (c.update index change).calculator.requests[i]?
      = c.requests[i]?.map (fun r =>
        if index = i then
          match change r with
          | .ok r' => r'
          | .error _ => r
        else r) := by
  rw [update]
  cases hr : c.requests[index]? with
  | none =>
      show c.requests[i]? = _
      by_cases hi : index = i
      · rw [← hi, hr]
        rfl
      · simp only [if_neg hi]
        exact (Option.map_id_apply).symm
  | some r =>
      dsimp only
      cases hchange : change r with
      | ok r' =>
          show (c.requests.set index r')[i]? = _
          rw [List.getElem?_set]
          by_cases hi : index = i
          · have hlt : index < c.requests.length := (List.getElem?_eq_some_iff.mp hr).1
            rw [if_pos hi, if_pos hlt, ← hi, hr]
            simp only [Option.map_some, if_true, hchange]
          · simp only [if_neg hi]
            exact (Option.map_id_apply).symm
      | error fault =>
          show c.requests[i]? = _
          by_cases hi : index = i
          · rw [← hi, hr]
            simp only [Option.map_some, if_true, hchange]
          · simp only [if_neg hi]
            exact (Option.map_id_apply).symm

/-- The requests of a calculator are those that a history tells, the latest command listed first. -/
def Remembers {σ : Type} (c : Calculator σ) (history : List CalculatorCommand) : Prop :=
  ∀ i, c.requests[i]?
    = (requested history.reverse)[i]?.map (fun expression => Request.mk expression (inputsOf i history))

/-- The latest command adds the request that it makes, if any. -/
theorem requested_reverse_cons (command : CalculatorCommand) (history : List CalculatorCommand) :
    requested (command :: history).reverse
      = requested history.reverse ++ (requestedBy command).toList := by
  rw [requested, List.reverse_cons, List.filterMap_append, requested]
  cases hcommand : requestedBy command with
  | none => rw [List.filterMap_cons_none hcommand, List.filterMap_nil, Option.toList_none]
  | some expression =>
      rw [List.filterMap_cons_some hcommand, List.filterMap_nil, Option.toList_some]

/-- A command that makes no request and sets no input. -/
theorem Remembers.of_eq {σ : Type} {c c' : Calculator σ} {history : List CalculatorCommand}
    {command : CalculatorCommand} (h : c.Remembers history) (hrequests : c'.requests = c.requests)
    (hrequested : requestedBy command = none)
    (hinputs : ∀ i, inputsOf i (command :: history) = inputsOf i history) :
    c'.Remembers (command :: history) := by
  intro i
  rw [hrequests, requested_reverse_cons, hrequested, Option.toList_none, List.append_nil, hinputs]
  exact h i

/-- A command that changes the inputs of one request. -/
theorem Remembers.update {σ : Type} {c : Calculator σ} {history : List CalculatorCommand}
    {command : CalculatorCommand} (h : c.Remembers history) {index : Nat}
    {change : Request → Except CalculatorFault Request} (hrequested : requestedBy command = none)
    (hinputs : ∀ i expression, Request.mk expression (inputsOf i (command :: history))
      = if index = i then
          match change ⟨expression, inputsOf i history⟩ with
          | .ok r => r
          | .error _ => ⟨expression, inputsOf i history⟩
        else ⟨expression, inputsOf i history⟩) :
    (c.update index change).calculator.Remembers (command :: history) := by
  intro i
  rw [getElem?_requests_update, h i, requested_reverse_cons, hrequested, Option.toList_none,
    List.append_nil, Option.map_map]
  congr 1
  funext expression
  exact (hinputs i expression).symm

/-- There are as many requests as were made. -/
theorem Remembers.length_eq {σ : Type} {c : Calculator σ} {history : List CalculatorCommand}
    (h : c.Remembers history) : (requested history.reverse).length = c.requests.length := by
  refine Nat.le_antisymm ?_ ?_
  · have hnone := h c.requests.length
    rw [List.getElem?_eq_none (Nat.le_refl _)] at hnone
    exact List.getElem?_eq_none_iff.mp (Option.map_eq_none_iff.mp hnone.symm)
  · have hnone := h (requested history.reverse).length
    rw [List.getElem?_eq_none (Nat.le_refl _), Option.map_none] at hnone
    exact List.getElem?_eq_none_iff.mp hnone

/-- A request that is made comes last and has no inputs. -/
theorem Remembers.request {σ : Type} {c c' : Calculator σ} {history : List CalculatorCommand}
    (h : c.Remembers history) {expression : Text} (hblank : ¬ expression.isBlank = true)
    (hrequests : c'.requests = c.requests ++ [⟨expression, .empty⟩]) :
    c'.Remembers (.request expression :: history) := by
  intro i
  have hmade : requestedBy (.request expression) = some expression := if_neg hblank
  have hreverse : (requested history.reverse).length = (requested history).length := by
    rw [requested, List.filterMap_reverse, List.length_reverse, requested]
  have hinputs : inputsOf i (.request expression :: history)
      = if (requested history.reverse).length = i then .empty else inputsOf i history := by
    rw [inputsOf, hreverse]
    simp only [Bool.eq_false_iff.mpr hblank, true_and]
  rw [hrequests, requested_reverse_cons, hmade, Option.toList_some, hinputs]
  rcases Nat.lt_trichotomy i (requested history.reverse).length with hi | hi | hi
  · rw [List.getElem?_append_left (h.length_eq ▸ hi), List.getElem?_append_left hi,
      if_neg (Nat.ne_of_gt hi)]
    exact h i
  · subst hi
    rw [List.getElem?_concat_length, if_pos rfl, h.length_eq, List.getElem?_concat_length]
    rfl
  · have hlength : ∀ {α : Type} (l : List α) (a : α), l.length < i → (l ++ [a])[i]? = none := by
      intro α l a hl
      exact List.getElem?_eq_none (by rw [List.length_append]; exact hl)
    rw [hlength _ _ (h.length_eq ▸ hi), hlength _ _ hi]
    rfl

/-- One command: what it makes of the requests is what the history tells with it. -/
theorem Remembers.perform {c : Calculator σ} {history : List CalculatorCommand}
    (h : c.Remembers history) (command : CalculatorCommand) :
    (c.perform command).calculator.Remembers (command :: history) := by
  cases command with
  | evaluate expression bindings cacheId => exact h.of_eq rfl rfl fun _ => rfl
  | clearCache => exact h.of_eq rfl rfl fun _ => rfl
  | evaluateRequest index =>
      refine h.of_eq ?_ rfl fun _ => rfl
      show (c.evaluateRequest index none).calculator.requests = _
      rw [evaluateRequest]
      cases c.requests[index]? with
      | none => rfl
      | some r => rfl
  | evaluateWithCache index cacheId =>
      refine h.of_eq ?_ rfl fun _ => rfl
      rw [Calculator.perform, evaluateRequest]
      by_cases hblank : cacheId.isBlank = true
      · rw [if_pos hblank]
        rfl
      · rw [if_neg hblank]
        cases c.requests[index]? with
        | none => rfl
        | some r => rfl
  | request expression =>
      rw [Calculator.perform, Request.new]
      by_cases hblank : expression.isBlank = true
      · rw [if_pos hblank]
        refine h.of_eq rfl ?_ fun i => ?_
        · rw [requestedBy, if_pos hblank]
        · rw [inputsOf, if_neg (fun hc => Bool.false_ne_true (hc.1.symm.trans hblank))]
      · rw [if_neg hblank]
        exact h.request hblank rfl
  | set index key value =>
      refine h.update rfl fun i expression => ?_
      rw [inputsOf, Request.set]
      by_cases hi : index = i
      · by_cases hblank : key.isBlank = true
        · rw [if_neg (fun hc => Bool.false_ne_true (hc.2.symm.trans hblank)), if_pos hi,
            if_pos hblank]
        · rw [if_pos ⟨hi, Bool.eq_false_iff.mpr hblank⟩, if_pos hi, if_neg hblank]
      · rw [if_neg (fun hc => hi hc.1), if_neg hi]
  | withInputs index bindings =>
      refine h.update rfl fun i expression => ?_
      rw [inputsOf, Request.withInputs]
      by_cases hi : index = i
      · rw [if_pos hi, if_pos hi]
      · rw [if_neg hi, if_neg hi]

/-- Whatever was asked, each request holds the text and the inputs that it was given. -/
theorem after_remembers (provider : ProviderId) (providers : ProviderId → σ)
    (logger : Option Logger) (history : List CalculatorCommand) :
    (after provider providers logger history).Remembers history.reverse := by
  have hrun : ∀ (c : Calculator σ) (earlier : List CalculatorCommand), c.Remembers earlier →
      (history.foldl (fun c command => (c.perform command).calculator) c).Remembers
        (history.reverse ++ earlier) := by
    induction history with
    | nil => exact fun c earlier h => h
    | cons command rest ih =>
        intro c earlier h
        rw [List.reverse_cons, List.append_assoc]
        exact ih _ (command :: earlier) (h.perform command)
  have hstart := hrun (Calculator.new provider providers logger) [] fun i => rfl
  rw [List.append_nil] at hstart
  exact hstart

/-- No input is listed twice. -/
theorem distinct_inputsOf (index : Nat) (history : List CalculatorCommand) :
    (inputsOf index history).Distinct := by
  induction history with
  | nil => exact OrderedMap.distinct_empty
  | cons command earlier ih =>
      cases command with
      | set i key value =>
          rw [inputsOf]
          split
          · exact ih.insert key value
          · exact ih
      | withInputs i bindings =>
          rw [inputsOf]
          split
          · exact OrderedMap.distinct_empty.insertAll _
          · exact ih
      | request expression =>
          rw [inputsOf]
          split
          · exact OrderedMap.distinct_empty
          · exact ih
      | _ => exact ih

/-- No request was made for a blank text. -/
theorem not_blank_of_requested {history : List CalculatorCommand} {index : Nat} {expression : Text}
    (h : (requested history)[index]? = some expression) : ¬ expression.isBlank = true := by
  obtain ⟨command, -, hcommand⟩ := List.mem_filterMap.mp (List.mem_of_getElem? h)
  cases command with
  | request e =>
      rw [requestedBy] at hcommand
      split at hcommand
      · cases hcommand
      · cases hcommand
        assumption
  | _ => cases hcommand

/-- A request is evaluated as its expression would be, in the context of its inputs. -/
theorem evaluateRequest_of_requested (provider : ProviderId) (providers : ProviderId → σ)
    (logger : Option Logger) (history : List CalculatorCommand) {index : Nat} {expression : Text}
    (h : (requested history)[index]? = some expression) (cacheId : Option Text) :
    (after provider providers logger history).evaluateRequest index cacheId
      = (after provider providers logger history).readAnew (cacheIdFor expression cacheId) expression
        (inputsOf index history.reverse) := by
  have hrequest := after_remembers provider providers logger history index
  rw [List.reverse_reverse, h] at hrequest
  rw [evaluateRequest, hrequest]
  dsimp only [Option.map_some]
  rw [onHost_evaluate (after_sound provider providers logger history) (not_blank_of_requested h),
    Request.bindings, Context.ofBindings_entries (distinct_inputsOf index history.reverse)]

/-! ## Transparency -/

/-- Reading anew refuses a text for no other reason than that it is no formula. -/
theorem refused_readAnew_iff (c : Calculator σ) (id expression : Text) (context : Context)
    (fault : CalculatorFault) :
    (c.readAnew id expression context).reply = .refused fault
      ↔ ∃ e, Formula.parse c.host.registry.provider expression = .error e
        ∧ fault = .notFormula id expression e := by
  rw [readAnew]
  cases Formula.parse c.host.registry.provider expression with
  | error e =>
      constructor
      · intro h
        exact ⟨e, rfl, (CalculatorReply.refused.inj h).symm⟩
      · rintro ⟨e', he, rfl⟩
        cases he
        rfl
  | ok f =>
      constructor
      · intro h
        cases h
      · rintro ⟨e, he, -⟩
        cases he

/-- A text without tokens is refused before anything is done. -/
theorem perform_of_tokenless (c : Calculator σ) {expression : Text} (h : Tokenless expression)
    (bindings : Bindings) (cacheId : Option Text) :
    c.perform (.evaluate expression bindings cacheId) = c.answer (.refused .blankExpression)
      ∧ c.perform (.request expression) = c.answer (.refused .blankExpression) := by
  have hblank := tokenize_single_iff.mp h
  rw [perform, perform, onHost, evaluate, Request.new, if_pos hblank, if_pos hblank]
  exact ⟨rfl, rfl⟩

/-- Any other text is evaluated as if it were read anew. -/
theorem perform_evaluate {c : Calculator σ} (hsound : c.host.registry.Sound) {expression : Text}
    (h : ¬ Tokenless expression) (bindings : Bindings) (cacheId : Option Text) :
    c.perform (.evaluate expression bindings cacheId)
      = c.readAnew (cacheIdFor expression cacheId) expression (Context.ofBindings bindings) :=
  onHost_evaluate hsound (fun hblank => h (tokenize_single_iff.mpr hblank)) bindings cacheId

/-- A request is made for any other text. -/
theorem perform_request (c : Calculator σ) {expression : Text} (h : ¬ Tokenless expression) :
    c.perform (.request expression)
      = answer { c with requests := c.requests ++ [⟨expression, .empty⟩] }
        (.requested c.requests.length) := by
  rw [perform, Request.new, if_neg (fun hblank => h (tokenize_single_iff.mpr hblank))]

theorem blank_refused_iff {c : Calculator σ} (hsound : c.host.registry.Sound) (expression : Text)
    (bindings : Bindings) (cacheId : Option Text) :
    ((c.perform (.evaluate expression bindings cacheId)).reply = .refused .blankExpression
      ↔ Tokenless expression)
    ∧ ((c.perform (.request expression)).reply = .refused .blankExpression
      ↔ Tokenless expression) := by
  by_cases h : Tokenless expression
  · rw [(c.perform_of_tokenless h bindings cacheId).1, (c.perform_of_tokenless h bindings cacheId).2]
    exact ⟨iff_of_true rfl h, iff_of_true rfl h⟩
  · rw [perform_evaluate hsound h, c.perform_request h, refused_readAnew_iff]
    refine ⟨iff_of_false ?_ h, iff_of_false ?_ h⟩
    · rintro ⟨e, -, hfault⟩
      cases hfault
    · intro hreply
      cases hreply

theorem formula_refused_iff {c : Calculator σ} (hsound : c.host.registry.Sound) (expression : Text)
    (bindings : Bindings) (cacheId : Option Text) (e : ParseError) :
    (c.perform (.evaluate expression bindings cacheId)).reply
        = .refused (.notFormula (cacheIdFor expression cacheId) expression e)
      ↔ Formula.parse c.host.registry.provider expression = .error e := by
  by_cases h : Tokenless expression
  · -- a text without tokens is a formula, so that it is refused for being blank only
    rw [(c.perform_of_tokenless h bindings cacheId).1,
      Formula.parse_of_blank (tokenize_single_iff.mp h)]
    refine iff_of_false ?_ ?_
    · intro hreply
      cases hreply
    · intro herror
      cases herror
  · rw [perform_evaluate hsound h, refused_readAnew_iff]
    constructor
    · rintro ⟨e', he, hfault⟩
      cases hfault
      exact he
    · intro he
      exact ⟨e, he, rfl⟩

/-- A calculator that answers, behind a history, as if it had kept no formula at all. -/
structure Transparent (provider : ProviderId) (c : Calculator σ) (history : List CalculatorCommand) :
    Prop where
  /-- Expressions are read with the provider that the calculator was given. -/
  bound : c.host.registry.provider = provider
  /-- An expression with a token is evaluated as if it were read anew. -/
  evaluate : ∀ expression bindings cacheId, ¬ Tokenless expression →
    c.perform (.evaluate expression bindings cacheId)
      = c.readAnew (cacheIdFor expression cacheId) expression (Context.ofBindings bindings)
  /-- One without a token but its end is refused, and nothing else happens. -/
  blank : ∀ expression bindings cacheId, Tokenless expression →
    c.perform (.evaluate expression bindings cacheId) = c.answer (.refused .blankExpression)
      ∧ c.perform (.request expression) = c.answer (.refused .blankExpression)
  /-- Nothing else is refused as blank, and a text is refused as no formula exactly if it is none. -/
  refused : ∀ expression bindings cacheId,
    ((c.perform (.evaluate expression bindings cacheId)).reply = .refused .blankExpression
      ↔ Tokenless expression)
    ∧ ((c.perform (.request expression)).reply = .refused .blankExpression
      ↔ Tokenless expression)
    ∧ ∀ e, (c.perform (.evaluate expression bindings cacheId)).reply
        = .refused (.notFormula (cacheIdFor expression cacheId) expression e)
      ↔ Formula.parse provider expression = .error e
  /-- The requests are those that the history made, with the inputs that it collected. -/
  requests : ∀ index, c.requests[index]? = (requested history)[index]?.map
    (fun expression => Request.mk expression (inputsOf index history.reverse))
  /-- A request is evaluated under the digest of its expression. -/
  evaluateRequest : ∀ index expression, (requested history)[index]? = some expression →
    c.perform (.evaluateRequest index)
      = c.readAnew (expressionDigest expression) expression (inputsOf index history.reverse)
  /-- A request is evaluated under an id that is named and not blank. -/
  evaluateWithCache : ∀ index expression cacheId, (requested history)[index]? = some expression →
    c.perform (.evaluateWithCache index cacheId)
      = if cacheId.isBlank then c.answer (.refused .blankCacheId)
        else c.readAnew cacheId expression (inputsOf index history.reverse)
  /-- An expression that is accepted is found under its id. -/
  found : ∀ id expression, (ensure id expression c.host).value = .ok () →
    ∃ f, Formula.parse provider expression = .ok f
      ∧ Host.lookup id (ensure id expression c.host).host
        = ⟨some f, (ensure id expression c.host).host, [], []⟩

/-- Behind every history a calculator answers as if it had kept no formula. -/
theorem after_transparent (provider : ProviderId) (providers : ProviderId → σ)
    (logger : Option Logger) (history : List CalculatorCommand) :
    (after provider providers logger history).Transparent provider history where
  bound := (after_edits provider providers logger history).provider
  evaluate := fun _ bindings cacheId h =>
    perform_evaluate (after_sound provider providers logger history) h bindings cacheId
  blank := fun _ bindings cacheId h => perform_of_tokenless _ h bindings cacheId
  refused := by
    intro expression bindings cacheId
    have hsound := after_sound provider providers logger history
    obtain ⟨hevaluate, hrequest⟩ := blank_refused_iff hsound expression bindings cacheId
    have hformula := formula_refused_iff hsound expression bindings cacheId
    rw [(after_edits provider providers logger history).provider] at hformula
    exact ⟨hevaluate, hrequest, hformula⟩
  requests := by
    intro index
    have h := after_remembers provider providers logger history index
    rw [List.reverse_reverse] at h
    exact h
  evaluateRequest := fun _ _ h =>
    evaluateRequest_of_requested provider providers logger history h none
  evaluateWithCache := by
    intro index expression cacheId h
    have hrequest := evaluateRequest_of_requested provider providers logger history h (some cacheId)
    rw [cacheIdFor] at hrequest
    rw [perform]
    by_cases hblank : cacheId.isBlank = true
    · rw [if_pos hblank, if_pos hblank]
    · rw [if_neg hblank, if_neg hblank, hrequest, if_neg hblank]
  found := by
    intro id expression h
    have hfound := lookup_ensure (after_sound provider providers logger history) h
    rw [(after_edits provider providers logger history).provider] at hfound
    exact hfound

end Calculator

end Formulary
