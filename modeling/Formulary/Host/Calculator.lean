import Formulary.Digest.Sha256
import Formulary.Host.Registering
import Formulary.Host.Running
import Formulary.Text.Utf8

/-!
# Evaluating expressions without registering them

A calculator takes an expression, keeps its formula under an id for the next time, and evaluates it.
The id is the one that the caller names, or else the digest of the expression. A request collects
inputs for one expression before it is evaluated.

- `Calculator.evaluate` evaluates an expression; `Calculator.clearCache` forgets all formulas.
- `Request.set` and `Request.withInputs` collect inputs.
- `Calculator.perform` carries out a `CalculatorCommand`, so that a history is a list of commands.
-/

namespace Formulary

/-- Why a calculator refuses. -/
inductive CalculatorFault where
  /-- The expression is blank. -/
  | blankExpression
  /-- The name of an input is blank. -/
  | blankKey
  /-- The id to keep a formula under is blank. -/
  | blankCacheId
  /-- The expression is no formula. -/
  | notFormula (id expression : Text) (error : ParseError)
  deriving DecidableEq, Repr

/-- The wording of a refusal. -/
def CalculatorFault.message : CalculatorFault → Text
  | .blankExpression => "Expression cannot be blank"
  | .blankKey => "Input key cannot be blank"
  | .blankCacheId => "Cache identifier cannot be blank"
  | .notFormula _ expression _ => Text.concat ["Failed to register formula '", expression, "'"]

/-- The id of an expression for which the caller names none: its digest. -/
def expressionDigest (expression : Text) : Text := Sha256.hex expression.toUtf8

/-- The id that an expression is kept under. -/
def cacheIdFor (expression : Text) (given : Option Text) : Text :=
  match given with
  | none => expressionDigest expression
  | some id => if id.isBlank then expressionDigest expression else id

/-- Inputs collected for an expression. -/
structure Request where
  /-- The expression. -/
  expression : Text
  /-- The inputs. -/
  inputs : Context

namespace Request

/-- A request for an expression that is not blank. -/
def new (expression : Text) : Except CalculatorFault Request :=
  if expression.isBlank then .error .blankExpression else .ok ⟨expression, .empty⟩

/-- The request with an input set. -/
def set (r : Request) (key : Text) (value : Number) : Except CalculatorFault Request :=
  if key.isBlank then .error .blankKey else .ok { r with inputs := r.inputs.insert key value }

/-- The request with other inputs. -/
def withInputs (r : Request) (bindings : Bindings) : Request :=
  { r with inputs := Context.ofBindings bindings }

/-- The inputs as bindings. -/
def bindings (r : Request) : Bindings := .pairs r.inputs.entries

end Request

/-- A calculator. -/
structure Calculator (σ : Type) where
  /-- The host that keeps and evaluates formulas. -/
  host : Host σ
  /-- The requests made so far. -/
  requests : List Request

namespace Calculator

/-- A new calculator whose formulas are bound to a provider. -/
def new {σ : Type} (provider : ProviderId) (providers : ProviderId → σ) (logger : Option Logger) :
    Calculator σ where
  host := Host.new provider providers logger true
  requests := []

variable {σ : Type} [RandomProvider σ]

/-- The formula of an expression kept under an id; one kept under it for another expression is
replaced. -/
def ensure {σ : Type} (id expression : Text) : Action σ (Except CalculatorFault Unit) := do
  let present ← Action.inspect (fun host => host.registry.expressionOf? id)
  if present = some expression then return .ok ()
  else
    match ← Host.tryRegister id expression with
    | .ok _ => return .ok ()
    | .error e => return .error (.notFormula id expression e)

/-- The value of an expression under bindings. -/
def evaluate (expression : Text) (bindings : Bindings) (cacheId : Option Text) :
    Action σ (Except CalculatorFault Number) := do
  if expression.isBlank then return .error .blankExpression
  else
    let id := cacheIdFor expression cacheId
    match ← ensure id expression with
    | .error fault => return .error fault
    | .ok () => .ok <$> Host.evaluate id bindings

/-- All formulas and kept contexts dropped. -/
def clearCache {σ : Type} : Action σ Unit := do
  Host.clear
  Host.clearPools

/-- The kept expressions by id. -/
def formulas {σ : Type} (c : Calculator σ) : List Definition := c.host.registry.entries

end Calculator

/-- A command to a calculator; requests are named by the order in which they were made. -/
inductive CalculatorCommand where
  | evaluate (expression : Text) (bindings : Bindings) (cacheId : Option Text)
  | clearCache
  | request (expression : Text)
  | set (request : Nat) (key : Text) (value : Number)
  | withInputs (request : Nat) (bindings : Bindings)
  | evaluateRequest (request : Nat)
  | evaluateWithCache (request : Nat) (cacheId : Text)

/-- What a command to a calculator gives. -/
inductive CalculatorReply where
  | done
  | value (value : Number)
  | requested (index : Nat)
  | updated
  | refused (fault : CalculatorFault)
  | unknownRequest

/-- What came of a command to a calculator. -/
structure CalculatorOutcome (σ : Type) where
  /-- The reply. -/
  reply : CalculatorReply
  /-- The calculator behind the command. -/
  calculator : Calculator σ
  /-- What was logged. -/
  log : List LogLine
  /-- What was asked of providers. -/
  calls : List Call

namespace Calculator

variable {σ : Type} [RandomProvider σ]

/-- An operation on the calculator's host, with its reply. -/
def onHost {σ α : Type} (c : Calculator σ) (action : Action σ α) (reply : α → CalculatorReply) :
    CalculatorOutcome σ :=
  let a := action c.host
  ⟨reply a.value, { c with host := a.host }, a.log, a.calls⟩

/-- A reply without any effect. -/
def answer {σ : Type} (c : Calculator σ) (reply : CalculatorReply) : CalculatorOutcome σ :=
  ⟨reply, c, [], []⟩

/-- The reply to an evaluation. -/
def evaluationReply : Except CalculatorFault Number → CalculatorReply
  | .ok value => .value value
  | .error fault => .refused fault

/-- A request changed, or refused to be. -/
def update {σ : Type} (c : Calculator σ) (index : Nat)
    (change : Request → Except CalculatorFault Request) : CalculatorOutcome σ :=
  match c.requests[index]? with
  | none => c.answer .unknownRequest
  | some r =>
    match change r with
    | .ok r => answer { c with requests := c.requests.set index r } .updated
    | .error fault => c.answer (.refused fault)

/-- A request evaluated under an id, if one is given. -/
def evaluateRequest (c : Calculator σ) (index : Nat) (cacheId : Option Text) :
    CalculatorOutcome σ :=
  match c.requests[index]? with
  | none => c.answer .unknownRequest
  | some r => c.onHost (evaluate r.expression r.bindings cacheId) evaluationReply

/-- A command carried out. -/
def perform (c : Calculator σ) : CalculatorCommand → CalculatorOutcome σ
  | .evaluate expression bindings cacheId =>
    c.onHost (evaluate expression bindings cacheId) evaluationReply
  | .clearCache => c.onHost clearCache (fun _ => .done)
  | .request expression =>
    match Request.new expression with
    | .ok r => answer { c with requests := c.requests ++ [r] } (.requested c.requests.length)
    | .error fault => c.answer (.refused fault)
  | .set index key value => c.update index (fun r => r.set key value)
  | .withInputs index bindings => c.update index (fun r => .ok (r.withInputs bindings))
  | .evaluateRequest index => c.evaluateRequest index none
  | .evaluateWithCache index cacheId =>
    if cacheId.isBlank then c.answer (.refused .blankCacheId)
    else c.evaluateRequest index (some cacheId)

end Calculator

end Formulary
