import Formulary.Host.Calculator
import Formulary.Host.Command
import Formulary.Proofs.Grammar.Cursor
import Formulary.Proofs.OrderedMap

/-!
# What operations do to the registered formulas

However a host is used, its formulas change in three ways only: one that a text writes is put under
an id, an id is dropped, or all are. Every command asks for some of these changes, and what it leaves
is told by them. What the changes keep, every history of a host keeps.

- `Change` is a change that is asked for, and `Registry.apply` carries it out.
- `Host.registerMany_apply` gives all that comes of registering definitions, and `Host.Takes` says
  that an import does no more with the definitions of a document.
- `Command.changes` lists what a command asks for; `Host.perform_registry` says that a command does
  this to the formulas and nothing else.
- `Registry.Edits` is the relation between the formulas before and behind some changes, and
  `Registry.Sound` what the changes keep: each formula is the one that its own text writes, and no id
  is listed twice.
-/

namespace Formulary

/-- A formula keeps the text that it was read from. -/
theorem Formula.source_of_parse {ρ : ProviderId} {source : Text} {f : Formula}
    (h : parse ρ source = .ok f) :
    f.source = source := by
  obtain ⟨tokens, -, hread⟩ := Grammar.bind_eq_ok_iff.mp h
  split at hread
  · cases hread
    rfl
  · cases hread

namespace Registry

/-- One registry becomes another by putting formulas under ids and dropping ids. -/
inductive Edits : Registry → Registry → Prop where
  | refl (r : Registry) : Edits r r
  | register {r r' : Registry} {f : Formula} (id : Text)
    (hf : Formula.parse r'.provider f.source = .ok f) : Edits r r' → Edits r (r'.insert id f)
  | remove {r r' : Registry} (id : Text) : Edits r r' → Edits r (r'.remove id)
  | clear {r r' : Registry} : Edits r r' → Edits r (.empty r'.provider)

/-- Changes may be made one after the other. -/
theorem Edits.trans {r₁ r₂ r₃ : Registry} (h : Edits r₁ r₂) (h' : Edits r₂ r₃) : Edits r₁ r₃ := by
  induction h' with
  | refl => exact h
  | register id hf _ ih => exact .register id hf ih
  | remove id _ ih => exact .remove id ih
  | clear _ ih => exact .clear ih

/-- The provider that formulas are bound to stays the same. -/
theorem Edits.provider {r r' : Registry} (h : Edits r r') : r'.provider = r.provider := by
  induction h with
  | refl => rfl
  | register _ _ _ ih | remove _ _ ih | clear _ ih => exact ih

/-- Each formula is the one that its own text writes, and no id is listed twice. -/
structure Sound (r : Registry) : Prop where
  distinct : r.formulas.Distinct
  parsed : ∀ id f, r.get? id = some f → Formula.parse r.provider f.source = .ok f

theorem sound_empty (provider : ProviderId) : Sound (.empty provider) where
  distinct := OrderedMap.distinct_empty
  parsed := fun _ _ h => nomatch h

/-- A registry stays sound when a formula is added that its own text writes. -/
theorem Sound.register {r : Registry} (h : r.Sound) (id : Text) {f : Formula}
    (hf : Formula.parse r.provider f.source = .ok f) : Sound (r.insert id f) where
  distinct := h.distinct.insert id f
  parsed := by
    intro other g hg
    rw [get?, insert, OrderedMap.get?_insert] at hg
    by_cases heq : id = other
    · rw [if_pos heq] at hg
      cases hg
      exact hf
    · rw [if_neg heq] at hg
      exact h.parsed other g hg

/-- A registry stays sound when an id is taken out. -/
theorem Sound.remove {r : Registry} (h : r.Sound) (id : Text) : Sound (r.remove id) where
  distinct := h.distinct.erase id
  parsed := by
    intro other f hf
    have hmem : (other, f) ∈ r.formulas.entries :=
      (List.mem_filter.mp (OrderedMap.mem_of_get? hf)).1
    exact h.parsed other f (h.distinct.get?_of_mem hmem)

/-- What the changes keep. -/
theorem Edits.sound {r r' : Registry} (h : Edits r r') (hr : r.Sound) : r'.Sound := by
  induction h with
  | refl => exact hr
  | register id hf _ ih => exact ih.register id hf
  | remove id _ ih => exact ih.remove id
  | clear => exact sound_empty _

end Registry

/-! ## Changes -/

/-- What is asked of the registered formulas. -/
inductive Change where
  /-- The formula of a text is to be put under an id. -/
  | register (id expression : Text)
  /-- An id is to be dropped. -/
  | remove (id : Text)
  /-- All ids are to be dropped. -/
  | clear

namespace Registry

/-- The registry behind a change. A text that is no formula changes nothing. -/
def apply (r : Registry) : Change → Registry
  | .register id expression =>
    match Formula.parse r.provider expression with
    | .ok f => r.insert id f
    | .error _ => r
  | .remove id => r.remove id
  | .clear => .empty r.provider

/-- The registry behind some changes. -/
def applyAll (r : Registry) (changes : List Change) : Registry := changes.foldl apply r

/-- A text that is a formula is registered. -/
theorem apply_of_parse {r : Registry} {expression : Text} {f : Formula}
    (h : Formula.parse r.provider expression = .ok f) (id : Text) :
    r.apply (.register id expression) = r.insert id f := by
  rw [apply, h]

/-- A text that is no formula changes nothing. -/
theorem apply_of_error {r : Registry} {expression : Text} {e : ParseError}
    (h : Formula.parse r.provider expression = .error e) (id : Text) :
    r.apply (.register id expression) = r := by
  rw [apply, h]

theorem applyAll_append (r : Registry) (changes more : List Change) :
    r.applyAll (changes ++ more) = (r.applyAll changes).applyAll more := List.foldl_append

/-- Each change is an edit. -/
theorem edits_apply (r : Registry) (change : Change) : Edits r (r.apply change) := by
  cases change with
  | register id expression =>
      cases hparse : Formula.parse r.provider expression with
      | error e =>
          rw [apply_of_error hparse]
          exact .refl _
      | ok f =>
          have hf : Formula.parse r.provider f.source = .ok f := by
            rw [Formula.source_of_parse hparse]
            exact hparse
          rw [apply_of_parse hparse]
          exact .register id hf (.refl _)
  | remove id => exact .remove id (.refl _)
  | clear => exact .clear (.refl _)

/-- So are changes in turn, by induction on them. -/
theorem edits_applyAll (r : Registry) (changes : List Change) : Edits r (r.applyAll changes) := by
  induction changes generalizing r with
  | nil => exact .refl _
  | cons change changes ih => exact (edits_apply r change).trans (ih _)

end Registry

namespace Definition

/-- The change that a definition asks for. -/
def change (d : Definition) : Change := .register d.id d.expression

/-- Whether the text of a definition is a formula. -/
def parses (provider : ProviderId) (d : Definition) : Bool :=
  (Formula.parse provider d.expression).isOk

/-- The lines that the registration of a definition leaves: one where its text is no formula. -/
def lines (provider : ProviderId) (logger : Option Logger) (d : Definition) : List LogLine :=
  match Formula.parse provider d.expression with
  | .ok _ => []
  | .error e =>
    (Component.registry.logger logger).write .error (Host.registrationMessage d.id e)

end Definition

/-- The changes that a document asks for. -/
def Document.changes (document : Document) : List Change := document.formulas.map Definition.change

namespace Command

/-- The document that a command imports, with the files that are there. -/
def imported (files : FileStore) : Command → Option Document
  | .loadText text => (Document.parse text).toOption
  | .loadCompressed bytes =>
    (unpackText bytes).toOption.bind fun text => (Document.parse text).toOption
  | .loadFile path =>
    (files.read path).toOption.bind fun content =>
      (Document.parse (Text.ofUtf8 content)).toOption
  | _ => none

/-- The changes that a command asks for, with the files that are there. -/
def changes (files : FileStore) : Command → List Change
  | .register id expression => [.register id expression]
  | .tryRegister id expression => [.register id expression]
  | .registerMany definitions => definitions.map Definition.change
  | .remove id => [.remove id]
  | .clear => [.clear]
  | command => (command.imported files).elim [] Document.changes

end Command

/-! ## Operations -/

namespace Action

variable {σ α β : Type}

/-- The second operation meets the host that the first one left; lines and calls add up. -/
theorem bind_apply (first : Action σ α) (next : α → Action σ β) (host : Host σ) :
    (first >>= next) host = ⟨(next (first host).value (first host).host).value,
      (next (first host).value (first host).host).host,
      (first host).log ++ (next (first host).value (first host).host).log,
      (first host).calls ++ (next (first host).value (first host).host).calls⟩ := rfl

theorem map_apply (f : α → β) (action : Action σ α) (host : Host σ) :
    (f <$> action) host
      = ⟨f (action host).value, (action host).host, (action host).log, (action host).calls⟩ := by
  show Outcome.mk _ _ ((action host).log ++ []) ((action host).calls ++ []) = _
  rw [List.append_nil, List.append_nil]
  rfl

/-- Behind an operation that logs nothing and asks nothing, the next one is all that shows. -/
theorem bind_of_quiet {first : Action σ α} {host host' : Host σ} {a : α}
    (h : first host = ⟨a, host', [], []⟩) (next : α → Action σ β) :
    (first >>= next) host = next a host' := by
  rw [bind_apply, h]
  rfl

/-- An operation changes the formulas by edits only. -/
def Edits (action : Action σ α) : Prop :=
  ∀ host, Registry.Edits host.registry (action host).host.registry

theorem Edits.pure (value : α) : (Pure.pure value : Action σ α).Edits := fun _ => .refl _

theorem Edits.inspect (view : Host σ → α) : (Action.inspect view).Edits := fun _ => .refl _

/-- Operations in turn make the changes of both. -/
theorem Edits.bind {first : Action σ α} {next : α → Action σ β} (h : first.Edits)
    (h' : ∀ value, (next value).Edits) : (first >>= next).Edits :=
  fun host => (h host).trans (h' _ _)

theorem Edits.map {action : Action σ α} (h : action.Edits) (f : α → β) : (f <$> action).Edits :=
  h.bind fun value => .pure (f value)

/-- An operation leaves the formulas alone. -/
def Spares (action : Action σ α) : Prop := ∀ host, (action host).host.registry = host.registry

/-- What leaves the registry alone edits nothing in it. -/
theorem Spares.edits {action : Action σ α} (h : action.Spares) : action.Edits := by
  intro host
  rw [h host]
  exact .refl _

theorem Spares.pure (value : α) : (Pure.pure value : Action σ α).Spares := fun _ => rfl

theorem Spares.inspect (view : Host σ → α) : (Action.inspect view).Spares := fun _ => rfl

theorem Spares.report (component : Component) (level : LogLevel) (message : Text) :
    (Action.report component level message : Action σ Unit).Spares := fun _ => rfl

/-- Operations in turn leave the registry alone if both do. -/
theorem Spares.bind {first : Action σ α} {next : α → Action σ β} (h : first.Spares)
    (h' : ∀ value, (next value).Spares) : (first >>= next).Spares :=
  fun host => (h' _ _).trans (h host)

end Action

namespace Host

open Formulary.Action

variable {σ : Type}

/-! ## Registering -/

/-- To try a text that is a formula registers it and says nothing. -/
theorem tryRegister_of_parse {host : Host σ} {expression : Text} {f : Formula}
    (h : Formula.parse host.registry.provider expression = .ok f) (id : Text) :
    tryRegister id expression host
      = ⟨.ok f, { host with registry := host.registry.insert id f }, [], []⟩ := by
  rw [tryRegister, Registry.register?, h]
  rfl

/-- To try a text that is no formula gives the error back and does nothing. -/
theorem tryRegister_of_error {host : Host σ} {expression : Text} {e : ParseError}
    (h : Formula.parse host.registry.provider expression = .error e) (id : Text) :
    tryRegister id expression host = ⟨.error e, host, [], []⟩ := by
  rw [tryRegister, Registry.register?, h]
  rfl

/-- Either way the registry makes the change that was asked for. -/
theorem tryRegister_registry (id expression : Text) (host : Host σ) :
    (tryRegister id expression host).host.registry
      = host.registry.apply (.register id expression) := by
  cases hparse : Formula.parse host.registry.provider expression with
  | error e => rw [tryRegister_of_error hparse, Registry.apply_of_error hparse]
  | ok f => rw [tryRegister_of_parse hparse, Registry.apply_of_parse hparse]

theorem tryRegister_edits (id expression : Text) : (tryRegister (σ := σ) id expression).Edits := by
  intro host
  rw [tryRegister_registry]
  exact Registry.edits_apply _ _

/-- A text that is a formula is registered without a word. -/
theorem register_of_parse {host : Host σ} {expression : Text} {f : Formula}
    (h : Formula.parse host.registry.provider expression = .ok f) (id : Text) :
    register id expression host
      = ⟨true, { host with registry := host.registry.insert id f }, [], []⟩ := by
  rw [register, bind_of_quiet (tryRegister_of_parse h id)]
  rfl

/-- A text that is no formula is reported and changes nothing. -/
theorem register_of_error {host : Host σ} {expression : Text} {e : ParseError}
    (h : Formula.parse host.registry.provider expression = .error e) (id : Text) :
    register id expression host
      = ⟨false, host, (Component.registry.logger host.logger).write .error (registrationMessage id e),
        []⟩ := by
  rw [register, bind_of_quiet (tryRegister_of_error h id)]
  exact congrArg (Outcome.mk _ _ · _) (List.append_nil _)

/-- What comes of a registration. -/
theorem register_apply (d : Definition) (host : Host σ) :
    register d.id d.expression host
      = ⟨d.parses host.registry.provider, { host with registry := host.registry.apply d.change },
        d.lines host.registry.provider host.logger, []⟩ := by
  rw [Definition.parses, Definition.lines, Definition.change]
  cases hparse : Formula.parse host.registry.provider d.expression with
  | error e =>
      rw [register_of_error hparse, Registry.apply_of_error hparse]
      rfl
  | ok f =>
      rw [register_of_parse hparse, Registry.apply_of_parse hparse]
      rfl

/-- What comes of several registrations: they are made in turn, and the formulas are counted. -/
theorem registerMany_apply (definitions : List Definition) (host : Host σ) :
    registerMany definitions host
      = ⟨definitions.countP (Definition.parses host.registry.provider),
        { host with registry := host.registry.applyAll (definitions.map Definition.change) },
        definitions.flatMap (Definition.lines host.registry.provider host.logger), []⟩ := by
  induction definitions generalizing host with
  | nil => rfl
  | cons d rest ih =>
      rw [registerMany, bind_apply, register_apply, bind_apply, ih, (Registry.edits_apply _ _).provider,
        List.countP_cons]
      show Outcome.mk _ _ (_ ++ (_ ++ [])) [] = _
      rw [List.append_nil]
      cases d.parses host.registry.provider with
      | true => rfl
      | false => rfl

/-! ## Importing -/

/-- The outcome of an import: the definitions of the document are registered, and without one the
formulas stay as they are. -/
def Takes (o : Outcome σ Nat) (host : Host σ) : Option Document → Prop
  | some document => o = registerMany document.formulas host
  | none => o.host.registry = host.registry

/-- Of a document the registry takes the changes that it asks for, and of anything else none. -/
theorem Takes.registry {o : Outcome σ Nat} {host : Host σ} {document : Option Document}
    (h : Takes o host document) :
    o.host.registry = host.registry.applyAll (document.elim [] Document.changes) := by
  cases document with
  | none => exact h
  | some document =>
      rw [show o = registerMany document.formulas host from h, registerMany_apply]
      rfl

/-- A text is imported for the document that it writes. -/
theorem loadText_takes (text : Text) (host : Host σ) :
    Takes (loadText text host) host (Document.parse text).toOption := by
  rw [loadText]
  cases Document.parse text with
  | error fault => rfl
  | ok document => rfl

/-- Packed bytes are imported for the text that they hold. -/
theorem loadCompressed_takes (bytes : List UInt8) (host : Host σ) :
    Takes (loadCompressed bytes host) host ((Command.loadCompressed bytes).imported host.files) := by
  rw [loadCompressed, Command.imported]
  cases unpackText bytes with
  | error fault => rfl
  | ok text => exact loadText_takes text host

/-- A file is imported for its text, or for what it holds packed. -/
theorem loadFile_takes (path : Text) (host : Host σ) :
    Takes (loadFile path host) host ((Command.loadFile path).imported host.files) := by
  rw [loadFile, bind_of_quiet rfl, Command.imported]
  dsimp only
  cases host.files.read path with
  | error fault => rfl
  | ok content => exact loadText_takes (Text.ofUtf8 content) host

/-! ## Other operations -/

theorem exportFile_spares (path : Text) (ids : Option (List Text)) :
    (exportFile (σ := σ) path ids).Spares := by
  refine (Spares.bind (Spares.inspect _) fun _ => .pure _).bind fun text =>
    (Spares.inspect _).bind fun written => ?_
  cases written with
  | ok files => exact Spares.bind (fun _ => rfl) fun _ => .pure true
  | error fault => exact (Spares.report _ _ _).bind fun _ => .pure false

/-- Looking a formula up logs that it is missing, and does no more. -/
theorem lookup_spares (id : Text) : (lookup (σ := σ) id).Spares := by
  refine (Spares.inspect _).bind fun found => ?_
  cases found with
  | none => exact (Spares.report _ _ _).bind fun _ => .pure _
  | some f => exact (Spares.pure ()).bind fun _ => .pure _

theorem settle_spares (heading id : Text) (outcome : Except EvaluationError Number) :
    (settle (σ := σ) heading id outcome).Spares := by
  cases outcome with
  | ok value => exact .pure value
  | error e => exact (Spares.report _ _ _).bind fun _ => .pure 0

/-- Preparing a context may pool one, but registers nothing. -/
theorem prepare_spares (id : Text) : (prepare (σ := σ) id).Spares := by
  refine (Spares.inspect _).bind fun found => ?_
  cases found with
  | none => exact (Spares.report _ _ _).bind fun _ => .pure false
  | some f =>
      refine Spares.bind (fun host => ?_) fun _ => .pure true
      show (if _ then _ else _ : Host σ).registry = _
      split <;> rfl

theorem keep_spares (id : Text) (context : Context) : (keep (σ := σ) id context).Spares := by
  intro host
  show (if _ then _ else _ : Host σ).registry = _
  split <;> rfl

variable [RandomProvider σ]

/-- An evaluation moves the providers only. -/
theorem runIn_spares (f : Formula) (context : Context) : (runIn (σ := σ) f context).Spares :=
  fun _ => rfl

theorem evaluate_spares (id : Text) (bindings : Bindings) :
    (evaluate (σ := σ) id bindings).Spares := by
  refine (lookup_spares id).bind fun found => ?_
  cases found with
  | none => exact .pure 0
  | some f => exact (runIn_spares f _).bind fun _ => settle_spares _ _ _

theorem evaluateEntries_spares (id : Text) (entries : List (Text × Number)) :
    (evaluateEntries (σ := σ) id entries).Spares := by
  refine (lookup_spares id).bind fun found => ?_
  cases found with
  | none => exact .pure 0
  | some f =>
      exact (Spares.inspect _).bind fun _ => (runIn_spares f _).bind fun _ =>
        (keep_spares _ _).bind fun _ => settle_spares _ _ _

/-- The loop of a batch registers nothing, by induction on the sets. -/
theorem evaluateSets_spares (id : Text) (f : Formula) (sets : List Bindings) :
    (evaluateSets (σ := σ) id f sets).Spares := by
  induction sets with
  | nil => exact .pure []
  | cons bindings rest ih =>
      refine (runIn_spares f _).bind fun run => ?_
      obtain ⟨outcome, context⟩ := run
      cases outcome with
      | ok value => exact ih.bind fun _ => .pure _
      | error e => exact (settle_spares _ _ _).bind fun _ => .pure _

theorem evaluateBatch_spares (id : Text) (sets : List Bindings) :
    (evaluateBatch (σ := σ) id sets).Spares := by
  refine (lookup_spares id).bind fun found => ?_
  cases found with
  | none => exact .pure _
  | some f => exact evaluateSets_spares id f sets

/-- Nor does the loop over several ids. -/
theorem evaluateEach_spares (bindings : Bindings) (ids : List Text) (results : OrderedMap Number) :
    (evaluateEach (σ := σ) bindings ids results).Spares := by
  induction ids generalizing results with
  | nil => exact .pure results
  | cons id rest ih => exact (evaluate_spares id bindings).bind fun _ => ih _

theorem tryEvaluate_spares (id : Text) (bindings : Bindings) :
    (tryEvaluate (σ := σ) id bindings).Spares := by
  refine (Spares.inspect _).bind fun found => ?_
  cases found with
  | none => exact .pure _
  | some f =>
      refine (runIn_spares f _).bind fun run => ?_
      obtain ⟨outcome, context⟩ := run
      cases outcome with
      | ok value => exact .pure _
      | error e => exact .pure _

/-! ## Commands -/

/-- A command does to the formulas what it asks for. -/
theorem perform_registry (command : Command) (host : Host σ) :
    (perform command host).host.registry
      = host.registry.applyAll (command.changes host.files) := by
  cases command with
  | register id expression => exact congrArg (·.host.registry) (register_apply ⟨id, expression⟩ host)
  | tryRegister id expression => exact tryRegister_registry id expression host
  | registerMany definitions =>
      exact congrArg (·.host.registry) (registerMany_apply definitions host)
  | remove id => rfl
  | clear => rfl
  | evaluate id bindings => exact evaluate_spares id bindings host
  | evaluateEntries id entries => exact evaluateEntries_spares id entries host
  | evaluateBatch id sets => exact evaluateBatch_spares id sets host
  | evaluateMultiple ids bindings => exact evaluateEach_spares bindings ids .empty host
  | tryEvaluate id bindings => exact tryEvaluate_spares id bindings host
  | prepare id => exact prepare_spares id host
  | clearPools => rfl
  | setPooling enabled => rfl
  | stats => rfl
  | loadText text => exact (loadText_takes text host).registry
  | loadCompressed bytes => exact (loadCompressed_takes bytes host).registry
  | loadFile path => exact (loadFile_takes path host).registry
  | document ids => rfl
  | exportText ids => rfl
  | exportCompressed ids => rfl
  | exportFile path ids => exact exportFile_spares path ids host

/-- Whatever the command, the registry is only edited. -/
theorem perform_edits (command : Command) : (perform (σ := σ) command).Edits := by
  intro host
  rw [perform_registry]
  exact Registry.edits_applyAll _ _

/-- No command changes the provider that formulas are bound to. -/
theorem perform_provider (command : Command) (host : Host σ) :
    (perform command host).host.registry.provider = host.registry.provider :=
  (perform_edits command host).provider

/-- Commands in turn edit the registry, by induction on them. -/
theorem performAll_edits (commands : List Command) : (performAll (σ := σ) commands).Edits := by
  induction commands with
  | nil => exact .pure []
  | cons command rest ih => exact (perform_edits command).bind fun _ => ih.bind fun _ => .pure _

/-- The host behind some commands is the one behind all but the first, from where that left it. -/
theorem performAll_host_cons (command : Command) (rest : List Command) (host : Host σ) :
    (performAll (command :: rest) host).host = (performAll rest (perform command host).host).host :=
  rfl

/-- The host behind a registration that succeeds. -/
theorem perform_register_of_parse {ρ : ProviderId} {expression : Text} {f : Formula}
    (h : Formula.parse ρ expression = .ok f) (id : Text) {host : Host σ}
    (hprovider : host.registry.provider = ρ) :
    (perform (.register id expression) host).host
      = { host with registry := host.registry.insert id f } := by
  rw [← hprovider] at h
  show (register id expression host).host = _
  rw [register_of_parse h]

/-- The host behind a history of commands to a new one. -/
def after (provider : ProviderId) (providers : ProviderId → σ) (logger : Option Logger)
    (pooling : Bool) (history : List Command) : Host σ :=
  (performAll history (Host.new provider providers logger pooling)).host

/-- Whatever was done to a host, its formulas are bound to the provider that it was given. -/
theorem after_provider (provider : ProviderId) (providers : ProviderId → σ)
    (logger : Option Logger) (pooling : Bool) (history : List Command) :
    (after provider providers logger pooling history).registry.provider = provider :=
  (performAll_edits history _).provider

/-- Whatever was done to a host, each of its formulas is the one that its own text writes. -/
theorem after_sound (provider : ProviderId) (providers : ProviderId → σ) (logger : Option Logger)
    (pooling : Bool) (history : List Command) :
    (after provider providers logger pooling history).registry.Sound :=
  (performAll_edits history _).sound (Registry.sound_empty provider)

end Host

end Formulary
