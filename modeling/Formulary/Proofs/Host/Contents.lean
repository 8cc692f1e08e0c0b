import Formulary.Proofs.Host.Running
import Formulary.Proofs.Library.Documents

/-!
# What is registered behind a run

The changes that a run asks for tell what is registered in the end. A registration lasts if its text
is a formula and the id is not dropped later. The ids that have one are registered, in the order in
which their first ones came, and under each stands the formula of its last one: to replace a formula
keeps its place, to drop an id and to put it back moves it to the end, and a text that is no formula
counts for nothing.

- `Lasts` says that a registration lasts.
- `Registry.Contents` says what is registered behind some changes, and `Registry.contents_applyAll`
  that it is so.
- `Host.follow` runs a host through events, `Host.asked` lists the changes that they ask for, and
  `Host.follow_contents` says what is registered behind them and what every registration gives.
-/

namespace Formulary

/-- Whether a change drops an id. -/
def Change.Drops (id : Text) : Change → Prop
  | .register _ _ => False
  | .remove other => other = id
  | .clear => True

/-- Among some changes, the one at a place puts the formula of a text under an id, and no later one
drops the id. -/
structure Lasts (ρ : ProviderId) (changes : List Change) (id expression : Text) (place : Nat) :
    Prop where
  asked : changes[place]? = some (.register id expression)
  parsed : ∃ f, Formula.parse ρ expression = .ok f
  kept : ∀ change ∈ changes.drop (place + 1), ¬ change.Drops id

/-- The first lasting registration of an id comes before all those of another. -/
def Precedes (ρ : ProviderId) (changes : List Change) (id other : Text) : Prop :=
  ∃ place expression, Lasts ρ changes id expression place
    ∧ ∀ place' expression', Lasts ρ changes other expression' place' → place < place'

/-- The last of the lasting registrations of an id is that of a text. -/
def Latest (ρ : ProviderId) (changes : List Change) (id expression : Text) : Prop :=
  ∃ place, Lasts ρ changes id expression place
    ∧ ∀ place' expression', Lasts ρ changes id expression' place' → place' ≤ place

/-! ## One more change -/

section

variable {ρ : ProviderId} {changes : List Change} {id expression : Text} {place : Nat}

/-- A lasting registration is one of the changes. -/
theorem Lasts.lt_length (h : Lasts ρ changes id expression place) : place < changes.length :=
  (List.getElem?_eq_some_iff.mp h.asked).1

/-- The registrations that last are those that lasted and are not dropped now, and one that is made
now. -/
theorem lasts_concat {change : Change} :
    Lasts ρ (changes ++ [change]) id expression place
      ↔ (Lasts ρ changes id expression place ∧ ¬ change.Drops id)
        ∨ (place = changes.length ∧ change = .register id expression
          ∧ ∃ f, Formula.parse ρ expression = .ok f) := by
  have hdrop : place < changes.length →
      (changes ++ [change]).drop (place + 1) = changes.drop (place + 1) ++ [change] :=
    fun hlt => List.drop_append_of_le_length hlt
  constructor
  · intro h
    have hle : place < changes.length + 1 := by
      have hlt := h.lt_length
      rwa [List.length_append] at hlt
    rcases Nat.lt_or_eq_of_le (Nat.le_of_lt_succ hle) with hlt | rfl
    · have hkept := h.kept
      rw [hdrop hlt] at hkept
      refine .inl ⟨⟨?_, h.parsed, ?_⟩, ?_⟩
      · rw [← List.getElem?_append_left hlt]
        exact h.asked
      · exact fun other hother => hkept other (List.mem_append_left _ hother)
      · exact hkept change (List.mem_append_right _ List.mem_cons_self)
    · have hasked := h.asked
      rw [List.getElem?_concat_length] at hasked
      exact .inr ⟨rfl, Option.some.inj hasked, h.parsed⟩
  · rintro (⟨h, hkeeps⟩ | ⟨rfl, rfl, hparsed⟩)
    · refine ⟨?_, h.parsed, ?_⟩
      · rw [List.getElem?_append_left h.lt_length]
        exact h.asked
      · rw [hdrop h.lt_length]
        intro other hother
        rcases List.mem_append.mp hother with hold | hnew
        · exact h.kept other hold
        · exact List.mem_singleton.mp hnew ▸ hkeeps
    · refine ⟨List.getElem?_concat_length, hparsed, ?_⟩
      intro other hother
      rw [List.drop_of_length_le (by simp)] at hother
      cases hother

variable {id' expression' : Text}

/-- A registration that succeeds lasts, and those before it still do. -/
theorem lasts_register {f : Formula} (h : Formula.parse ρ expression = .ok f) :
    Lasts ρ (changes ++ [.register id expression]) id' expression' place
      ↔ Lasts ρ changes id' expression' place
        ∨ (place = changes.length ∧ id = id' ∧ expression = expression') := by
  rw [lasts_concat]
  constructor
  · rintro (⟨hold, -⟩ | ⟨hplace, heq, -⟩)
    · exact .inl hold
    · cases heq
      exact .inr ⟨hplace, rfl, rfl⟩
  · rintro (hold | ⟨hplace, rfl, rfl⟩)
    · exact .inl ⟨hold, fun hdrops => hdrops⟩
    · exact .inr ⟨hplace, rfl, f, h⟩

/-- One that fails leaves what lasts as it is. -/
theorem lasts_register_of_error {e : ParseError} (h : Formula.parse ρ expression = .error e) :
    Lasts ρ (changes ++ [.register id expression]) id' expression' place
      ↔ Lasts ρ changes id' expression' place := by
  rw [lasts_concat]
  constructor
  · rintro (⟨hold, -⟩ | ⟨-, heq, f, hf⟩)
    · exact hold
    · cases heq
      cases h.symm.trans hf
  · exact fun hold => .inl ⟨hold, fun hdrops => hdrops⟩

/-- An id that is taken out has nothing that lasts. -/
theorem lasts_remove :
    Lasts ρ (changes ++ [.remove id]) id' expression' place
      ↔ Lasts ρ changes id' expression' place ∧ id ≠ id' := by
  rw [lasts_concat]
  constructor
  · rintro (hold | ⟨-, heq, -⟩)
    · exact hold
    · cases heq
  · exact .inl

/-- Behind a clearance nothing lasts. -/
theorem not_lasts_clear : ¬ Lasts ρ (changes ++ [.clear]) id expression place := by
  rw [lasts_concat]
  rintro (⟨-, hkeeps⟩ | ⟨-, heq, -⟩)
  · exact hkeeps trivial
  · cases heq

/-- Of the id that a formula is put under, the text of this formula is the latest. -/
theorem latest_register {f : Formula} (h : Formula.parse ρ expression = .ok f) :
    Latest ρ (changes ++ [.register id expression]) id' expression'
      ↔ if id = id' then expression = expression' else Latest ρ changes id' expression' := by
  by_cases hid : id = id'
  · subst hid
    rw [if_pos rfl]
    constructor
    · rintro ⟨place, hlasts, hlast⟩
      have hle : changes.length ≤ place :=
        hlast _ expression ((lasts_register h).mpr (.inr ⟨rfl, rfl, rfl⟩))
      rcases (lasts_register h).mp hlasts with hold | ⟨-, -, heq⟩
      · exact absurd hold.lt_length (Nat.not_lt.mpr hle)
      · exact heq
    · rintro rfl
      refine ⟨changes.length, (lasts_register h).mpr (.inr ⟨rfl, rfl, rfl⟩), ?_⟩
      intro place' other hother
      have hlt := hother.lt_length
      rw [List.length_append] at hlt
      exact Nat.le_of_lt_succ hlt
  · rw [if_neg hid]
    have hsame : ∀ place other, Lasts ρ (changes ++ [.register id expression]) id' other place
        ↔ Lasts ρ changes id' other place := fun place other =>
      (lasts_register h).trans (or_iff_left fun hnew => hid hnew.2.1)
    simp only [Latest, hsame]

end

/-! ## The registered formulas -/

namespace Registry

/-- What is registered behind some changes. -/
structure Contents (r : Registry) (changes : List Change) : Prop where
  distinct : r.ids.Nodup
  registered : ∀ id, id ∈ r.ids ↔ ∃ expression place, Lasts r.provider changes id expression place
  order : r.ids.Pairwise (Precedes r.provider changes)
  formula : ∀ id f, r.get? id = some f
    ↔ Latest r.provider changes id f.source ∧ Formula.parse r.provider f.source = .ok f

/-- An empty registry holds what is left where nothing lasts. -/
theorem contents_empty {ρ : ProviderId} {changes : List Change}
    (h : ∀ id expression place, ¬ Lasts ρ changes id expression place) :
    Contents (.empty ρ) changes where
  distinct := List.nodup_nil
  registered := by
    intro id
    refine ⟨fun hmem => absurd hmem List.not_mem_nil, ?_⟩
    rintro ⟨expression, place, hlasts⟩
    exact absurd hlasts (h id expression place)
  order := .nil
  formula := by
    intro id f
    refine ⟨fun hget => absurd hget (Option.some_ne_none f).symm, ?_⟩
    rintro ⟨⟨place, hlasts, -⟩, -⟩
    exact absurd hlasts (h id f.source place)

variable {r : Registry} {changes : List Change}

/-- A registration that fails changes neither side. -/
theorem Contents.refuse (h : r.Contents changes) (id : Text) {expression : Text} {e : ParseError}
    (hparse : Formula.parse r.provider expression = .error e) :
    r.Contents (changes ++ [.register id expression]) where
  distinct := h.distinct
  registered := by simpa only [lasts_register_of_error hparse] using h.registered
  order := h.order.imp fun hprecedes => by
    simpa only [Precedes, lasts_register_of_error hparse] using hprecedes
  formula := by simpa only [Latest, lasts_register_of_error hparse] using h.formula

/-- An id that precedes another does so still when a formula is registered. -/
theorem precedes_register {id expression : Text} {f : Formula}
    (hparse : Formula.parse r.provider expression = .ok f) {first second : Text}
    (h : Precedes r.provider changes first second) :
    Precedes r.provider (changes ++ [.register id expression]) first second := by
  obtain ⟨place, text, hlasts, hbefore⟩ := h
  refine ⟨place, text, (lasts_register hparse).mpr (.inl hlasts), ?_⟩
  intro place' text' hlasts'
  rcases (lasts_register hparse).mp hlasts' with hold | ⟨rfl, -, -⟩
  · exact hbefore place' text' hold
  · exact hlasts.lt_length

/-- An id that is registered precedes one that is registered for the first time. -/
theorem precedes_new {id expression : Text} {f : Formula}
    (hparse : Formula.parse r.provider expression = .ok f) {first text : Text} {place : Nat}
    (hfirst : Lasts r.provider changes first text place)
    (hnew : ∀ text' place', ¬ Lasts r.provider changes id text' place') :
    Precedes r.provider (changes ++ [.register id expression]) first id := by
  refine ⟨place, text, (lasts_register hparse).mpr (.inl hfirst), ?_⟩
  intro place' text' hlasts
  rcases (lasts_register hparse).mp hlasts with hbefore | ⟨rfl, -, -⟩
  · exact absurd hbefore (hnew text' place')
  · exact hfirst.lt_length

/-- A registration that succeeds puts its formula in the place of the id, or behind all others. -/
theorem Contents.register (h : r.Contents changes) (id : Text) {expression : Text} {f : Formula}
    (hparse : Formula.parse r.provider expression = .ok f) :
    Contents (r.insert id f) (changes ++ [.register id expression]) where
  distinct := OrderedMap.Distinct.insert h.distinct id f
  registered := by
    intro id'
    have hmem : id' ∈ (r.insert id f).ids ↔ id' ∈ r.ids ∨ id = id' := OrderedMap.mem_keys_insert
    rw [hmem, h.registered]
    constructor
    · rintro (⟨text, place, hlasts⟩ | rfl)
      · exact ⟨text, place, (lasts_register hparse).mpr (.inl hlasts)⟩
      · exact ⟨expression, changes.length, (lasts_register hparse).mpr (.inr ⟨rfl, rfl, rfl⟩)⟩
    · rintro ⟨text, place, hlasts⟩
      rcases (lasts_register hparse).mp hlasts with hold | ⟨-, hid, -⟩
      · exact .inl ⟨text, place, hold⟩
      · exact .inr hid
  order := by
    have hold : r.ids.Pairwise (Precedes r.provider (changes ++ [.register id expression])) :=
      h.order.imp (precedes_register hparse)
    rw [ids, insert, OrderedMap.keys_insert]
    by_cases hid : id ∈ r.formulas.keys
    · rw [if_pos hid]
      exact hold
    · rw [if_neg hid]
      refine List.pairwise_append.mpr ⟨hold, List.pairwise_singleton _ id, ?_⟩
      intro first hfirst second hsecond
      obtain ⟨text, place, hlasts⟩ := (h.registered first).mp hfirst
      rw [List.mem_singleton.mp hsecond]
      exact precedes_new hparse hlasts fun text' place' hbefore =>
        hid ((h.registered id).mpr ⟨text', place', hbefore⟩)
  formula := by
    intro id' g
    rw [get?, insert, OrderedMap.get?_insert, latest_register hparse]
    by_cases hid : id = id'
    · rw [if_pos hid, if_pos hid]
      constructor
      · intro hg
        cases hg
        rw [Formula.source_of_parse hparse]
        exact ⟨rfl, hparse⟩
      · rintro ⟨rfl, hg⟩
        rw [hparse] at hg
        exact congrArg some (Except.ok.inj hg)
    · rw [if_neg hid, if_neg hid]
      exact h.formula id' g

/-- An id that is taken out is gone from both sides, and the others keep their order. -/
theorem Contents.remove (h : r.Contents changes) (id : Text) :
    Contents (r.remove id) (changes ++ [.remove id]) := by
  have hids : (r.remove id).ids = r.ids.filter (fun other => other ≠ id) :=
    OrderedMap.keys_erase r.formulas id
  -- of any other id all that lasted still lasts
  have hsame : ∀ {other : Text}, id ≠ other → ∀ expression place,
      Lasts r.provider (changes ++ [.remove id]) other expression place
        ↔ Lasts r.provider changes other expression place :=
    fun hne _ _ => lasts_remove.trans (and_iff_left hne)
  have hprovider : (r.remove id).provider = r.provider := rfl
  refine ⟨?_, ?_, ?_, ?_⟩
  · rw [hids]
    exact h.distinct.filter _
  · intro other
    rw [hids, List.mem_filter, h.registered, decide_eq_true_iff]
    constructor
    · rintro ⟨⟨expression, place, hlasts⟩, hne⟩
      exact ⟨expression, place, lasts_remove.mpr ⟨hlasts, Ne.symm hne⟩⟩
    · rintro ⟨expression, place, hlasts⟩
      obtain ⟨hold, hne⟩ := lasts_remove.mp hlasts
      exact ⟨⟨expression, place, hold⟩, Ne.symm hne⟩
  · rw [hids]
    refine (h.order.filter _).imp_of_mem ?_
    intro first second hfirst hsecond hprecedes
    have hne : ∀ {other : Text}, other ∈ r.ids.filter (fun other => other ≠ id) → id ≠ other :=
      fun hmem => Ne.symm (of_decide_eq_true (List.mem_filter.mp hmem).2)
    simpa only [Precedes, hprovider, hsame (hne hfirst), hsame (hne hsecond)] using hprecedes
  · intro other f
    have hget : (r.remove id).get? other = if id = other then none else r.get? other :=
      OrderedMap.get?_erase r.formulas id other
    rw [hget]
    by_cases hid : id = other
    · rw [if_pos hid]
      refine ⟨fun hnone => absurd hnone.symm (Option.some_ne_none f), ?_⟩
      rintro ⟨⟨place, hlasts, -⟩, -⟩
      exact absurd hid (lasts_remove.mp hlasts).2
    · rw [if_neg hid]
      simpa only [Latest, hprovider, hsame hid] using h.formula other f

/-- Each change keeps the registry in step with what lasts. -/
theorem Contents.apply (h : r.Contents changes) (change : Change) :
    (r.apply change).Contents (changes ++ [change]) := by
  cases change with
  | register id expression =>
      cases hparse : Formula.parse r.provider expression with
      | error e =>
          rw [apply_of_error hparse]
          exact h.refuse id hparse
      | ok f =>
          rw [apply_of_parse hparse]
          exact h.register id hparse
  | remove id => exact h.remove id
  | clear => exact contents_empty fun _ _ _ => not_lasts_clear

/-- So do changes in turn, by induction on them. -/
theorem Contents.applyAll (h : r.Contents changes) (more : List Change) :
    (r.applyAll more).Contents (changes ++ more) := by
  induction more generalizing r changes with
  | nil =>
      rw [List.append_nil]
      exact h
  | cons change more ih =>
      have hstep := ih (h.apply change)
      rwa [List.append_assoc] at hstep

/-- Behind any changes the lasting registrations tell what is registered. -/
theorem contents_applyAll (ρ : ProviderId) (changes : List Change) :
    ((empty ρ).applyAll changes).Contents changes := by
  have hnone : Contents (.empty ρ) [] :=
    contents_empty fun _ _ place hlasts => Nat.not_lt_zero place hlasts.lt_length
  exact hnone.applyAll changes

/-- Definitions whose texts are no formulas change nothing, wherever they stand. -/
theorem applyAll_filter_parses (r : Registry) (definitions : List Definition) :
    r.applyAll ((definitions.filter (Definition.parses r.provider)).map Definition.change)
      = r.applyAll (definitions.map Definition.change) := by
  induction definitions generalizing r with
  | nil => rfl
  | cons d rest ih =>
      cases hparse : Formula.parse r.provider d.expression with
      | error e =>
          have hparses : ¬ d.parses r.provider = true := by
            rw [Definition.parses, hparse]
            exact Bool.false_ne_true
          rw [List.filter_cons_of_neg hparses, ih]
          show r.applyAll _ = (r.apply d.change).applyAll _
          rw [Definition.change, apply_of_error hparse]
      | ok f =>
          have hparses : d.parses r.provider = true := by
            rw [Definition.parses, hparse]
            rfl
          rw [List.filter_cons_of_pos hparses]
          have hrest := ih (r.apply d.change)
          rw [(edits_apply r d.change).provider] at hrest
          exact hrest

end Registry

/-! ## Runs -/

/-- What can happen to a host. -/
inductive Event where
  /-- It carries out a command. -/
  | command (command : Command)
  /-- Others change its files. -/
  | files (files : FileStore)

namespace Host

variable {σ : Type} [RandomProvider σ]

/-- The host behind an event. -/
def meet (host : Host σ) : Event → Host σ
  | .command command => (perform command host).host
  | .files files => { host with files }

/-- The host behind some events. -/
def follow (host : Host σ) (events : List Event) : Host σ := events.foldl meet host

/-- The changes that some events ask for. -/
def asked (host : Host σ) : List Event → List Change
  | [] => []
  | .command command :: rest => command.changes host.files ++ (host.meet (.command command)).asked rest
  | .files files :: rest => (host.meet (.files files)).asked rest

/-- The registry behind some events has made the changes that they asked for. -/
theorem follow_registry (host : Host σ) (events : List Event) :
    (host.follow events).registry = host.registry.applyAll (host.asked events) := by
  induction events generalizing host with
  | nil => rfl
  | cons event rest ih =>
      show ((host.meet event).follow rest).registry = _
      rw [ih]
      cases event with
      | command command =>
          rw [asked, Registry.applyAll_append, ← perform_registry]
          rfl
      | files files => rfl

/-- A command that imports a document gives and does what registering its definitions does. -/
theorem perform_of_imported {command : Command} {document : Document} {host : Host σ}
    (h : command.imported host.files = some document) :
    perform command host = perform (.registerMany document.formulas) host := by
  have htakes : ∀ {action : Action σ Nat},
      Takes (action host) host (command.imported host.files) →
      (Reply.count <$> action) host = perform (.registerMany document.formulas) host := by
    intro action haction
    rw [h] at haction
    rw [perform, Action.map_apply, Action.map_apply,
      show action host = registerMany document.formulas host from haction]
  cases command with
  | loadText text => exact htakes (loadText_takes text host)
  | loadCompressed bytes => exact htakes (loadCompressed_takes bytes host)
  | loadFile path => exact htakes (loadFile_takes path host)
  | _ => cases h

/-- Whatever happened to a host, the lasting registrations tell what is registered, and under an id
the formula of its latest text is evaluated. A text that is no formula changes nothing and is logged
once, unless it was only tried; so it is with each definition of many, and with those of a document
that is imported. -/
theorem follow_contents (provider : ProviderId) (providers : ProviderId → σ)
    (logger : Option Logger) (pooling : Bool) (events : List Event) {host : Host σ}
    (hhost : host = (Host.new provider providers logger pooling).follow events) :
    host.registry.provider = provider
    ∧ host.registry.Contents ((Host.new provider providers logger pooling).asked events)
    ∧ (∀ id f, host.registry.get? id = some f → ∀ bindings,
      Gives (evaluate id bindings host) host id (f.evaluate bindings (.own host.providers)))
    ∧ (∀ id expression e, Formula.parse provider expression = .error e →
      tryRegister id expression host = ⟨.error e, host, [], []⟩
      ∧ register id expression host
        = ⟨false, host,
          (Component.registry.logger host.logger).write .error (registrationMessage id e), []⟩)
    ∧ (∀ definitions, registerMany definitions host
      = ⟨definitions.countP (Definition.parses provider),
        { host with
          registry := host.registry.applyAll
            ((definitions.filter (Definition.parses provider)).map Definition.change) },
        definitions.flatMap (Definition.lines provider host.logger), []⟩)
    ∧ ∀ command document, command.imported host.files = some document →
      perform command host = perform (.registerMany document.formulas) host := by
  have hregistry : host.registry = (Registry.empty provider).applyAll
      ((Host.new provider providers logger pooling).asked events) := by
    rw [hhost, follow_registry]
    rfl
  have hcontents : host.registry.Contents
      ((Host.new provider providers logger pooling).asked events) := by
    rw [hregistry]
    exact Registry.contents_applyAll _ _
  obtain rfl : host.registry.provider = provider := by
    rw [hregistry]
    exact (Registry.edits_applyAll _ _).provider
  refine ⟨rfl, hcontents, ?_, ?_, ?_, ?_⟩
  · intro id f hregistered bindings
    rw [evaluate_of_registered hregistered bindings rfl]
    exact ⟨rfl, rfl, rfl, rfl, rfl⟩
  · intro id expression e hparse
    exact ⟨tryRegister_of_error hparse id, register_of_error hparse id⟩
  · intro definitions
    rw [Registry.applyAll_filter_parses]
    exact registerMany_apply definitions host
  · intro command document himported
    exact perform_of_imported himported

/-- The id `a` is dropped and put back, so that it comes last, and neither the text that fails under
`b` nor the one behind the new text of `a` leaves a trace. -/
theorem follow_contents_replaced :
    ∃ (a b : Text) (host : Host FixedFraction) (f : Formula) (e : ParseError) (document : Document),
      a = Text.ofString "a" ∧ b = Text.ofString "b"
      ∧ host = (Host.new ⟨0⟩ (fun _ => .half) none true).follow
        [.command (.register a (Text.ofString "1")), .command (.register b (Text.ofString "x")),
          .command (.tryRegister b (Text.ofString "(")), .command (.remove a),
          .command (.registerMany [⟨a, Text.ofString "2"⟩, ⟨a, Text.ofString ")"⟩])]
      ∧ Formula.parse ⟨0⟩ (Text.ofString "2") = .ok f
      ∧ Formula.parse ⟨0⟩ (Text.ofString "(") = .error e
      ∧ document = ⟨[⟨b, Text.ofString ")"⟩, ⟨b, Text.ofString "y"⟩]⟩
      ∧ host.registry.ids = [b, a]
      ∧ host.registry.Contents
        [.register a (Text.ofString "1"), .register b (Text.ofString "x"),
          .register b (Text.ofString "("), .remove a, .register a (Text.ofString "2"),
          .register a (Text.ofString ")")]
      ∧ Gives (evaluate a (.pairs []) host) host a (f.evaluate (.pairs []) (.own host.providers))
      ∧ (register b (Text.ofString "(") host).log
        = [⟨.error, Text.concat ["[", "FormulaRegistry", "] ", registrationMessage b e]⟩]
      ∧ (registerMany document.formulas host).value = 1
      ∧ perform (.loadText document.text) host = perform (.registerMany document.formulas) host := by
  obtain ⟨f, hf⟩ : ∃ f, Formula.parse ⟨0⟩ (Text.ofString "2") = .ok f := ⟨_, rfl⟩
  obtain ⟨e, he⟩ : ∃ e, Formula.parse ⟨0⟩ (Text.ofString "(") = .error e := ⟨_, rfl⟩
  obtain ⟨-, hcontents, hruns, hrefused, hmany, himports⟩ :=
    follow_contents ⟨0⟩ (fun _ => FixedFraction.half) none true
      [.command (.register (Text.ofString "a") (Text.ofString "1")),
        .command (.register (Text.ofString "b") (Text.ofString "x")),
        .command (.tryRegister (Text.ofString "b") (Text.ofString "(")),
        .command (.remove (Text.ofString "a")),
        .command (.registerMany
          [⟨Text.ofString "a", Text.ofString "2"⟩, ⟨Text.ofString "a", Text.ofString ")"⟩])] rfl
  refine ⟨_, _, _, f, e, _, rfl, rfl, rfl, hf, he, rfl, ?_, hcontents, hruns _ f ?_ _, ?_, ?_,
    himports _ _ ?_⟩
  · rw [follow_registry]
    rfl
  · cases hf
    rw [follow_registry]
    rfl
  · rw [(hrefused _ _ e he).2]
    rfl
  · rw [hmany]
    rfl
  · rw [Command.imported, Document.parse_text]
    exact congrArg Except.toOption (if_pos rfl)

end Host

end Formulary
