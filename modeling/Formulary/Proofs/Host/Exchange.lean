import Formulary.Proofs.Compression.Container
import Formulary.Proofs.Grammar.Binding
import Formulary.Proofs.Host.Editing
import Formulary.Proofs.Library.Documents

/-!
# Importing what was exported

An exported document holds the listed formulas that are registered, by their texts. A text is read as
the same formula again, so importing the document into an empty registry makes the same formulas, and
nothing is logged. The one obstacle is a blank: a registry takes a blank id, and a blank expression
for the constant zero, but a document may hold neither.

- `Registry.Solid` says that no blank is listed, and `Registry.Copies` what an import leaves.
- `Host.after_imports` is the round trip of any listed formulas, as text and packed.
- `Host.after_importable` says when all formulas of a registry can be imported again, and what comes
  of it when they cannot.
-/

namespace Formulary

namespace Registry

/-- Of some listed ids those that are registered, with their formulas. -/
def listed (r : Registry) (ids : List Text) : List (Text × Formula) :=
  ids.filterMap (fun id => (r.get? id).map (fun f => (id, f)))

/-- An entry is listed exactly if its id is, and the formula is registered under it. -/
theorem mem_listed_iff {r : Registry} {ids : List Text} {id : Text} {f : Formula} :
    (id, f) ∈ r.listed ids ↔ id ∈ ids ∧ r.get? id = some f := by
  rw [listed, List.mem_filterMap]
  constructor
  · rintro ⟨other, hmem, hother⟩
    obtain ⟨g, hg, heq⟩ := Option.map_eq_some_iff.mp hother
    cases heq
    exact ⟨hmem, hg⟩
  · rintro ⟨hmem, hf⟩
    exact ⟨id, hmem, by rw [hf]; rfl⟩

/-- An exported document holds the texts of the listed formulas. -/
theorem select_eq_map (r : Registry) (ids : List Text) :
    r.select ids = (r.listed ids).map (fun entry => ⟨entry.1, entry.2.source⟩) := by
  rw [select, listed, List.map_filterMap]
  congr 1
  funext id
  rw [expressionOf?, Option.map_map, Option.map_map]
  rfl

/-- Every listing of a registered id counts. -/
theorem length_listed (r : Registry) (ids : List Text) :
    (r.listed ids).length = ids.countP r.contains := by
  rw [listed, List.length_filterMap_eq_countP]
  congr 1
  funext id
  rw [Option.isSome_map]
  rfl

/-- The ids that are registered stay in the order of the list. -/
theorem map_fst_listed (r : Registry) (ids : List Text) :
    (r.listed ids).map (·.1) = ids.filter r.contains := by
  induction ids with
  | nil => rfl
  | cons id ids ih =>
      have hcontains : r.contains id = (r.get? id).isSome := rfl
      rw [listed] at ih ⊢
      cases hid : r.get? id with
      | none =>
          rw [List.filterMap_cons_none (by rw [hid]; rfl), ih,
            List.filter_cons_of_neg (by simp [hcontains, hid])]
      | some f =>
          rw [List.filterMap_cons_some (by rw [hid]; rfl), List.map_cons, ih,
            List.filter_cons_of_pos (by simp [hcontains, hid])]

/-- All ids of a registry are registered. -/
theorem countP_ids (r : Registry) : r.ids.countP r.contains = r.count := by
  have hall : ∀ id ∈ r.ids, r.contains id = true :=
    fun id hid => OrderedMap.contains_iff_mem_keys.mpr hid
  rw [List.countP_eq_length.mpr hall, ids, OrderedMap.keys, List.length_map]
  rfl

/-- Among some ids none is registered that is blank or has a blank expression. -/
def Solid (r : Registry) (ids : List Text) : Prop :=
  ∀ id ∈ ids, ∀ f, r.get? id = some f → id.isBlank = false ∧ f.source.isBlank = false

/-- A document of listed formulas is accepted exactly if none of them is blank. -/
theorem issues_document_eq_nil_iff {r : Registry} {ids : Option (List Text)} :
    (r.document ids).issues = [] ↔ r.Solid (ids.getD r.ids) := by
  rw [Document.issues_eq_nil_iff, document, select_eq_map, List.forall_mem_map]
  constructor
  · intro h id hid f hf
    exact h (id, f) (mem_listed_iff.mpr ⟨hid, hf⟩)
  · rintro h ⟨id, f⟩ hmem
    obtain ⟨hid, hf⟩ := mem_listed_iff.mp hmem
    exact h id hid f hf

/-- Some formulas under their ids, with one provider in all random nodes. -/
def boundTo (provider : ProviderId) (entries : List (Text × Formula)) : List (Text × Formula) :=
  entries.map (fun entry => (entry.1, entry.2.rebind fun _ => provider))

theorem map_fst_boundTo (provider : ProviderId) (entries : List (Text × Formula)) :
    (boundTo provider entries).map (·.1) = entries.map (·.1) := by
  rw [boundTo, List.map_map]
  rfl

/-- A registry holds the formulas that another one has under some ids and no others, in the order in
which the ids are first listed, with its own provider in their random nodes. They are the very same
formulas if the providers are the same. -/
structure Copies (loaded r : Registry) (ids : List Text) : Prop where
  order : loaded.ids = (ids.filter r.contains).eraseDups
  formulas : ∀ id, loaded.get? id
    = if id ∈ ids then (r.get? id).map (Formula.rebind fun _ => loaded.provider) else none
  same : loaded.provider = r.provider → ∀ id ∈ ids, loaded.get? id = r.get? id

/-- The formula under an id is not changed by putting the provider of the registry into it. -/
theorem Sound.map_rebind {r : Registry} (h : r.Sound) (id : Text) :
    (r.get? id).map (Formula.rebind fun _ => r.provider) = r.get? id := by
  cases hid : r.get? id with
  | none => rfl
  | some f => exact congrArg some (Formula.rebind_of_parse (h.parsed id f hid))

/-- Under each listed id stands its formula, bound to the provider of the registry. -/
theorem get?_insertAll_listed (r : Registry) (provider : ProviderId) (ids : List Text) (id : Text) :
    (OrderedMap.empty.insertAll (boundTo provider (r.listed ids))).get? id
      = if id ∈ ids then (r.get? id).map (Formula.rebind fun _ => provider) else none := by
  have hagree : ∀ entry ∈ boundTo provider (r.listed ids),
      (r.get? entry.1).map (Formula.rebind fun _ => provider) = some entry.2 := by
    intro entry hmem
    obtain ⟨⟨id', f⟩, hlisted, rfl⟩ := List.mem_map.mp hmem
    exact congrArg (Option.map _) (mem_listed_iff.mp hlisted).2
  rw [OrderedMap.get?_insertAll_of_agree _
    (fun id => (r.get? id).map (Formula.rebind fun _ => provider)) hagree, map_fst_boundTo,
    map_fst_listed]
  by_cases hid : id ∈ ids
  · rw [if_pos hid]
    by_cases hknown : r.contains id = true
    · rw [if_pos (List.mem_filter.mpr ⟨hid, hknown⟩)]
    · rw [if_neg (fun h => hknown (List.mem_filter.mp h).2)]
      have hnone : r.get? id = none := Option.not_isSome_iff_eq_none.mp hknown
      rw [hnone]
      rfl
  · rw [if_neg hid, if_neg (fun h => hid (List.mem_filter.mp h).1)]
    rfl

/-- Writing the listed formulas to an empty registry copies them. -/
theorem Sound.copies_insertAll {r : Registry} (h : r.Sound) (provider : ProviderId)
    (ids : List Text) :
    Copies ⟨provider, OrderedMap.empty.insertAll (boundTo provider (r.listed ids))⟩ r ids where
  order := by
    show (OrderedMap.empty.insertAll (boundTo provider (r.listed ids))).keys = _
    rw [OrderedMap.keys_insertAll, map_fst_boundTo, map_fst_listed]
    have hall : ∀ key ∈ ids.filter r.contains,
        (!(OrderedMap.empty : OrderedMap Formula).keys.contains key) = true := fun _ _ => rfl
    rw [List.filter_eq_self.mpr hall]
    rfl
  formulas := get?_insertAll_listed r provider ids
  same := by
    rintro rfl id hid
    show (OrderedMap.empty.insertAll (boundTo r.provider (r.listed ids))).get? id = _
    rw [get?_insertAll_listed, if_pos hid, h.map_rebind]

end Registry

namespace Host

open Formulary.Action

variable {σ : Type}

/-! ## Importing a document -/

/-- Definitions whose texts are formulas are all registered, without a word. -/
theorem registerMany_of_parse {entries : List (Text × Formula)}
    (host : Host σ)
    (h : ∀ entry ∈ entries, Formula.parse host.registry.provider entry.2.source = .ok entry.2) :
    registerMany (entries.map (fun entry => ⟨entry.1, entry.2.source⟩)) host
      = ⟨entries.length,
        { host with
          registry := { host.registry with
            formulas := host.registry.formulas.insertAll entries } },
        [], []⟩ := by
  induction entries generalizing host with
  | nil => rfl
  | cons entry rest ih =>
      obtain ⟨hentry, hrest⟩ := List.forall_mem_cons.mp h
      rw [List.map_cons, registerMany, bind_of_quiet (register_of_parse hentry entry.1),
        bind_of_quiet (ih { host with registry := host.registry.insert entry.1 entry.2 } hrest)]
      rfl

/-- A document of the listed formulas registers them all. -/
theorem loadText_document {r : Registry} (hsound : r.Sound) (ids : Option (List Text))
    (hsolid : r.Solid (ids.getD r.ids)) (target : Host σ) :
    loadText (r.document ids).text target
      = ⟨(ids.getD r.ids).countP r.contains,
        { target with
          registry := { target.registry with
            formulas := target.registry.formulas.insertAll
              (Registry.boundTo target.registry.provider (r.listed (ids.getD r.ids))) } },
        [], []⟩ := by
  -- a registered formula is what its own text is read as, up to the provider
  have hparsed : ∀ entry ∈ Registry.boundTo target.registry.provider (r.listed (ids.getD r.ids)),
      Formula.parse target.registry.provider entry.2.source = .ok entry.2 := by
    intro entry hmem
    obtain ⟨⟨id, f⟩, hlisted, rfl⟩ := List.mem_map.mp hmem
    exact Formula.parse_rebind (f := fun _ => target.registry.provider)
      (hsound.parsed id f (Registry.mem_listed_iff.mp hlisted).2)
  have hselect : r.select (ids.getD r.ids)
      = (Registry.boundTo target.registry.provider (r.listed (ids.getD r.ids))).map
        (fun entry => ⟨entry.1, entry.2.source⟩) := by
    rw [Registry.select_eq_map, Registry.boundTo, List.map_map]
    rfl
  rw [loadText, Document.parse_text, if_pos (Registry.issues_document_eq_nil_iff.mpr hsolid)]
  dsimp only
  rw [Registry.document, hselect, registerMany_of_parse target hparsed, Registry.boundTo,
    List.length_map, Registry.length_listed]

/-- A document with blank fields is refused as a whole. -/
theorem loadText_of_issues {d : Document} (h : d.issues ≠ []) (target : Host σ) :
    loadText d.text target
      = ⟨0, target, (Component.library.logger target.logger).write .error
        (Text.concat ["Failed to load formulas from JSON: ", Issue.report d.issues]), []⟩ := by
  rw [loadText, Document.parse_text, if_neg h]
  exact congrArg (Outcome.mk _ _ · _) (List.append_nil _)

/-- Packed bytes that hold a document are as good as its text, whatever packed them. -/
theorem loadCompressed_of_unpack {packed : List UInt8} {d : Document}
    (h : Container.unpack packed = .ok d.text.toUtf8) :
    loadCompressed (σ := σ) packed = loadText d.text := by
  rw [loadCompressed, unpackText_of_unpack d.wellFormed_text h, d.withoutMark_text]

/-! ## Round trips -/

/-- An operation imports into one host what another one has under some ids, or all: it counts every
listing of a registered id, leaves copies of these formulas that are bound to the provider of the
host, and says and changes nothing else. -/
def Imports (load : Action σ Nat) (source target : Host σ) (ids : Option (List Text)) : Prop :=
  ∃ loaded : Registry, loaded.Copies source.registry (ids.getD source.registry.ids)
    ∧ loaded.provider = target.registry.provider
    ∧ load target = ⟨(ids.getD source.registry.ids).countP source.registry.contains,
      { target with registry := loaded }, [], []⟩

variable [RandomProvider σ]

/-- Whatever was done to a host, what it exports is imported as it was, if no id and no expression is
blank. It makes no difference whether the text is packed, and by which program. -/
theorem after_imports (provider : ProviderId) (providers : ProviderId → σ) (logger : Option Logger)
    (pooling : Bool) (history : List Command) (ids : Option (List Text)) {source target : Host σ}
    (hsource : source = after provider providers logger pooling history)
    (hempty : target.registry.formulas = .empty)
    (hsolid : source.registry.Solid (ids.getD source.registry.ids)) :
    Imports (loadText (exportText ids source).value) source target ids
      ∧ Imports (loadCompressed (exportCompressed ids source).value) source target ids
      ∧ ∀ packed, Container.unpack packed = .ok (exportText ids source).value.toUtf8 →
        Imports (loadCompressed packed) source target ids := by
  have hsound : source.registry.Sound := by
    rw [hsource]
    exact after_sound provider providers logger pooling history
  have himport : Imports (loadText (exportText ids source).value) source target ids := by
    have hload := loadText_document hsound ids hsolid target
    rw [hempty] at hload
    exact ⟨_, hsound.copies_insertAll target.registry.provider _, rfl, hload⟩
  have hunpack : ∀ packed, Container.unpack packed = .ok (exportText ids source).value.toUtf8 →
      Imports (loadCompressed packed) source target ids := by
    intro packed hpacked
    rw [loadCompressed_of_unpack hpacked]
    exact himport
  exact ⟨himport, hunpack _ (Container.unpack_pack _), hunpack⟩

/-- Units that are written as escapes, a surrogate that stands alone and one id listed twice; an id
that is not registered may be blank. -/
theorem after_imports_escapes :
    ∃ (odd plain : Text) (source : Host FixedFraction),
      odd = [0x22, 0x5C, 0x0A, 0x01, 0xD800, 0xD83D, 0xDE00]
      ∧ plain = Text.ofString "plain"
      ∧ source = after ⟨0⟩ (fun _ => FixedFraction.half) none true
        [.register plain (Text.ofString "x\n\t+ 1"), .register odd (Text.ofString "2 * x")]
      ∧ Imports (loadCompressed (exportCompressed (some [odd, [], plain, odd]) source).value) source
        (Host.new ⟨0⟩ (fun _ => FixedFraction.half) none true) (some [odd, [], plain, odd])
      ∧ [odd, [], plain, odd].countP source.registry.contains = 3
      ∧ ([odd, [], plain, odd].filter source.registry.contains).eraseDups = [odd, plain] := by
  obtain ⟨f, hf⟩ : ∃ f, Formula.parse ⟨0⟩ (Text.ofString "x\n\t+ 1") = .ok f := ⟨_, rfl⟩
  obtain ⟨g, hg⟩ : ∃ g, Formula.parse ⟨0⟩ (Text.ofString "2 * x") = .ok g := ⟨_, rfl⟩
  have hregistry : (after ⟨0⟩ (fun _ => FixedFraction.half) none true
      [.register (Text.ofString "plain") (Text.ofString "x\n\t+ 1"),
        .register [0x22, 0x5C, 0x0A, 0x01, 0xD800, 0xD83D, 0xDE00] (Text.ofString "2 * x")]).registry
      = ⟨⟨0⟩, ⟨[(Text.ofString "plain", f),
        ([0x22, 0x5C, 0x0A, 0x01, 0xD800, 0xD83D, 0xDE00], g)]⟩⟩ := by
    rw [after, performAll_host_cons, performAll_host_cons, perform_register_of_parse hf,
      perform_register_of_parse hg] <;> rfl
  refine ⟨_, _, _, rfl, rfl, rfl, (after_imports _ _ _ _ _ _ rfl rfl ?_).2.1, ?_, ?_⟩
  · rw [hregistry]
    intro id _ f' hf'
    have hentry := OrderedMap.mem_of_get? hf'
    simp only [List.mem_cons, Prod.mk.injEq, List.not_mem_nil, or_false] at hentry
    rcases hentry with ⟨rfl, rfl⟩ | ⟨rfl, rfl⟩
    · rw [Formula.source_of_parse hf]
      decide
    · rw [Formula.source_of_parse hg]
      decide
  · rw [hregistry]
    rfl
  · rw [hregistry]
    rfl

/-! ## Whole registries -/

/-- Of all formulas of a host, exported as text: the document is accepted and every formula is counted
exactly if no id and no expression is blank, and then nothing is logged; otherwise it is refused as a
whole, in one line about the blank fields. -/
structure Importable (source target : Host σ) : Prop where
  accepted_iff : Document.parse (exportText none source).value = .ok (source.registry.document none)
    ↔ source.registry.Solid source.registry.ids
  counted_iff : (loadText (exportText none source).value target).value = source.registry.count
    ↔ source.registry.Solid source.registry.ids
  accepted : source.registry.Solid source.registry.ids →
    (loadText (exportText none source).value target).log = []
  refused : ¬ source.registry.Solid source.registry.ids →
    Document.parse (exportText none source).value
        = .error (.notDocument (source.registry.document none).issues)
      ∧ loadText (exportText none source).value target
        = ⟨0, target, (Component.library.logger target.logger).write .error
          (Text.concat ["Failed to load formulas from JSON: ",
            Issue.report (source.registry.document none).issues]), []⟩

omit [RandomProvider σ] in
/-- Without blanks the document is accepted and every formula is counted. -/
theorem importable_of_solid {source : Host σ} (hsound : source.registry.Sound)
    (hsolid : source.registry.Solid source.registry.ids) (target : Host σ) :
    Importable source target := by
  have hparse : Document.parse (exportText none source).value = .ok (source.registry.document none) :=
    (Document.parse_text _).trans (if_pos (Registry.issues_document_eq_nil_iff.mpr hsolid))
  have hload := loadText_document hsound none hsolid target
  refine ⟨iff_of_true hparse hsolid, iff_of_true ?_ hsolid, fun _ => ?_, fun h => absurd hsolid h⟩
  · exact (congrArg Outcome.value hload).trans source.registry.countP_ids
  · exact congrArg Outcome.log hload

omit [RandomProvider σ] in
/-- With a blank the document is refused, and nothing is counted. -/
theorem importable_of_not_solid {source : Host σ}
    (hblank : ¬ source.registry.Solid source.registry.ids) (target : Host σ) :
    Importable source target := by
  have hissues : (source.registry.document none).issues ≠ [] :=
    fun h => hblank (Registry.issues_document_eq_nil_iff.mp h)
  have hparse : Document.parse (exportText none source).value
      = .error (.notDocument (source.registry.document none).issues) :=
    (Document.parse_text _).trans (if_neg hissues)
  have hload := loadText_of_issues hissues target
  refine ⟨iff_of_false ?_ hblank, iff_of_false ?_ hblank, fun h => absurd h hblank,
    fun _ => ⟨hparse, hload⟩⟩
  · intro h
    rw [hparse] at h
    cases h
  · -- none was counted, although there is one that is blank
    intro h
    have hcount : 0 = source.registry.count := (congrArg Outcome.value hload).symm.trans h
    have hids : source.registry.ids = [] := by
      rw [← List.length_eq_zero_iff, Registry.ids, OrderedMap.keys, List.length_map]
      exact hcount.symm
    exact hblank (fun id hid => absurd (hids ▸ hid) List.not_mem_nil)

/-- Whatever was done to a host, blank ids and blank expressions are all that can keep its formulas
from being imported again. -/
theorem after_importable (provider : ProviderId) (providers : ProviderId → σ)
    (logger : Option Logger) (pooling : Bool) (history : List Command) (target : Host σ) :
    Importable (after provider providers logger pooling history) target := by
  by_cases hsolid : (after provider providers logger pooling history).registry.Solid
      (after provider providers logger pooling history).registry.ids
  · exact importable_of_solid (after_sound provider providers logger pooling history) hsolid target
  · exact importable_of_not_solid hsolid target

/-- The empty text is a formula and is registered, but the document of it is refused. -/
theorem exportText_blank_expression :
    ∃ source : Host FixedFraction,
      source = after ⟨0⟩ (fun _ => FixedFraction.half) none true [.register (Text.ofString "zero") []]
      ∧ source.registry.count = 1
      ∧ Document.parse (exportText none source).value
        = .error (.notDocument [⟨[.member (Text.ofString "formulas"), .item 0,
          .member (Text.ofString "expression")], .blank (Text.ofString "expression")⟩])
      ∧ (loadText (exportText none source).value
        (Host.new ⟨0⟩ (fun _ => FixedFraction.half) none true)).value = 0 := by
  have hzero : Formula.parse ⟨0⟩ [] = .ok ⟨[], .constant 0, []⟩ := rfl
  have hregistry : (after ⟨0⟩ (fun _ => FixedFraction.half) none true
      [.register (Text.ofString "zero") []]).registry
      = ⟨⟨0⟩, ⟨[(Text.ofString "zero", ⟨[], .constant 0, []⟩)]⟩⟩ := by
    rw [after, performAll_host_cons, perform_register_of_parse hzero] <;> rfl
  have hissues : ((after ⟨0⟩ (fun _ => FixedFraction.half) none true
      [.register (Text.ofString "zero") []]).registry.document none).issues
      = [⟨[.member (Text.ofString "formulas"), .item 0, .member (Text.ofString "expression")],
        .blank (Text.ofString "expression")⟩] := by
    rw [hregistry]
    rfl
  have hne : ((after ⟨0⟩ (fun _ => FixedFraction.half) none true
      [.register (Text.ofString "zero") []]).registry.document none).issues ≠ [] := by
    rw [hissues]
    exact List.cons_ne_nil _ _
  refine ⟨_, rfl, ?_, ?_, ?_⟩
  · rw [hregistry]
    rfl
  · rw [← hissues]
    exact (Document.parse_text _).trans (if_neg hne)
  · exact congrArg Outcome.value (loadText_of_issues hne _)

end Host

end Formulary
