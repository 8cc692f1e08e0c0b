import Formulary.Proofs.Library.Schema
import Mathlib.Data.List.Lex

/-!
# What is wrong with a value

What is required of a document is a shape: an object with a list of objects with two texts. A value
violates it at some places, and the parts of a value are looked at only where the value itself has the
right type. The check finds every violation, each of them once, in the order of the document.

- `Json.at?` is the part of a value at a place.
- `Schema.Shape.Violated` says where a value violates a shape, and why.
- `Schema.Finds` says that issues are the violations of a shape. `Schema.finds_object` and
  `Schema.finds_list` put them together from those of the parts.
- `Schema.judge_reports` is the statement about the check of a document.
-/

namespace Formulary

/-! ## Places -/

namespace Json

/-- The part of a value that a step leads to. -/
def step? : Json → PathStep → Option Json
  | value, .member name => value.field? name
  | .array items, .item (.ofNat index) => items[index]?
  | _, .item _ => none

/-- The part of a value at a place. -/
def at? : Json → List PathStep → Option Json
  | value, [] => some value
  | value, step :: path => (value.step? step).bind fun part => part.at? path

end Json

/-- The part at a place is as a cause says: it is not there, it has another type, or it is a text of
blanks only. -/
def IssueCause.Describes : IssueCause → Option Json → Prop
  | .missing, part => part = none
  | .wrongType expected received, part =>
    ∃ value, part = some value ∧ value.type = received ∧ received ≠ expected
  | .blank _, part => ∃ text, part = some (.string text) ∧ text.isBlank = true

/-- Two steps into one value in the order of a document: items by their number, and the id before the
expression. -/
inductive PathStep.Before : PathStep → PathStep → Prop where
  | item {i j : Int} (less : i < j) : Before (.item i) (.item j)
  | fields : Before (.member Schema.idField) (.member Schema.expressionField)

/-- An issue comes before another: at the first step where their places differ, it does. -/
def Issue.Precedes (a b : Issue) : Prop := List.Lex PathStep.Before a.path b.path

namespace Schema

/-! ## Shapes -/

/-- What is required of a value. -/
inductive Shape where
  /-- A text that is not blank. -/
  | text (field : Text)
  /-- A list of values of one shape. -/
  | list (item : Shape)
  /-- An object whose members have some shapes. -/
  | object (fields : List (Text × Shape))

namespace Shape

/-- The type of the values of a shape. -/
def type : Shape → JsonType
  | .text _ => .string
  | .list _ => .array
  | .object _ => .object

/-- The shape of a definition. -/
def definition : Shape :=
  .object [(idField, .text idField), (expressionField, .text expressionField)]

/-- The shape of a document. -/
def document : Shape := .object [(formulasField, .list .definition)]

/-- A value violates a shape at a place. What is not there, or has another type, is a violation in
itself, and has no parts to look at. -/
inductive Violated : Shape → Option Json → List PathStep → IssueCause → Prop where
  | missing {shape : Shape} : Violated shape none [] .missing
  | wrongType {shape : Shape} {value : Json} (differ : value.type ≠ shape.type) :
      Violated shape (some value) [] (.wrongType shape.type value.type)
  | blank {field text : Text} (blank : text.isBlank = true) :
      Violated (.text field) (some (.string text)) [] (.blank field)
  | item {shape : Shape} {items : List Json} {index : Nat} {value : Json} {path : List PathStep}
      {cause : IssueCause} (at_index : items[index]? = some value)
      (violated : Violated shape (some value) path cause) :
      Violated (.list shape) (some (.array items)) (.item index :: path) cause
  | member {fields : List (Text × Shape)} {name : Text} {shape : Shape}
      {members : List (Text × Json)} {path : List PathStep} {cause : IssueCause}
      (asked : (name, shape) ∈ fields)
      (violated : Violated shape (Json.lastMember? members name) path cause) :
      Violated (.object fields) (some (.object members)) (.member name :: path) cause

variable {shape : Shape} {value : Option Json} {path : List PathStep} {cause : IssueCause}

/-- All parts on the way to the place of a violation exist. -/
theorem Violated.reached (h : shape.Violated value path cause) {front : List PathStep}
    (hfront : front <+: path) (hne : front ≠ path) :
    ∃ part, (value.bind fun root => root.at? front) = some part := by
  induction h generalizing front with
  | missing | wrongType | blank => exact absurd (List.prefix_nil.mp hfront) hne
  | @item _ items index part path _ at_index _ ih =>
      cases front with
      | nil => exact ⟨_, rfl⟩
      | cons step front =>
          obtain ⟨rfl, hrest⟩ := List.cons_prefix_cons.mp hfront
          show ∃ part, (items[index]?.bind fun item => item.at? front) = some part
          rw [at_index]
          exact ih hrest fun heq => hne (by rw [heq])
  | @member _ name _ members path _ _ _ ih =>
      cases front with
      | nil => exact ⟨_, rfl⟩
      | cons step front =>
          obtain ⟨rfl, hrest⟩ := List.cons_prefix_cons.mp hfront
          exact ih hrest fun heq => hne (by rw [heq])

/-- What is at the place of a violation is as its cause says. -/
theorem Violated.describes (h : shape.Violated value path cause) :
    cause.Describes (value.bind fun root => root.at? path) := by
  induction h with
  | missing => exact rfl
  | wrongType differ => exact ⟨_, rfl, rfl, differ⟩
  | blank blank => exact ⟨_, rfl, blank⟩
  | @item _ items index _ path cause at_index _ ih =>
      show cause.Describes (items[index]?.bind fun item => item.at? path)
      rw [at_index]
      exact ih
  | member _ _ ih => exact ih

end Shape

/-! ## Issues of a check -/

/-- The issues that a check found. -/
def issuesOf {α : Type} : Except (List Issue) α → List Issue
  | .ok _ => []
  | .error issues => issues

/-- Issues are the violations of a shape by what stands at a place, in the order of a document. -/
structure Finds (shape : Shape) (value : Option Json) (path : List PathStep)
    (issues : List Issue) : Prop where
  exact : ∀ issue, issue ∈ issues
    ↔ ∃ rest, issue.path = path ++ rest ∧ shape.Violated value rest issue.cause
  ordered : issues.Pairwise Issue.Precedes

variable {path : List PathStep}

/-- A check that finds nothing is right where nothing is violated. -/
theorem finds_nil {shape : Shape} {value : Option Json}
    (hnone : ∀ rest cause, ¬ shape.Violated value rest cause) (path : List PathStep) :
    Finds shape value path [] := by
  refine ⟨fun issue => ⟨(nomatch ·), ?_⟩, List.Pairwise.nil⟩
  rintro ⟨rest, -, hviolated⟩
  exact absurd hviolated (hnone rest issue.cause)

/-- A violation by the value itself that is the only one. -/
theorem finds_single {shape : Shape} {value : Option Json} {cause : IssueCause}
    (hviolated : shape.Violated value [] cause)
    (honly : ∀ rest cause', shape.Violated value rest cause' → rest = [] ∧ cause' = cause)
    (path : List PathStep) : Finds shape value path [⟨path, cause⟩] := by
  refine ⟨fun issue => ?_, List.pairwise_singleton _ _⟩
  rw [List.mem_singleton]
  constructor
  · rintro rfl
    exact ⟨[], (List.append_nil _).symm, hviolated⟩
  · obtain ⟨place, cause'⟩ := issue
    rintro ⟨rest, rfl, hother⟩
    obtain ⟨rfl, rfl⟩ := honly rest cause' hother
    rw [List.append_nil]

/-- Nothing but its absence is wrong with what is not there. -/
theorem finds_missing (shape : Shape) (path : List PathStep) :
    Finds shape none path [⟨path, .missing⟩] := by
  refine finds_single .missing (fun rest cause hother => ?_) path
  cases hother
  exact ⟨rfl, rfl⟩

/-- Nothing but its type is wrong with what has another type. -/
theorem finds_wrongType {shape : Shape} {value : Json} (h : value.type ≠ shape.type)
    (path : List PathStep) :
    Finds shape (some value) path [⟨path, .wrongType shape.type value.type⟩] := by
  refine finds_single (.wrongType h) (fun rest cause hother => ?_) path
  cases hother with
  | wrongType => exact ⟨rfl, rfl⟩
  | blank | item | member => exact absurd rfl h

/-- The check of a text field finds that it is missing, no text, or blank. -/
theorem finds_text (field : Text) (path : List PathStep) (value : Option Json) :
    Finds (.text field) value path (issueOf (text field path value)) := by
  cases value with
  | none => exact finds_missing _ path
  | some value =>
      cases value with
      | string text =>
          rw [Schema.text]
          by_cases hblank : text.isBlank = true
          · rw [if_pos hblank]
            refine finds_single (.blank hblank) (fun rest cause hother => ?_) path
            cases hother with
            | wrongType differ => exact absurd rfl differ
            | blank => exact ⟨rfl, rfl⟩
          · rw [if_neg hblank]
            refine finds_nil (fun rest cause hother => ?_) path
            cases hother with
            | wrongType differ => exact absurd rfl differ
            | blank hother => exact hblank hother
      | _ => exact finds_wrongType (by rintro ⟨⟩) path

/-! ## Issues of the parts -/

/-- Steps that differ decide the order, whatever comes behind them. -/
theorem precedes_of_before {path rest rest' : List PathStep} {step step' : PathStep} {a b : Issue}
    (h : step.Before step') (ha : a.path = path ++ step :: rest)
    (hb : b.path = path ++ step' :: rest') : a.Precedes b := by
  rw [Issue.Precedes, ha, hb]
  exact List.Lex.append_left _ (.rel h) path

section Parts

variable {κ : Type} {parts : List κ} {step : κ → PathStep} {shape : κ → Shape}
  {value : κ → Option Json} {found : κ → List Issue}
  (hfound : ∀ part ∈ parts, Finds (shape part) (value part) (path ++ [step part]) (found part))

include hfound

/-- The issues of several parts are the violations by one of them. -/
theorem mem_parts {issue : Issue} :
    issue ∈ parts.flatMap found ↔ ∃ part ∈ parts, ∃ rest,
      issue.path = path ++ step part :: rest
        ∧ (shape part).Violated (value part) rest issue.cause := by
  rw [List.mem_flatMap]
  refine exists_congr fun part => and_congr_right fun hpart => ?_
  rw [(hfound part hpart).exact]
  refine exists_congr fun rest => ?_
  rw [List.append_assoc, List.singleton_append]

/-- If the parts are in order, so are their issues. -/
theorem ordered_parts (hsteps : parts.Pairwise fun a b => (step a).Before (step b)) :
    (parts.flatMap found).Pairwise Issue.Precedes := by
  rw [List.pairwise_flatMap]
  refine ⟨fun part hpart => (hfound part hpart).ordered, hsteps.imp_of_mem ?_⟩
  intro part part' hpart hpart' hbefore a ha b hb
  obtain ⟨rest, hrest, -⟩ := ((hfound part hpart).exact a).mp ha
  obtain ⟨rest', hrest', -⟩ := ((hfound part' hpart').exact b).mp hb
  rw [List.append_assoc, List.singleton_append] at hrest hrest'
  exact precedes_of_before hbefore hrest hrest'

end Parts

/-- The issues of an object are those of its fields, in the order of the fields. -/
theorem finds_object {fields : List (Text × Shape)} {members : List (Text × Json)}
    {found : Text × Shape → List Issue}
    (hfound : ∀ field ∈ fields, Finds field.2 (Json.lastMember? members field.1)
      (path ++ [.member field.1]) (found field))
    (hsteps : fields.Pairwise fun a b => (PathStep.member a.1).Before (.member b.1)) :
    Finds (.object fields) (some (.object members)) path (fields.flatMap found) := by
  refine ⟨fun issue => ?_, ordered_parts hfound hsteps⟩
  rw [mem_parts hfound]
  constructor
  · rintro ⟨⟨name, shape⟩, hfield, rest, hrest, hviolated⟩
    exact ⟨_, hrest, .member hfield hviolated⟩
  · obtain ⟨place, cause⟩ := issue
    rintro ⟨rest, hrest, hviolated⟩
    cases hviolated with
    | wrongType differ => exact absurd rfl differ
    | member hfield hviolated => exact ⟨_, hfield, _, hrest, hviolated⟩

/-- The issues of a list are those of its items, in their order. -/
theorem finds_list {shape : Shape} {items : List Json} {found : Json × Nat → List Issue}
    (hfound : ∀ entry ∈ items.zipIdx, Finds shape (some entry.1) (path ++ [.item entry.2])
      (found entry)) :
    Finds (.list shape) (some (.array items)) path (items.zipIdx.flatMap found) := by
  have hsteps : items.zipIdx.Pairwise fun a b => (PathStep.item a.2).Before (.item b.2) := by
    have hnumbers := List.pairwise_lt_range' (s := 0) (n := items.length)
    rw [← List.zipIdx_map_snd 0 items, List.pairwise_map] at hnumbers
    exact hnumbers.imp fun hlt => .item (Int.ofNat_lt.mpr hlt)
  refine ⟨fun issue => ?_, ordered_parts hfound hsteps⟩
  rw [mem_parts hfound]
  constructor
  · rintro ⟨⟨value, index⟩, hentry, rest, hrest, hviolated⟩
    exact ⟨_, hrest, .item (List.mem_zipIdx_iff_getElem?.mp hentry) hviolated⟩
  · obtain ⟨place, cause⟩ := issue
    rintro ⟨rest, hrest, hviolated⟩
    cases hviolated with
    | wrongType differ => exact absurd rfl differ
    | item at_index hviolated =>
        exact ⟨(_, _), List.mem_zipIdx_iff_getElem?.mpr at_index, _, hrest, hviolated⟩

/-! ## Issues of a document -/

/-- The check of a definition finds what its two fields violate. -/
theorem finds_definition (path : List PathStep) (value : Option Json) :
    Finds .definition value path (issuesOf (definition path value)) := by
  match value with
  | none => exact finds_missing _ path
  | some (.object members) =>
      have hissues : issuesOf (definition path (some (.object members)))
          = [(idField, Shape.text idField), (expressionField, .text expressionField)].flatMap
            fun field => issueOf (text field.1 (path ++ [.member field.1])
              (Json.lastMember? members field.1)) := by
        rw [definition, List.flatMap_cons, List.flatMap_singleton]
        cases text idField (path ++ [.member idField]) (Json.lastMember? members idField) <;>
          cases text expressionField (path ++ [.member expressionField])
            (Json.lastMember? members expressionField) <;> rfl
      rw [hissues]
      refine finds_object ?_ (List.pairwise_pair.mpr .fields)
      refine List.forall_mem_cons.mpr ⟨finds_text _ _ _, ?_⟩
      exact List.forall_mem_singleton.mpr (finds_text _ _ _)
  | some .null | some (.bool _) | some (.number _) | some (.string _) | some (.array _) =>
      exact finds_wrongType (by rintro ⟨⟩) path

/-- The definitions are checked one by one, each under its index. -/
theorem issuesOf_definitions (path : List PathStep) (index : Nat) (items : List Json) :
    issuesOf (definitions path index items) = (items.zipIdx index).flatMap
      fun entry => issuesOf (definition (path ++ [.item entry.2]) (some entry.1)) := by
  induction items generalizing index with
  | nil => rfl
  | cons item rest ih =>
      rw [List.zipIdx_cons, List.flatMap_cons, ← ih, definitions]
      cases definition (path ++ [.item index]) (some item) <;>
        cases definitions path (index + 1) rest <;> simp [issuesOf]

/-- The check of the formulas finds that they are no list, or what the definitions violate. -/
theorem finds_formulas (path : List PathStep) (value : Option Json) :
    Finds (.list .definition) value path (issuesOf (formulas path value)) := by
  match value with
  | none => exact finds_missing _ path
  | some (.array items) =>
      rw [formulas, issuesOf_definitions]
      exact finds_list fun entry _ => finds_definition _ _
  | some .null | some (.bool _) | some (.number _) | some (.string _) | some (.object _) =>
      exact finds_wrongType (by rintro ⟨⟩) path

/-- The check of a document finds all that is violated, and at the right places. -/
theorem finds_document (value : Option Json) :
    Finds .document value [] (issuesOf (document value)) := by
  match value with
  | none => exact finds_missing _ _
  | some (.object members) =>
      have hissues : issuesOf (document (some (.object members)))
          = [(formulasField, Shape.list .definition)].flatMap fun field =>
            issuesOf (formulas [.member field.1] (Json.lastMember? members field.1)) := by
        rw [document, List.flatMap_singleton]
        cases formulas [.member formulasField] (Json.lastMember? members formulasField) <;> rfl
      rw [hissues]
      refine finds_object ?_ (List.pairwise_singleton _ _)
      exact List.forall_mem_singleton.mpr (finds_formulas _ _)
  | some .null | some (.bool _) | some (.number _) | some (.string _) | some (.array _) =>
      exact finds_wrongType (by rintro ⟨⟩) _

/-- No place has two issues. -/
theorem precedes_ne {a b : Issue} (h : a.Precedes b) : a.path ≠ b.path := by
  have hirrefl : ∀ step : PathStep, ¬ step.Before step := by
    intro step hstep
    cases hstep with
    | item less => exact Int.lt_irrefl _ less
  intro heq
  rw [Issue.Precedes, heq] at h
  exact List.lex_irrefl hirrefl b.path h

/-! ## The check of a document -/

/-- Issues are a full report on a value that is no document. -/
structure Reports (value : Json) (issues : List Issue) : Prop where
  /-- Something is wrong. -/
  nonempty : issues ≠ []
  /-- There is an issue for each violation, and for nothing else. -/
  exact : ∀ issue, issue ∈ issues ↔ Shape.document.Violated (some value) issue.path issue.cause
  /-- No place has two issues. -/
  distinct : (issues.map Issue.path).Nodup
  /-- The issues come in the order of the document. -/
  ordered : issues.Pairwise Issue.Precedes
  /-- The path of an issue leads through parts of the value. -/
  reached : ∀ issue ∈ issues, ∀ front, front <+: issue.path → front ≠ issue.path →
    ∃ part, value.at? front = some part
  /-- The path leads to what is missing, to what has another type, or to a blank text. -/
  described : ∀ issue ∈ issues, issue.cause.Describes (value.at? issue.path)

theorem judge_eq_accepted_iff {value : Option Json} {d : Document} :
    judge value = .accepted d ↔ document value = .ok d := by
  rw [judge]
  cases document value with
  | ok found => simp
  | error issues => simp

theorem judge_eq_refused_iff {value : Option Json} {issues : List Issue} :
    judge value = .refused issues ↔ document value = .error issues := by
  rw [judge]
  cases document value with
  | ok found => simp
  | error found => simp

/-- The issues of a refused value are all its violations, in the order of their places. -/
theorem reports_of_document {value : Json} {issues : List Issue}
    (h : document (some value) = .error issues) : Reports value issues := by
  obtain ⟨hexact, hordered⟩ : Finds .document (some value) [] issues := by
    have hfinds := finds_document (some value)
    rwa [h] at hfinds
  have hviolated : ∀ issue, issue ∈ issues
      ↔ Shape.document.Violated (some value) issue.path issue.cause := by
    intro issue
    rw [hexact]
    constructor
    · rintro ⟨rest, hrest, hviolated⟩
      rwa [hrest]
    · intro hviolated
      exact ⟨_, rfl, hviolated⟩
  refine ⟨ne_nil_of_document h, hviolated, ?_, hordered, ?_, ?_⟩
  · exact List.pairwise_map.mpr (hordered.imp precedes_ne)
  · intro issue hissue front hfront hne
    exact ((hviolated issue).mp hissue).reached hfront hne
  · intro issue hissue
    exact ((hviolated issue).mp hissue).describes

end Schema

namespace Json

/-- The definitions of a document have no blank fields. -/
theorem IsDocument.solid {value : Json} {d : Document} (h : value.IsDocument d) :
    ∀ f ∈ d.formulas, f.Solid := by
  obtain ⟨items, -, hitems⟩ := h
  generalize d.formulas = definitions at hitems
  induction hitems with
  | nil =>
      intro f hf
      cases hf
  | cons hfirst _ ih => exact List.forall_mem_cons.mpr ⟨hfirst.solid, ih⟩

/-- A document without blank fields is what the value is that it is written as. -/
theorem isDocument_toJson {d : Document} (h : ∀ f ∈ d.formulas, f.Solid) :
    d.toJson.IsDocument d := by
  refine ⟨_, rfl, List.forall₂_map_left_iff.mpr (List.forall₂_same.mpr ?_)⟩
  intro f hf
  exact ⟨rfl, rfl, h f hf⟩

end Json

namespace Schema

/-- The check of a document accepts exactly the values that are documents, and what it gives then is
accepted again as it is. On every other value it reports what is wrong: each violation of the shape of
a document once, in the order of the document, at places that can be followed. The check that fails
itself does so exactly then, with the same issues. -/
theorem judge_reports (value : Json) :
    (∀ d, judge (some value) = .accepted d ↔ value.IsDocument d)
      ∧ (∀ d, judge (some value) = .accepted d → judge (some d.toJson) = .accepted d)
      ∧ (∀ issues, judge (some value) = .refused issues → Reports value issues)
      ∧ (∀ d, document (some value) = .ok d ↔ judge (some value) = .accepted d)
      ∧ ∀ issues, document (some value) = .error issues ↔ judge (some value) = .refused issues := by
  have haccepted : ∀ (value : Json) d, judge (some value) = .accepted d ↔ value.IsDocument d := by
    intro value d
    rw [judge_eq_accepted_iff, document_eq_ok_iff]
  refine ⟨haccepted value, ?_, ?_, fun d => judge_eq_accepted_iff.symm,
    fun issues => judge_eq_refused_iff.symm⟩
  · intro d hd
    exact (haccepted _ d).mpr (Json.isDocument_toJson ((haccepted value d).mp hd).solid)
  · intro issues hissues
    exact reports_of_document (judge_eq_refused_iff.mp hissues)

/-- A blank id, a number for an expression, an item that is no object, and one without members. -/
theorem judge_reports_mixed :
    ∃ value issues, judge (some value) = .refused issues ∧ Reports value issues ∧ issues =
      [⟨[.member formulasField, .item 0, .member idField], .blank idField⟩,
        ⟨[.member formulasField, .item 0, .member expressionField], .wrongType .string .number⟩,
        ⟨[.member formulasField, .item 2], .wrongType .object .null⟩,
        ⟨[.member formulasField, .item 3, .member idField], .missing⟩,
        ⟨[.member formulasField, .item 3, .member expressionField], .missing⟩] := by
  let value : Json := .object [(formulasField, .array
    [.object [(expressionField, .ofInt 42), (idField, .string (Text.ofString " "))],
      .object [(idField, .string (Text.ofString "a")), (expressionField, .string (Text.ofString "1"))],
      .null, .object []])]
  exact ⟨value, _, rfl, (judge_reports value).2.2.1 _ rfl, rfl⟩

end Schema

end Formulary
