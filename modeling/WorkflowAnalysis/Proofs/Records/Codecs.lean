import WorkflowAnalysis.Proofs.Json.RoundTrip
import WorkflowAnalysis.Registry

/-! Records and their documents. Decoding undoes encoding, for each kind of record by itself: what a
document leaves out is what the decoder fills in. So every text that is accepted has one canonical
form, the text of the record it stands for. -/
namespace WorkflowAnalysis

def Decoder.Inverts {α : Type} (decode : Decoder α) (document : α → Document) : Prop :=
  ∀ value, decode (document value).json = .ok value

namespace Decoder

theorem inverts_string : Inverts string .text := fun _ => rfl

theorem mapM_json {α : Type} {decode : Decoder α} {document : α → Document}
    (h : decode.Inverts document) (values : List α) :
    (values.map fun value => (document value).json).mapM decode = .ok values := by
  induction values with
  | nil => rfl
  | cons value values ih => simp [h value, ih, bind, Except.bind, pure, Except.pure]

theorem Inverts.list {α : Type} {decode : Decoder α} {document : α → Document}
    (h : decode.Inverts document) :
    (Decoder.list decode).Inverts fun values => .list (values.map document) := by
  intro values
  have hmap := mapM_json h values
  simp only [Document.json, Document.jsonItems_eq_map, List.map_map, Function.comp_def, Decoder.list,
    hmap]
  rfl

end Decoder

/-! ### Records -/

namespace RecordShape

variable {δ α β : Type} {shape : RecordShape δ α}

/-- Adding members one after the other turns one draft into another. -/
def Takes (shape : RecordShape δ α) (draft : δ) (members : List (String × Document)) (after : δ) :
    Prop :=
  members.foldlM (fun draft member => shape.addMember draft (some member.1, member.2.json)) draft =
    .ok after

theorem Takes.append {draft middle after : δ} {members others : List (String × Document)}
    (h : shape.Takes draft members middle) (h' : shape.Takes middle others after) :
    shape.Takes draft (members ++ others) after := by
  unfold Takes at *
  rw [List.foldlM_append, h]
  exact h'

theorem takes_slot {key : String} {get : δ → Option β} {set : δ → β → δ} {decode : Decoder β}
    {document : β → Document} {draft after : δ} (value : β) (hd : decode.Inverts document)
    (hf : shape.fields.find? (·.key == key) = some (.slot key get set decode))
    (hn : get draft = none) (ha : set draft value = after) :
    shape.Takes draft [(key, document value)] after := by
  subst ha
  simp only [Takes, List.foldlM_cons, List.foldlM_nil, addMember, hf, Field.slot, hn, hd value,
    Option.isSome_none, Bool.false_eq_true, if_false]
  rfl

/-- A member that is left out leaves the slot of its field free. -/
theorem takes_optionalText {key : String} {get : δ → Option (Option String)}
    {set : δ → Option String → δ} {draft after : δ} {value : Option String}
    (hf : shape.fields.find? (·.key == key) = some (.slot key get set optionalString))
    (hn : get draft = none) (ha : (value.elim draft fun value => set draft (some value)) = after) :
    shape.Takes draft (Document.optionalText key value) after := by
  subst ha
  cases value with
  | none => rfl
  | some value =>
    simp only [Takes, Document.optionalText, Option.toList_some, List.map_cons, List.map_nil,
      List.foldlM_cons, List.foldlM_nil, addMember, hf, Field.slot, hn, Option.isSome_none,
      Bool.false_eq_true, if_false]
    rfl

theorem decode_record {members : List (String × Document)} {draft : δ} {record : α}
    (h : shape.Takes shape.start members draft) (hr : shape.finish draft = some record) :
    shape.decode (Document.record members).json = .ok record := by
  unfold Takes at h
  rw [Document.json, Document.jsonMembers_eq_map, decode, List.foldlM_map, h]
  change shape.close none draft = .ok record
  simp only [close, hr]

end RecordShape

open RecordShape

theorem Activity.inverts : Activity.shape.decode.Inverts Activity.document := by
  rintro ⟨name, queue⟩
  have hname : Activity.shape.Takes {} [("name", .text name)] { name := some name } :=
    takes_slot name Decoder.inverts_string rfl rfl rfl
  have hqueue : Activity.shape.Takes { name := some name } (Document.optionalText "taskQueue" queue)
      { name := some name, taskQueue := queue.map some } :=
    takes_optionalText rfl rfl (by cases queue <;> rfl)
  exact decode_record (hname.append hqueue) (by cases queue <;> rfl)

theorem ChildWorkflow.inverts : ChildWorkflow.shape.decode.Inverts ChildWorkflow.document := by
  rintro ⟨name, queue⟩
  have hname : ChildWorkflow.shape.Takes {} (Document.optionalText "name" name)
      { name := name.map some } :=
    takes_optionalText rfl rfl (by cases name <;> rfl)
  have hqueue : ChildWorkflow.shape.Takes { name := name.map some }
      (Document.optionalText "taskQueue" queue)
      { name := name.map some, taskQueue := queue.map some } :=
    takes_optionalText rfl rfl (by cases queue <;> rfl)
  exact decode_record (hname.append hqueue) (by cases name <;> cases queue <;> rfl)

theorem Workflow.inverts : Workflow.shape.decode.Inverts Workflow.document := by
  rintro ⟨name, activities, children, queue⟩
  have hname : Workflow.shape.Takes {} (Document.optionalText "name" name)
      { name := name.map some } :=
    takes_optionalText rfl rfl (by cases name <;> rfl)
  have hactivities : Workflow.shape.Takes { name := name.map some }
      [("activities", .list (activities.map Activity.document))]
      { name := name.map some, activities := some activities } :=
    takes_slot activities Activity.inverts.list rfl rfl rfl
  have hchildren : Workflow.shape.Takes { name := name.map some, activities := some activities }
      [("childWorkflows", .list (children.map ChildWorkflow.document))]
      { name := name.map some, activities := some activities, childWorkflows := some children } :=
    takes_slot children ChildWorkflow.inverts.list rfl rfl rfl
  have hqueue : Workflow.shape.Takes
      { name := name.map some, activities := some activities, childWorkflows := some children }
      (Document.optionalText "taskQueue" queue)
      { name := name.map some, activities := some activities, childWorkflows := some children,
        taskQueue := queue.map some } :=
    takes_optionalText rfl rfl (by cases queue <;> rfl)
  exact decode_record ((hname.append (hactivities.append hchildren)).append hqueue)
    (by cases name <;> cases queue <;> rfl)

theorem Components.inverts : Components.shape.decode.Inverts Components.document := by
  rintro ⟨activities, workflows⟩
  have hactivities : Components.shape.Takes {}
      [("activities", .list (activities.map Activity.document))] { activities := some activities } :=
    takes_slot activities Activity.inverts.list rfl rfl rfl
  have hworkflows : Components.shape.Takes { activities := some activities }
      [("workflows", .list (workflows.map Workflow.document))]
      { activities := some activities, workflows := some workflows } :=
    takes_slot workflows Workflow.inverts.list rfl rfl rfl
  exact decode_record (hactivities.append hworkflows) rfl

theorem Manifest.inverts : Manifest.shape.decode.Inverts Manifest.document := by
  rintro ⟨name, version, components⟩
  have hname : Manifest.shape.Takes {} [("serviceName", .text name)] { serviceName := some name } :=
    takes_slot name Decoder.inverts_string rfl rfl rfl
  have hversion : Manifest.shape.Takes { serviceName := some name }
      [("registryVersion", .text version)]
      { serviceName := some name, registryVersion := some version } :=
    takes_slot version Decoder.inverts_string rfl rfl rfl
  have hcomponents : Manifest.shape.Takes
      { serviceName := some name, registryVersion := some version }
      [("components", components.document)]
      { serviceName := some name, registryVersion := some version, components := some components } :=
    takes_slot components Components.inverts rfl rfl rfl
  exact decode_record (hname.append (hversion.append hcomponents)) rfl

theorem Vocabulary.inverts : Vocabulary.shape.decode.Inverts Vocabulary.document := by
  rintro ⟨proxies, start, helper⟩
  have hproxies : Vocabulary.shape.Takes {} [("proxyFunctions", .list (proxies.map .text))]
      { proxyFunctions := some proxies } :=
    takes_slot proxies Decoder.inverts_string.list rfl rfl rfl
  have hstart : Vocabulary.shape.Takes { proxyFunctions := some proxies }
      [("childStartFunction", .text start)]
      { proxyFunctions := some proxies, childStart := some start } :=
    takes_slot start Decoder.inverts_string rfl rfl rfl
  have hhelper : Vocabulary.shape.Takes
      { proxyFunctions := some proxies, childStart := some start }
      [("reExportHelper", .text helper)]
      { proxyFunctions := some proxies, childStart := some start, reExportHelper := some helper } :=
    takes_slot helper Decoder.inverts_string rfl rfl rfl
  exact decode_record (hproxies.append (hstart.append hhelper)) rfl

/-! ### Texts -/

def rewritten {α : Type} (ofText : String → Except Problem α) (document : α → Document)
    (text : String) : Except Problem String :=
  (ofText text).map fun record => (document record).toText

/-- Every record is read back from its text. So a text that is accepted is rewritten into one that
stands for the same record and is rewritten into itself. -/
structure RoundTrips {α : Type} (ofText : String → Except Problem α) (document : α → Document) :
    Prop where
  read_written : ∀ record, ofText (document record).toText = .ok record
  canonical : ∀ text written, rewritten ofText document text = .ok written →
    ofText written = ofText text ∧ rewritten ofText document written = .ok written

theorem Decoder.Inverts.ofText_toText {α : Type} {decode : Decoder α} {document : α → Document}
    (h : decode.Inverts document) (record : α) :
    decode.ofText (document record).toText = .ok record := by
  simp [Decoder.ofText, Document.ofText_toText, h record, bind, Except.bind]

theorem Decoder.Inverts.roundTrips {α : Type} {decode : Decoder α} {document : α → Document}
    (h : decode.Inverts document) : RoundTrips decode.ofText document where
  read_written := h.ofText_toText
  canonical := by
    intro text written hw
    unfold rewritten at hw ⊢
    cases ht : decode.ofText text with
    | error problem =>
      rw [ht] at hw
      cases hw
    | ok record =>
      rw [ht] at hw
      cases hw
      rw [h.ofText_toText]
      exact ⟨rfl, rfl⟩

/-- Decoding undoes encoding for every kind of record, and for the manifest of every registry. -/
theorem records_roundTrip :
    RoundTrips Activity.ofText Activity.document ∧
    RoundTrips ChildWorkflow.ofText ChildWorkflow.document ∧
    RoundTrips Workflow.ofText Workflow.document ∧
    RoundTrips Components.ofText Components.document ∧
    RoundTrips Manifest.ofText Manifest.document ∧
    RoundTrips Vocabulary.ofText Vocabulary.document ∧
    ∀ registry : Registry,
      Manifest.ofText registry.manifest.document.toText = .ok registry.manifest :=
  ⟨Activity.inverts.roundTrips, ChildWorkflow.inverts.roundTrips, Workflow.inverts.roundTrips,
    Components.inverts.roundTrips, Manifest.inverts.roundTrips, Vocabulary.inverts.roundTrips,
    fun registry => Manifest.inverts.ofText_toText registry.manifest⟩

end WorkflowAnalysis
