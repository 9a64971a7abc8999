import Chelix.Library.Decode
import Chelix.Library.Text

/-!
# Validation of interactive surfaces

A surface is described by messages that declare components of a fixed catalog.  The messages are
checked one after another, with flags and lists of what was seen; then the lists are checked.

The texts of decoding errors and the parser of URLs are parameters.
-/

namespace Chelix.Gateway

open Chelix.Library

def protocolVersion : String := "v0.9.1"

def basicCatalogId : String := "https://a2ui.org/specification/v0_9/catalogs/basic/catalog.json"

def rootComponentId : String := "root"

def maxRequestBytes : ℕ := 128 * 1024

def maxMessages : ℕ := 64

def maxComponents : ℕ := 200

def maxJsonDepth : ℕ := 32

def maxJsonNodes : ℕ := 5000

def maxStringBytes : ℕ := 16 * 1024

def maxIdBytes : ℕ := 128

/-! ## The catalog -/

inductive BasicComponent where
  | audioPlayer
  | button
  | card
  | checkBox
  | choicePicker
  | column
  | dateTimeInput
  | divider
  | icon
  | image
  | list
  | modal
  | row
  | slider
  | tabs
  | text
  | textField
  | video
  deriving DecidableEq

namespace BasicComponent

def all : List BasicComponent :=
  [audioPlayer, button, card, checkBox, choicePicker, column, dateTimeInput, divider, icon, image,
    list, modal, row, slider, tabs, text, textField, video]

def name : BasicComponent → String
  | audioPlayer => "AudioPlayer"
  | button => "Button"
  | card => "Card"
  | checkBox => "CheckBox"
  | choicePicker => "ChoicePicker"
  | column => "Column"
  | dateTimeInput => "DateTimeInput"
  | divider => "Divider"
  | icon => "Icon"
  | image => "Image"
  | list => "List"
  | modal => "Modal"
  | row => "Row"
  | slider => "Slider"
  | tabs => "Tabs"
  | text => "Text"
  | textField => "TextField"
  | video => "Video"

/-- The fields without which the renderer drops a component. -/
def requiredFields : BasicComponent → List String
  | audioPlayer | image | video => ["url"]
  | button => ["child", "action"]
  | card => ["child"]
  | checkBox => ["label", "value"]
  | choicePicker => ["options", "value"]
  | column | list | row => ["children"]
  | dateTimeInput => ["value"]
  | divider => []
  | icon => ["name"]
  | modal => ["trigger", "content"]
  | slider => ["max", "value"]
  | tabs => ["tabs"]
  | text => ["text"]
  | textField => ["label"]

/-- Whether the component is a media element that is loaded from its `url`. -/
def isMedia : BasicComponent → Bool
  | audioPlayer | image | video => true
  | _ => false

def tryFrom (value : String) : Except String BasicComponent :=
  match all.find? fun component => component.name = value with
  | some component => .ok component
  | none => .error ("component \x60" ++ value ++ "\x60 is not in the trusted A2UI basic catalog")

end BasicComponent

/-! ## Messages -/

structure CreateSurface where
  surfaceId : String
  catalogId : String
  theme : Option Json
  sendDataModel : Option Bool

/-- A component with its own fields beside its id and its weight. -/
structure A2uiComponent where
  component : String
  id : Option String
  weight : Option JsonNumber
  properties : List (String × Json)
  deriving DecidableEq

structure UpdateComponents where
  surfaceId : String
  components : List A2uiComponent

structure UpdateDataModel where
  surfaceId : String
  path : Option String
  value : Option Json

structure DeleteSurface where
  surfaceId : String

inductive A2uiServerMessage where
  | create (version : String) (createSurface : CreateSurface)
  | updateComponents (version : String) (updateComponents : UpdateComponents)
  | updateDataModel (version : String) (updateDataModel : UpdateDataModel)
  | delete (version : String) (deleteSurface : DeleteSurface)

namespace A2uiServerMessage

def version : A2uiServerMessage → String
  | create version _ => version
  | updateComponents version _ => version
  | updateDataModel version _ => version
  | delete version _ => version

def surfaceId : A2uiServerMessage → String
  | create _ message => message.surfaceId
  | updateComponents _ message => message.surfaceId
  | updateDataModel _ message => message.surfaceId
  | delete _ message => message.surfaceId

end A2uiServerMessage

inductive A2uiServerMessageKind where
  | create
  | updateComponents
  | updateDataModel
  | delete
  deriving DecidableEq

namespace A2uiServerMessageKind

def all : List A2uiServerMessageKind := [create, updateComponents, updateDataModel, delete]

def field : A2uiServerMessageKind → String
  | create => "createSurface"
  | updateComponents => "updateComponents"
  | updateDataModel => "updateDataModel"
  | delete => "deleteSurface"

end A2uiServerMessageKind

/-! ## Decoding -/

/-- The named fields of a structure that has no others. -/
def strictFields (names : List String) (value : Json) : Option (List (Option Json)) :=
  match value with
  | .obj fields => if ∀ field ∈ fields, field.1 ∈ names then Decoder.fields names value else none
  | value => Decoder.fields names value

def number : Decoder JsonNumber
  | .num n => some n
  | _ => none

def decodeCreateSurface : Decoder CreateSurface := fun value => do
  match ← strictFields ["surfaceId", "catalogId", "theme", "sendDataModel"] value with
  | [surfaceId, catalogId, theme, sendDataModel] =>
    some {
      surfaceId := ← Decoder.required Decoder.string surfaceId
      catalogId := ← Decoder.required Decoder.string catalogId
      theme := ← Decoder.optional Decoder.value theme
      sendDataModel := ← Decoder.optional Decoder.bool sendDataModel }
  | _ => none

/-- The fields that are not named are kept. -/
def decodeComponent : Decoder A2uiComponent
  | .obj fields => do
      some {
        component := ← Decoder.required Decoder.string (Json.get (.obj fields) "component")
        id := ← Decoder.optional Decoder.string (Json.get (.obj fields) "id")
        weight := ← Decoder.optional number (Json.get (.obj fields) "weight")
        properties := fields.filter fun field => field.1 ∉ ["component", "id", "weight"] }
  | _ => none

def decodeUpdateComponents : Decoder UpdateComponents := fun value => do
  match ← strictFields ["surfaceId", "components"] value with
  | [surfaceId, components] =>
    some {
      surfaceId := ← Decoder.required Decoder.string surfaceId
      components := ← Decoder.required (Decoder.list decodeComponent) components }
  | _ => none

def decodeUpdateDataModel : Decoder UpdateDataModel := fun value => do
  match ← strictFields ["surfaceId", "path", "value"] value with
  | [surfaceId, path, contents] =>
    some {
      surfaceId := ← Decoder.required Decoder.string surfaceId
      path := ← Decoder.optional Decoder.string path
      value := ← Decoder.optional Decoder.value contents }
  | _ => none

def decodeDeleteSurface : Decoder DeleteSurface := fun value => do
  match ← strictFields ["surfaceId"] value with
  | [surfaceId] => some { surfaceId := ← Decoder.required Decoder.string surfaceId }
  | _ => none

/-- A message of one kind: its version and the field of the kind. -/
def decodeMessage {α : Type} (kind : A2uiServerMessageKind) (decoder : Decoder α)
    (build : String → α → A2uiServerMessage) : Decoder A2uiServerMessage := fun value => do
  match ← strictFields ["version", kind.field] value with
  | [version, contents] =>
    some (build (← Decoder.required Decoder.string version)
      (← Decoder.required decoder contents))
  | _ => none

/-- What is not decided here: the texts of decoding errors and the schemes of URLs. -/
structure A2uiEnv where
  decodeError : A2uiServerMessageKind → Json → String
  urlScheme : String → Option String

section Validation

variable (env : A2uiEnv)

def A2uiServerMessageKind.parse (kind : A2uiServerMessageKind) (value : Json) (position : ℕ) :
    Except String A2uiServerMessage :=
  let message :=
    match kind with
    | .create => decodeMessage .create decodeCreateSurface .create value
    | .updateComponents =>
      decodeMessage .updateComponents decodeUpdateComponents .updateComponents value
    | .updateDataModel =>
      decodeMessage .updateDataModel decodeUpdateDataModel .updateDataModel value
    | .delete => decodeMessage .delete decodeDeleteSurface .delete value
  match message with
  | some message => .ok message
  | none => .error ("A2UI message " ++ toString position ++ " \x60" ++ kind.field ++
      "\x60 is invalid: " ++ env.decodeError kind value)

def parseServerMessage (value : Json) (index : ℕ) : Except String A2uiServerMessage :=
  let position := index + 1
  match value with
  | .obj object =>
    match A2uiServerMessageKind.all.filter
      fun kind => ((Json.obj object).get kind.field).isSome with
    | [kind] => kind.parse env value position
    | _ =>
      let supplied := "\x60, \x60".intercalate
        ((object.map Prod.fst).filter fun key => key ≠ "version")
      let supplied := if supplied = "" then "none" else "\x60" ++ supplied ++ "\x60"
      .error ("A2UI message " ++ toString position ++
        " must contain exactly one standard message field (\x60createSurface\x60, " ++
        "\x60updateComponents\x60, \x60updateDataModel\x60, or \x60deleteSurface\x60); found " ++
        supplied)
  | _ => .error ("A2UI message " ++ toString position ++ " must be an object")

/-! ## Limits -/

/-- The number of nodes with one more, which is at some depth. -/
def enterNode (depth nodes : ℕ) : Except String ℕ :=
  if maxJsonDepth < depth then
    .error ("JSON payload exceeds maximum depth " ++ toString maxJsonDepth)
  else if maxJsonNodes < nodes + 1 then
    .error ("JSON payload exceeds " ++ toString maxJsonNodes ++ " nodes")
  else .ok (nodes + 1)

mutual

def inspectJson (depth nodes : ℕ) : Json → Except String ℕ
  | .str text => do
      let nodes ← enterNode depth nodes
      if maxStringBytes < text.utf8ByteSize then
        throw ("JSON string exceeds " ++ toString maxStringBytes ++ " bytes")
      return nodes
  | .arr values => do
      let nodes ← enterNode depth nodes
      inspectList (depth + 1) nodes values
  | .obj object => do
      let nodes ← enterNode depth nodes
      inspectFields (depth + 1) nodes object
  | _ => enterNode depth nodes

def inspectList (depth nodes : ℕ) : List Json → Except String ℕ
  | [] => .ok nodes
  | child :: rest =>
    match inspectJson depth nodes child with
    | .ok nodes => inspectList depth nodes rest
    | .error e => .error e

def inspectFields (depth nodes : ℕ) : List (String × Json) → Except String ℕ
  | [] => .ok nodes
  | (key, child) :: rest =>
    if maxStringBytes < key.utf8ByteSize then
      .error ("JSON object key exceeds " ++ toString maxStringBytes ++ " bytes")
    else
      match inspectJson depth nodes child with
      | .ok nodes => inspectFields depth nodes rest
      | .error e => .error e

end

def ensureJsonLimits (value : Json) (maxBytes : ℕ) : Except String Unit :=
  if maxBytes < value.toText.utf8ByteSize then
    .error ("JSON payload exceeds " ++ toString maxBytes ++ " bytes")
  else (inspectJson 0 0 value).map fun _ => ()

/-- A control character of Unicode. -/
def isControl (c : Char) : Bool := c.toNat < 32 || (127 ≤ c.toNat && c.toNat ≤ 159)

def validateIdentifier (label value : String) : Except String Unit :=
  if trimText value.toList = [] then .error (label ++ " must not be empty")
  else if maxIdBytes < value.utf8ByteSize then
    .error (label ++ " exceeds " ++ toString maxIdBytes ++ " bytes")
  else if value.toList.any isControl then
    .error (label ++ " must not contain control characters")
  else .ok ()

/-! ## Components -/

def property (properties : List (String × Json)) (name : String) : Option Json :=
  Json.get (.obj properties) name

/-- A media source that the page can load. -/
def validateMediaUrl (label : String) (kind : BasicComponent) (url : Json) : Except String Unit :=
  let component := "component \x60" ++ label ++ "\x60 of type \x60" ++ kind.name ++ "\x60"
  match url with
  | .str literal =>
    let literal := trimText literal.toList
    if literal = [] then .error (component ++ " has an empty \x60url\x60")
    else if "data:".toList <+: literal then .ok ()
    else if "/".toList <+: literal ∧ ¬"//".toList <+: literal then .ok ()
    else
      match env.urlScheme (String.ofList literal) with
      | none => .error (component ++ " has an invalid \x60url\x60")
      | some scheme =>
        if scheme ≠ "https" then
          .error (component ++ " uses the \x60" ++ scheme ++
            ":\x60 scheme; the chat content security policy only loads \x60https:\x60, " ++
            "\x60data:\x60, and root-relative media")
        else .ok ()
  | .obj _ => .ok ()
  | _ => .error (component ++
      " must set \x60url\x60 to a URL string or a standard data binding")

def validateComponentId : Option String → Except String Unit
  | some id => validateIdentifier "component.id" id
  | none => .ok ()

/-- The fields that the catalog requires. -/
def validateRequiredFields (label : String) (kind : BasicComponent)
    (properties : List (String × Json)) : Except String Unit :=
  match kind.requiredFields.find? fun field => (property properties field).isNone with
  | some field =>
    .error ("component \x60" ++ label ++ "\x60 of type \x60" ++ kind.name ++
      "\x60 is missing the required field \x60" ++ field ++ "\x60")
  | none => .ok ()

/-- The source of a media element. -/
def validateMedia (label : String) (kind : BasicComponent) (properties : List (String × Json)) :
    Except String Unit :=
  if kind.isMedia then
    match property properties "url" with
    | none => .error ("component \x60" ++ label ++ "\x60 is missing the required field \x60url\x60")
    | some url => validateMediaUrl env label kind url
  else .ok ()

/-- The checks of one component. -/
def validateComponent (component : A2uiComponent) : Except String Unit := do
  let kind ← BasicComponent.tryFrom component.component
  let label := component.id.getD component.component
  validateComponentId component.id
  if (property component.properties "properties").isSome then
    throw ("component \x60" ++ label ++ "\x60 uses non-standard nested \x60properties\x60; put " ++
      "component-specific fields directly beside \x60id\x60 and \x60component\x60")
  validateRequiredFields label kind component.properties
  validateMedia env label kind component.properties

/-- Whether a component sends an action to the server. -/
def containsServerAction (properties : List (String × Json)) : Bool :=
  match property properties "action" with
  | some (.obj action) =>
    match property action "event" with
    | some (.obj event) =>
      match property event "name" with
      | some (.str name) => !(trimText name.toList).isEmpty
      | _ => false
    | _ => false
  | _ => false

abbrev Declared : Type := String → Option (List (String × Json))

/-- The trigger of a dialog is a component that does not end the interaction. -/
def validateModalTrigger (modalLabel : String) (trigger : Json) (declared : Declared) :
    Except String Unit :=
  let modal := "component \x60" ++ modalLabel ++ "\x60 of type \x60Modal\x60 "
  match trigger with
  | .str triggerId =>
    match declared triggerId with
    | none => .error (modal ++ "references the undeclared trigger component \x60" ++ triggerId ++
        "\x60")
    | some properties =>
      if containsServerAction properties then
        .error (modal ++ "uses trigger \x60" ++ triggerId ++ "\x60 that also sends an action; " ++
          "opening the modal would end the interaction before its content is reachable. Use " ++
          "a non-interactive trigger such as \x60Text\x60, \x60Icon\x60, or \x60Card\x60 and " ++
          "put the action on a \x60Button\x60 inside \x60content\x60")
      else .ok ()
  | _ => .error (modal ++ "must set \x60trigger\x60 to the id of a declared component")

/-! ## Parameters -/

/-- What the checks of the messages have seen. -/
structure InteractionTotals where
  createCount : ℕ
  componentCount : ℕ
  hasServerAction : Bool
  declaredComponents : Declared
  modalTriggers : List (String × Json)

def InteractionTotals.start : InteractionTotals where
  createCount := 0
  componentCount := 0
  hasServerAction := false
  declaredComponents _ := none
  modalTriggers := []

/-- One component of an update. -/
def checkComponent (totals : InteractionTotals) (component : A2uiComponent) :
    Except String InteractionTotals := do
  validateComponent env component
  let declared :=
    match component.id with
    | some id => Function.update totals.declaredComponents id (some component.properties)
    | none => totals.declaredComponents
  let kind ← BasicComponent.tryFrom component.component
  let triggers :=
    match property component.properties "trigger" with
    | some trigger =>
      if kind = .modal then [(component.id.getD component.component, trigger)] else []
    | none => []
  return { totals with
    hasServerAction := totals.hasServerAction || containsServerAction component.properties
    declaredComponents := declared
    modalTriggers := totals.modalTriggers ++ triggers }

def checkMessage (surfaceId : String) (totals : InteractionTotals) (message : A2uiServerMessage) :
    Except String InteractionTotals := do
  if message.version ≠ protocolVersion then
    throw ("unsupported A2UI version \x60" ++ message.version ++ "\x60; expected \x60" ++
      protocolVersion ++ "\x60")
  if message.surfaceId ≠ surfaceId then
    throw ("all A2UI messages in one interaction must target \x60" ++ surfaceId ++ "\x60")
  match message with
  | .create _ _ => return { totals with createCount := totals.createCount + 1 }
  | .updateComponents _ update =>
    if update.components.isEmpty then throw "updateComponents.components must not be empty"
    let componentCount := totals.componentCount + update.components.length
    if maxComponents < componentCount then
      throw ("A2UI interaction exceeds the " ++ toString maxComponents ++ " component limit")
    update.components.foldlM (checkComponent env)
      { totals with componentCount := componentCount }
  | .updateDataModel _ update =>
    match update.path with
    | some path =>
      if maxStringBytes < path.utf8ByteSize then
        throw ("updateDataModel.path exceeds " ++ toString maxStringBytes ++ " bytes")
      else return totals
    | none => return totals
  | .delete _ _ =>
    throw "deleteSurface is not valid in an interaction that is awaiting an action"

def renderMessages (params : Json) : Except String (List A2uiServerMessage) := do
  ensureJsonLimits params maxRequestBytes
  match params with
  | .obj object =>
    match object.find? fun field => field.1 ≠ "messages" ∧ field.1.toList.head? ≠ some '_' with
    | some field => throw ("unknown render_a2ui parameter \x60" ++ field.1 ++ "\x60")
    | none =>
      match (Json.obj object).get "messages" with
      | none => throw "missing required render_a2ui parameter \x60messages\x60"
      | some (.arr rawMessages) =>
        if rawMessages.isEmpty ∨ maxMessages < rawMessages.length then
          throw ("messages must contain between 1 and " ++ toString maxMessages ++
            " A2UI messages")
        rawMessages.zipIdx.mapM fun raw => parseServerMessage env raw.1 raw.2
      | some _ => throw "render_a2ui parameter \x60messages\x60 must be an array"
  | _ => throw "render_a2ui parameters must be an object"

/-- The checks of all messages; the answer is the surface. -/
def validateMessages (messages : List A2uiServerMessage) : Except String String := do
  match messages.head? with
  | some (.create _ create) =>
    if create.catalogId ≠ basicCatalogId then
      throw ("unsupported A2UI catalog \x60" ++ create.catalogId ++ "\x60; expected \x60" ++
        basicCatalogId ++ "\x60")
    validateIdentifier "surfaceId" create.surfaceId
    let totals ← messages.foldlM (checkMessage env create.surfaceId) .start
    if totals.createCount ≠ 1 then
      throw "an interaction must contain exactly one createSurface message"
    if totals.componentCount = 0 then
      throw "an interaction must define at least one component"
    if (totals.declaredComponents rootComponentId).isNone then
      throw ("an interaction must declare the entry component with \x60\"id\": \"" ++
        rootComponentId ++ "\"\x60; the renderer starts from that component and shows nothing " ++
        "without it")
    if !totals.hasServerAction then
      throw "an interaction awaiting user input must contain an A2UI event action"
    totals.modalTriggers.forM fun modal =>
      validateModalTrigger modal.1 modal.2 totals.declaredComponents
    return create.surfaceId
  | _ => throw "the first A2UI message must be createSurface"

/-- The checks of the parameters of a call. -/
def validateRenderParams (params : Json) : Except String String := do
  let messages ← renderMessages env params
  validateMessages env messages

end Validation

end Chelix.Gateway
