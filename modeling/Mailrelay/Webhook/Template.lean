/-
  Payload templates (`internal/webhook/dispatcher.go`).

  Every value that a template works with is the text of a JSON value, and is
  put into the payload as it is.  `TemplateLib` is what the functions take from
  `encoding/json`.  A template is a list of characters and actions; `execute`
  is how `text/template` evaluates it.

  * `FunctionsValid` and `functionsValid`: the four functions on any texts;
  * `eval_compact`: every pipeline over an email yields a compact JSON text;
  * `payload_valid`: the main result.
-/
import Mailrelay.Lib.JsonText
import Mailrelay.Webhook.Queue

namespace Mailrelay

open Lib

/-! ## Functions -/

/-- A literal argument; numbers are of Go's `int` or finite `float64` values. -/
inductive Literal (N : Type) where
  | string (s : String)
  | number (n : N)
  | bool (b : Bool)

structure TemplateLib where
  Number : Type
  /-- `json.Marshal` -/
  marshal : Literal Number → Except String String
  /-- `json.Unmarshal` into a `[]json.RawMessage` -/
  unmarshalArray : String → Option (List String)
  /-- `json.Unmarshal` into a `string` -/
  unmarshalString : String → Option String

/-- `rawJSON`; `none` is Go's `nil`. -/
abbrev RawJson := Option String

/-- The method `String`. -/
def RawJson.string (r : RawJson) : String := r.getD "null"

section
variable (lib : TemplateLib)

def jsonArray (v : RawJson) : List String := (lib.unmarshalArray (v.getD "")).getD []

def jsonFirst (v : RawJson) : RawJson :=
  match jsonArray lib v with
  | el :: _ => some el
  | [] => some "null"

def jsonLast (v : RawJson) : RawJson :=
  match (jsonArray lib v).getLast? with
  | some el => some el
  | none => some "null"

def jsonJoin (sep : String) (v : RawJson) : Except String RawJson :=
  let parts := (jsonArray lib v).map fun el => (lib.unmarshalString el).getD el
  (lib.marshal (.string (sep.intercalate parts))).map some

/-- The result when the value is empty: another value as it is, a literal encoded. -/
def fallback : RawJson ⊕ Literal lib.Number → Except String RawJson
  | .inl r => .ok r
  | .inr l => (lib.marshal l).map some

def jsonDefault (d : RawJson ⊕ Literal lib.Number) (v : RawJson) : Except String RawJson :=
  if trimSpace (v.getD "") ∈ "" :: emptyTexts then fallback lib d else .ok v

/-! ## Templates -/

/-- The name of one of the fields. -/
def TemplateField : Type := { name : String // name ∈ templateFields.map Prod.fst }

inductive Pipeline (N : Type) where
  | field (f : TemplateField)
  | first (p : Pipeline N)
  | last (p : Pipeline N)
  | join (sep : String) (p : Pipeline N)
  | default (d : Literal N) (p : Pipeline N)
  | defaultTo (d : Pipeline N) (p : Pipeline N)

/-- An action: the text between its braces and the pipeline it is. -/
structure Action (N : Type) where
  source : String
  pipeline : Pipeline N

abbrev Template (N : Type) := List (Char ⊕ Action N)

def Template.text {N : Type} (t : Template N) : String :=
  String.ofList <| t.flatMap <| Sum.elim (fun c => [c]) fun a =>
    '{' :: '{' :: a.source.toList ++ ['}', '}']

variable {lib} in
/-- A pipeline as `text/template` evaluates it: the value of each command is
    the last argument of the next one. -/
def Pipeline.eval (data : List (String × String)) : Pipeline lib.Number → Except String RawJson
  | field f =>
    match data.lookup f.1 with
    | some v => .ok (some v)
    | none => .error "no value"
  | first p => (p.eval data).map (jsonFirst lib)
  | last p => (p.eval data).map (jsonLast lib)
  | join sep p => do
    let v ← p.eval data
    jsonJoin lib sep v
  | default d p => do
    let v ← p.eval data
    jsonDefault lib (.inr d) v
  | defaultTo d p => do
    let v ← p.eval data
    let r ← d.eval data
    jsonDefault lib (.inl r) v

/-- A template as `text/template` executes it: the actions are replaced by the
    texts of their values. -/
def execute (data : List (String × String)) : Template lib.Number → Except String (List Char)
  | [] => .ok []
  | .inl c :: t => do
    let out ← execute data t
    .ok (c :: out)
  | .inr a :: t => do
    let v ← a.pipeline.eval data
    let out ← execute data t
    .ok (v.string.toList ++ out)

/-! ## Emails in JSON -/

/-- A list of texts; `isNil` tells a `nil` slice from an empty one. -/
def listJson {ν : Type} (isNil : Bool) (l : List String) : Json ν :=
  if l = [] ∧ isNil then .null else .arr (l.map .str)

def AuthCheckResult.json {ν : Type} : AuthCheckResult → Json ν
  | unset => .str ""
  | pass => .str "pass"
  | fail => .str "fail"
  | none => .str "none"

def AuthResult.json {ν : Type} (r : AuthResult) : Json ν :=
  .obj [("tls", .bool r.tls), ("spf", r.spf.json), ("dkim", r.dkim.json), ("dmarc", r.dmarc.json),
    ("arc", r.arc.json)]

def Attachment.json {ν : Type} (a : Attachment) : Json ν :=
  .obj [("filename", .str a.filename), ("content_type", .str a.contentType), ("content", .str a.content)]

/-- `omitempty` -/
def omitEmpty {α ν : Type} [DecidableEq α] (zero : α) (json : α → Json ν) (x : α) : Option (Json ν) :=
  if x = zero then none else some (json x)

/-- The headers, in the order of their keys. -/
def headersJson {ν : Type} (isNil : String → Bool) (headers : MailHeader) : Json ν :=
  .obj ((headers.mergeSort fun a b => a.1 ≤ b.1).map fun h =>
    (h.1, listJson (isNil ("headers." ++ h.1)) h.2))

/-- The members of an email in JSON; `isNil` says which of its empty lists are
    `nil`. -/
def emailMembers {ν : Type} (isNil : String → Bool) (email : ParsedEmail) : List (String × Json ν) :=
  [("from", .str email.from_), ("to", listJson (isNil "to") email.to_)] ++
    Json.optional "cc" (omitEmpty [] (listJson false) email.cc) ++
    [("subject", .str email.subject)] ++
    Json.optional "text_body" (omitEmpty "" .str email.textBody) ++
    Json.optional "html_body" (omitEmpty "" .str email.htmlBody) ++
    Json.optional "headers" (omitEmpty [] (headersJson isNil) email.headers) ++
    Json.optional "attachments" (omitEmpty [] (fun l => .arr (l.map Attachment.json)) email.attachments) ++
    Json.optional "auth_result" (email.authResult.map AuthResult.json) ++
    [("envelope_from", .str email.envelopeFrom),
      ("envelope_to", listJson (isNil "envelope_to") email.envelopeTo)]

/-- The JSON encoding of a field, or `null` when it is absent. -/
def fieldJson {ν : Type} (isNil : String → Bool) (email : ParsedEmail) (f : TemplateField) : Json ν :=
  (((templateFields.lookup f.1).bind fun key => (emailMembers isNil email).lookup key)).getD .null

/-! ## What is assumed -/

/-- `encoding/json`: what it writes is compact, and a `RawMessage` is the text
    of an element as it stands. -/
structure TemplateLib.Documented : Prop where
  marshal_string : ∀ s, ∃ t, lib.marshal (.string s) = .ok t ∧ CompactText t (.str s)
  marshal_number : ∀ n, ∃ t v, lib.marshal (.number n) = .ok t ∧ CompactText t (.num (.inl v))
  marshal_bool : ∀ b, ∃ t, lib.marshal (.bool b) = .ok t ∧ CompactText t (.bool b)
  unmarshalArray : ∀ (space : Char → Prop) s v els, JsonText space s v →
    lib.unmarshalArray s = some els → ∀ el ∈ els, ∃ w, JsonText space el w

/-- `encoding/json` on an email: its members are read back as they are written. -/
def MarshalsEmail (rt : Runtime) (isNil : String → Bool) (email : ParsedEmail) : Prop :=
  ∃ raw, rt.unmarshalMap (rt.marshalEmail email) = .ok raw ∧ ∀ key,
    match (emailMembers isNil email).lookup key with
    | some v => ∃ s, raw.lookup key = some s ∧ CompactText s v
    | none => raw.lookup key = none

/-- `text/template` reads the text of a template as this template, and executes
    it on values of all the fields. -/
structure ReadsTemplate (rt : Runtime) (t : Template lib.Number) : Prop where
  parse : rt.parseTemplate t.text = .ok ()
  execute : ∀ data, (∀ f : TemplateField, (data.lookup f.1).isSome) →
    rt.executeTemplate t.text data = (execute lib data t).map String.ofList

/-! ## The functions on JSON texts -/

variable {lib} {space : Char → Prop}

theorem compactText_null : CompactText "null" .null := Text.of_bare .null

theorem jsonArray_valid (hlib : lib.Documented) {s : String} {v : JsonValue}
    (h : JsonText space s v) : ∀ el ∈ jsonArray lib (some s), ∃ w, JsonText space el w := by
  intro el hel
  rw [jsonArray, Option.getD_some] at hel
  rcases harr : lib.unmarshalArray s with _ | els
  · rw [harr] at hel
    cases hel
  · rw [harr] at hel
    exact hlib.unmarshalArray space s v els h harr el hel

theorem jsonFirst_valid (hlib : lib.Documented) {s : String} {v : JsonValue}
    (h : JsonText space s v) : ∃ t w, jsonFirst lib (some s) = some t ∧ JsonText space t w := by
  have hels := jsonArray_valid hlib h
  rw [jsonFirst]
  rcases harr : jsonArray lib (some s) with _ | ⟨el, els⟩
  · exact ⟨"null", .null, rfl, compactText_null.text⟩
  · obtain ⟨w, hw⟩ := hels el (harr ▸ .head _)
    exact ⟨el, w, rfl, hw⟩

theorem jsonLast_valid (hlib : lib.Documented) {s : String} {v : JsonValue}
    (h : JsonText space s v) : ∃ t w, jsonLast lib (some s) = some t ∧ JsonText space t w := by
  have hels := jsonArray_valid hlib h
  rw [jsonLast]
  rcases hlast : (jsonArray lib (some s)).getLast? with _ | el
  · exact ⟨"null", .null, rfl, compactText_null.text⟩
  · obtain ⟨w, hw⟩ := hels el (List.mem_of_getLast? hlast)
    exact ⟨el, w, rfl, hw⟩

theorem jsonJoin_valid (hlib : lib.Documented) (sep : String) (v : RawJson) :
    ∃ t w, jsonJoin lib sep v = .ok (some t) ∧ JsonText space t w := by
  obtain ⟨t, ht, hcompact⟩ := hlib.marshal_string
    (sep.intercalate ((jsonArray lib v).map fun el => (lib.unmarshalString el).getD el))
  exact ⟨t, _, by rw [jsonJoin, ht]; rfl, hcompact.text⟩

/-- The other value, if the fallback is one, is a text of this kind. -/
def FallbackText (lib : TemplateLib) (space : Char → Prop) (d : RawJson ⊕ Literal lib.Number) : Prop :=
  ∀ r, d = .inl r → ∃ t w, r = some t ∧ JsonText space t w

theorem fallback_valid (hlib : lib.Documented) {d : RawJson ⊕ Literal lib.Number}
    (hd : FallbackText lib space d) :
    ∃ t w, fallback lib d = .ok (some t) ∧ JsonText space t w := by
  rcases d with r | l
  · obtain ⟨t, w, rfl, hw⟩ := hd r rfl
    exact ⟨t, w, rfl, hw⟩
  · have hmarshal : ∃ t w, lib.marshal l = .ok t ∧ CompactText t w := by
      cases l with
      | string s => exact (hlib.marshal_string s).imp fun t h => ⟨_, h⟩
      | number n => exact hlib.marshal_number n |>.imp fun t ⟨v, h⟩ => ⟨_, h⟩
      | bool b => exact (hlib.marshal_bool b).imp fun t h => ⟨_, h⟩
    obtain ⟨t, w, ht, hw⟩ := hmarshal
    exact ⟨t, w, by rw [fallback, ht]; rfl, hw.text⟩

theorem jsonDefault_valid (hlib : lib.Documented) {d : RawJson ⊕ Literal lib.Number} {s : String}
    {v : JsonValue} (hd : FallbackText lib space d) (h : JsonText space s v) :
    ∃ t w, jsonDefault lib d (some s) = .ok (some t) ∧ JsonText space t w := by
  rw [jsonDefault]
  split
  · exact fallback_valid hlib hd
  · exact ⟨s, v, rfl, h⟩

/-- The fallback is taken for the empty values, unless there is space between
    the brackets. -/
theorem jsonDefault_eq (d : RawJson ⊕ Literal lib.Number) {s : String} {v : JsonValue}
    (h : JsonText isJsonSpace s v) : jsonDefault lib d (some s) =
      if trimSpace s ∈ emptyTexts then fallback lib d else .ok (some s) := by
  rw [jsonDefault, Option.getD_some]
  simp only [List.mem_cons, trimSpace_ne_empty h, false_or]

def ValidJson (s : String) : Prop := ∃ v, JsonText isJsonSpace s v

/-- Brackets with space between them, and more space around. -/
def IsSpaced (s : String) : Prop := SpacedBrackets isJsonSpace (trimSpace s).toList

/-- The four functions on JSON texts. -/
structure FunctionsValid (lib : TemplateLib) : Prop where
  first : ∀ s, ValidJson s → ∃ t, jsonFirst lib (some s) = some t ∧ ValidJson t
  last : ∀ s, ValidJson s → ∃ t, jsonLast lib (some s) = some t ∧ ValidJson t
  join : ∀ sep s, ValidJson s → ∃ t, jsonJoin lib sep (some s) = .ok (some t) ∧ ValidJson t
  default : ∀ d s, FallbackText lib isJsonSpace d → ValidJson s →
    ∃ t, jsonDefault lib d (some s) = .ok (some t) ∧ ValidJson t
  default_empty : ∀ d s v, JsonText isJsonSpace s v → v.IsEmpty → ¬IsSpaced s →
    jsonDefault lib d (some s) = fallback lib d
  default_other : ∀ d s v, JsonText isJsonSpace s v → ¬(v.IsEmpty ∧ ¬IsSpaced s) →
    jsonDefault lib d (some s) = .ok (some s)

theorem functionsValid (hlib : lib.Documented) : FunctionsValid lib where
  first s h := by
    obtain ⟨v, h⟩ := h
    obtain ⟨t, w, ht, hw⟩ := jsonFirst_valid hlib h
    exact ⟨t, ht, w, hw⟩
  last s h := by
    obtain ⟨v, h⟩ := h
    obtain ⟨t, w, ht, hw⟩ := jsonLast_valid hlib h
    exact ⟨t, ht, w, hw⟩
  join sep s _ := by
    obtain ⟨t, w, ht, hw⟩ := jsonJoin_valid hlib sep (some s)
    exact ⟨t, ht, w, hw⟩
  default d s hd h := by
    obtain ⟨v, h⟩ := h
    obtain ⟨t, w, ht, hw⟩ := jsonDefault_valid hlib hd h
    exact ⟨t, ht, w, hw⟩
  default_empty d s v h hv hs := by
    rw [jsonDefault_eq d h, if_pos ((isEmptyText_iff h).2 ⟨hv, hs⟩)]
  default_other d s v h hv := by
    rw [jsonDefault_eq d h, if_neg fun hmem => hv ((isEmptyText_iff h).1 hmem)]

/-! ## Pipelines -/

/-- A pipeline over compact values yields a compact value. -/
theorem eval_compact (hlib : lib.Documented) {data : List (String × String)}
    (hdata : ∀ f : TemplateField, ∃ s v, data.lookup f.1 = some s ∧ CompactText s v)
    (p : Pipeline lib.Number) : ∃ s v, p.eval data = .ok (some s) ∧ CompactText s v := by
  induction p with
  | field f =>
    obtain ⟨s, v, hs, hv⟩ := hdata f
    exact ⟨s, v, by rw [Pipeline.eval, hs], hv⟩
  | first p ih =>
    obtain ⟨s, v, hs, hv⟩ := ih
    obtain ⟨t, w, ht, hw⟩ := jsonFirst_valid hlib hv
    exact ⟨t, w, by rw [Pipeline.eval, hs, ← ht]; rfl, hw⟩
  | last p ih =>
    obtain ⟨s, v, hs, hv⟩ := ih
    obtain ⟨t, w, ht, hw⟩ := jsonLast_valid hlib hv
    exact ⟨t, w, by rw [Pipeline.eval, hs, ← ht]; rfl, hw⟩
  | join sep p ih =>
    obtain ⟨s, v, hs, -⟩ := ih
    obtain ⟨t, w, ht, hw⟩ := jsonJoin_valid hlib sep (some s)
    refine ⟨t, w, ?_, hw⟩
    rw [Pipeline.eval]
    exact bind_ok.2 ⟨some s, hs, ht⟩
  | default l p ih =>
    obtain ⟨s, v, hs, hv⟩ := ih
    obtain ⟨t, w, ht, hw⟩ := jsonDefault_valid hlib (d := .inr l) nofun hv
    refine ⟨t, w, ?_, hw⟩
    rw [Pipeline.eval]
    exact bind_ok.2 ⟨some s, hs, ht⟩
  | defaultTo d p ihd ih =>
    obtain ⟨s, v, hs, hv⟩ := ih
    obtain ⟨r, x, hr, hx⟩ := ihd
    have hd : FallbackText lib (fun _ => False) (.inl (some r)) := by
      rintro _ ⟨⟩
      exact ⟨r, x, rfl, hx⟩
    obtain ⟨t, w, ht, hw⟩ := jsonDefault_valid hlib hd hv
    refine ⟨t, w, ?_, hw⟩
    rw [Pipeline.eval]
    exact bind_ok.2 ⟨some s, hs, bind_ok.2 ⟨some r, hr, ht⟩⟩

theorem lookup_map {α β γ : Type} [BEq α] (g : β → γ) (l : List (α × β)) (k : α) :
    (l.map fun e => (e.1, g e.2)).lookup k = (l.lookup k).map g := by
  induction l with
  | nil => rfl
  | cons e l ih =>
    rw [List.map_cons, List.lookup_cons, List.lookup_cons, ih]
    cases k == e.1 <;> rfl

theorem lookup_templateFields (f : TemplateField) : ∃ key, templateFields.lookup f.1 = some key := by
  obtain ⟨name, hname⟩ := f
  have hall : ∀ name ∈ templateFields.map Prod.fst, (templateFields.lookup name).isSome := by decide
  exact Option.isSome_iff_exists.1 (hall name hname)

/-- The variables of a template are the texts of the fields. -/
theorem emailTemplateData_ok {rt : Runtime} {isNil : String → Bool} {email : ParsedEmail}
    (h : MarshalsEmail rt isNil email) : ∃ data, emailTemplateData rt email = .ok data ∧
      ∀ f : TemplateField, ∃ s, data.lookup f.1 = some s ∧ CompactText s (fieldJson isNil email f) := by
  obtain ⟨raw, hraw, hmembers⟩ := h
  refine ⟨_, by rw [emailTemplateData, hraw]; rfl, fun f => ?_⟩
  obtain ⟨key, hkey⟩ := lookup_templateFields f
  rw [lookup_map fun key => (raw.lookup key).getD "null", hkey, fieldJson, hkey, Option.bind_some]
  have hmember := hmembers key
  split at hmember
  next v hv =>
    obtain ⟨s, hs, htext⟩ := hmember
    exact ⟨s, by rw [Option.map_some, hs, Option.getD_some], by rw [hv]; exact htext⟩
  next hnone =>
    exact ⟨"null", by rw [Option.map_some, hmember, Option.getD_none], by
      rw [hnone]; exact compactText_null⟩

/-! ## Payloads -/

theorem execute_ok {data : List (String × String)} {txt : Action lib.Number → String}
    (heval : ∀ a : Action lib.Number, a.pipeline.eval data = .ok (some (txt a)))
    (t : Template lib.Number) : ∃ out, execute lib data t = .ok out ∧
      (chars out : List (Char ⊕ Empty)) = fillText (fun a => chars (txt a).toList) t := by
  induction t with
  | nil => exact ⟨[], rfl, rfl⟩
  | cons x t ih =>
    obtain ⟨out, hout, hchars⟩ := ih
    rcases x with c | a
    · refine ⟨c :: out, by rw [execute, hout]; rfl, ?_⟩
      rw [fillText_cons_char, ← hchars]
      rfl
    · refine ⟨(txt a).toList ++ out, by rw [execute, heval, hout]; rfl, ?_⟩
      rw [← List.singleton_append, fillText_append, fillText_hole, ← hchars]
      exact List.map_append

theorem Template.text_ne_empty {N : Type} {t : Template N} (h : t ≠ []) : t.text ≠ "" := by
  obtain ⟨x, t, rfl⟩ := List.exists_cons_of_ne_nil h
  intro heq
  have := congrArg String.toList heq
  rcases x with c | a <;> simp [Template.text] at this

/-- A payload is the template with JSON values in its holes: those of plain
    fields are the fields.  `doc` is the value of the template. -/
def PayloadValid (lib : TemplateLib) (rt : Runtime) (isNil : String → Bool) (email : ParsedEmail)
    (wh : WebhookConfig) (doc : HoleJson (Action lib.Number)) : Prop :=
  ∃ out vals, buildPayload rt email wh = .ok out ∧ JsonText isJsonSpace out (doc.fill vals) ∧
    ∀ a f, a.pipeline = .field f → vals a = fieldJson isNil email f

/-- The values that reach a function of a template have no space between brackets. -/
def ValuesUnspaced (lib : TemplateLib) (rt : Runtime) (email : ParsedEmail) : Prop :=
  ∃ data, emailTemplateData rt email = .ok data ∧ ∀ p : Pipeline lib.Number,
    ∃ s, p.eval data = .ok (some s) ∧ ValidJson s ∧ ¬IsSpaced s

theorem valuesUnspaced (hlib : lib.Documented) {rt : Runtime} {isNil : String → Bool}
    {email : ParsedEmail} (hemail : MarshalsEmail rt isNil email) : ValuesUnspaced lib rt email := by
  obtain ⟨data, hdata, hfields⟩ := emailTemplateData_ok hemail
  refine ⟨data, hdata, fun p => ?_⟩
  obtain ⟨s, v, hs, hv⟩ := eval_compact hlib
    (fun f => (hfields f).imp fun s h => ⟨fieldJson isNil email f, h⟩) p
  exact ⟨s, hs, ⟨v, hv.text⟩, hv.not_spaced⟩

theorem payloadValid (hlib : lib.Documented) {rt : Runtime} {isNil : String → Bool}
    {email : ParsedEmail} {wh : WebhookConfig} {t : Template lib.Number}
    {doc : HoleJson (Action lib.Number)} (hdoc : Text isJsonSpace t doc)
    (hwh : wh.payloadTemplate = t.text) (hread : ReadsTemplate lib rt t)
    (hemail : MarshalsEmail rt isNil email) : PayloadValid lib rt isNil email wh doc := by
  obtain ⟨data, hdata, hfields⟩ := emailTemplateData_ok hemail
  -- the text and the value of every hole
  have hholes (a : Action lib.Number) : ∃ s v, a.pipeline.eval data = .ok (some s) ∧
      CompactText s v ∧ ∀ f, a.pipeline = .field f → v = fieldJson isNil email f := by
    by_cases hplain : ∃ f, a.pipeline = .field f
    · obtain ⟨f, hf⟩ := hplain
      obtain ⟨s, hs, hv⟩ := hfields f
      refine ⟨s, _, by rw [hf, Pipeline.eval, hs], hv, fun g hg => ?_⟩
      rw [hf] at hg
      cases hg
      rfl
    · obtain ⟨s, v, hs, hv⟩ := eval_compact hlib
        (fun f => (hfields f).imp fun s h => ⟨fieldJson isNil email f, h⟩) a.pipeline
      exact ⟨s, v, hs, hv, fun f hf => absurd ⟨f, hf⟩ hplain⟩
  choose txt vals heval htext hplain using hholes
  obtain ⟨out, hout, hchars⟩ := execute_ok heval t
  have hexec := hread.execute data fun f => by
    obtain ⟨s, hs, -⟩ := hfields f
    rw [hs]
    rfl
  refine ⟨String.ofList out, vals, ?_, ?_, hplain⟩
  · rw [buildPayload, if_pos (hwh ▸ Template.text_ne_empty hdoc.ne_nil), hdata, hwh, hread.parse]
    simp only [hexec, hout]
    rfl
  · rw [JsonText, String.toList_ofList, hchars]
    exact Text.fill (fun a => (htext a).text) hdoc

/-- The main result. -/
theorem payload_valid (hlib : lib.Documented) {rt : Runtime} {isNil : String → Bool}
    {email : ParsedEmail} {wh : WebhookConfig} {t : Template lib.Number}
    {doc : HoleJson (Action lib.Number)} (hdoc : Text isJsonSpace t doc)
    (hwh : wh.payloadTemplate = t.text) (hread : ReadsTemplate lib rt t)
    (hemail : MarshalsEmail rt isNil email) : PayloadValid lib rt isNil email wh doc ∧
      FunctionsValid lib ∧ ValuesUnspaced lib rt email :=
  ⟨payloadValid hlib hdoc hwh hread hemail, functionsValid hlib, valuesUnspaced hlib hemail⟩

end

/-! ## A template -/

/-- Members that are read back one by one. -/
theorem lookup_members {raw : List (String × String)} {members : List (String × JsonValue)}
    (h : List.Forall₂ (fun r m => r.1 = m.1 ∧ CompactText r.2 m.2) raw members) (key : String) :
    match members.lookup key with
    | some v => ∃ s, raw.lookup key = some s ∧ CompactText s v
    | none => raw.lookup key = none := by
  induction h with
  | nil => rfl
  | @cons r m raw members hrm _ ih =>
    rw [List.lookup_cons, List.lookup_cons, hrm.1]
    cases key == m.1
    · exact ih
    · exact ⟨r.2, rfl, hrm.2⟩

def listText : String := "[\"b@example.org\"]"

abbrev sampleTemplateLib : TemplateLib where
  Number := Unit
  marshal
    | .string s => .ok (quoteJson s)
    | .number () => .ok "0"
    | .bool true => .ok "true"
    | .bool false => .ok "false"
  unmarshalArray s := if s = listText then some [quoteJson "b@example.org"] else none
  unmarshalString s := if s = quoteJson "b@example.org" then some "b@example.org" else none

theorem sampleTemplateLib_documented : sampleTemplateLib.Documented where
  marshal_string s := ⟨_, rfl, compactText_quoteJson s⟩
  marshal_number _ := ⟨"0", "0", rfl, .of_bare (.num (.mk (.inl rfl) (.inl rfl) (.inl rfl) (.inl rfl)))⟩
  marshal_bool b := by
    cases b
    · exact ⟨"false", rfl, .of_bare .false⟩
    · exact ⟨"true", rfl, .of_bare .true⟩
  unmarshalArray space s v els _ hels el hel := by
    have hone : els = [quoteJson "b@example.org"] := by
      simp only at hels
      split at hels
      · exact (Option.some.inj hels).symm
      · cases hels
    rw [hone, List.mem_singleton] at hel
    exact ⟨_, hel ▸ (compactText_quoteJson "b@example.org").text⟩

def templateEmail : ParsedEmail :=
  ⟨"a@example.com", ["b@example.org"], [], "hello", "", "", [], [], none, "a@example.com",
    ["b@example.org"]⟩

def templateEmailText : String :=
  "\x7b\"from\":\"a@example.com\",\"to\":[\"b@example.org\"],\"subject\":\"hello\"," ++
    "\"envelope_from\":\"a@example.com\",\"envelope_to\":[\"b@example.org\"]\x7d"

def templateEmailRaw : List (String × String) :=
  [("from", quoteJson "a@example.com"), ("to", listText), ("subject", quoteJson "hello"),
    ("envelope_from", quoteJson "a@example.com"), ("envelope_to", listText)]

def fromAction : Action sampleTemplateLib.Number := ⟨" .From ", .field ⟨"From", by decide⟩⟩

def firstAction : Action sampleTemplateLib.Number :=
  ⟨" .To | first | default 0 ", .default (.number ()) (.first (.field ⟨"To", by decide⟩))⟩

def pairTemplate : Template sampleTemplateLib.Number :=
  .inl '[' :: ([.inr fromAction] ++ .inl ',' :: [.inr firstAction]) ++ [.inl ']']

def templateRuntime : Runtime :=
  { sampleRuntime sampleText sampleSnapshot with
    marshalEmail := fun _ => templateEmailText
    unmarshalMap := fun s =>
      if s = templateEmailText then .ok templateEmailRaw else .error "unexpected end of JSON input"
    parseTemplate := fun s => if s = pairTemplate.text then .ok () else .error "unclosed action"
    executeTemplate := fun s data =>
      if s = pairTemplate.text then (execute sampleTemplateLib data pairTemplate).map String.ofList
      else .ok s }

theorem payload_valid_pair : PayloadValid sampleTemplateLib templateRuntime (fun _ => true)
    templateEmail { sampleRule.webhook with payloadTemplate := pairTemplate.text }
    (.arr [hole fromAction, hole firstAction]) ∧ FunctionsValid sampleTemplateLib ∧
      ValuesUnspaced sampleTemplateLib templateRuntime templateEmail := by
  have hlist : CompactText listText (.arr [.str "b@example.org"]) :=
    .of_bare (.arr (.one (compactText_quoteJson "b@example.org")))
  have hemail : MarshalsEmail templateRuntime (fun _ => true) templateEmail := by
    refine ⟨templateEmailRaw, by simp [templateRuntime], lookup_members ?_⟩
    exact .cons ⟨rfl, compactText_quoteJson _⟩ (.cons ⟨rfl, hlist⟩ (.cons ⟨rfl, compactText_quoteJson _⟩
      (.cons ⟨rfl, compactText_quoteJson _⟩ (.cons ⟨rfl, hlist⟩ .nil))))
  have hdoc : Text isJsonSpace pairTemplate (.arr [hole fromAction, hole firstAction]) :=
    .of_bare (.arr (.cons (.of_bare (.hole fromAction)) (.one (.of_bare (.hole firstAction)))))
  have hread : ReadsTemplate sampleTemplateLib templateRuntime pairTemplate :=
    ⟨by simp [templateRuntime], fun _ _ => by simp [templateRuntime]⟩
  exact payload_valid sampleTemplateLib_documented hdoc rfl hread hemail

/-- An empty array with a blank in it is not taken for empty. -/
theorem default_keeps_spaced_array : JsonText isJsonSpace "[ ]" (.arr []) ∧
    jsonDefault sampleTemplateLib (.inr (.number ())) (some "[ ]") = .ok (some "[ ]") ∧
    fallback sampleTemplateLib (.inr (.number ())) = .ok (some "0") := by
  refine ⟨.of_bare (.emptyArr ⟨[' '], rfl, ?_⟩), rfl, rfl⟩
  simp [isJsonSpace]

end Mailrelay
