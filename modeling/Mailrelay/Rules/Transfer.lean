/-
  Rules as files (`Export` and `Decode` in `internal/rules/transfer.go`).

  `Export` writes JSON; for YAML it reads that text into an untyped value,
  whose numbers are floats, and writes the value.  `Decode` reads either text
  with the YAML library, writes the value as JSON and reads that into
  structures.  So an integer in a YAML file has been a float, and is what
  `encoding/json` writes for it (`readBack`).

  Documents stand for their JSON texts; the YAML library is a parameter.  Keys
  are read as they are written (Go also takes them in another case).

  * `decodeRule_encodeRule`: which rules are read as they were written;
  * `readBack_of_lt`: integers below `2 ^ 53` are;
  * `decode_export_iff`: the main result.
-/
import Mailrelay.Lib.Float
import Mailrelay.Lib.Json
import Mailrelay.Rules.Validate

namespace Mailrelay

open Lib

/-! ## Numbers -/

/-- A number of an untyped value: an `int`, a `float64` that is an integer, or
    another `float64` with its text. -/
inductive Number where
  | int (n : ℤ)
  | float (n : ℤ)
  | real (text : String)
  deriving DecidableEq, Repr

/-- `json.Unmarshal` into an untyped value: an integer as a `float64`. -/
def Number.ofInt (n : ℤ) : Number := .float (n.sign * float64 n.natAbs)

/-- `yaml.Marshal` and back: below a million a float is written without an
    exponent and read as an `int`. -/
def Number.yaml : Number → Number
  | .float n => if n.natAbs < 1000000 then .int n else .float n
  | x => x

/-- `json.Marshal` -/
def Number.marshal : Number → Number
  | .float n => .int (n.sign * shortest n.natAbs)
  | x => x

/-! ## Structures as JSON -/

section
variable {ν : Type}

def omitString (s : String) : Option (Json ν) := if s = "" then none else some (.str s)

def omitList (l : List (Json ν)) : Option (Json ν) := if l.isEmpty then none else some (.arr l)

def omitMap (l : List (String × String)) : Option (Json ν) :=
  if l.isEmpty then none else some (.obj (l.map fun h => (h.1, .str h.2)))

end

def encodeCondition (c : MatchCondition) : Json ℤ :=
  .obj ([("field", .str c.field), ("pattern", .str c.pattern)] ++
    Json.optional "header" (omitString c.header))

def encodeMatch (m : MatcherConfig) : Json ℤ :=
  .obj (Json.optional "mode" (omitString m.mode) ++
    Json.optional "conditions" (omitList (m.conditions.map encodeCondition)))

def encodeWebhook (w : WebhookConfig) : Json ℤ :=
  .obj (Json.optional "signing_secret" (omitString w.signingSecret) ++
    [("url", .str w.url), ("method", .str w.method)] ++
    Json.optional "headers" (omitMap w.headers) ++
    Json.optional "payload_template" (omitString w.payloadTemplate) ++
    Json.optional "timeout" (w.timeout.map fun n => .num n.toInt) ++
    Json.optional "max_retries" (w.maxRetries.map .num) ++
    Json.optional "initial_wait" (w.initialWait.map fun n => .num n.toInt) ++
    Json.optional "max_wait" (w.maxWait.map fun n => .num n.toInt) ++
    Json.optional "retry_on_timeout" (w.retryOnTimeout.map .bool))

def encodeRule (item : TransferRule) : Json ℤ :=
  .obj [("name", .str item.name), ("enabled", .bool item.enabled), ("position", .num item.position),
    ("match", encodeMatch item.«match»), ("webhook", encodeWebhook item.webhook)]

def sensitive : String :=
  "Contains secrets: webhook URLs, headers and payload templates may contain credentials. Store securely."

/-- A `RulesFile`. -/
def encodeFile (items : List TransferRule) : Json ℤ :=
  .obj [("version", .num 1), ("sensitive", .str sensitive), ("rules", .arr (items.map encodeRule))]

/-! ## Structures from JSON -/

/-- A `WebhookConfig` as Go has it, where a nil map is not an empty one. -/
structure GoWebhook where
  config : WebhookConfig
  headers : Option (List (String × String))
  agree : config.headers = headers.getD []
  deriving DecidableEq

/-- A `TransferRule` as Go has it. -/
structure ImportItem where
  name : String
  enabled : Bool
  position : ℤ
  «match» : MatcherConfig
  webhook : GoWebhook
  deriving DecidableEq

def ImportItem.rule (item : ImportItem) : TransferRule :=
  ⟨item.name, item.enabled, item.position, item.«match», item.webhook.config⟩

def decodeString : Json Number → Except Json.Error String
  | .str s => .ok s
  | .null => .ok ""
  | _ => .error (.cannotUnmarshal "string")

def decodeBool : Json Number → Except Json.Error Bool
  | .bool b => .ok b
  | .null => .ok false
  | _ => .error (.cannotUnmarshal "bool")

/-- An `int`: no fraction, no exponent, and 64 bits. -/
def decodeInt : Json Number → Except Json.Error ℤ
  | .num (.int n) =>
    if minInt64 ≤ n ∧ n ≤ maxInt64 then .ok n else .error (.cannotUnmarshal "int")
  | .null => .ok 0
  | _ => .error (.cannotUnmarshal "int")

def decodeSeconds (v : Json Number) : Except Json.Error Int64 := do
  let n ← decodeInt v
  return Int64.ofInt n

/-- A pointer, nil for an absent or null field. -/
def pointer {α : Type} (decode : Json Number → Except Json.Error α) (v : Json Number) :
    Except Json.Error (Option α) := do
  let a ← decode v
  return some a

def decodeList {α : Type} (decode : Json Number → Except Json.Error α) :
    Json Number → Except Json.Error (List α)
  | .arr l => l.mapM decode
  | .null => .ok []
  | _ => .error (.cannotUnmarshal "slice")

def decodeEntry (e : String × Json Number) : Except Json.Error (String × String) := do
  let s ← decodeString e.2
  return (e.1, s)

def decodeMap : Json Number → Except Json.Error (List (String × String))
  | .obj l => l.mapM decodeEntry
  | .null => .ok []
  | _ => .error (.cannotUnmarshal "map[string]string")

def decodeCondition : Json Number → Except Json.Error MatchCondition
  | .obj l => do
    Json.known ["field", "pattern", "header"] l
    let field ← Json.field l "field" "" decodeString
    let pattern ← Json.field l "pattern" "" decodeString
    let header ← Json.field l "header" "" decodeString
    return ⟨field, pattern, header⟩
  | .null => .ok ⟨"", "", ""⟩
  | _ => .error (.cannotUnmarshal "models.MatchCondition")

def decodeMatch : Json Number → Except Json.Error MatcherConfig
  | .obj l => do
    Json.known ["mode", "conditions"] l
    let mode ← Json.field l "mode" "" decodeString
    let conditions ← Json.field l "conditions" [] (decodeList decodeCondition)
    return ⟨mode, conditions⟩
  | .null => .ok ⟨"", []⟩
  | _ => .error (.cannotUnmarshal "models.MatcherConfig")

def webhookKeys : List String :=
  ["signing_secret", "url", "method", "headers", "payload_template", "timeout", "max_retries",
    "initial_wait", "max_wait", "retry_on_timeout"]

/-- The zero `WebhookConfig`. -/
def zeroWebhook : GoWebhook := ⟨⟨"", "", "", [], "", none, none, none, none, none⟩, none, rfl⟩

def decodeWebhook : Json Number → Except Json.Error GoWebhook
  | .obj l => do
    Json.known webhookKeys l
    let signingSecret ← Json.field l "signing_secret" "" decodeString
    let url ← Json.field l "url" "" decodeString
    let method ← Json.field l "method" "" decodeString
    let headers ← Json.field l "headers" none (pointer decodeMap)
    let payloadTemplate ← Json.field l "payload_template" "" decodeString
    let timeout ← Json.field l "timeout" none (pointer decodeSeconds)
    let maxRetries ← Json.field l "max_retries" none (pointer decodeInt)
    let initialWait ← Json.field l "initial_wait" none (pointer decodeSeconds)
    let maxWait ← Json.field l "max_wait" none (pointer decodeSeconds)
    let retryOnTimeout ← Json.field l "retry_on_timeout" none (pointer decodeBool)
    return ⟨⟨signingSecret, url, method, headers.getD [], payloadTemplate, timeout, maxRetries,
      initialWait, maxWait, retryOnTimeout⟩, headers, rfl⟩
  | .null => .ok zeroWebhook
  | _ => .error (.cannotUnmarshal "models.WebhookConfig")

/-- Keys are taken as the tags have them; `encoding/json` also takes them in
    other letter cases. -/
def decodeRule : Json Number → Except Json.Error ImportItem
  | .obj l => do
    Json.known ["name", "enabled", "position", "match", "webhook"] l
    let name ← Json.field l "name" "" decodeString
    let enabled ← Json.field l "enabled" false decodeBool
    let position ← Json.field l "position" 0 decodeInt
    let matcher ← Json.field l "match" ⟨"", []⟩ decodeMatch
    let webhook ← Json.field l "webhook" zeroWebhook decodeWebhook
    return ⟨name, enabled, position, matcher, webhook⟩
  | .null => .ok ⟨"", false, 0, ⟨"", []⟩, zeroWebhook⟩
  | _ => .error (.cannotUnmarshal "models.TransferRule")

/-- The version and the rules of a `RulesFile`, if it has a list of them. -/
def decodeFile : Json Number → Except Json.Error (ℤ × Option (List ImportItem))
  | .obj l => do
    Json.known ["version", "sensitive", "rules"] l
    let version ← Json.field l "version" 0 decodeInt
    let _ ← Json.field l "sensitive" "" decodeString
    let rules ← Json.field l "rules" none (pointer (decodeList decodeRule))
    return (version, rules)
  | .null => .ok (0, none)
  | _ => .error (.cannotUnmarshal "rules.RulesFile")

/-! ## Files -/

structure TransferLib where
  /-- `json.MarshalIndent` -/
  marshalIndent : Json ℤ → String
  /-- `yaml.Marshal` -/
  marshalYaml : Json Number → Except String String
  /-- what a YAML decoder reads, document after document, until `io.EOF`; a
      value that is not JSON is an error -/
  documents : String → List (Except String (Json Number))

inductive Format where
  | json | yaml
  deriving DecidableEq, Repr

inductive TransferError where
  /-- the error of a library -/
  | library (e : String)
  /-- `expected one YAML or JSON document` -/
  | documents
  | json (e : Json.Error)
  /-- `expected version: 1 and a rules list` -/
  | version
  /-- the error of `ValidateImport` -/
  | invalid (e : String)
  deriving DecidableEq, Repr

section
variable (lib : TransferLib) (ruleLib : RuleLib)

/-- `Export` -/
def exportRules (records : List RuleRecord) (format : Format) : Except TransferError String :=
  let f := encodeFile (records.map portable)
  match format with
  | .json => .ok (lib.marshalIndent f)
  | .yaml => (lib.marshalYaml (f.map Number.ofInt)).mapError .library

/-- `Decode`, from the value that was read. -/
def decodeValue (value : Json Number) : Except TransferError (List ImportItem) :=
  match decodeFile (value.map Number.marshal) with
  | .error e => .error (.json e)
  | .ok (version, rules) =>
    match rules with
    | none => .error .version
    | some rules =>
      if version ≠ 1 then .error .version
      else
        match validateImport ruleLib (rules.map ImportItem.rule) with
        | .error e => .error (.invalid e)
        | .ok () => .ok rules

/-- `Decode` -/
def decode (data : String) : Except TransferError (List ImportItem) :=
  match lib.documents data with
  | [] => .error (.library "EOF")
  | .error e :: _ => .error (.library e)
  | [.ok value] => decodeValue ruleLib value
  | .ok _ :: _ => .error .documents

end

/-- The library reads a JSON text with its integers. -/
def TransferLib.ReadsJson (lib : TransferLib) (v : Json ℤ) : Prop :=
  lib.documents (lib.marshalIndent v) = [.ok (v.map .int)]

/-- The library writes a value and reads it back. -/
def TransferLib.RoundTrips (lib : TransferLib) (v : Json Number) : Prop :=
  ∃ data, lib.marshalYaml v = .ok data ∧ lib.documents data = [.ok (v.map Number.yaml)]

/-! ## Integers -/

/-- An integer after a YAML file. -/
def readBack (n : ℤ) : ℤ := n.sign * shortest (float64 n.natAbs)

theorem marshal_ofInt (n : ℤ) : (Number.ofInt n).yaml.marshal = .int (readBack n) := by
  have hsign : (n.sign * (float64 n.natAbs : ℤ)).sign = n.sign ∧
      (n.sign * (float64 n.natAbs : ℤ)).natAbs = float64 n.natAbs := by
    rcases lt_trichotomy n 0 with h | rfl | h
    · have := float64_pos (n := n.natAbs) (by omega)
      rw [Int.sign_eq_neg_one_of_neg h]
      exact ⟨Int.sign_eq_neg_one_of_neg (by omega), by omega⟩
    · exact ⟨rfl, rfl⟩
    · have := float64_pos (n := n.natAbs) (by omega)
      rw [Int.sign_eq_one_of_pos h]
      exact ⟨Int.sign_eq_one_of_pos (by omega), by omega⟩
  unfold Number.ofInt Number.yaml readBack
  simp only [hsign.2]
  split_ifs with hsmall
  · simp only [Number.marshal]
    rw [shortest_of_lt (by omega)]
  · simp only [Number.marshal, hsign]

/-- Integers below `2 ^ 53` are read as they were written. -/
theorem readBack_of_lt {n : ℤ} (h₁ : 0 ≤ n) (h₂ : n < 2 ^ 53) : readBack n = n := by
  have hn : n.natAbs < 2 ^ 53 := by omega
  unfold readBack
  rw [float64_of_lt hn, shortest_of_lt hn, Int.sign_mul_natAbs]

example : readBack (2 ^ 53 + 1) = 9007199254740992 := by decide

example : readBack maxInt64 = 9223372036854776000 := by decide

/-- The integers of a rule. -/
def WebhookConfig.integers (w : WebhookConfig) : List ℤ :=
  w.timeout.toList.map Int64.toInt ++ w.maxRetries.toList ++ w.initialWait.toList.map Int64.toInt ++
    w.maxWait.toList.map Int64.toInt

def RuleSettings.integers (item : TransferRule) : List ℤ := item.position :: item.webhook.integers

/-- Go's `int`s have 64 bits. -/
structure RuleSettings.InRange (item : TransferRule) : Prop where
  position : minInt64 ≤ item.position ∧ item.position ≤ maxInt64
  maxRetries : ∀ n ∈ item.webhook.maxRetries, minInt64 ≤ n ∧ n ≤ maxInt64

/-! ## Fields -/

section
variable {ν μ : Type} (f : ν → μ)

@[simp] theorem map_omitString (s : String) :
    (omitString s : Option (Json ν)).map (Json.map f) = omitString s := by
  unfold omitString
  split_ifs <;> simp

@[simp] theorem map_omitMap (l : List (String × String)) :
    (omitMap l : Option (Json ν)).map (Json.map f) = omitMap l := by
  unfold omitMap
  split_ifs
  · rfl
  · simp [Function.comp_def]

@[simp] theorem map_omitList (l : List (Json ν)) :
    (omitList l).map (Json.map f) = omitList (l.map (Json.map f)) := by
  unfold omitList
  cases l <;> simp

end

section
open Json

@[simp] theorem fieldOf_str (s : String) : fieldOf "" decodeString (some (.str s)) = .ok s := rfl

@[simp] theorem fieldOf_omitString (s : String) : fieldOf "" decodeString (omitString s) = .ok s := by
  unfold omitString
  split_ifs with h
  · rw [h]
    rfl
  · rfl

theorem decodeEntry_str (h : String × String) : decodeEntry (h.1, .str h.2) = .ok h := rfl

@[simp] theorem fieldOf_omitMap (l : List (String × String)) :
    fieldOf none (pointer decodeMap) (omitMap l) = .ok (if l.isEmpty then none else some l) := by
  unfold omitMap
  split_ifs
  · rfl
  · have hmap : decodeMap (.obj (l.map fun h => (h.1, .str h.2))) = .ok l :=
      mapM_of_ok decodeEntry_str l
    simp only [fieldOf, pointer, hmap]
    rfl

theorem fieldOf_omitList {α : Type} {dec : Json Number → Except Json.Error α} {enc : α → Json Number}
    (h : ∀ a, dec (enc a) = .ok a) (l : List α) :
    fieldOf [] (decodeList dec) (omitList (l.map enc)) = .ok l := by
  unfold omitList
  cases l with
  | nil => rfl
  | cons a l =>
    rw [if_neg (by simp)]
    exact mapM_of_ok h (a :: l)

theorem decodeInt_int {m n : ℤ} (hn : minInt64 ≤ n ∧ n ≤ maxInt64) :
    decodeInt (.num (.int m)) = .ok n ↔ m = n := by
  simp only [decodeInt]
  constructor
  · intro h
    split_ifs at h
    exact Except.ok.inj h
  · rintro rfl
    rw [if_pos hn]

theorem decodeSeconds_int {m : ℤ} {n : Int64} :
    decodeSeconds (.num (.int m)) = .ok n ↔ m = n.toInt := by
  have hn : minInt64 ≤ n.toInt ∧ n.toInt ≤ maxInt64 := by
    have h₁ := n.le_toInt
    have h₂ := n.toInt_lt
    unfold minInt64 maxInt64
    omega
  unfold decodeSeconds
  rw [bind_ok]
  constructor
  · rintro ⟨k, hk, hkn⟩
    simp only [decodeInt] at hk
    split_ifs at hk with hm
    obtain rfl := Except.ok.inj hk
    obtain rfl := Except.ok.inj hkn
    unfold minInt64 maxInt64 at hm
    exact (Int64.toInt_ofInt_of_le (by omega) (by omega)).symm
  · rintro rfl
    exact ⟨_, (decodeInt_int hn).2 rfl, by simp [pure, Except.pure]⟩

/-- A pointer to a number. -/
theorem fieldOf_pointer {α : Type} {dec : Json Number → Except Json.Error α} {enc : α → Number}
    {a : Option α} :
    fieldOf none (pointer dec) (a.map fun a => .num (enc a)) = .ok a ↔
      ∀ x ∈ a, dec (.num (enc x)) = .ok x := by
  cases a with
  | none => simp [fieldOf]
  | some a =>
    simp only [Option.map_some, fieldOf, pointer, bind_ok, Option.mem_def, Option.some.injEq,
      forall_eq']
    constructor
    · rintro ⟨b, hb, h⟩
      cases h
      exact hb
    · intro h
      exact ⟨a, h, rfl⟩

@[simp] theorem fieldOf_bool (a : Option Bool) :
    fieldOf none (pointer decodeBool) (a.map .bool) = .ok a := by
  cases a <;> rfl

end

/-! ## Structures -/

section
variable (m : ℤ → ℤ)

theorem decodeCondition_encodeCondition (c : MatchCondition) :
    decodeCondition ((encodeCondition c).map fun n => .int (m n)) = .ok c := by
  simp [encodeCondition, decodeCondition, Json.known_cons, Json.known_optional, Json.field,
    List.lookup_cons, bind, Except.bind, pure, Except.pure]

theorem decodeMatch_encodeMatch (mc : MatcherConfig) :
    decodeMatch ((encodeMatch mc).map fun n => .int (m n)) = .ok mc := by
  have hconditions := fieldOf_omitList (decodeCondition_encodeCondition m) mc.conditions
  simp [encodeMatch, decodeMatch, Json.known_optional_append, Json.known_optional, Json.field,
    List.lookup_append, bind, Except.bind, pure, Except.pure, Function.comp_def, hconditions]

/-- What is read of a webhook. -/
theorem decodeWebhook_ok {l : List (String × Json Number)} {w : GoWebhook} :
    decodeWebhook (.obj l) = .ok w ↔ Json.known webhookKeys l = .ok () ∧
      Json.field l "signing_secret" "" decodeString = .ok w.config.signingSecret ∧
      Json.field l "url" "" decodeString = .ok w.config.url ∧
      Json.field l "method" "" decodeString = .ok w.config.method ∧
      Json.field l "headers" none (pointer decodeMap) = .ok w.headers ∧
      Json.field l "payload_template" "" decodeString = .ok w.config.payloadTemplate ∧
      Json.field l "timeout" none (pointer decodeSeconds) = .ok w.config.timeout ∧
      Json.field l "max_retries" none (pointer decodeInt) = .ok w.config.maxRetries ∧
      Json.field l "initial_wait" none (pointer decodeSeconds) = .ok w.config.initialWait ∧
      Json.field l "max_wait" none (pointer decodeSeconds) = .ok w.config.maxWait ∧
      Json.field l "retry_on_timeout" none (pointer decodeBool) = .ok w.config.retryOnTimeout := by
  obtain ⟨⟨_, _, _, _, _, _, _, _, _, _⟩, headers, hagree⟩ := w
  simp only [decodeWebhook, bind_ok, pure, Except.pure, Except.ok.injEq, GoWebhook.mk.injEq,
    WebhookConfig.mk.injEq]
  constructor
  · rintro ⟨_, h₀, _, h₁, _, h₂, _, h₃, _, h₄, _, h₅, _, h₆, _, h₇, _, h₈, _, h₉, _, h₁₀,
      ⟨rfl, rfl, rfl, _, rfl, rfl, rfl, rfl, rfl, rfl⟩, rfl⟩
    exact ⟨h₀, h₁, h₂, h₃, h₄, h₅, h₆, h₇, h₈, h₉, h₁₀⟩
  · rintro ⟨h₀, h₁, h₂, h₃, h₄, h₅, h₆, h₇, h₈, h₉, h₁₀⟩
    exact ⟨_, h₀, _, h₁, _, h₂, _, h₃, _, h₄, _, h₅, _, h₆, _, h₇, _, h₈, _, h₉, _, h₁₀,
      by simpa using hagree.symm⟩

section
variable {w : WebhookConfig}

/-- What is read of a webhook in which every integer `n` is now `m n`. -/
theorem decodeWebhook_map {w' : GoWebhook} :
    decodeWebhook ((encodeWebhook w).map fun n => .int (m n)) = .ok w' ↔
      w.signingSecret = w'.config.signingSecret ∧ w.url = w'.config.url ∧
      w.method = w'.config.method ∧ (if w.headers.isEmpty then none else some w.headers) = w'.headers ∧
      w.payloadTemplate = w'.config.payloadTemplate ∧
      Json.fieldOf none (pointer decodeSeconds) (w.timeout.map fun n => .num (.int (m n.toInt))) =
        .ok w'.config.timeout ∧
      Json.fieldOf none (pointer decodeInt) (w.maxRetries.map fun n => .num (.int (m n))) =
        .ok w'.config.maxRetries ∧
      Json.fieldOf none (pointer decodeSeconds) (w.initialWait.map fun n => .num (.int (m n.toInt))) =
        .ok w'.config.initialWait ∧
      Json.fieldOf none (pointer decodeSeconds) (w.maxWait.map fun n => .num (.int (m n.toInt))) =
        .ok w'.config.maxWait ∧
      w.retryOnTimeout = w'.config.retryOnTimeout := by
  simp [encodeWebhook, decodeWebhook_ok, Json.known_optional_append, Json.known_cons,
    Json.known_optional, webhookKeys, Json.field, List.lookup_append, List.lookup_cons, Function.comp_def]

theorem forall_integers :
    (∀ n ∈ w.integers, m n = n) ↔
      (∀ n ∈ w.timeout, m n.toInt = n.toInt) ∧ (∀ n ∈ w.maxRetries, m n = n) ∧
        (∀ n ∈ w.initialWait, m n.toInt = n.toInt) ∧ ∀ n ∈ w.maxWait, m n.toInt = n.toInt := by
  simp only [WebhookConfig.integers, List.mem_append, List.mem_map, Option.mem_toList, Option.mem_def,
    or_imp, forall_and, forall_exists_index, and_imp, forall_apply_eq_imp_iff₂, and_assoc]

/-- A webhook as it is read from its JSON: no headers are a nil map. -/
def WebhookConfig.stored (w : WebhookConfig) : GoWebhook where
  config := w
  headers := if w.headers.isEmpty then none else some w.headers
  agree := by
    split_ifs with h
    · exact List.isEmpty_iff.1 h
    · rfl

theorem decodeWebhook_encodeWebhook (hrange : ∀ n ∈ w.maxRetries, minInt64 ≤ n ∧ n ≤ maxInt64) :
    (∃ w', decodeWebhook ((encodeWebhook w).map fun n => .int (m n)) = .ok w' ∧ w'.config = w) ↔
      ∀ n ∈ w.integers, m n = n := by
  have hretries : (∀ n ∈ w.maxRetries, decodeInt (.num (.int (m n))) = .ok n) ↔
      ∀ n ∈ w.maxRetries, m n = n :=
    forall₂_congr fun n hn => decodeInt_int (hrange n hn)
  rw [forall_integers]
  constructor
  · rintro ⟨w', h, rfl⟩
    obtain ⟨-, -, -, -, -, ht, hr, hi, hm, -⟩ := (decodeWebhook_map m).1 h
    simp only [fieldOf_pointer, decodeSeconds_int] at ht hi hm
    exact ⟨ht, hretries.1 (fieldOf_pointer.1 hr), hi, hm⟩
  · rintro ⟨ht, hr, hi, hm⟩
    refine ⟨w.stored, (decodeWebhook_map m).2 ⟨rfl, rfl, rfl, rfl, rfl, ?_, ?_, ?_, ?_, rfl⟩, rfl⟩
    · exact fieldOf_pointer.2 fun n hn => decodeSeconds_int.2 (ht n hn)
    · exact fieldOf_pointer.2 (hretries.2 hr)
    · exact fieldOf_pointer.2 fun n hn => decodeSeconds_int.2 (hi n hn)
    · exact fieldOf_pointer.2 fun n hn => decodeSeconds_int.2 (hm n hn)

end

section
variable {item : TransferRule}

theorem decodeRule_map {i : ImportItem} :
    decodeRule ((encodeRule item).map fun n => .int (m n)) = .ok i ↔
      item.name = i.name ∧ item.enabled = i.enabled ∧
      decodeInt (.num (.int (m item.position))) = .ok i.position ∧ item.«match» = i.«match» ∧
      decodeWebhook ((encodeWebhook item.webhook).map fun n => .int (m n)) = .ok i.webhook := by
  have hmatch : Json.fieldOf ⟨"", []⟩ decodeMatch
      (some ((encodeMatch item.«match»).map fun n => .int (m n))) = .ok item.«match» :=
    decodeMatch_encodeMatch m item.«match»
  obtain ⟨name, enabled, position, matcher, webhook⟩ := i
  simp only [encodeRule, Json.map_obj, List.map_cons, List.map_nil, Json.map_str, Json.map_bool,
    Json.map_num, decodeRule, Json.field, bind_ok]
  constructor
  · rintro ⟨_, -, n, hn, e, he, p, hp, mc, hm, w, hw, h⟩
    cases h
    exact ⟨Except.ok.inj hn, Except.ok.inj he, hp, Except.ok.inj (hmatch.symm.trans hm), hw⟩
  · rintro ⟨rfl, rfl, hp, rfl, hw⟩
    refine ⟨(), by simp [Json.known_cons], _, rfl, _, rfl, _, hp, _, hmatch, _, hw, rfl⟩

/-- **Which rules are read as they were written**, if every integer `n` is now
    `m n`. -/
theorem decodeRule_encodeRule (hrange : item.InRange) :
    (∃ i, decodeRule ((encodeRule item).map fun n => .int (m n)) = .ok i ∧ i.rule = item) ↔
      ∀ n ∈ item.integers, m n = n := by
  have hposition : decodeInt (.num (.int (m item.position))) = .ok item.position ↔
      m item.position = item.position := decodeInt_int hrange.position
  unfold RuleSettings.integers
  rw [List.forall_mem_cons, ← hposition, ← decodeWebhook_encodeWebhook m hrange.maxRetries]
  constructor
  · rintro ⟨i, h, rfl⟩
    obtain ⟨-, -, hp, -, hw⟩ := (decodeRule_map m).1 h
    exact ⟨hp, i.webhook, hw, rfl⟩
  · rintro ⟨hp, w, hw, hcfg⟩
    refine ⟨⟨item.name, item.enabled, item.position, item.«match», w⟩, ?_, ?_⟩
    · exact (decodeRule_map m).2 ⟨rfl, rfl, hp, rfl, hw⟩
    · simp [ImportItem.rule, hcfg]

end

theorem decodeFile_encodeFile {items : List TransferRule} (hversion : m 1 = 1) {version : ℤ}
    {rules : Option (List ImportItem)} :
    decodeFile ((encodeFile items).map fun n => .int (m n)) = .ok (version, rules) ↔
      version = 1 ∧ ∃ l, rules = some l ∧
        (items.map fun item => (encodeRule item).map fun n => .int (m n)).mapM decodeRule = .ok l := by
  have hone : decodeInt (.num (.int (m 1))) = .ok 1 := (decodeInt_int (by decide)).2 hversion
  simp only [encodeFile, Json.map_obj, List.map_cons, List.map_nil, Json.map_str, Json.map_num,
    Json.map_arr, List.map_map, Function.comp_def, decodeFile, Json.field, bind_ok]
  constructor
  · rintro ⟨_, -, v, hv, _, -, rs, hrs, h⟩
    cases h
    obtain ⟨l, hl, h⟩ := bind_ok.1 hrs
    cases h
    exact ⟨Except.ok.inj (hv.symm.trans hone), l, rfl, hl⟩
  · rintro ⟨rfl, l, rfl, hl⟩
    exact ⟨(), by simp [Json.known_cons], _, hone, _, rfl, _, bind_ok.2 ⟨l, hl, rfl⟩, rfl⟩

end

/-! ## Main result -/

section
variable {lib : TransferLib} {ruleLib : RuleLib} {records : List RuleRecord}

/-- **What is accepted**: version 1, and rules that `ValidateImport` accepts. -/
theorem decodeValue_ok {value : Json Number} {l : List ImportItem} :
    decodeValue ruleLib value = .ok l ↔
      decodeFile (value.map Number.marshal) = .ok (1, some l) ∧
        validateImport ruleLib (l.map ImportItem.rule) = .ok () := by
  unfold decodeValue
  constructor
  · intro h
    split at h
    · cases h
    · rename_i version rules hfile
      split at h
      · cases h
      · split_ifs at h with hversion
        split at h
        · cases h
        · rename_i hvalid
          cases h
          rw [not_not.1 hversion] at hfile
          exact ⟨hfile, hvalid⟩
  · rintro ⟨hfile, hvalid⟩
    rw [hfile]
    simp [hvalid]

theorem zero_range : minInt64 ≤ 0 ∧ 0 ≤ maxInt64 := by decide

theorem decodeInt_range {v : Json Number} {n : ℤ} (h : decodeInt v = .ok n) :
    minInt64 ≤ n ∧ n ≤ maxInt64 := by
  unfold decodeInt at h
  split at h
  · split_ifs at h with hn
    cases h
    exact hn
  · cases h
    exact zero_range
  · cases h

theorem decodeRule_range {v : Json Number} {i : ImportItem} (h : decodeRule v = .ok i) :
    minInt64 ≤ i.position ∧ i.position ≤ maxInt64 := by
  unfold decodeRule at h
  split at h
  · obtain ⟨_, _, h⟩ := bind_ok.1 h
    obtain ⟨_, _, h⟩ := bind_ok.1 h
    obtain ⟨_, _, h⟩ := bind_ok.1 h
    obtain ⟨position, hposition, h⟩ := bind_ok.1 h
    obtain ⟨_, _, h⟩ := bind_ok.1 h
    obtain ⟨_, _, h⟩ := bind_ok.1 h
    cases h
    simp only [Json.field] at hposition
    unfold Json.fieldOf at hposition
    split at hposition
    · cases hposition
      exact zero_range
    · cases hposition
      exact zero_range
    · exact decodeInt_range hposition
  · cases h
    exact zero_range
  · cases h

/-- The positions of a file are `int`s. -/
theorem decodeFile_range {v : Json Number} {version : ℤ} {l : List ImportItem}
    (h : decodeFile v = .ok (version, some l)) {i : ImportItem} (hi : i ∈ l) :
    minInt64 ≤ i.position ∧ i.position ≤ maxInt64 := by
  unfold decodeFile at h
  split at h
  · obtain ⟨_, _, h⟩ := bind_ok.1 h
    obtain ⟨_, _, h⟩ := bind_ok.1 h
    obtain ⟨_, _, h⟩ := bind_ok.1 h
    obtain ⟨rules, hrules, h⟩ := bind_ok.1 h
    cases h
    simp only [Json.field] at hrules
    unfold Json.fieldOf at hrules
    split at hrules
    · cases hrules
    · cases hrules
    · obtain ⟨l', hl', h⟩ := bind_ok.1 hrules
      cases h
      unfold decodeList at hl'
      split at hl'
      · obtain ⟨w, -, hw⟩ := exists_of_mapM hl' hi
        exact decodeRule_range hw
      · cases hl'
        cases hi
      · cases hl'
  · cases h
  · cases h

theorem exists_decodeValue {data : String} {l : List ImportItem} (h : decode lib ruleLib data = .ok l) :
    ∃ value, decodeValue ruleLib value = .ok l := by
  unfold decode at h
  split at h
  · cases h
  · cases h
  · exact ⟨_, h⟩
  · cases h

theorem validateImport_of_decode {data : String} {l : List ImportItem}
    (h : decode lib ruleLib data = .ok l) : validateImport ruleLib (l.map ImportItem.rule) = .ok () := by
  obtain ⟨_, hvalue⟩ := exists_decodeValue h
  exact (decodeValue_ok.1 hvalue).2

theorem position_of_decode {data : String} {l : List ImportItem} (h : decode lib ruleLib data = .ok l)
    {i : ImportItem} (hi : i ∈ l) : minInt64 ≤ i.position ∧ i.position ≤ maxInt64 := by
  obtain ⟨_, hvalue⟩ := exists_decodeValue h
  exact decodeFile_range (decodeValue_ok.1 hvalue).1 hi

/-- The rules are read as they were written if every integer is. -/
theorem decodeValue_encodeFile {m : ℤ → ℤ} (hversion : m 1 = 1) {items : List TransferRule}
    (hrange : ∀ item ∈ items, item.InRange) (hvalid : validateImport ruleLib items = .ok ())
    {value : Json Number}
    (hvalue : value.map Number.marshal = (encodeFile items).map fun n => .int (m n)) :
    (∃ l, decodeValue ruleLib value = .ok l ∧ l.map ImportItem.rule = items) ↔
      ∀ item ∈ items, ∀ n ∈ item.integers, m n = n := by
  have hrules : (∃ l, (items.map fun item => (encodeRule item).map fun n => .int (m n)).mapM decodeRule =
      .ok l ∧ l.map ImportItem.rule = items) ↔ ∀ item ∈ items, ∀ n ∈ item.integers, m n = n := by
    rw [mapM_ok]
    exact forall₂_congr fun item hitem => decodeRule_encodeRule m (hrange item hitem)
  rw [← hrules]
  refine exists_congr fun l => ?_
  rw [decodeValue_ok, hvalue, decodeFile_encodeFile m hversion]
  constructor
  · rintro ⟨⟨⟨-, l', hl', h⟩, -⟩, hl⟩
    cases hl'
    exact ⟨h, hl⟩
  · rintro ⟨h, hl⟩
    rw [hl]
    exact ⟨⟨⟨rfl, l, rfl, h⟩, hvalid⟩, rfl⟩

/-- **`Decode` undoes `Export`** iff the file is JSON or every integer of the
    rules is what `encoding/json` writes for its nearest float. -/
theorem decode_export_iff (format : Format) (hnames : (records.map fun r => r.name).Nodup)
    (hvalid : ∀ r ∈ records, validate ruleLib r = .ok ())
    (hrange : ∀ r ∈ records, (portable r).InRange)
    (hjson : lib.ReadsJson (encodeFile (records.map portable)))
    (hyaml : lib.RoundTrips ((encodeFile (records.map portable)).map Number.ofInt)) :
    (∃ l, (exportRules lib records format >>= decode lib ruleLib) = .ok l ∧
        l.map ImportItem.rule = records.map portable) ↔
      format = .json ∨ ∀ r ∈ records, ∀ n ∈ (portable r).integers, readBack n = n := by
  have hitems : validateImport ruleLib (records.map portable) = .ok () := by
    rw [validateImport_ok, List.map_map]
    refine ⟨fun item hitem => ?_, hnames⟩
    obtain ⟨r, hr, rfl⟩ := List.mem_map.1 hitem
    rw [validate_portable]
    exact hvalid r hr
  have hrange' : ∀ item ∈ records.map portable, item.InRange := by
    intro item hitem
    obtain ⟨r, hr, rfl⟩ := List.mem_map.1 hitem
    exact hrange r hr
  cases format with
  | json =>
    have hdecode : (exportRules lib records .json >>= decode lib ruleLib) =
        decodeValue ruleLib ((encodeFile (records.map portable)).map .int) := by
      simp only [exportRules, bind, Except.bind, decode]
      rw [hjson]
    rw [hdecode, decodeValue_encodeFile (m := id) rfl hrange' hitems (Json.map_map _ _ _)]
    simp
  | yaml =>
    obtain ⟨data, hdata, hread⟩ := hyaml
    have hdecode : (exportRules lib records .yaml >>= decode lib ruleLib) =
        decodeValue ruleLib (((encodeFile (records.map portable)).map Number.ofInt).map Number.yaml) := by
      simp only [exportRules, hdata, Except.mapError, bind, Except.bind, decode]
      rw [hread]
    have hvalue : (((encodeFile (records.map portable)).map Number.ofInt).map Number.yaml).map
        Number.marshal = (encodeFile (records.map portable)).map fun n => .int (readBack n) := by
      rw [Json.map_map, Json.map_map]
      simp only [marshal_ofInt]
    rw [hdecode, decodeValue_encodeFile (by decide) hrange' hitems hvalue]
    simp

end

/-- A rule that catches everything, with a timeout of 30 s. -/
def archiveRule (position : ℤ) : RuleRecord :=
  ⟨1, "archive", true, ⟨"", []⟩,
    ⟨"", "https://hooks.example/mail", "POST", [], "", some 30, none, none, none, none⟩, position, 0, 0⟩

/-- Its file in JSON, with the position as text. -/
def archiveJson (position : String) : String :=
  "\x7b\n  \"version\": 1,\n  \"sensitive\": \"" ++ sensitive ++ "\",\n  \"rules\": [\n    \x7b\n" ++
    "      \"name\": \"archive\",\n      \"enabled\": true,\n      \"position\": " ++ position ++
    ",\n      \"match\": \x7b\x7d,\n      \"webhook\": \x7b\n" ++
    "        \"url\": \"https://hooks.example/mail\",\n        \"method\": \"POST\",\n" ++
    "        \"timeout\": 30\n      \x7d\n    \x7d\n  ]\n\x7d"

/-- Its file in YAML. -/
def archiveYaml (position : String) : String :=
  "rules:\n    - enabled: true\n      match: \x7b\x7d\n      name: archive\n      position: " ++ position ++
    "\n      webhook:\n        method: POST\n        timeout: 30\n" ++
    "        url: https://hooks.example/mail\nsensitive: '" ++ sensitive ++ "'\nversion: 1\n"

/-- The libraries on these files. -/
def archiveLib (position : ℤ) (json yaml : String) : TransferLib :=
  let f := encodeFile [portable (archiveRule position)]
  { marshalIndent := fun _ => archiveJson json
    marshalYaml := fun _ => .ok (archiveYaml yaml)
    documents := fun data =>
      if data = archiveJson json then [.ok (f.map .int)]
      else if data = archiveYaml yaml then [.ok ((f.map Number.ofInt).map Number.yaml)]
      else [] }

theorem archiveLib_readsJson (position : ℤ) (json yaml : String) :
    (archiveLib position json yaml).ReadsJson (encodeFile [portable (archiveRule position)]) := by
  simp [TransferLib.ReadsJson, archiveLib]

theorem archiveLib_roundTrips (position : ℤ) {json yaml : String}
    (h : archiveYaml yaml ≠ archiveJson json) :
    (archiveLib position json yaml).RoundTrips
      ((encodeFile [portable (archiveRule position)]).map Number.ofInt) :=
  ⟨archiveYaml yaml, rfl, by simp [archiveLib, h]⟩

theorem decode_export_archive : (∃ l,
    (exportRules (archiveLib 3 "3" "3") [archiveRule 3] .yaml >>=
        decode (archiveLib 3 "3" "3") sampleRuleLib) = .ok l ∧
      l.map ImportItem.rule = [archiveRule 3].map portable) ↔
    Format.yaml = .json ∨ ∀ r ∈ [archiveRule 3], ∀ n ∈ (portable r).integers, readBack n = n :=
  decode_export_iff .yaml (by simp) (by decide +kernel)
    (by
      intro r hr
      rw [List.mem_singleton.1 hr]
      exact ⟨by decide, by rintro n ⟨⟩⟩)
    (archiveLib_readsJson 3 "3" "3") (archiveLib_roundTrips 3 (by decide +kernel))

/-- Its libraries at a position that no float has. -/
def lossyLib : TransferLib := archiveLib 9007199254740993 "9007199254740993" "9.007199254740992e+15"

/-- A position that is no float comes back as another one. -/
theorem export_loses_position :
    validate sampleRuleLib (archiveRule 9007199254740993) = .ok () ∧
      lossyLib.ReadsJson (encodeFile [portable (archiveRule 9007199254740993)]) ∧
      lossyLib.RoundTrips ((encodeFile [portable (archiveRule 9007199254740993)]).map Number.ofInt) ∧
      (exportRules lossyLib [archiveRule 9007199254740993] .yaml >>=
          decode lossyLib sampleRuleLib).toOption.map (fun l => l.map fun item => item.position) =
        some [9007199254740992] := by
  refine ⟨by decide +kernel, archiveLib_readsJson _ _ _, ?_, by decide +kernel⟩
  exact archiveLib_roundTrips _ (by decide +kernel)

end Mailrelay
