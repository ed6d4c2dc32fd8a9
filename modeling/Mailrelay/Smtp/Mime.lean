/-
  The body of a message (`ParseEmail`, `parseMultipart` and `decodeBody` of
  `internal/smtp/parser.go`).

  `parseMultipart` goes through the parts of a multipart, nested ones in the
  same way, and fills in one record: attachments are added to a list, an inline
  text replaces the text that was there.

  * `leaves?`: the leaves of a well-formed part with their decoded contents;
  * `parsePart_leaves`: the recursion is a fold over the leaves;
  * `mime_retained_iff`: the main result.
-/
import Mailrelay.Lib.Base64
import Mailrelay.Smtp.Parser
import Mailrelay.Smtp.QuotedPrintable

namespace Mailrelay

open Lib

/-! ## Parsing -/

/-- What `mime`, `mime/multipart`, `encoding/base64` and `path/filepath`
    provide, and the text of bytes. -/
structure MimeLib where
  unicode : Unicode
  /-- `mime.ParseMediaType`: the type and the parameters -/
  parseMediaType : String → Option (String × List (String × String))
  /-- `base64.NewDecoder`, read to its end -/
  base64 : List UInt8 → Option (List UInt8)
  /-- the decoder of `NextPart` for quoted-printable, read to its end -/
  quotedPrintable : List UInt8 → Option (List UInt8)
  /-- `filepath.Base` -/
  base : String → String
  string : List UInt8 → String

/-- A message or a part: its header, its body, and what `multipart.NewReader`
    makes of the body with the boundary of the header: the parts, and whether
    `NextPart` then fails. -/
inductive MimeTree where
  | node (header : List (String × String)) (body : List UInt8) (parts : List MimeTree)
      (broken : Bool)

def MimeTree.header : MimeTree → List (String × String)
  | node header _ _ _ => header

/-- `strings.HasPrefix` -/
def hasPrefix (pre s : String) : Bool := (afterPrefix? pre s).isSome

def contentType (header : List (String × String)) : String :=
  if get "Content-Type" header = "" then "text/plain" else get "Content-Type" header

/-- A part as `NextPart` gives it: the header, and what `io.ReadAll` gives. -/
structure Part where
  header : List (String × String)
  read : Option (List UInt8)

section
variable (lib : MimeLib)

/-- `NextPart`, which decodes quoted-printable bodies and hides that they were
    encoded. -/
def nextPart (header : List (String × String)) (body : List UInt8) : Part :=
  if lib.unicode.equalFold (get "Content-Transfer-Encoding" header) "quoted-printable" then
    ⟨header.filter fun f => f.1 ≠ "Content-Transfer-Encoding", lib.quotedPrintable body⟩
  else ⟨header, some body⟩

def decodeBody (r : Option (List UInt8)) (encoding : String) : Option (List UInt8) :=
  let encoding := lib.unicode.lower (trimSpace encoding)
  if encoding = "base64" then r.bind lib.base64
  else if encoding = "quoted-printable" then some (newQuotedPrintableReader r)
  else r

/-- `decodeBody` of a part. -/
def Part.decode (part : Part) : Option (List UInt8) :=
  decodeBody lib part.read (get "Content-Transfer-Encoding" part.header)

/-- The `filename` parameter of a disposition. -/
def filenameParam (disposition : String) : String :=
  ((lib.parseMediaType disposition).bind fun m => m.2.lookup "filename").getD ""

/-- `part.FileName()` -/
def partFileName (disposition : String) : String :=
  if filenameParam lib disposition = "" then "" else lib.base (filenameParam lib disposition)

/-- The file name that `parseMultipart` takes. -/
def partFilename (header : List (String × String)) : String :=
  let disposition := get "Content-Disposition" header
  let filename := partFileName lib disposition
  if filename = "" ∧ disposition ≠ "" then filenameParam lib disposition else filename

def appendAttachment (email : MailBody) (filename mediaType : String) (data : List UInt8) : MailBody :=
  { email with attachments := email.attachments ++ [⟨filename, mediaType, Base64.encode data⟩] }

/-- A part that is not a multipart, in the loop of `parseMultipart`. -/
def parseLeaf (mediaType : String) (part : Part) (email : MailBody) : MailBody :=
  let filename := partFilename lib part.header
  if filename ≠ "" ∨ hasPrefix "attachment" (get "Content-Disposition" part.header) then
    match part.decode lib with
    | none => email
    | some data => appendAttachment email filename mediaType data
  else
    match part.decode lib with
    | none => email
    | some body =>
      if hasPrefix "text/html" mediaType then { email with htmlBody := lib.string body }
      else if hasPrefix "text/plain" mediaType then { email with textBody := lib.string body }
      else appendAttachment email filename mediaType body

mutual

/-- The body of the loop of `parseMultipart`. -/
def parsePart : MimeTree → MailBody → Option MailBody
  | .node header body parts broken, email =>
    let part := nextPart lib header body
    match lib.parseMediaType (contentType part.header) with
    | none => some email
    | some (mediaType, _) =>
      if hasPrefix "multipart/" mediaType then parseMultipart broken parts email
      else some (parseLeaf lib mediaType part email)

def parseMultipart (broken : Bool) : List MimeTree → MailBody → Option MailBody
  | [], email => if broken then none else some email
  | part :: parts, email => (parsePart part email).bind (parseMultipart broken parts)

end

/-- `ParseEmail` on the body. -/
def readBody : MimeTree → Option MailBody
  | .node header body parts broken =>
    match lib.parseMediaType (contentType header) with
    | none => some ⟨lib.string body, "", []⟩
    | some (mediaType, _) =>
      if hasPrefix "multipart/" mediaType then parseMultipart lib broken parts ⟨"", "", []⟩
      else
        (decodeBody lib (some body) (get "Content-Transfer-Encoding" header)).map fun body =>
          if hasPrefix "text/html" mediaType then ⟨"", lib.string body, []⟩
          else ⟨lib.string body, "", []⟩

/-! ## Leaves -/

/-- A leaf with its decoded content. -/
structure Leaf where
  mediaType : String
  header : List (String × String)
  data : List UInt8
  deriving DecidableEq, Repr

mutual

/-- The leaves of a well-formed part, in document order; `none` for other parts. -/
def leaves? : MimeTree → Option (List Leaf)
  | .node header body parts broken =>
    let part := nextPart lib header body
    match lib.parseMediaType (contentType part.header) with
    | none => none
    | some (mediaType, _) =>
      if hasPrefix "multipart/" mediaType then partLeaves? broken parts
      else (part.decode lib).map fun data => [⟨mediaType, part.header, data⟩]

def partLeaves? (broken : Bool) : List MimeTree → Option (List Leaf)
  | [] => if broken then none else some []
  | part :: parts =>
    match leaves? part, partLeaves? broken parts with
    | some ls, some ls' => some (ls ++ ls')
    | _, _ => none

end

/-- Whether a message is a multipart. -/
def isMultipart (t : MimeTree) : Bool :=
  ((lib.parseMediaType (contentType t.header)).map fun m => hasPrefix "multipart/" m.1).getD false

/-- The leaves of a well-formed message. -/
def messageLeaves? : MimeTree → Option (List Leaf)
  | .node header body parts broken =>
    match lib.parseMediaType (contentType header) with
    | none => none
    | some (mediaType, _) =>
      if hasPrefix "multipart/" mediaType then partLeaves? lib broken parts
      else
        (decodeBody lib (some body) (get "Content-Transfer-Encoding" header)).map fun data =>
          [⟨mediaType, header, data⟩]

/-- The type of a disposition, without its parameters. -/
def dispositionType (disposition : String) : String :=
  trimSpace (lib.unicode.lower (String.ofList (disposition.toList.takeWhile (· ≠ ';'))))

/-- A leaf that is to become an attachment. -/
def Leaf.isAttachment (l : Leaf) : Bool :=
  partFilename lib l.header ≠ "" ∨
    dispositionType lib (get "Content-Disposition" l.header) = "attachment" ∨
    l.mediaType ≠ "text/plain" ∧ l.mediaType ≠ "text/html"

/-- The bytes are part of those of a text. -/
def TextContains (text : String) (data : List UInt8) : Prop :=
  ∃ before after, text = lib.string (before ++ data ++ after)

/-- No content is lost: attachments have their own ones in order, the others
    are in the texts. -/
structure Retains (ls : List Leaf) (email : ParsedEmail) : Prop where
  attachments : ((ls.filter (Leaf.isAttachment lib)).map fun l => some l.data).Sublist
    (email.attachments.map fun a => Base64.decode a.content)
  texts : ∀ l ∈ ls, l.isAttachment lib = false → l.mediaType = "text/plain" →
    TextContains lib email.textBody l.data
  htmls : ∀ l ∈ ls, l.isAttachment lib = false → l.mediaType = "text/html" →
    TextContains lib email.htmlBody l.data

/-! ## The loop as a fold -/

/-- The first test of `parseMultipart` on a leaf. -/
def Leaf.isNamed (l : Leaf) : Bool :=
  partFilename lib l.header ≠ "" ∨ hasPrefix "attachment" (get "Content-Disposition" l.header)

/-- The leaves that `parseMultipart` stores as attachments, ... -/
def Leaf.isStored (l : Leaf) : Bool :=
  l.isNamed lib || (!hasPrefix "text/html" l.mediaType && !hasPrefix "text/plain" l.mediaType)

/-- ... as HTML ... -/
def Leaf.isHtml (l : Leaf) : Bool := !l.isNamed lib && hasPrefix "text/html" l.mediaType

/-- ... and as text. -/
def Leaf.isText (l : Leaf) : Bool :=
  !l.isNamed lib && !hasPrefix "text/html" l.mediaType && hasPrefix "text/plain" l.mediaType

/-- What a leaf changes in the record. -/
def Leaf.store (email : MailBody) (l : Leaf) : MailBody :=
  if l.isStored lib then appendAttachment email (partFilename lib l.header) l.mediaType l.data
  else if l.isHtml lib then { email with htmlBody := lib.string l.data }
  else { email with textBody := lib.string l.data }

theorem parseLeaf_decoded {mediaType : String} {part : Part} {data : List UInt8}
    (h : part.decode lib = some data) (email : MailBody) :
    parseLeaf lib mediaType part email = Leaf.store lib email ⟨mediaType, part.header, data⟩ := by
  rw [parseLeaf, Leaf.store, Leaf.isStored, Leaf.isHtml, Leaf.isNamed, h]
  by_cases hname : partFilename lib part.header ≠ "" ∨
      hasPrefix "attachment" (get "Content-Disposition" part.header)
  · simp only [hname, if_true, decide_true, Bool.true_or]
  · simp only [hname, if_false, decide_false, Bool.false_or, Bool.not_false, Bool.true_and]
    cases hasPrefix "text/html" mediaType
    · cases hasPrefix "text/plain" mediaType
      · rfl
      · rfl
    · rfl

mutual

theorem parsePart_leaves : ∀ (t : MimeTree) (email : MailBody) {ls : List Leaf},
    leaves? lib t = some ls → parsePart lib t email = some (ls.foldl (Leaf.store lib) email)
  | .node header body parts broken, email, ls, h => by
    rw [leaves?] at h
    rw [parsePart]
    split at h
    next => cases h
    next mediaType params hparse =>
      split at h
      next hmulti =>
        simp only [hmulti, if_true]
        exact parseMultipart_leaves broken parts email h
      next hleaf =>
        obtain ⟨data, hdata, rfl⟩ := Option.map_eq_some_iff.1 h
        simp only [hleaf, Bool.false_eq_true, if_false]
        rw [parseLeaf_decoded lib hdata]
        rfl

theorem parseMultipart_leaves (broken : Bool) : ∀ (parts : List MimeTree) (email : MailBody)
    {ls : List Leaf}, partLeaves? lib broken parts = some ls →
      parseMultipart lib broken parts email = some (ls.foldl (Leaf.store lib) email)
  | [], email, ls, h => by
    rw [partLeaves?] at h
    rw [parseMultipart]
    split at h
    next => cases h
    next hend =>
      cases h
      rw [if_neg hend]
      rfl
  | part :: parts, email, ls, h => by
    rw [partLeaves?] at h
    rw [parseMultipart]
    split at h
    next ls₁ ls₂ h₁ h₂ =>
      cases h
      rw [parsePart_leaves part email h₁, Option.bind_some, parseMultipart_leaves broken parts _ h₂,
        List.foldl_append]
    next => cases h

end

theorem store_attachments (email : MailBody) (l : Leaf) :
    (l.store lib email).attachments = email.attachments ++
      if l.isStored lib then [⟨partFilename lib l.header, l.mediaType, Base64.encode l.data⟩] else [] := by
  rw [Leaf.store]
  split
  next => rfl
  next => split <;> simp

theorem store_textBody (email : MailBody) (l : Leaf) :
    (l.store lib email).textBody = if l.isText lib then lib.string l.data else email.textBody := by
  rw [Leaf.store, Leaf.isStored, Leaf.isHtml, Leaf.isText]
  cases l.isNamed lib <;> cases hasPrefix "text/html" l.mediaType <;>
    cases hasPrefix "text/plain" l.mediaType <;> rfl

theorem store_htmlBody (email : MailBody) (l : Leaf) :
    (l.store lib email).htmlBody = if l.isHtml lib then lib.string l.data else email.htmlBody := by
  rw [Leaf.store, Leaf.isStored, Leaf.isHtml]
  cases l.isNamed lib <;> cases hasPrefix "text/html" l.mediaType <;>
    cases hasPrefix "text/plain" l.mediaType <;> rfl

/-- The attachments of a fold, decoded. -/
theorem foldl_attachments (ls : List Leaf) (email : MailBody) :
    ((ls.foldl (Leaf.store lib) email).attachments.map fun a => Base64.decode a.content) =
      (email.attachments.map fun a => Base64.decode a.content) ++
        (ls.filter (Leaf.isStored lib)).map fun l => some l.data := by
  induction ls generalizing email with
  | nil => simp
  | cons l ls ih =>
    rw [List.foldl_cons, ih, store_attachments, List.filter_cons]
    cases l.isStored lib
    · simp
    · simp

/-- The text of the last of some leaves. -/
def lastText (p : Leaf → Bool) (init : String) (ls : List Leaf) : String :=
  ((ls.filter p).getLast?.map fun l => lib.string l.data).getD init

theorem lastText_cons (p : Leaf → Bool) (init : String) (l : Leaf) (ls : List Leaf) :
    lastText lib p init (l :: ls) = lastText lib p (if p l then lib.string l.data else init) ls := by
  rw [lastText, lastText, List.filter_cons]
  cases p l
  · rfl
  · simp only [if_true, List.getLast?_cons]
    cases (ls.filter p).getLast? <;> rfl

/-- Of several inline texts the last one is left. -/
theorem foldl_textBody (ls : List Leaf) (email : MailBody) :
    (ls.foldl (Leaf.store lib) email).textBody =
      lastText lib (Leaf.isText lib) email.textBody ls := by
  induction ls generalizing email with
  | nil => rfl
  | cons l ls ih => rw [List.foldl_cons, ih, store_textBody, lastText_cons]

theorem foldl_htmlBody (ls : List Leaf) (email : MailBody) :
    (ls.foldl (Leaf.store lib) email).htmlBody =
      lastText lib (Leaf.isHtml lib) email.htmlBody ls := by
  induction ls generalizing email with
  | nil => rfl
  | cons l ls ih => rw [List.foldl_cons, ih, store_htmlBody, lastText_cons]

/-! ## The exact condition -/

/-- The condition on the leaves of a multipart. -/
structure KeepsAll (ls : List Leaf) : Prop where
  attachments : ((ls.filter (Leaf.isAttachment lib)).map Leaf.data).Sublist
    ((ls.filter (Leaf.isStored lib)).map Leaf.data)
  texts : ∀ l ∈ ls, l.isAttachment lib = false → l.mediaType = "text/plain" →
    TextContains lib (lastText lib (Leaf.isText lib) "" ls) l.data
  htmls : ∀ l ∈ ls, l.isAttachment lib = false → l.mediaType = "text/html" →
    TextContains lib (lastText lib (Leaf.isHtml lib) "" ls) l.data

theorem map_some_sublist_iff {α : Type*} {xs ys : List α} :
    (xs.map some).Sublist (ys.map some) ↔ xs.Sublist ys := by
  constructor
  · intro h
    simpa [List.filterMap_map] using h.filterMap id
  · exact fun h => h.map some

/-- On a multipart, nothing is lost if and only if the leaves meet the condition. -/
theorem retains_multipart_iff {ls : List Leaf} {email : ParsedEmail}
    (hatt : email.attachments = (ls.foldl (Leaf.store lib) ⟨"", "", []⟩).attachments)
    (htext : email.textBody = (ls.foldl (Leaf.store lib) ⟨"", "", []⟩).textBody)
    (hhtml : email.htmlBody = (ls.foldl (Leaf.store lib) ⟨"", "", []⟩).htmlBody) :
    Retains lib ls email ↔ KeepsAll lib ls := by
  have hstored := foldl_attachments lib ls ⟨"", "", []⟩
  rw [← hatt, List.map_nil, List.nil_append] at hstored
  have hdata (p : Leaf → Bool) : ((ls.filter p).map fun l => some l.data) =
      ((ls.filter p).map Leaf.data).map some := by
    rw [List.map_map]
    rfl
  rw [foldl_textBody] at htext
  rw [foldl_htmlBody] at hhtml
  constructor
  · rintro ⟨h₁, h₂, h₃⟩
    rw [hstored, hdata, hdata, map_some_sublist_iff] at h₁
    rw [htext] at h₂
    rw [hhtml] at h₃
    exact ⟨h₁, h₂, h₃⟩
  · rintro ⟨h₁, h₂, h₃⟩
    rw [← map_some_sublist_iff, ← hdata, ← hdata, ← hstored] at h₁
    rw [← htext] at h₂
    rw [← hhtml] at h₃
    exact ⟨h₁, h₂, h₃⟩

/-- The condition on a message. -/
def LosesNothing (t : MimeTree) (ls : List Leaf) : Prop :=
  (isMultipart lib t = true → KeepsAll lib ls) ∧
    (isMultipart lib t = false → ∀ l ∈ ls, l.isAttachment lib = false)

theorem parseEmail_body (ml : MailLib) {raw : List String} {fs : List (String × String)}
    {body : MailBody} (hraw : readMessage raw = some fs)
    (readBody : List (String × String) → List String → Option MailBody)
    (h : readBody fs (bodyLines raw) = some body) :
    ∃ email, parseEmail ml readBody raw = some email ∧ email.attachments = body.attachments ∧
      email.textBody = body.textBody ∧ email.htmlBody = body.htmlBody := by
  rw [parseEmail, hraw]
  simp only [h]
  exact ⟨_, rfl, rfl, rfl, rfl⟩

/-- A message that is not a multipart fills in one of the texts. -/
theorem retains_single_iff {l : Leaf} {email : ParsedEmail} (hatt : email.attachments = [])
    (htext : hasPrefix "text/html" l.mediaType = false → email.textBody = lib.string l.data)
    (hhtml : hasPrefix "text/html" l.mediaType = true → email.htmlBody = lib.string l.data) :
    Retains lib [l] email ↔ l.isAttachment lib = false := by
  have hself : lib.string l.data = lib.string ([] ++ l.data ++ []) := by simp
  constructor
  · intro h
    have hatts := h.attachments
    rw [hatt] at hatts
    cases hl : l.isAttachment lib
    · rfl
    · simp [hl] at hatts
  · intro hl
    refine ⟨by simp [hl], fun l' hl' _ htype => ?_, fun l' hl' _ htype => ?_⟩
    · obtain rfl := List.mem_singleton.1 hl'
      refine ⟨[], [], ?_⟩
      rw [htext (by rw [htype]; decide), ← hself]
    · obtain rfl := List.mem_singleton.1 hl'
      refine ⟨[], [], ?_⟩
      rw [hhtml (by rw [htype]; decide), ← hself]

/-- The main result: no content is lost if and only if the leaves of a
    multipart meet the condition, or the message is a single inline text. -/
theorem mime_retained_iff (ml : MailLib) {raw : List String} {t : MimeTree} {ls : List Leaf}
    (hraw : readMessage raw = some t.header) (hls : messageLeaves? lib t = some ls) :
    (∃ email, parseEmail ml (fun _ _ => readBody lib t) raw = some email ∧ Retains lib ls email) ↔
      LosesNothing lib t ls := by
  obtain ⟨header, body, parts, broken⟩ := t
  rw [messageLeaves?] at hls
  rcases hparse : lib.parseMediaType (contentType header) with _ | ⟨mediaType, params⟩
  · simp [hparse] at hls
  · have hkind : isMultipart lib (.node header body parts broken) = hasPrefix "multipart/" mediaType := by
      simp [isMultipart, MimeTree.header, hparse]
    simp only [hparse] at hls
    rw [LosesNothing, hkind]
    cases hmulti : hasPrefix "multipart/" mediaType
    · simp only [hmulti, Bool.false_eq_true, if_false] at hls
      obtain ⟨data, hdata, rfl⟩ := Option.map_eq_some_iff.1 hls
      have hbody : readBody lib (.node header body parts broken) =
          some (if hasPrefix "text/html" mediaType then ⟨"", lib.string data, []⟩
            else ⟨lib.string data, "", []⟩) := by
        simp [readBody, hparse, hmulti, hdata]
      obtain ⟨email, hemail, hatt, htext, hhtml⟩ := parseEmail_body ml hraw (fun _ _ => _) hbody
      have hsingle : Retains lib [⟨mediaType, header, data⟩] email ↔
          Leaf.isAttachment lib ⟨mediaType, header, data⟩ = false := by
        apply retains_single_iff
        · rw [hatt]
          split <;> rfl
        · intro h
          rw [htext, if_neg (by simp [h])]
        · intro h
          rw [hhtml, if_pos h]
      simp [hemail, hsingle]
    · simp only [hmulti, if_true] at hls
      have hbody : readBody lib (.node header body parts broken) =
          some (ls.foldl (Leaf.store lib) ⟨"", "", []⟩) := by
        simp only [readBody, hparse, hmulti, if_true]
        exact parseMultipart_leaves lib broken parts _ hls
      obtain ⟨email, hemail, hatt, htext, hhtml⟩ := parseEmail_body ml hraw (fun _ _ => _) hbody
      have hmany := retains_multipart_iff lib hatt htext hhtml
      simp [hemail, hmany]

end

/-! ## Two messages -/

def ascii (s : String) : List UInt8 := s.toList.map fun c => c.toNat.toUInt8

def asciiText (bytes : List UInt8) : String := String.ofList (bytes.map fun b => Char.ofNat b.toNat)

def sampleMimeLib : MimeLib where
  unicode := .ascii
  parseMediaType v :=
    [("text/plain", ("text/plain", [])), ("text/html", ("text/html", [])),
      ("application/pdf", ("application/pdf", [])),
      ("multipart/mixed; boundary=b", ("multipart/mixed", [("boundary", "b")])),
      ("multipart/alternative; boundary=c", ("multipart/alternative", [("boundary", "c")])),
      ("attachment; filename=doc.pdf", ("attachment", [("filename", "doc.pdf")]))].lookup v
  base64 bytes := Base64.decode (asciiText bytes)
  quotedPrintable := some
  base := id
  string := asciiText

def strictMailLib : MailLib := ⟨.ascii, fun _ => none, fun _ => none, nofun, some⟩

def mixedHeader : List (String × String) := [("Content-Type", "multipart/mixed; boundary=b")]

def textPart (mediaType body : String) : MimeTree :=
  .node [("Content-Type", mediaType)] (ascii body) [] false

def alternativeLines : List String :=
  ["--c", "Content-Type: text/plain", "", "hi", "--c", "Content-Type: text/html", "", "<p>hi</p>", "--c--"]

/-- A text in two forms, and a document. -/
def nestedLines : List String :=
  ["Content-Type: multipart/mixed; boundary=b", "", "--b",
    "Content-Type: multipart/alternative; boundary=c", ""] ++ alternativeLines ++
  ["--b", "Content-Type: application/pdf", "Content-Disposition: attachment; filename=doc.pdf",
    "Content-Transfer-Encoding: base64", "", "SGk=", "--b--"]

/-- The bytes of lines. -/
def joinLines (lines : List String) : List UInt8 := ascii ("\r\n".intercalate lines)

/-- What `multipart.NewReader` makes of these lines. -/
def nestedMail : MimeTree :=
  .node mixedHeader (joinLines (nestedLines.drop 2))
    [.node [("Content-Type", "multipart/alternative; boundary=c")] (joinLines alternativeLines)
        [textPart "text/plain" "hi", textPart "text/html" "<p>hi</p>"] false,
      .node [("Content-Type", "application/pdf"),
        ("Content-Disposition", "attachment; filename=doc.pdf"),
        ("Content-Transfer-Encoding", "base64")] (ascii "SGk=") [] false] false

def nestedLeaves : List Leaf :=
  [⟨"text/plain", [("Content-Type", "text/plain")], ascii "hi"⟩,
    ⟨"text/html", [("Content-Type", "text/html")], ascii "<p>hi</p>"⟩,
    ⟨"application/pdf", [("Content-Type", "application/pdf"),
      ("Content-Disposition", "attachment; filename=doc.pdf"),
      ("Content-Transfer-Encoding", "base64")], ascii "Hi"⟩]

theorem mime_retained_nested : ∃ email,
    parseEmail strictMailLib (fun _ _ => readBody sampleMimeLib nestedMail) nestedLines = some email ∧
      Retains sampleMimeLib nestedLeaves email := by
  have hkeeps : KeepsAll sampleMimeLib nestedLeaves := by
    refine ⟨by decide +kernel, fun l hl _ htype => ⟨[], [], ?_⟩, fun l hl _ htype => ⟨[], [], ?_⟩⟩
    · simp only [nestedLeaves, List.mem_cons, List.not_mem_nil, or_false] at hl
      rcases hl with rfl | rfl | rfl
      · decide +kernel
      · simp at htype
      · simp at htype
    · simp only [nestedLeaves, List.mem_cons, List.not_mem_nil, or_false] at hl
      rcases hl with rfl | rfl | rfl
      · simp at htype
      · decide +kernel
      · simp at htype
  exact (mime_retained_iff sampleMimeLib strictMailLib (by decide +kernel) (by decide +kernel)).2
    ⟨fun _ => hkeeps, fun h => absurd h (by decide +kernel)⟩

def twoTextLines : List String :=
  ["Content-Type: multipart/mixed; boundary=b", "", "--b", "Content-Type: text/plain", "", "one",
    "--b", "Content-Type: text/plain", "", "two", "--b--"]

def twoTexts : MimeTree :=
  .node mixedHeader (joinLines (twoTextLines.drop 2))
    [textPart "text/plain" "one", textPart "text/plain" "two"] false

def twoTextLeaves : List Leaf :=
  [⟨"text/plain", [("Content-Type", "text/plain")], ascii "one"⟩,
    ⟨"text/plain", [("Content-Type", "text/plain")], ascii "two"⟩]

/-- The second of two inline texts replaces the first one. -/
theorem second_text_replaces_first :
    messageLeaves? sampleMimeLib twoTexts = some twoTextLeaves ∧
      (∃ email, parseEmail strictMailLib (fun _ _ => readBody sampleMimeLib twoTexts) twoTextLines =
        some email ∧ email.textBody = "two" ∧ email.attachments = []) ∧
      ¬∃ email, parseEmail strictMailLib (fun _ _ => readBody sampleMimeLib twoTexts) twoTextLines =
        some email ∧ Retains sampleMimeLib twoTextLeaves email := by
  have hparse : ∃ email, parseEmail strictMailLib (fun _ _ => readBody sampleMimeLib twoTexts)
      twoTextLines = some email ∧ email.textBody = "two" ∧ email.attachments = [] := by
    obtain ⟨email, hemail, hatt, htext, -⟩ := parseEmail_body strictMailLib
      (show readMessage twoTextLines = some mixedHeader by decide +kernel)
      (fun _ _ => readBody sampleMimeLib twoTexts) rfl
    refine ⟨email, hemail, ?_, ?_⟩
    · rw [htext]
      decide +kernel
    · rw [hatt]
      decide +kernel
  refine ⟨by decide +kernel, hparse, ?_⟩
  rintro ⟨email, hemail, hret⟩
  obtain ⟨email', hemail', htext, -⟩ := hparse
  obtain rfl : email = email' := Option.some.inj (hemail.symm.trans hemail')
  obtain ⟨before, after, hcontains⟩ := hret.texts _ (.head _) (by decide +kernel) rfl
  rw [htext] at hcontains
  have hlen := congrArg (fun s => s.toList.length) hcontains
  have hsum : before.length + after.length = 0 := by
    simp [sampleMimeLib, asciiText, ascii] at hlen
    omega
  obtain rfl := List.eq_nil_of_length_eq_zero (show before.length = 0 by omega)
  obtain rfl := List.eq_nil_of_length_eq_zero (show after.length = 0 by omega)
  exact absurd hcontains (by decide +kernel)

end Mailrelay
