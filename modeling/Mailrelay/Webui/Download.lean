/-
  Downloads (`handleAttachment`, `handleRaw`, `rawEmailPath` and
  `removeRawEmail` of `internal/webui/handler.go`), and the files that
  `cmd/mailrelay/main.go` writes and cleans up.

  Attachments are read from the row, where `encoding/json` has replaced bytes of
  names that are not UTF-8.  A raw message is a file that is named after the id
  of its email.  Ids come from URLs, which may hold any text, or from the store,
  which gives UUIDs.  File operations do not fail.

  * `attachment_downloaded`: an attachment is downloaded as it was attached;
  * `raw_step`: what one event does to the file of each id and to other files;
  * `raw_files_by_id`: the directory of raw messages is a map from ids to
    messages.
-/
import Mailrelay.Lib.MediaType
import Mailrelay.Lib.Path
import Mailrelay.Lib.Run
import Mailrelay.Smtp.Auth
import Mailrelay.Smtp.Mime
import Mailrelay.System.Files

namespace Mailrelay

open Lib

/-- What a handler answers: the status, the fields that it sets, the body. -/
structure Answer where
  status : ℕ
  header : List (String × List Char)
  body : Bytes
  deriving DecidableEq, Repr

/-- `http.Error` -/
def httpError (error : String) (code : ℕ) : Answer :=
  ⟨code, [("Content-Type", "text/plain; charset=utf-8".toList),
    ("X-Content-Type-Options", "nosniff".toList)], utf8 (error ++ "\n")⟩

def notFound : Answer := httpError "Not Found" 404

/-- The disposition of a download. -/
def downloadAs (filename : String) : List Char :=
  MediaType.formatMediaType "attachment" "filename" (utf8 filename)

theorem downloadAs_read (filename : String) :
    MediaType.paramValue "filename" (downloadAs filename) = some ("attachment".toList, utf8 filename) :=
  MediaType.paramValue_format (by decide +kernel) (by decide +kernel) (by decide +kernel)
    (by decide +kernel)

theorem downloadAs_printable (filename : String) :
    ∀ c ∈ downloadAs filename, c = '\t' ∨ 0x20 ≤ c.toNat ∧ c.toNat ≤ 0x7e :=
  MediaType.format_printable (by decide +kernel) (by decide +kernel)

/-! ## Attachments -/

/-- The name of a download. -/
def attachmentName (filename : String) (idx : ℤ) : String :=
  if filename = "" then "attachment-" ++ toString idx else filename

/-- `found` is what `GetEmail` gives for the id, if it gives an email. -/
def handleAttachment (id indexStr : String) (found : Option EmailRow) : Answer :=
  if id = "" ∨ indexStr = "" then notFound
  else
    match atoi indexStr with
    | none => notFound
    | some idx =>
      if idx < 0 then notFound
      else
        match found.bind fun e => e.parsedEmail with
        | none => notFound
        | some email =>
          match email.attachments[idx.toNat]? with
          | none => notFound
          | some att =>
            match Base64.decode att.content with
            | none => httpError "Internal Server Error" 500
            | some decoded =>
              ⟨200, [("Content-Type", att.contentType.toList),
                ("Content-Disposition", downloadAs (attachmentName att.filename idx))], decoded⟩

section
variable (lib : MimeLib)

/-- The attachment that a leaf is stored as. -/
def Leaf.attachment (l : Leaf) : Attachment :=
  ⟨partFilename lib l.header, l.mediaType, Base64.encode l.data⟩

/-- The leaves of a message that are stored as attachments: those of a
    multipart. -/
def attachedLeaves (t : MimeTree) (ls : List Leaf) : List Leaf :=
  if isMultipart lib t then ls.filter (Leaf.isStored lib) else []

theorem foldl_store_attachments (ls : List Leaf) (email : MailBody) :
    (ls.foldl (Leaf.store lib) email).attachments =
      email.attachments ++ (ls.filter (Leaf.isStored lib)).map (Leaf.attachment lib) := by
  induction ls generalizing email with
  | nil => simp
  | cons l ls ih =>
    rw [List.foldl_cons, ih, store_attachments, List.filter_cons]
    cases l.isStored lib
    · simp
    · simp [Leaf.attachment]

/-- The attachments of a message are its attached leaves, in order. -/
theorem readBody_attachments {t : MimeTree} {ls : List Leaf} (hls : messageLeaves? lib t = some ls) :
    ∃ body, readBody lib t = some body ∧
      body.attachments = (attachedLeaves lib t ls).map (Leaf.attachment lib) := by
  obtain ⟨header, body, parts, broken⟩ := t
  rw [messageLeaves?] at hls
  rcases hparse : lib.parseMediaType (contentType header) with _ | ⟨mediaType, params⟩
  · simp [hparse] at hls
  · have hkind : isMultipart lib (.node header body parts broken) = hasPrefix "multipart/" mediaType := by
      simp [isMultipart, MimeTree.header, hparse]
    simp only [hparse] at hls
    simp only [readBody, hparse, attachedLeaves, hkind]
    cases hmulti : hasPrefix "multipart/" mediaType
    · -- a single text
      simp only [hmulti, Bool.false_eq_true, if_false] at hls
      obtain ⟨data, hdata, -⟩ := Option.map_eq_some_iff.1 hls
      simp only [Bool.false_eq_true, if_false, hdata, Option.map_some]
      refine ⟨_, rfl, ?_⟩
      split
      next => rfl
      next => rfl
    · simp only [hmulti, if_true] at hls
      simp only [if_true]
      exact ⟨_, parseMultipart_leaves lib broken parts _ hls, foldl_store_attachments lib ls _⟩

end

section
variable (lib : MimeLib) (valid : String → String)

/-- What a request for an attachment of these leaves is to answer, where
    `valid` is what `encoding/json` makes of a text. -/
structure Attached (ls : List Leaf) (indexStr : String) (answer : Answer) : Prop where
  found : ∀ (i : ℕ) (l : Leaf), atoi indexStr = some (i : ℤ) → ls[i]? = some l →
    ∃ disposition, answer = ⟨200, [("Content-Type", (valid l.mediaType).toList),
        ("Content-Disposition", disposition)], l.data⟩ ∧
      MediaType.paramValue "filename" disposition =
        some ("attachment".toList, utf8 (attachmentName (valid (partFilename lib l.header)) i)) ∧
      ∀ c ∈ disposition, c = '\t' ∨ 0x20 ≤ c.toNat ∧ c.toNat ≤ 0x7e
  not_found : (∀ i : ℕ, atoi indexStr = some (i : ℤ) → ls.length ≤ i) → answer = notFound

/-- Texts that are valid UTF-8, such as base64, are kept. -/
def KeepsAscii : Prop := ∀ s : String, (∀ c ∈ s.toList, c.toNat < 128) → valid s = s

variable {lib valid}

theorem attached_handleAttachment (hvalid : KeepsAscii valid) {ls : List Leaf} {id : String} {e : EmailRow}
    {email : ParsedEmail} (hid : id ≠ "") (he : e.parsedEmail = some (email.readBack valid))
    (hatt : email.attachments = ls.map (Leaf.attachment lib)) (indexStr : String) :
    Attached lib valid ls indexStr (handleAttachment id indexStr (some e)) := by
  have hstored : (email.readBack valid).attachments =
      ls.map fun l => ⟨valid (partFilename lib l.header), valid l.mediaType, Base64.encode l.data⟩ := by
    simp only [ParsedEmail.readBack, hatt, List.map_map]
    refine List.map_congr_left fun l _ => ?_
    simp only [Function.comp, Leaf.attachment, hvalid _ (Base64.encode_ascii l.data)]
  constructor
  · intro i l hi hl
    have hne : indexStr ≠ "" := by
      rintro rfl
      rw [show atoi "" = none from by decide +kernel] at hi
      cases hi
    have hget : (email.readBack valid).attachments[(i : ℤ).toNat]? =
        some ⟨valid (partFilename lib l.header), valid l.mediaType, Base64.encode l.data⟩ := by
      rw [hstored, Int.toNat_natCast, List.getElem?_map, hl, Option.map_some]
    refine ⟨downloadAs (attachmentName (valid (partFilename lib l.header)) i), ?_, downloadAs_read _,
      downloadAs_printable _⟩
    rw [handleAttachment, if_neg (not_or.2 ⟨hid, hne⟩), hi]
    simp only [if_neg (Int.not_lt.2 (Int.natCast_nonneg i)), Option.bind_some, he, hget,
      Base64.decode_encode]
  · intro hno
    rw [handleAttachment]
    split_ifs with hempty
    · rfl
    cases hi : atoi indexStr with
    | none => rfl
    | some idx =>
      simp only
      split_ifs with hneg
      · rfl
      · have hnat : ((idx.toNat : ℕ) : ℤ) = idx := Int.toNat_of_nonneg (not_lt.1 hneg)
        have hlen := hno idx.toNat (by rw [hi, hnat])
        have hget : (email.readBack valid).attachments[idx.toNat]? = none := by
          rw [hstored, List.getElem?_eq_none_iff, List.length_map]
          exact hlen
        simp only [Option.bind_some, he, hget]

variable (valid) in
/-- The row of `id` gets this parsed email: from a handler, which calls
    `SaveEmail`, or from a replay. -/
inductive SavesEmail (id : Uuid) (email : ParsedEmail) (db db' : Db) : Prop
  | handled (record : EmailRecord) (fuse : Option ℕ) : record.id = id → record.parsedEmail = some email →
      Tx.transaction (saveEmail (record.readBack valid)) fuse db = (.ok (), db') →
        SavesEmail id email db db'
  | replayed (fuse : Option ℕ) : db.hasEmail id = true →
      Tx.transaction (updateParsedEmail valid id email) fuse db = (.ok (), db') → SavesEmail id email db db'

theorem SavesEmail.stored {id : Uuid} {email : ParsedEmail} {db db' : Db}
    (h : SavesEmail valid id email db db') :
    ∃ e, db'.emails.get? id = some e ∧ e.parsedEmail = some (email.readBack valid) := by
  cases h with
  | handled record fuse hid hemail ht =>
    obtain ⟨fuse', hok⟩ := Tx.transaction_ok ht
    obtain ⟨hrows, -⟩ := insertEmail_ok (Tx.stmt_ok hok)
    refine ⟨{ record.readBack valid with deliveryBatch := none }, Table.get?_eq_some.2 ⟨?_, hid⟩, ?_⟩
    · rw [hrows]
      exact List.mem_append_right _ List.mem_cons_self
    · simp [EmailRecord.readBack, hemail]
  | replayed fuse hrow ht =>
    obtain ⟨fuse', hok⟩ := Tx.transaction_ok ht
    obtain rfl := Except.ok.inj (Tx.stmt_ok hok)
    obtain ⟨e, he⟩ := Option.isSome_iff_exists.1 hrow
    rw [Db.get?_updateEmails, he]
    have hkey : e.id = id := Table.get?_key he
    refine ⟨_, rfl, ?_⟩
    simp [hkey]

/-- **An attachment is downloaded as it was attached.**  Once the parsed
    message is in a row, every number that counts an attached leaf of it gives
    the bytes of this leaf under its media type and its file name, in a header
    field of printable characters; no other text finds anything. -/
theorem attachment_downloaded (ml : MailLib) (hvalid : KeepsAscii valid) {raw : List String} {t : MimeTree}
    {ls : List Leaf} (hraw : readMessage raw = some t.header) (hls : messageLeaves? lib t = some ls) :
    ∃ email, parseEmail ml (fun _ _ => readBody lib t) raw = some email ∧
      ∀ email' : ParsedEmail, email'.attachments = email.attachments →
        (∀ (id : Uuid) (db db' : Db), SavesEmail valid id email' db db' →
          ∃ e, db'.emails.get? id = some e ∧ e.parsedEmail = some (email'.readBack valid)) ∧
        ∀ e : EmailRow, e.parsedEmail = some (email'.readBack valid) → ∀ id indexStr : String, id ≠ "" →
          Attached lib valid (attachedLeaves lib t ls) indexStr
            (handleAttachment id indexStr (some e)) := by
  obtain ⟨body, hbody, hatt⟩ := readBody_attachments lib hls
  obtain ⟨email, hemail, hatt', -, -⟩ := parseEmail_body ml hraw (fun _ _ => readBody lib t) hbody
  refine ⟨email, hemail, fun email' hsame => ⟨fun id db db' h => h.stored, fun e he id indexStr hid => ?_⟩⟩
  exact attached_handleAttachment hvalid hid he (by rw [hsame, hatt', hatt]) indexStr

end

theorem attachment_downloaded_sample : ∃ email db' e,
    parseEmail strictMailLib (fun _ _ => readBody sampleMimeLib nestedMail) nestedLines = some email ∧
      Tx.transaction (saveEmail (receivedRecord id 7 email ⟨0, by decide, by decide⟩)) none .empty =
        (.ok (), db') ∧
      db'.emails.get? 7 = some e ∧
      Attached sampleMimeLib id (attachedLeaves sampleMimeLib nestedMail nestedLeaves) "0"
        (handleAttachment "7" "0" (some e)) := by
  have hraw : readMessage nestedLines = some nestedMail.header := by decide +kernel
  have hls : messageLeaves? sampleMimeLib nestedMail = some nestedLeaves := by decide +kernel
  obtain ⟨email, hemail, hdownload⟩ := attachment_downloaded strictMailLib
    (fun _ _ => rfl : KeepsAscii id) hraw hls
  obtain ⟨hstored, hattached⟩ := hdownload email rfl
  have hsaves : SavesEmail id 7 email .empty
      (Tx.transaction (saveEmail (receivedRecord id 7 email ⟨0, by decide, by decide⟩)) none .empty).2 :=
    .handled _ none rfl rfl rfl
  obtain ⟨e, he, hparsed⟩ := hstored _ _ _ hsaves
  exact ⟨email, _, e, hemail, rfl, he, hattached e hparsed "7" "0" (by decide)⟩

/-! ## Raw messages -/

/-- The contents of files, by what their paths name. -/
abbrev Disk := FilePath → Option Bytes

def Disk.write (disk : Disk) (path : List Char) (data : Option Bytes) : Disk :=
  Function.update disk (FilePath.parse path) data

def emlPath (rawEmailDir id : String) : List Char :=
  FilePath.join rawEmailDir.toList (id ++ ".eml").toList

def rawEmailPath (rawEmailDir id : String) : Option (List Char) :=
  if rawEmailDir = "" ∨ id = "" ∨ id = "." ∨ id = ".." ∨ id.toList.any (fun c => c = '/' ∨ c = '\\') then
    none
  else some (emlPath rawEmailDir id)

def hasRawEmail (rawEmailDir id : String) (disk : Disk) : Bool :=
  match rawEmailPath rawEmailDir id with
  | none => false
  | some path => (disk (FilePath.parse path)).isSome

def removeRawEmail (rawEmailDir : String) (disk : Disk) (id : String) : Disk :=
  match rawEmailPath rawEmailDir id with
  | none => disk
  | some path => disk.write path none

/-- The answer with a raw message. -/
def rawAnswer (id : String) (download : Bool) : Option Bytes → Answer
  | none => notFound
  | some data =>
    if download then
      ⟨200, [("Content-Type", "message/rfc822".toList),
        ("Content-Disposition", downloadAs (id ++ ".eml"))], data⟩
    else ⟨200, [("Content-Type", "text/plain; charset=utf-8".toList)], data⟩

def handleRaw (rawEmailDir id : String) (download : Bool) (disk : Disk) : Answer :=
  if id = "" ∨ rawEmailDir = "" then notFound
  else
    match rawEmailPath rawEmailDir id with
    | none => notFound
    | some path => rawAnswer id download (disk (FilePath.parse path))

/-- The text of a UUID. -/
def isUuidText (id : String) : Bool := id.length = 36 ∧ id.toList.all fun c => isLowerHex c || c == '-'

inductive RawEvent where
  /-- the accepting or the rejecting handler -/
  | write (id : String) (rawData : Bytes)
  /-- `handleDelete` with any text of a URL, if `DeleteEmail` succeeds -/
  | delete (id : String)
  /-- `handleDeleteAll` with the ids of `AllEmailIDs` -/
  | deleteAll (ids : List String)
  /-- `cleanupOnce` with the ids of `CleanupExpired` -/
  | cleanup (ids : List String)
  deriving DecidableEq, Repr

namespace RawEvent

def step (rawEmailDir : String) (disk : Disk) : RawEvent → Option Disk
  | write id rawData =>
    if isUuidText id then
      some (if rawEmailDir ≠ "" ∧ 0 < rawData.length then disk.write (emlPath rawEmailDir id) rawData
        else disk)
    else none
  | delete id => some (if id = "" then disk else removeRawEmail rawEmailDir disk id)
  | deleteAll ids =>
    if ids.all isUuidText then
      some (if rawEmailDir ≠ "" then ids.foldl (removeRawEmail rawEmailDir) disk else disk)
    else none
  | cleanup ids =>
    if ids.all isUuidText then
      -- the path is not checked here
      some (if rawEmailDir = "" then disk
        else ids.foldl (fun disk id => disk.write (emlPath rawEmailDir id) none) disk)
    else none

/-- What an event does to a map from ids to raw messages. -/
def apply (raws : String → Option Bytes) : RawEvent → String → Option Bytes
  | write id rawData => if 0 < rawData.length then Function.update raws id (some rawData) else raws
  | delete id => Function.update raws id none
  | deleteAll ids | cleanup ids => fun id => if id ∈ ids then none else raws id

end RawEvent

/-- An id that can name a file. -/
structure IsFileId (id : String) : Prop where
  nonempty : id ≠ ""
  not_dot : id ≠ "."
  not_dots : id ≠ ".."
  no_slash : ∀ c ∈ id.toList, c ≠ '/' ∧ c ≠ '\\'

section
variable {rawEmailDir id : String}

theorem rawEmailPath_eq_some {path : List Char} :
    rawEmailPath rawEmailDir id = some path ↔
      rawEmailDir ≠ "" ∧ IsFileId id ∧ path = emlPath rawEmailDir id := by
  have hany : (id.toList.any fun c => c = '/' ∨ c = '\\') = true ↔
      ¬∀ c ∈ id.toList, c ≠ '/' ∧ c ≠ '\\' := by
    simp only [List.any_eq_true, decide_eq_true_eq, not_forall, not_and_or, not_not, exists_prop]
  rw [rawEmailPath]
  constructor
  · intro h
    split_ifs at h with hbad
    simp only [not_or, hany, not_not] at hbad
    obtain ⟨hdir, h₁, h₂, h₃, h₄⟩ := hbad
    cases h
    exact ⟨hdir, ⟨h₁, h₂, h₃, h₄⟩, rfl⟩
  · rintro ⟨hdir, ⟨h₁, h₂, h₃, h₄⟩, rfl⟩
    rw [if_neg]
    simp only [not_or, hany, not_not]
    exact ⟨hdir, h₁, h₂, h₃, h₄⟩

/-- The text of a UUID can name a file. -/
theorem isFileId_uuid (h : isUuidText id) : IsFileId id := by
  simp only [isUuidText, decide_eq_true_eq] at h
  obtain ⟨hlen, hall⟩ := h
  have hchar : ∀ c ∈ id.toList, c ≠ '/' ∧ c ≠ '\\' := by
    intro c hc
    have hok := List.all_eq_true.1 hall c hc
    constructor
    · rintro rfl
      exact absurd hok (by decide)
    · rintro rfl
      exact absurd hok (by decide)
  refine ⟨?_, ?_, ?_, hchar⟩
  · rintro rfl
    exact absurd hlen (by decide)
  · rintro rfl
    exact absurd hlen (by decide)
  · rintro rfl
    exact absurd hlen (by decide)

/-- The file of an id is an entry of the directory. -/
theorem parse_emlPath (hdir : rawEmailDir ≠ "") (h : IsFileId id) :
    FilePath.parse (emlPath rawEmailDir id) =
      (FilePath.parse rawEmailDir.toList).entry (id ++ ".eml").toList := by
  have hlen : 4 ≤ (id ++ ".eml").toList.length := by
    rw [String.toList_append, List.length_append]
    exact Nat.le_add_left 4 _
  refine FilePath.parse_join (by simpa using hdir) ⟨?_, ?_, ?_, ?_⟩
  · intro heq
    rw [heq] at hlen
    exact absurd hlen (by decide)
  · intro heq
    rw [heq] at hlen
    exact absurd hlen (by decide)
  · intro heq
    rw [heq] at hlen
    exact absurd hlen (by decide)
  · rw [String.toList_append, List.mem_append, not_or]
    exact ⟨fun hc => (h.no_slash '/' hc).1 rfl, by decide⟩

/-- Two ids have two files. -/
theorem emlPath_injective {id' : String} (hdir : rawEmailDir ≠ "") (h : IsFileId id) (h' : IsFileId id')
    (heq : FilePath.parse (emlPath rawEmailDir id) = FilePath.parse (emlPath rawEmailDir id')) :
    id = id' := by
  rw [parse_emlPath hdir h, parse_emlPath hdir h'] at heq
  have hname := FilePath.entry_injective heq
  rw [String.toList_append, String.toList_append] at hname
  exact String.toList_injective (List.append_cancel_right hname)

/-- The files are those of a map from ids to messages; the others are as they
    were. -/
structure HoldsRaws (rawEmailDir : String) (before disk : Disk) (raws : String → Option Bytes) : Prop where
  files : ∀ id, IsFileId id → disk (FilePath.parse (emlPath rawEmailDir id)) = raws id
  unnamed : ∀ id, ¬IsFileId id → raws id = none
  others : ∀ path, (∀ id, path ≠ (FilePath.parse rawEmailDir.toList).entry (id ++ ".eml").toList) →
    disk path = before path

variable {before disk : Disk} {raws : String → Option Bytes}

/-- The file of one id is written or removed. -/
theorem HoldsRaws.update (h : HoldsRaws rawEmailDir before disk raws) (hdir : rawEmailDir ≠ "")
    (hid : IsFileId id) (data : Option Bytes) :
    HoldsRaws rawEmailDir before (disk.write (emlPath rawEmailDir id) data)
      (Function.update raws id data) := by
  refine ⟨fun id' hid' => ?_, fun id' hid' => ?_, fun path hpath => ?_⟩
  · by_cases heq : id' = id
    · rw [heq, Disk.write, Function.update_self, Function.update_self]
    · have hne : FilePath.parse (emlPath rawEmailDir id') ≠ FilePath.parse (emlPath rawEmailDir id) :=
        fun hpath => heq (emlPath_injective hdir hid' hid hpath)
      rw [Disk.write, Function.update_of_ne hne, Function.update_of_ne heq]
      exact h.files id' hid'
  · have hne : id' ≠ id := by
      rintro rfl
      exact hid' hid
    rw [Function.update_of_ne hne]
    exact h.unnamed id' hid'
  · have hne : path ≠ FilePath.parse (emlPath rawEmailDir id) := by
      rw [parse_emlPath hdir hid]
      exact hpath id
    rw [Disk.write, Function.update_of_ne hne]
    exact h.others path hpath

/-- A text that cannot name a file changes nothing. -/
theorem HoldsRaws.remove (h : HoldsRaws rawEmailDir before disk raws) (hdir : rawEmailDir ≠ "")
    (id : String) :
    HoldsRaws rawEmailDir before (removeRawEmail rawEmailDir disk id) (Function.update raws id none) := by
  by_cases hid : IsFileId id
  · rw [removeRawEmail, rawEmailPath_eq_some.2 ⟨hdir, hid, rfl⟩]
    exact h.update hdir hid none
  · have hnone : rawEmailPath rawEmailDir id = none := by
      rw [Option.eq_none_iff_forall_ne_some]
      intro path hpath
      exact hid (rawEmailPath_eq_some.1 hpath).2.1
    rw [removeRawEmail, hnone, ← h.unnamed id hid, Function.update_eq_self]
    exact h

theorem foldl_update_none (raws : String → Option Bytes) (ids : List String) :
    (ids.foldl (fun raws id => Function.update raws id none) raws) =
      fun id => if id ∈ ids then none else raws id := by
  induction ids generalizing raws with
  | nil => simp
  | cons id ids ih =>
    rw [List.foldl_cons, ih]
    funext id'
    by_cases hmem : id' ∈ ids
    · simp [hmem]
    · by_cases heq : id' = id
      · simp [heq]
      · simp [hmem, heq]

/-- The files of several ids are removed, in any way that removes one of them. -/
theorem HoldsRaws.foldl {remove : Disk → String → Disk} {ids : List String}
    (h : HoldsRaws rawEmailDir before disk raws)
    (hremove : ∀ {disk raws}, ∀ id ∈ ids, HoldsRaws rawEmailDir before disk raws →
      HoldsRaws rawEmailDir before (remove disk id) (Function.update raws id none)) :
    HoldsRaws rawEmailDir before (ids.foldl remove disk) fun id => if id ∈ ids then none else raws id := by
  rw [← foldl_update_none]
  induction ids generalizing disk raws with
  | nil => exact h
  | cons id ids ih =>
    rw [List.foldl_cons, List.foldl_cons]
    exact ih (hremove id List.mem_cons_self h) fun id' h' => hremove id' (List.mem_cons_of_mem _ h')

/-- Every event does to the files what it does to the map. -/
theorem raw_step {disk' : Disk} {e : RawEvent} (hdir : rawEmailDir ≠ "")
    (h : HoldsRaws rawEmailDir before disk raws) (hstep : e.step rawEmailDir disk = some disk') :
    HoldsRaws rawEmailDir before disk' (e.apply raws) := by
  cases e with
  | write id rawData =>
    simp only [RawEvent.step] at hstep
    split_ifs at hstep with huuid hlen
    · cases hstep
      rw [RawEvent.apply, if_pos hlen.2]
      exact h.update hdir (isFileId_uuid huuid) rawData
    · cases hstep
      rw [RawEvent.apply, if_neg fun hpos => hlen ⟨hdir, hpos⟩]
      exact h
  | delete id =>
    simp only [RawEvent.step, Option.some.injEq] at hstep
    rw [← hstep, RawEvent.apply]
    split_ifs with hempty
    · have hno : ¬IsFileId id := fun hid => hid.nonempty hempty
      rw [← h.unnamed id hno, Function.update_eq_self]
      exact h
    · exact h.remove hdir id
  | deleteAll ids =>
    simp only [RawEvent.step] at hstep
    split_ifs at hstep
    cases hstep
    exact h.foldl fun id _ h => h.remove hdir id
  | cleanup ids =>
    simp only [RawEvent.step] at hstep
    split_ifs at hstep with huuid
    cases hstep
    exact h.foldl fun id hid h => h.update hdir (isFileId_uuid (List.all_eq_true.1 huuid id hid)) none

/-- What the handlers find under an id. -/
def storedRaw (rawEmailDir : String) (disk : Disk) (id : String) : Option Bytes :=
  (rawEmailPath rawEmailDir id).bind fun path => disk (FilePath.parse path)

theorem storedRaw_eq (h : HoldsRaws rawEmailDir before disk raws) (hdir : rawEmailDir ≠ "") (id : String) :
    storedRaw rawEmailDir disk id = raws id := by
  cases hpath : rawEmailPath rawEmailDir id with
  | none =>
    have hno : ¬IsFileId id := by
      intro hid
      rw [rawEmailPath_eq_some.2 ⟨hdir, hid, rfl⟩] at hpath
      cases hpath
    rw [storedRaw, hpath, h.unnamed id hno]
    rfl
  | some path =>
    obtain ⟨-, hid, rfl⟩ := rawEmailPath_eq_some.1 hpath
    rw [storedRaw, hpath]
    exact h.files id hid

theorem holdsRaws_self (hdir : rawEmailDir ≠ "") (disk : Disk) :
    HoldsRaws rawEmailDir disk disk (storedRaw rawEmailDir disk) := by
  refine ⟨fun id hid => ?_, fun id hid => ?_, fun path _ => rfl⟩
  · rw [storedRaw, rawEmailPath_eq_some.2 ⟨hdir, hid, rfl⟩]
    rfl
  · cases hpath : rawEmailPath rawEmailDir id with
    | none =>
      rw [storedRaw, hpath]
      rfl
    | some path => exact absurd (rawEmailPath_eq_some.1 hpath).2.1 hid

theorem raw_run {disk' : Disk} {es : List RawEvent} (hdir : rawEmailDir ≠ "")
    (hrun : Run (RawEvent.step rawEmailDir) (fun _ _ => True) disk es disk')
    (h : HoldsRaws rawEmailDir before disk raws) :
    HoldsRaws rawEmailDir before disk' (es.foldl RawEvent.apply raws) := by
  induction hrun generalizing raws with
  | nil => exact h
  | cons _ hstep _ ih => exact ih (raw_step hdir h hstep)

theorem handleRaw_eq (hdir : rawEmailDir ≠ "") (id : String) (download : Bool) (disk : Disk) :
    handleRaw rawEmailDir id download disk = rawAnswer id download (storedRaw rawEmailDir disk id) := by
  rw [handleRaw, storedRaw]
  cases hpath : rawEmailPath rawEmailDir id with
  | none =>
    split_ifs
    · rfl
    · rfl
  | some path =>
    have hid := (rawEmailPath_eq_some.1 hpath).2.1
    rw [if_neg (not_or.2 ⟨hid.nonempty, hdir⟩)]
    rfl

/-- **The directory of raw messages is a map from ids to messages.**  Whatever
    texts stand in the URLs, a request for a raw message is answered from the
    message that was written for its id, if it was not deleted since, and no
    other file than `<id>.eml` in the directory changes. -/
theorem raw_files_by_id {disk' : Disk} {es : List RawEvent} (hdir : rawEmailDir ≠ "")
    (hrun : Run (RawEvent.step rawEmailDir) (fun _ _ => True) disk es disk') :
    (∀ id download, handleRaw rawEmailDir id download disk' =
      rawAnswer id download (es.foldl RawEvent.apply (storedRaw rawEmailDir disk) id)) ∧
    (∀ id, hasRawEmail rawEmailDir id disk' =
      (es.foldl RawEvent.apply (storedRaw rawEmailDir disk) id).isSome) ∧
    ∀ path, (∀ id, path ≠ (FilePath.parse rawEmailDir.toList).entry (id ++ ".eml").toList) →
      disk' path = disk path := by
  have hold := raw_run hdir hrun (holdsRaws_self hdir disk)
  refine ⟨fun id download => ?_, fun id => ?_, hold.others⟩
  · rw [handleRaw_eq hdir, storedRaw_eq hold hdir]
  · rw [← storedRaw_eq hold hdir, hasRawEmail, storedRaw]
    cases rawEmailPath rawEmailDir id with
    | none => rfl
    | some path => rfl

end

/-- Two messages; a request to delete a file elsewhere; the first one expires. -/
def sampleRawEvents : List RawEvent :=
  [.write "6f1c0d8e-3b1f-4a57-9c39-2f6d0f4c9a11" (utf8 "one"),
    .write "0b7a4a52-7d0e-4c1b-8f5e-9d3f1c2b6a70" (utf8 "two"),
    .delete "../raw/0b7a4a52-7d0e-4c1b-8f5e-9d3f1c2b6a70",
    .cleanup ["6f1c0d8e-3b1f-4a57-9c39-2f6d0f4c9a11"]]

theorem raw_files_by_id_sample : ∃ disk,
    exec (RawEvent.step "/data/raw") (fun _ => none) sampleRawEvents = some disk ∧
      (∀ id download, handleRaw "/data/raw" id download disk =
        rawAnswer id download (sampleRawEvents.foldl RawEvent.apply
          (storedRaw "/data/raw" fun _ => none) id)) ∧
      (∀ id, hasRawEmail "/data/raw" id disk =
        (sampleRawEvents.foldl RawEvent.apply (storedRaw "/data/raw" fun _ => none) id).isSome) ∧
      ∀ path, (∀ id, path ≠ (FilePath.parse "/data/raw".toList).entry (id ++ ".eml").toList) →
        disk path = none := by
  obtain ⟨disk, hexec⟩ : ∃ disk,
      exec (RawEvent.step "/data/raw") (fun _ => none) sampleRawEvents = some disk :=
    Option.isSome_iff_exists.1 (by decide +kernel)
  exact ⟨disk, hexec, raw_files_by_id (by decide) (Run.of_exec (fun _ _ _ => trivial) hexec)⟩

end Mailrelay
