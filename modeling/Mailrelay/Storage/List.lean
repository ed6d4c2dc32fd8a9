/-
  Listing emails (`ListEmails` and `Stats` in `internal/storage/store.go`).

  A list is the emails with a status and a search text, newest first, cut to a
  page.  SQLite orders emails of the same time by a rank of its own.  The search
  is a `LIKE` on five columns, of which two hold JSON arrays; a search text that
  is too long is an error.

  * `mem_select_iff`: which place of the order an email of a page has;
  * `search_finds`: what a search finds;
  * `stats_eq`: the counters are the totals of lists.
-/
import Mathlib.Algebra.BigOperators.Group.List.Lemmas
import Mathlib.Data.List.Dedup
import Mathlib.Data.List.Sort
import Mailrelay.Lib.Like
import Mailrelay.Lib.Paging
import Mailrelay.Storage.Store

namespace Mailrelay

open Lib

structure EmailFilter where
  status : String
  search : String
  limit : ℤ
  offset : ℤ
  deriving DecidableEq, Repr

structure EmailListResult where
  emails : List EmailRecord
  total : ℕ
  deriving DecidableEq, Repr

/-- The text of a status. -/
def EmailStatus.text : EmailStatus → String
  | received => "received"
  | dropped => "dropped"
  | delivered => "delivered"
  | partialFailure => "partial_failure"
  | failed => "failed"
  | rejected => "rejected"

/-- The columns that are searched. -/
def EmailRow.searchColumns (e : EmailRow) : List (List Char) :=
  [e.subject.toList, e.envelopeFrom.toList, jsonStrings (e.envelopeTo.map String.toList),
    e.headerFrom.toList, jsonStrings (e.headerTo.map String.toList)]

/-- `status = ?` -/
def EmailFilter.hasStatus (f : EmailFilter) (e : EmailRow) : Bool :=
  f.status == "" || e.status.text == f.status

/-- The `WHERE` clause. -/
def EmailFilter.accepts (f : EmailFilter) (e : EmailRow) : Bool :=
  f.hasStatus e && (f.search == "" || e.searchColumns.any (sqlLike ('%' :: f.search.toList ++ ['%'])))

/-- SQLite compares no row with a pattern of more than 50000 bytes: the
    statement fails at the first row. -/
def EmailFilter.fails (f : EmailFilter) (db : Db) : Bool :=
  f.search != "" && decide (50000 < f.search.utf8ByteSize + 2) && db.emails.rows.any f.hasStatus

/-- `ORDER BY received_at DESC`, with the rank of emails of the same time. -/
def Newer (rank : Uuid → ℕ) (a b : EmailRow) : Prop :=
  b.receivedAt < a.receivedAt ∨ a.receivedAt = b.receivedAt ∧ rank a.id ≤ rank b.id

instance (rank : Uuid → ℕ) : DecidableRel (Newer rank) := fun _ _ => inferInstanceAs (Decidable (_ ∨ _))

def EmailFilter.matching (f : EmailFilter) (db : Db) : List EmailRow := db.emails.rows.filter f.accepts

/-- `SELECT COUNT(*)` -/
def EmailFilter.count (f : EmailFilter) (db : Db) : ℕ := (f.matching db).length

section
variable (rank : Uuid → ℕ)

def EmailFilter.sorted (f : EmailFilter) (db : Db) : List EmailRow :=
  (f.matching db).insertionSort (Newer rank)

/-- The rows of a page; `LIMIT` is positive, a negative `OFFSET` is 0. -/
def EmailFilter.select (f : EmailFilter) (db : Db) : List EmailRow :=
  ((f.sorted rank db).drop f.offset.toNat).take (if f.limit ≤ 0 then 50 else f.limit).toNat

/-- `ListEmails`, without a result if one of its two statements fails.  They
    may see different databases. -/
def listEmails (f : EmailFilter) (counted selected : Db) : Option EmailListResult :=
  if f.fails counted || f.fails selected then none
  else some
    ⟨(f.select rank selected).map fun e => { e.toEmailRecord with parsedEmail := none }, f.count counted⟩

end

structure Stats where
  total : ℕ
  delivered : ℕ
  dropped : ℕ
  failed : ℕ
  partialFailure : ℕ
  rejected : ℕ
  deriving DecidableEq, Repr

/-- `SELECT status, COUNT(*) … GROUP BY status` -/
def statusGroups (db : Db) : List (EmailStatus × ℕ) :=
  (db.emails.rows.map fun e => e.status).dedup.map fun s =>
    (s, (db.emails.rows.map fun e => e.status).count s)

/-- One row of the loop of `Stats`. -/
def Stats.add (st : Stats) : EmailStatus × ℕ → Stats
  | (status, count) =>
    let st := { st with total := st.total + count }
    match status with
    | .delivered => { st with delivered := count }
    | .dropped => { st with dropped := count }
    | .failed => { st with failed := count }
    | .partialFailure => { st with partialFailure := count }
    | .rejected => { st with rejected := count }
    | .received => st

def stats (db : Db) : Stats := (statusGroups db).foldl Stats.add ⟨0, 0, 0, 0, 0, 0⟩

/-! ## The order of a list -/

section
variable {rank : Uuid → ℕ} {db : Db} {f : EmailFilter} {e : EmailRow}

instance : Std.Total (Newer rank) where
  total a b := by
    unfold Newer
    omega

instance : IsTrans EmailRow (Newer rank) where
  trans a b c hab hbc := by
    unfold Newer at *
    omega

theorem Newer.refl (e : EmailRow) : Newer rank e e := .inr ⟨rfl, le_refl _⟩

theorem EmailFilter.matching_congr {f f' : EmailFilter} (hstatus : f.status = f'.status)
    (hsearch : f.search = f'.search) (db : Db) : f.matching db = f'.matching db := by
  unfold EmailFilter.matching EmailFilter.accepts EmailFilter.hasStatus
  rw [hstatus, hsearch]

theorem EmailFilter.matching_ids (f : EmailFilter) (db : Db) : ((f.matching db).map fun e => e.id).Nodup :=
  (List.filter_sublist.map _).nodup db.emails.nodup

/-- Emails are strictly ordered. -/
theorem EmailFilter.sorted_pairwise (hrank : Function.Injective rank) (f : EmailFilter) (db : Db) :
    (f.sorted rank db).Pairwise fun a b => Newer rank a b ∧ ¬ Newer rank b a := by
  have hperm : (f.sorted rank db).Perm (f.matching db) := List.perm_insertionSort _ _
  have hids : ((f.sorted rank db).map fun e => e.id).Nodup :=
    (hperm.map _).nodup_iff.2 (f.matching_ids db)
  have hsorted : (f.sorted rank db).Pairwise (Newer rank) := List.pairwise_insertionSort _ _
  refine (hsorted.and (List.pairwise_map.1 hids)).imp fun {a b} h => ⟨h.1, fun hba => h.2 ?_⟩
  have hab := h.1
  unfold Newer at hab hba
  exact hrank (by omega)

/-- The number of emails of the list that come before. -/
def EmailFilter.place (rank : Uuid → ℕ) (f : EmailFilter) (db : Db) (e : EmailRow) : ℕ :=
  (f.matching db).countP fun x => !decide (Newer rank e x)

/-- **The emails of a page** are those whose place in the order is on it. -/
theorem mem_select_iff (hrank : Function.Injective rank) :
    e ∈ f.select rank db ↔ e ∈ f.matching db ∧ f.offset.toNat ≤ f.place rank db e ∧
      f.place rank db e < f.offset.toNat + (if f.limit ≤ 0 then 50 else f.limit).toNat := by
  have hperm : (f.sorted rank db).Perm (f.matching db) := List.perm_insertionSort _ _
  have hnodup : (f.sorted rank db).Nodup := hperm.nodup_iff.2 (f.matching_ids db).of_map
  rw [EmailFilter.select, mem_page_iff hnodup, hperm.mem_iff]
  refine and_congr_right fun hm => ?_
  rw [idxOf_eq_countP (f.sorted_pairwise hrank db) (Newer.refl e) (hperm.mem_iff.2 hm),
    hperm.countP_eq, EmailFilter.place]

/-- Every place is below the total. -/
theorem place_lt_count (he : e ∈ f.matching db) : f.place rank db e < f.count db := by
  rw [EmailFilter.place, EmailFilter.count]
  refine lt_of_le_of_ne List.countP_le_length fun heq => ?_
  have := List.countP_eq_length.1 heq e he
  simp [Newer.refl] at this

end

/-! ## What a search finds -/

/-- The text is in the address of a recipient, or in the subject or a sender
    before the first NUL of it, in either case. -/
def EmailRow.Mentions (e : EmailRow) (s : List Char) : Prop :=
  FoundIn s (cString e.subject.toList) ∨ FoundIn s (cString e.envelopeFrom.toList) ∨
    FoundIn s (cString e.headerFrom.toList) ∨ ∃ r ∈ e.envelopeTo ++ e.headerTo, FoundIn s r.toList

section
variable {s : List Char}

theorem cString_jsonStrings (l : List (List Char)) : cString (jsonStrings l) = jsonStrings l :=
  cString_eq_self (nul_not_mem_jsonStrings l)

/-- A recipient is found in the column of the recipients. -/
theorem found_recipient (hs : ∀ c ∈ s, Unescaped c) {l : List String} {r : String} (hr : r ∈ l)
    (h : FoundIn s r.toList) : FoundIn s (cString (jsonStrings (l.map String.toList))) := by
  rw [cString_jsonStrings]
  exact (foundIn_flatMap_escapeGo hs h).jsonStrings (List.mem_map_of_mem hr)

/-- What is mentioned is found. -/
theorem EmailRow.Mentions.found {e : EmailRow} (hs : ∀ c ∈ s, Unescaped c) (h : e.Mentions s) :
    e.searchColumns.any (sqlLike ('%' :: s ++ ['%'])) := by
  have hcolumn : ∃ v ∈ e.searchColumns, FoundIn s (cString v) := by
    rcases h with h | h | h | ⟨r, hr, h⟩
    · exact ⟨_, by simp [EmailRow.searchColumns], h⟩
    · exact ⟨_, by simp [EmailRow.searchColumns], h⟩
    · exact ⟨_, by simp [EmailRow.searchColumns], h⟩
    · rcases List.mem_append.1 hr with hr | hr
      · exact ⟨_, by simp [EmailRow.searchColumns], found_recipient hs hr h⟩
      · exact ⟨jsonStrings (e.headerTo.map String.toList), by simp [EmailRow.searchColumns],
          found_recipient hs hr h⟩
  obtain ⟨v, hv, hfound⟩ := hcolumn
  exact List.any_eq_true.2 ⟨v, hv, sqlLike_of_foundIn (nul_not_mem hs) hfound⟩

end

def sampleListed : EmailRow :=
  ⟨⟨1, 100, "billing@example.com", ["me@example.org"], "billing@example.com", ["me@example.org"],
    "Your invoice", .delivered, "", none, none⟩, none⟩

def sampleList : Db := ((Db.empty.insertEmail sampleListed).toOption).getD .empty

/-- A subject is not searched behind a NUL. -/
example : sqlLike "%invoice%".toList "a\x00invoice".toList = false := by decide +kernel

/-! ## Counters -/

/-- The loop of `Stats` over groups of different statuses. -/
theorem foldl_add (c : EmailStatus → ℕ) {gs : List EmailStatus} (hgs : gs.Nodup) (st : Stats) :
    (gs.map fun s => (s, c s)).foldl Stats.add st =
      { total := st.total + (gs.map c).sum
        delivered := if .delivered ∈ gs then c .delivered else st.delivered
        dropped := if .dropped ∈ gs then c .dropped else st.dropped
        failed := if .failed ∈ gs then c .failed else st.failed
        partialFailure := if .partialFailure ∈ gs then c .partialFailure else st.partialFailure
        rejected := if .rejected ∈ gs then c .rejected else st.rejected } := by
  induction gs generalizing st with
  | nil => simp
  | cons s gs ih =>
    obtain ⟨hs, hgs⟩ := List.nodup_cons.1 hgs
    rw [List.map_cons, List.foldl_cons, ih hgs]
    cases s <;> simp [Stats.add, hs, Nat.add_assoc]

theorem stats_eq (db : Db) :
    stats db =
      { total := db.emails.rows.length
        delivered := (db.emails.rows.map fun e => e.status).count .delivered
        dropped := (db.emails.rows.map fun e => e.status).count .dropped
        failed := (db.emails.rows.map fun e => e.status).count .failed
        partialFailure := (db.emails.rows.map fun e => e.status).count .partialFailure
        rejected := (db.emails.rows.map fun e => e.status).count .rejected } := by
  have hcount (s : EmailStatus) (l : List EmailStatus) :
      (if s ∈ l.dedup then l.count s else 0) = l.count s := by
    split_ifs with h
    · rfl
    · rw [List.mem_dedup] at h
      exact (List.count_eq_zero_of_not_mem h).symm
  rw [stats, statusGroups, foldl_add _ (List.nodup_dedup _)]
  simp only [hcount, Nat.zero_add, List.sum_map_count_dedup_eq_length, List.length_map]

/-- The number of emails with a status is the total of the list for it. -/
theorem count_status (db : Db) (s : EmailStatus) (limit offset : ℤ) :
    EmailFilter.count ⟨s.text, "", limit, offset⟩ db = (db.emails.rows.map fun e => e.status).count s := by
  have htext : ∀ t : EmailStatus, t.text = s.text ↔ t = s := by
    intro t
    cases t <;> cases s <;> simp [EmailStatus.text]
  have hne : s.text ≠ "" := by cases s <;> decide
  rw [EmailFilter.count, EmailFilter.matching, ← List.countP_eq_length_filter, List.count,
    List.countP_map]
  refine List.countP_congr fun e _ => ?_
  simp [EmailFilter.accepts, EmailFilter.hasStatus, hne, htext]

theorem count_all (db : Db) (limit offset : ℤ) :
    EmailFilter.count ⟨"", "", limit, offset⟩ db = db.emails.rows.length := by
  simp [EmailFilter.count, EmailFilter.matching, EmailFilter.accepts, EmailFilter.hasStatus]

end Mailrelay
