/-
  The list of emails in the web UI (`handleList` in `internal/webui/handler.go`).

  A page shows 20 emails of a list, and links to the next page if there is one.
  A reader follows these links while mail arrives; every page is read with two
  statements, the total first.

  * `filter_counts`: the counters of the status bar;
  * `reader_sees_all`: a reader who follows the links to the end sees every
    email that was in the list when it started.
-/
import Mailrelay.Lib.Float
import Mailrelay.Lib.Run
import Mailrelay.Storage.List

namespace Mailrelay

open Lib

/-! ## A page -/

/-- A text of digits as a number, without the error of `strconv.Atoi`. -/
def digitsValue (cs : List Char) : ℤ :=
  if cs ≠ [] ∧ cs.all Char.isDigit then Nat.ofDigitChars 10 cs 0 else 0

def signedValue : List Char → ℤ
  | '-' :: cs => -digitsValue cs
  | '+' :: cs => digitsValue cs
  | cs => digitsValue cs

/-- What is left of `strconv.Atoi` without its error: 0 for a text that is no
    number, the nearest integer for one out of range. -/
def atoiValue (s : String) : ℤ := max minInt64 (min maxInt64 (signedValue s.toList))

def perPage : ℤ := 20

/-- The page of a query. -/
def pageOf (query : String) : ℤ := if atoiValue query < 1 then 1 else atoiValue query

def pageFilter (page : ℤ) (status search : String) : EmailFilter :=
  ⟨status, search, perPage, wrap64 (wrap64 (page - 1) * perPage)⟩

/-- `int(math.Ceil(float64(total) / float64(perPage)))`, at least 1. -/
def totalPages (total : ℕ) : ℕ := max 1 (ceilQuotient (Lib.float64 total) perPage.toNat)

/-- The data of the page. -/
structure ListPage where
  result : EmailListResult
  page : ℤ
  totalPages : ℕ
  filter : EmailFilter
  stats : Stats

/-- `handleList`, with the databases that its three statements see; without a
    page it answers 500. -/
def handleList (rank : Uuid → ℕ) (page status search : String) (counted selected grouped : Db) :
    Option ListPage :=
  let filter := pageFilter (pageOf page) status search
  (listEmails rank filter counted selected).map fun result =>
    ⟨result, pageOf page, totalPages result.total, filter, stats grouped⟩

/-- The text of the page in the link to the next one
    (`if lt .Page .TotalPages` in `list_partial.html`). -/
def ListPage.nextPage (p : ListPage) : Option String :=
  if p.page < p.totalPages then some (toString (p.page + 1)) else none

/-- A segment of the status bar. -/
structure StatusFilter where
  key : String
  label : String
  count : ℕ
  deriving DecidableEq, Repr

def statusFilters (st : Stats) : List StatusFilter :=
  [⟨"", "All", st.total⟩, ⟨"delivered", "Delivered", st.delivered⟩, ⟨"failed", "Failed", st.failed⟩,
    ⟨"partial_failure", "Partial", st.partialFailure⟩, ⟨"dropped", "Dropped", st.dropped⟩,
    ⟨"rejected", "Rejected", st.rejected⟩]

/-- **The counters of the status bar** are the totals of the lists that they
    lead to. -/
theorem filter_counts (db : Db) (f : StatusFilter) (hf : f ∈ statusFilters (stats db)) (page : ℤ) :
    (pageFilter page f.key "").count db = f.count := by
  rw [statusFilters, stats_eq] at hf
  simp only [List.mem_cons, List.not_mem_nil, or_false] at hf
  rcases hf with rfl | rfl | rfl | rfl | rfl | rfl
  · exact count_all db _ _
  · exact count_status db .delivered _ _
  · exact count_status db .failed _ _
  · exact count_status db .partialFailure _ _
  · exact count_status db .dropped _ _
  · exact count_status db .rejected _ _

theorem filter_counts_sample : (pageFilter 1 "delivered" "").count sampleList = 1 :=
  filter_counts sampleList ⟨"delivered", "Delivered", 1⟩ (by decide +kernel) 1

theorem totalPages_of_lt {total : ℕ} (h : total < 2 ^ 53) :
    totalPages total = max 1 ((total + 19) / 20) := by
  rw [totalPages, Lib.float64_of_lt h, ceilQuotient_of_lt (by decide) h]
  rfl

/-- The pages up to the last one hold the whole list. -/
theorem total_le {total : ℕ} (h : total < 2 ^ 53) : total ≤ totalPages total * 20 := by
  rw [totalPages_of_lt h]
  omega

/-! ## A reader -/

theorem pageOf_pos (query : String) : 1 ≤ pageOf query := by
  unfold pageOf
  split_ifs with h
  · exact le_refl _
  · omega

theorem pageOf_empty : pageOf "" = 1 := by decide

/-- A link leads to its page. -/
theorem pageOf_toString {n : ℕ} (h₁ : 1 ≤ n) (h₂ : (n : ℤ) ≤ maxInt64) : pageOf (toString n) = n := by
  have hdigit : ∀ c ∈ Nat.toDigits 10 n, c.isDigit = true := fun c hc =>
    Nat.isDigit_of_mem_toDigits (by decide) (by decide) hc
  have hvalue : signedValue (Nat.toDigits 10 n) = n := by
    unfold signedValue
    split
    -- a number has no sign
    next cs heq => exact absurd (hdigit '-' (by rw [heq]; exact List.mem_cons_self)) (by decide)
    next cs heq => exact absurd (hdigit '+' (by rw [heq]; exact List.mem_cons_self)) (by decide)
    next =>
      rw [digitsValue, if_pos ⟨Nat.toDigits_ne_nil, List.all_eq_true.2 hdigit⟩,
        Nat.ofDigitChars_ten_toDigits]
  have hmin : minInt64 ≤ (n : ℤ) := by
    unfold minInt64
    omega
  have hatoi : atoiValue (toString n) = n := by
    rw [atoiValue, Nat.toString_eq_repr, Nat.toList_repr, hvalue, min_eq_right h₂, max_eq_right hmin]
  rw [pageOf, hatoi, if_neg (by omega)]

/-- A reader of the list with a status and a search. -/
structure ReaderWorld where
  db : Db
  /-- the page that it reads next, as in the link -/
  page : String
  /-- the database of the total, between the two statements of a page -/
  counted : Option Db
  shown : List EmailRecord
  done : Bool

inductive ReaderEvent where
  | count
  /-- the page is sent, with the counters of another database -/
  | select (grouped : Db)
  /-- any other use of the store -/
  | other (db : Db)

section
variable (rank : Uuid → ℕ) (status search : String)

namespace ReaderWorld

def start (db : Db) : ReaderWorld := ⟨db, "", none, [], false⟩

def filter (w : ReaderWorld) : EmailFilter := pageFilter (pageOf w.page) status search

/-- The reader has the page before it, and follows the link to the next one;
    after an error it can load the page again. -/
def answer (w : ReaderWorld) : Option ListPage → ReaderWorld
  | none => { w with counted := none }
  | some p =>
    { w with
      counted := none
      shown := w.shown ++ p.result.emails
      page := p.nextPage.getD w.page
      done := p.nextPage.isNone }

def step (w : ReaderWorld) : ReaderEvent → Option ReaderWorld
  | .count => if w.done = false ∧ w.counted = none then some { w with counted := some w.db } else none
  | .select grouped =>
    w.counted.map fun counted => w.answer (handleList rank w.page status search counted w.db grouped)
  | .other db => some { w with db := db }

end ReaderWorld

/-- The emails of the list stay in it, with the time of their receipt.  Nothing
    is added between the two statements of a page, and there is room in a
    float for the total. -/
def ReaderWorld.Keeps (w : ReaderWorld) : ReaderEvent → Prop
  | .other db =>
    (∀ e ∈ (w.filter status search).matching w.db, ∃ e' ∈ (w.filter status search).matching db,
      e'.id = e.id ∧ e'.receivedAt = e.receivedAt) ∧
    (w.counted.isSome → (w.filter status search).count db = (w.filter status search).count w.db) ∧
    (w.filter status search).count db < 2 ^ 53
  | _ => True

/-- The reader has seen the email, or it is on a page that is still to come. -/
structure ReaderWorld.Awaits (w : ReaderWorld) (e : EmailRow) : Prop where
  reading : w.done = false
  listed : ∃ e' ∈ (w.filter status search).matching w.db, e'.id = e.id ∧ e'.receivedAt = e.receivedAt ∧
    (pageOf w.page - 1) * 20 ≤ (w.filter status search).place rank w.db e'
  counted : ∀ c, w.counted = some c →
    (w.filter status search).count c = (w.filter status search).count w.db
  room : (w.filter status search).count w.db < 2 ^ 53

section
variable {rank status search} {w w' : ReaderWorld} {e : EmailRow}

/-- Places in the list only get later. -/
theorem place_mono {f : EmailFilter} {db db' : Db}
    (hkeeps : ∀ x ∈ f.matching db, ∃ x' ∈ f.matching db', x'.id = x.id ∧ x'.receivedAt = x.receivedAt)
    {e e' : EmailRow} (hid : e'.id = e.id) (htime : e'.receivedAt = e.receivedAt) :
    f.place rank db e ≤ f.place rank db' e' := by
  let key (x : EmailRow) : Uuid × ℤ := (x.id, x.receivedAt)
  let before (k : Uuid × ℤ) : Bool :=
    !decide (k.2 < e.receivedAt ∨ e.receivedAt = k.2 ∧ rank e.id ≤ rank k.1)
  have hplace (db : Db) : f.place rank db e = ((f.matching db).map key).countP before := by
    rw [List.countP_map]
    rfl
  have hplace' : f.place rank db' e' = ((f.matching db').map key).countP before := by
    rw [List.countP_map]
    refine List.countP_congr fun x _ => ?_
    simp [before, key, Newer, hid, htime]
  rw [hplace, hplace']
  refine countP_le_of_subset ?_ ?_ before
  · have hids := f.matching_ids db
    rw [show (f.matching db).map (fun x => x.id) =
      ((f.matching db).map key).map Prod.fst by simp [key]] at hids
    exact hids.of_map
  · intro k hk
    obtain ⟨x, hx, rfl⟩ := List.mem_map.1 hk
    obtain ⟨x', hx', hxid, hxtime⟩ := hkeeps x hx
    exact List.mem_map.2 ⟨x', hx', by simp [key, hxid, hxtime]⟩

/-- The offset of a page that is within the list. -/
theorem offset_of_le {page : ℤ} (h₁ : 1 ≤ page) (h₂ : (page - 1) * 20 < 2 ^ 53) :
    (pageFilter page status search).offset = (page - 1) * 20 := by
  have h₃ : wrap64 (page - 1) = page - 1 :=
    wrap64_of_mem (by unfold minInt64; omega) (by unfold maxInt64; omega)
  rw [pageFilter, h₃, perPage]
  exact wrap64_of_mem (by unfold minInt64; omega) (by unfold maxInt64; omega)

/-- The pages are of one list. -/
theorem matching_pageFilter (page page' : ℤ) (db : Db) :
    (pageFilter page status search).matching db = (pageFilter page' status search).matching db :=
  EmailFilter.matching_congr rfl rfl db

theorem count_pageFilter (page page' : ℤ) (db : Db) :
    (pageFilter page status search).count db = (pageFilter page' status search).count db := by
  rw [EmailFilter.count, EmailFilter.count, matching_pageFilter page page']

theorem place_pageFilter (page page' : ℤ) (db : Db) (x : EmailRow) :
    (pageFilter page status search).place rank db x = (pageFilter page' status search).place rank db x := by
  rw [EmailFilter.place, EmailFilter.place, matching_pageFilter page page']

/-- A page is read: the email is on it, or on a later one. -/
theorem awaits_select (hrank : Function.Injective rank) (h : w.Awaits rank status search e) {grouped : Db}
    (hs : w.step rank status search (.select grouped) = some w') :
    (∃ r ∈ w'.shown, r.id = e.id) ∨ w'.Awaits rank status search e := by
  obtain ⟨hreading, ⟨x, hx, hid, htime, hplace⟩, hcounted, hroom⟩ := h
  obtain ⟨counted, hc, rfl⟩ := Option.map_eq_some_iff.1 hs
  have hlt : (w.filter status search).place rank w.db x < (w.filter status search).count w.db :=
    place_lt_count hx
  have hfirst : 1 ≤ pageOf w.page := pageOf_pos w.page
  cases hlist : listEmails rank (w.filter status search) counted w.db with
  | none =>
    -- an error: the page is still to come
    right
    have herror : handleList rank w.page status search counted w.db grouped = none :=
      Option.map_eq_none_iff.2 hlist
    rw [herror]
    exact ⟨hreading, ⟨x, hx, hid, htime, hplace⟩, nofun, hroom⟩
  | some result =>
    have hpage : handleList rank w.page status search counted w.db grouped =
        some ⟨result, pageOf w.page, totalPages result.total, w.filter status search, stats grouped⟩ :=
      Option.map_eq_some_iff.2 ⟨result, hlist, rfl⟩
    rw [hpage]
    unfold listEmails at hlist
    split_ifs at hlist
    cases hlist
    by_cases hon : (w.filter status search).place rank w.db x < (pageOf w.page - 1) * 20 + 20
    · -- the email is on the page
      left
      have hoffset : (w.filter status search).offset = (pageOf w.page - 1) * 20 :=
        offset_of_le hfirst (by omega)
      have hselected : x ∈ (w.filter status search).select rank w.db := by
        rw [mem_select_iff hrank, hoffset]
        refine ⟨hx, by omega, ?_⟩
        show _ < _ + (if perPage ≤ 0 then 50 else perPage).toNat
        simp only [perPage]
        omega
      exact ⟨_, List.mem_append_right _ (List.mem_map_of_mem hselected), hid⟩
    · -- there are more emails than the pages up to this one hold
      right
      have htotal := hcounted counted hc
      have hpages := total_le hroom
      have hmore : pageOf w.page < totalPages ((w.filter status search).count w.db) := by omega
      have hlast : (totalPages ((w.filter status search).count w.db) : ℤ) ≤ maxInt64 := by
        rw [totalPages_of_lt hroom]
        unfold maxInt64
        omega
      obtain ⟨n, hn⟩ := Int.eq_ofNat_of_zero_le (show 0 ≤ pageOf w.page + 1 by omega)
      have hnext : pageOf (toString (pageOf w.page + 1)) = pageOf w.page + 1 := by
        rw [hn]
        exact pageOf_toString (by omega) (by omega)
      simp only [ReaderWorld.answer, ListPage.nextPage, htotal, if_pos hmore]
      generalize toString (pageOf w.page + 1) = next at hnext ⊢
      have hx' : x ∈ (pageFilter (pageOf next) status search).matching w.db := by
        rwa [matching_pageFilter _ (pageOf w.page)]
      have hroom' : (pageFilter (pageOf next) status search).count w.db < 2 ^ 53 := by
        rwa [count_pageFilter _ (pageOf w.page)]
      have hlater : (pageOf next - 1) * 20 ≤
          (pageFilter (pageOf next) status search).place rank w.db x := by
        rw [place_pageFilter _ (pageOf w.page), hnext, add_sub_cancel_right]
        have hafter : (pageOf w.page - 1) * 20 + 20 ≤ (w.filter status search).place rank w.db x :=
          not_lt.1 hon
        calc pageOf w.page * 20 = (pageOf w.page - 1) * 20 + 20 := by omega
          _ ≤ _ := hafter
      exact ⟨rfl, ⟨x, hx', hid, htime, hlater⟩, nofun, hroom'⟩

theorem answer_db (w : ReaderWorld) (p : Option ListPage) : (w.answer p).db = w.db := by
  cases p with
  | none => rfl
  | some p => rfl

theorem answer_counted (w : ReaderWorld) (p : Option ListPage) : (w.answer p).counted = none := by
  cases p with
  | none => rfl
  | some p => rfl

/-- Pages that were shown stay shown. -/
theorem shown_step {ev : ReaderEvent} (hs : w.step rank status search ev = some w') {r : EmailRecord}
    (hr : r ∈ w.shown) : r ∈ w'.shown := by
  cases ev with
  | count =>
    simp only [ReaderWorld.step] at hs
    split_ifs at hs
    cases hs
    exact hr
  | select grouped =>
    obtain ⟨counted, -, rfl⟩ := Option.map_eq_some_iff.1 hs
    cases handleList rank w.page status search counted w.db grouped with
    | none => exact hr
    | some p => exact List.mem_append_left _ hr
  | other db =>
    cases hs
    exact hr

theorem awaits_step (hrank : Function.Injective rank) {ev : ReaderEvent}
    (h : (∃ r ∈ w.shown, r.id = e.id) ∨ w.Awaits rank status search e)
    (hk : w.Keeps status search ev) (hs : w.step rank status search ev = some w') :
    (∃ r ∈ w'.shown, r.id = e.id) ∨ w'.Awaits rank status search e := by
  rcases h with ⟨r, hr, hid⟩ | h
  · exact .inl ⟨r, shown_step hs hr, hid⟩
  · cases ev with
    | count =>
      simp only [ReaderWorld.step] at hs
      split_ifs at hs
      cases hs
      refine .inr ⟨h.reading, h.listed, fun c hc => ?_, h.room⟩
      obtain rfl := Option.some.inj hc
      rfl
    | select grouped => exact awaits_select hrank h hs
    | other db =>
      obtain ⟨hkeeps, hcount, hroom⟩ := hk
      cases hs
      obtain ⟨x, hx, hid, htime, hplace⟩ := h.listed
      obtain ⟨x', hx', hid', htime'⟩ := hkeeps x hx
      have hmono : (w.filter status search).place rank w.db x ≤ (w.filter status search).place rank db x' :=
        place_mono hkeeps hid' htime'
      refine .inr ⟨h.reading, ⟨x', hx', hid'.trans hid, htime'.trans htime, ?_⟩, fun c hc => ?_, hroom⟩
      · exact hplace.trans (by exact_mod_cast hmono)
      · have hsame := h.counted c hc
        exact hsame.trans (hcount (by rw [hc]; rfl)).symm

end

/-- **A reader sees every email.**  Whatever arrives while it turns the pages:
    when it has come to the last page, every email that was in the list at the
    start, and stayed in it, was on one of the pages. -/
theorem reader_sees_all (hrank : Function.Injective rank) {db : Db} {es : List ReaderEvent}
    {w : ReaderWorld} (hroom : (pageFilter 1 status search).count db < 2 ^ 53)
    (hrun : Run (ReaderWorld.step rank status search) (ReaderWorld.Keeps status search) (.start db) es w)
    (hdone : w.done = true) :
    ∀ e ∈ (pageFilter 1 status search).matching db, ∃ r ∈ w.shown, r.id = e.id := by
  intro e he
  have hstart : (ReaderWorld.start db).Awaits rank status search e :=
    ⟨rfl, ⟨e, he, rfl, rfl, by simp [ReaderWorld.start, pageOf_empty]⟩, nofun, hroom⟩
  rcases hrun.inv (fun _ _ _ hi hk hs => awaits_step hrank hi hk hs) (.inr hstart) with hseen | hawaits
  · exact hseen
  · rw [hawaits.reading] at hdone
    cases hdone

end

/-- A store with some emails. -/
def sampleEmails (n : ℕ) : Db :=
  (List.range n).foldl (fun db i =>
    ((db.insertEmail { sampleListed with id := i, receivedAt := 100 + i }).toOption).getD db) .empty

/-- Two emails arrive between the two pages. -/
def samplePages : List ReaderEvent :=
  [.count, .select (sampleEmails 25), .other (sampleEmails 27), .count, .select (sampleEmails 27)]

theorem reader_sees_all_sample :
    ∃ w : ReaderWorld, exec (ReaderWorld.step id "delivered" "")
      (.start (sampleEmails 25)) samplePages = some w ∧
      w.page = "2" ∧ w.shown.length = 27 ∧
      ∀ e ∈ (pageFilter 1 "delivered" "").matching (sampleEmails 25), ∃ r ∈ w.shown, r.id = e.id := by
  have hexec : (exec (ReaderWorld.step id "delivered" "") (.start (sampleEmails 25)) samplePages).map
      (fun w => (w.done, w.page, w.shown.length)) = some (true, "2", 27) := by decide +kernel
  obtain ⟨w, hw, heq⟩ := Option.map_eq_some_iff.1 hexec
  simp only [Prod.mk.injEq] at heq
  obtain ⟨hdone, hpage, hlength⟩ := heq
  obtain ⟨w₁, hcount, hw₁⟩ := Option.bind_eq_some_iff.1 hw
  obtain ⟨w₂, hselect, hw₂⟩ := Option.bind_eq_some_iff.1 hw₁
  obtain ⟨w₃, harrive, hw₃⟩ := Option.bind_eq_some_iff.1 hw₂
  have hdb : w₂.db = sampleEmails 25 ∧ w₂.counted = none := by
    obtain rfl := Option.some.inj hcount
    rw [ReaderWorld.step, Option.map_some] at hselect
    obtain rfl := Option.some.inj hselect
    simp only [answer_db, answer_counted, ReaderWorld.start, and_self]
  have hstay : ∀ e ∈ (pageFilter 1 "delivered" "").matching (sampleEmails 25),
      ∃ e' ∈ (pageFilter 1 "delivered" "").matching (sampleEmails 27),
        e'.id = e.id ∧ e'.receivedAt = e.receivedAt := by decide +kernel
  have hroom (n : ℕ) (hn : n = 25 ∨ n = 27) :
      (pageFilter 1 "delivered" "").count (sampleEmails n) < 2 ^ 53 := by
    rcases hn with rfl | rfl
    · decide +kernel
    · decide +kernel
  have hkeeps : w₂.Keeps "delivered" "" (.other (sampleEmails 27)) := by
    unfold ReaderWorld.Keeps ReaderWorld.filter
    rw [hdb.1, hdb.2, matching_pageFilter _ 1, matching_pageFilter _ 1, count_pageFilter _ 1]
    exact ⟨hstay, nofun, hroom 27 (.inr rfl)⟩
  have hrun : Run (ReaderWorld.step id "delivered" "") (ReaderWorld.Keeps "delivered" "")
      (.start (sampleEmails 25)) samplePages w := by
    refine .cons trivial hcount (.cons trivial hselect
      (.cons hkeeps harrive (Run.of_exec (fun e he _ => ?_) hw₃)))
    simp only [List.mem_cons, List.not_mem_nil, or_false] at he
    rcases he with rfl | rfl
    · trivial
    · trivial
  exact ⟨w, hw, hpage, hlength,
    reader_sees_all id "delivered" "" Function.injective_id (hroom 25 (.inl rfl)) hrun hdone⟩

end Mailrelay
