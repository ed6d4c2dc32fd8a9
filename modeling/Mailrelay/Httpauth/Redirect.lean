/-
  Where a login leads (`safeRedirect` of `internal/httpauth/httpauth.go`).

  `safeRedirect` checks the destination as it is given.  `http.Redirect` then
  resolves the dot segments of the part before the first `?`, and nothing
  checks what is left: after `/./\host` browsers leave the site, and
  `/./auth/login` is back at the login.

  * `httpRedirect_target` is the `Location` in terms of the kept segments;
  * `redirect_on_site_iff`: a `Location` is on site if and only if the first
    kept segment of a destination that passes the checks does not begin with a
    backslash and does not lead under `/auth/`.
-/
import Mailrelay.Httpauth.Session
import Mailrelay.Lib.Url

namespace Mailrelay

open Lib

/-! ## The redirect -/

/-- The text before the query. -/
def beforeQuery (u : String) : List Char := u.toList.takeWhile (· ≠ '?')

/-- The query, with its question mark. -/
def queryOf (u : String) : List Char := u.toList.dropWhile (· ≠ '?')

/-- The part before the query cleaned, with a slash at its end if it had one. -/
def cleanTarget (target : String) : List Char :=
  let path := cleanRooted (beforeQuery target)
  if (beforeQuery target).getLast? = some '/' ∧ path.getLast? ≠ some '/' then path ++ ['/'] else path

/-- `http.Redirect` to a target that begins with `/`: the `Location`. -/
def httpRedirect (lib : AuthLib) (target : String) : String :=
  String.ofList <| escapeNonASCII <|
    match lib.parseURL target with
    | none => target.toList
    | some (scheme, host, _) =>
      if scheme = "" ∧ host = "" then cleanTarget target ++ queryOf target else target.toList

/-- The `Location` of `CallbackHandler` for a destination that was stored. -/
def location (lib : AuthLib) (next : String) : String := httpRedirect lib (safeRedirect lib next)

/-! ## On site -/

/-- The path of a reference that begins with `/`, with its escapes read. -/
def decodedPath (url : List Char) : List UInt8 :=
  unescape (url.takeWhile fun c => c ≠ '?' ∧ c ≠ '#')

structure OnSite (loc : String) : Prop where
  rooted : loc.toList.head? = some '/'
  second : ∀ c, loc.toList[1]? = some c → c ≠ '/' ∧ c ≠ '\\'
  printable : ∀ c ∈ loc.toList, c ≠ '\r' ∧ c ≠ '\n' ∧ c ≠ '\t'
  notAuth : ¬unescape "/auth/".toList <+: decodedPath loc.toList

/-- The destinations that pass the checks of `safeRedirect`. -/
structure PassesChecks (lib : AuthLib) (u : String) : Prop where
  rooted : ∃ cs, u.toList = '/' :: cs ∧ cs.head? ≠ some '/' ∧ cs.head? ≠ some '\\'
  printable : ∀ c ∈ u.toList, c ≠ '\r' ∧ c ≠ '\n' ∧ c ≠ '\t'
  parses : ∃ path, lib.parseURL u = some ("", "", path) ∧ afterPrefix? "/auth/" path = none

/-- The first kept segment leads under `/auth/`: by itself, through an escaped
    slash, or with what follows. -/
def LeadsToAuth (seg : List Char) (more : Prop) : Prop :=
  unescape "auth/".toList <+: unescape (seg.takeWhile (· ≠ '#')) ∨
    '#' ∉ seg ∧ unescape seg = unescape "auth".toList ∧ more

/-- The condition on the kept segments of a destination. -/
def StaysOnSite (u : String) : Prop :=
  ∀ seg segs, resolve (beforeQuery u) = seg :: segs →
    seg.head? ≠ some '\\' ∧
      ¬LeadsToAuth seg (segs ≠ [] ∨ (beforeQuery u).getLast? = some '/')

section
variable {lib : AuthLib} {u : String}

theorem safeRedirect_passes (h : PassesChecks lib u) : safeRedirect lib u = u := by
  obtain ⟨cs, hcs, hslash, hback⟩ := h.rooted
  obtain ⟨path, hparse, hpath⟩ := h.parses
  have hprint : (u.toList.any fun c => decide (c = '\r' ∨ c = '\n' ∨ c = '\t')) = false := by
    rw [List.any_eq_false]
    intro c hc
    obtain ⟨h₁, h₂, h₃⟩ := h.printable c hc
    simp [h₁, h₂, h₃]
  unfold safeRedirect
  split
  next ds hds =>
    obtain rfl : cs = ds := (List.cons.inj (hcs.symm.trans hds)).2
    rw [if_neg (not_or.2 ⟨hslash, hback⟩), if_neg (by rw [hprint]; exact Bool.false_ne_true), hparse]
    simp [hpath]
  next hno => exact absurd hcs (hno cs)

theorem safeRedirect_fails (h : ¬PassesChecks lib u) : safeRedirect lib u = "/" := by
  by_contra hne
  refine h ?_
  unfold safeRedirect at hne
  split at hne
  next cs hcs =>
    split at hne
    next => exact absurd rfl hne
    next hhead =>
      split at hne
      next => exact absurd rfl hne
      next hany =>
        have hprint : ∀ c ∈ u.toList, c ≠ '\r' ∧ c ≠ '\n' ∧ c ≠ '\t' := by
          intro c hc
          have := List.any_eq_false.1 (Bool.eq_false_iff.2 hany) c hc
          simpa [not_or] using this
        split at hne
        next => exact absurd rfl hne
        next scheme host path hparse =>
          split at hne
          next => exact absurd rfl hne
          next hsite =>
            simp only [not_or, ne_eq, not_not, Bool.not_eq_true, Option.isSome_eq_false_iff,
              Option.isNone_iff_eq_none] at hsite
            obtain ⟨rfl, rfl, hpath⟩ := hsite
            exact ⟨⟨cs, hcs, not_or.1 hhead⟩, hprint, path, hparse, hpath⟩
  next => exact absurd rfl hne

/-- A destination that was checked for the state cookie passes again. -/
theorem safeRedirect_safeRedirect (lib : AuthLib) (u : String) :
    safeRedirect lib (safeRedirect lib u) = safeRedirect lib u := by
  by_cases h : PassesChecks lib u
  · rw [safeRedirect_passes h, safeRedirect_passes h]
  · rw [safeRedirect_fails h]
    by_cases h' : PassesChecks lib "/"
    · exact safeRedirect_passes h'
    · exact safeRedirect_fails h'

/-- The `Location` after a login is that of the destination it started with. -/
theorem location_startLogin (lib : AuthLib) (cfg : HttpAuthConfig) (jar : Jar)
    (next state nonce : String) (now : ℤ) :
    location lib (startLogin lib cfg jar next state nonce now).values.next = location lib next := by
  rw [location, startLogin, safeRedirect_safeRedirect, location]

/-! ## The shape of a `Location` -/

theorem beforeQuery_append_queryOf (u : String) : beforeQuery u ++ queryOf u = u.toList :=
  List.takeWhile_append_dropWhile

theorem not_query_of_mem_beforeQuery {c : Char} (h : c ∈ beforeQuery u) : c ≠ '?' := by
  have := List.all_takeWhile (p := fun c => decide (c ≠ '?')) (l := u.toList)
  simpa using List.all_eq_true.1 this c h

theorem queryOf_head? {c : Char} (h : (queryOf u).head? = some c) : c = '?' := by
  by_contra hc
  have := List.head?_dropWhile_not (fun c => decide (c ≠ '?')) u.toList
  rw [← queryOf, h] at this
  simp [hc] at this

/-- What follows the first kept segment, up to the query. -/
def afterFirst (u : String) (segs : List (List Char)) : List Char :=
  segs.flatMap ('/' :: ·) ++ if (beforeQuery u).getLast? = some '/' then ['/'] else []

theorem cleanTarget_nil (h : resolve (beforeQuery u) = []) : cleanTarget u = ['/'] := by
  have hlast := (cleanRooted_getLast? (beforeQuery u)).2 h
  rw [cleanTarget, if_neg fun ht => ht.2 hlast, cleanRooted, h]

theorem cleanTarget_cons {seg : List Char} {segs : List (List Char)}
    (h : resolve (beforeQuery u) = seg :: segs) :
    cleanTarget u = '/' :: (seg ++ afterFirst u segs) := by
  have hne : (cleanRooted (beforeQuery u)).getLast? ≠ some '/' := by
    rw [Ne, cleanRooted_getLast?, h]
    exact List.cons_ne_nil _ _
  have hclean : cleanRooted (beforeQuery u) = '/' :: (seg ++ segs.flatMap ('/' :: ·)) := by
    rw [cleanRooted, h]
    rfl
  rw [cleanTarget, afterFirst]
  by_cases ht : (beforeQuery u).getLast? = some '/'
  · rw [if_pos ⟨ht, hne⟩, if_pos ht, hclean]
    simp
  · rw [if_neg fun h => ht h.1, if_neg ht, hclean]
    simp

theorem mem_cleanTarget {c : Char} (h : c ∈ cleanTarget u) : c = '/' ∨ c ∈ beforeQuery u := by
  rw [cleanTarget] at h
  split at h
  next =>
    rcases List.mem_append.1 h with h | h
    · exact mem_cleanRooted h
    · exact .inl (List.mem_singleton.1 h)
  next => exact mem_cleanRooted h

theorem location_passes (h : PassesChecks lib u) :
    (location lib u).toList = escapeNonASCII (cleanTarget u ++ queryOf u) := by
  obtain ⟨path, hparse, -⟩ := h.parses
  rw [location, safeRedirect_passes h, httpRedirect, hparse, String.toList_ofList]
  rfl

theorem location_fails (h : ¬PassesChecks lib u) : location lib u = "/" := by
  rw [location, safeRedirect_fails h, httpRedirect]
  split
  next => rfl
  next =>
    split
    next => rfl
    next => rfl

theorem mem_cleanTarget_append_queryOf {c : Char} (h : c ∈ cleanTarget u ++ queryOf u) :
    c = '/' ∨ c ∈ u.toList := by
  rw [← beforeQuery_append_queryOf]
  rcases List.mem_append.1 h with h | h
  · exact (mem_cleanTarget h).imp_right fun h => List.mem_append_left _ h
  · exact .inr (List.mem_append_right _ h)

/-- The path of a `Location` is what was cleaned, up to a fragment. -/
theorem decodedPath_location (u : String) :
    decodedPath (escapeNonASCII (cleanTarget u ++ queryOf u)) =
      unescape ((cleanTarget u).takeWhile (· ≠ '#')) := by
  have hcut (cs : List Char) (h : ∀ c ∈ cs, c ≠ '?') :
      (cs ++ queryOf u).takeWhile (fun c => decide (c ≠ '?' ∧ c ≠ '#')) =
        cs.takeWhile (fun c => decide (c ≠ '#')) := by
    induction cs with
    | nil =>
      rcases hq : queryOf u with _ | ⟨c, q⟩
      · rfl
      · have hc : c = '?' := queryOf_head? (by rw [hq]; rfl)
        subst hc
        rfl
    | cons c cs ih =>
      have hc := h c (.head _)
      rw [List.cons_append, List.takeWhile_cons, List.takeWhile_cons,
        ih fun d hd => h d (.tail _ hd)]
      simp [hc]
  have hclean : ∀ c ∈ cleanTarget u, c ≠ '?' := by
    intro c hc
    rcases mem_cleanTarget hc with rfl | hc
    · decide
    · exact not_query_of_mem_beforeQuery hc
  rw [decodedPath, takeWhile_escapeNonASCII (by decide), unescape_escapeNonASCII, hcut _ hclean]
  · intro c hc
    rw [decide_eq_true_iff]
    constructor
    · rintro rfl
      cases hc
    · rintro rfl
      cases hc
  · intro c hc
    rw [decide_eq_true_iff]
    constructor
    · rintro rfl
      exact hc (by decide)
    · rintro rfl
      exact hc (by decide)

/-! ## The exact condition -/

theorem append_singleton_prefix_iff {α : Type*} {p : List α} {sep : α} (hp : sep ∉ p)
    (xs ys : List α) : p ++ [sep] <+: xs ++ sep :: ys ↔ p ++ [sep] <+: xs ∨ xs = p := by
  induction p generalizing xs with
  | nil =>
    rcases xs with _ | ⟨x, xs⟩
    · simp
    · simp
  | cons a p ih =>
    rw [List.mem_cons, not_or] at hp
    rcases xs with _ | ⟨x, xs⟩
    · simp [List.cons_prefix_cons, Ne.symm hp.1]
    · rw [List.cons_append, List.cons_append, List.cons_prefix_cons, List.cons_prefix_cons,
        ih hp.2, List.cons.injEq]
      constructor
      · rintro ⟨rfl, h | h⟩
        · exact .inl ⟨rfl, h⟩
        · exact .inr ⟨rfl, h⟩
      · rintro (⟨rfl, h⟩ | ⟨rfl, h⟩)
        · exact ⟨rfl, .inl h⟩
        · exact ⟨rfl, .inr h⟩

/-- The path of a `Location` lies under `/auth/` through its first segment. -/
theorem under_auth_iff (seg : List Char) {rest : List Char} (hrest : rest = [] ∨ ∃ cs, rest = '/' :: cs) :
    unescape "/auth/".toList <+: unescape (('/' :: (seg ++ rest)).takeWhile (· ≠ '#')) ↔
      LeadsToAuth seg (rest ≠ []) := by
  have hslash (cs : List Char) : unescape ('/' :: cs) = 47 :: unescape cs :=
    unescape_append_slash [] cs
  have hauth : unescape "/auth/".toList = 47 :: unescape "auth/".toList := by decide
  have hname : unescape "auth/".toList = unescape "auth".toList ++ [47] := by decide
  rw [List.takeWhile_cons_of_pos (by decide), hslash, hauth, List.cons_prefix_cons, LeadsToAuth]
  simp only [true_and]
  by_cases hfrag : '#' ∈ seg
  · have hcut : (seg ++ rest).takeWhile (fun c => decide (c ≠ '#')) =
        seg.takeWhile (fun c => decide (c ≠ '#')) := by
      rw [List.takeWhile_append, if_neg]
      intro hlen
      have hall := (List.takeWhile_prefix (fun c => decide (c ≠ '#')) (l := seg)).eq_of_length hlen
      have := List.all_eq_true.1 (List.all_takeWhile (p := fun c => decide (c ≠ '#')) (l := seg))
      rw [hall] at this
      simpa using this '#' hfrag
    rw [hcut]
    simp [hfrag]
  · have hkeep : ∀ c ∈ seg, decide (c ≠ '#') = true := by
      intro c hc
      rw [decide_eq_true_iff]
      rintro rfl
      exact hfrag hc
    have hseg : seg.takeWhile (fun c => decide (c ≠ '#')) = seg :=
      List.takeWhile_eq_self_iff.2 hkeep
    rw [List.takeWhile_append_of_pos hkeep, hseg]
    rcases hrest with rfl | ⟨cs, rfl⟩
    · simp
    · rw [List.takeWhile_cons_of_pos (by decide), unescape_append_slash, hname,
        append_singleton_prefix_iff (by decide)]
      simp [hfrag]

theorem afterFirst_eq (u : String) (segs : List (List Char)) :
    afterFirst u segs = [] ∨ ∃ cs, afterFirst u segs = '/' :: cs := by
  rcases segs with _ | ⟨seg, segs⟩
  · rw [afterFirst]
    split
    · exact .inr ⟨[], rfl⟩
    · exact .inl rfl
  · exact .inr ⟨_, rfl⟩

theorem afterFirst_ne_nil_iff (u : String) (segs : List (List Char)) :
    afterFirst u segs ≠ [] ↔ segs ≠ [] ∨ (beforeQuery u).getLast? = some '/' := by
  rcases segs with _ | ⟨seg, segs⟩
  · simp [afterFirst]
  · simp [afterFirst]

/-- Escaping keeps the first character, or makes it a percent sign. -/
theorem head?_escapeNonASCII_eq {c d : Char} {cs : List Char} (hd : d.toNat < 128) (hp : d ≠ '%') :
    (escapeNonASCII (c :: cs)).head? = some d ↔ c = d := by
  rw [escapeNonASCII_cons]
  by_cases hc : c.toNat < 128
  · rw [escapeChar_ascii hc]
    simp
  · obtain ⟨ds, hds⟩ := escapeChar_nonASCII hc
    rw [hds]
    simp only [List.cons_append, List.head?_cons, Option.some.injEq]
    constructor
    · exact fun h => absurd h.symm hp
    · rintro rfl
      exact absurd hd hc

theorem onSite_root : OnSite "/" := by
  refine ⟨rfl, fun c hc => absurd hc (by simp), fun c hc => ?_, by decide⟩
  obtain rfl : c = '/' := by simpa using hc
  decide

theorem location_printable (h : PassesChecks lib u) :
    ∀ c ∈ (location lib u).toList, c ≠ '\r' ∧ c ≠ '\n' ∧ c ≠ '\t' := by
  intro c hc
  rw [location_passes h] at hc
  rcases mem_escapeNonASCII hc with hc | rfl | hc
  · rcases mem_cleanTarget_append_queryOf hc with rfl | hc
    · decide
    · exact h.printable c hc
  · decide
  · refine ⟨?_, ?_, ?_⟩ <;> rintro rfl <;> cases hc

/-- When nothing is left, the `Location` is the root with the query. -/
theorem onSite_of_nothing_left (h : PassesChecks lib u) (hres : resolve (beforeQuery u) = []) :
    OnSite (location lib u) := by
  have hloc : (location lib u).toList = '/' :: escapeNonASCII (queryOf u) := by
    rw [location_passes h, cleanTarget_nil hres]
    rfl
  refine ⟨by rw [hloc]; rfl, fun c hc => ?_, location_printable h, ?_⟩
  · rw [hloc, List.getElem?_cons_succ, ← List.head?_eq_getElem?] at hc
    rcases hq : queryOf u with _ | ⟨d, q⟩
    · rw [hq] at hc
      cases hc
    · obtain rfl : d = '?' := queryOf_head? (by rw [hq]; rfl)
      rw [hq] at hc
      obtain rfl : '?' = c := Option.some.inj hc
      decide
  · rw [location_passes h, decodedPath_location, cleanTarget_nil hres]
    decide

theorem onSite_iff_of_segment {seg : List Char} {segs : List (List Char)} (h : PassesChecks lib u)
    (hres : resolve (beforeQuery u) = seg :: segs) :
    OnSite (location lib u) ↔ seg.head? ≠ some '\\' ∧
      ¬LeadsToAuth seg (segs ≠ [] ∨ (beforeQuery u).getLast? = some '/') := by
  obtain ⟨hne, hchars⟩ := mem_resolve (hres ▸ List.mem_cons_self : seg ∈ resolve (beforeQuery u))
  obtain ⟨c, cs, rfl⟩ := List.exists_cons_of_ne_nil hne
  have hc : c ≠ '/' := (hchars c (.head _)).2
  have hauth := under_auth_iff (c :: cs) (afterFirst_eq u segs)
  rw [afterFirst_ne_nil_iff, ← cleanTarget_cons hres, ← decodedPath_location,
    ← location_passes h] at hauth
  have hloc : (location lib u).toList =
      '/' :: escapeNonASCII (c :: (cs ++ afterFirst u segs ++ queryOf u)) := by
    rw [location_passes h, cleanTarget_cons hres]
    rfl
  have hsecond (d : Char) (hd : d.toNat < 128) (hp : d ≠ '%') :
      (location lib u).toList[1]? = some d ↔ c = d := by
    rw [hloc, List.getElem?_cons_succ, ← List.head?_eq_getElem?]
    exact head?_escapeNonASCII_eq hd hp
  rw [List.head?_cons, Ne, Option.some.injEq]
  constructor
  · intro hon
    exact ⟨fun heq => (hon.second _ ((hsecond '\\' (by decide) (by decide)).2 heq)).2 rfl,
      fun hlead => hon.notAuth (hauth.2 hlead)⟩
  · rintro ⟨hback, hlead⟩
    refine ⟨by rw [hloc]; rfl, fun d hd => ⟨?_, ?_⟩, location_printable h,
      fun hunder => hlead (hauth.1 hunder)⟩
    · rintro rfl
      exact hc ((hsecond _ (by decide) (by decide)).1 hd)
    · rintro rfl
      exact hback ((hsecond _ (by decide) (by decide)).1 hd)

/-- The main result: what is left of a destination after `http.Redirect`
    resolves its dot segments is what would have to be checked. -/
theorem redirect_on_site_iff (lib : AuthLib) (u : String) :
    OnSite (location lib u) ↔ (PassesChecks lib u → StaysOnSite u) := by
  by_cases h : PassesChecks lib u
  · rw [forall_prop_of_true h]
    rcases hres : resolve (beforeQuery u) with _ | ⟨seg, segs⟩
    · refine iff_of_true (onSite_of_nothing_left h hres) fun seg segs hseg => ?_
      rw [hres] at hseg
      cases hseg
    · rw [onSite_iff_of_segment h hres]
      constructor
      · intro hstays seg' segs' hseg
        rw [hres] at hseg
        cases hseg
        exact hstays
      · exact fun hstays => hstays seg segs hres
  · rw [location_fails h]
    exact iff_of_true onSite_root fun h' => absurd h' h

/-- After a dot segment, a backslash is the second character: a browser takes
    `evil.example` for the host. -/
theorem redirect_leaves_site :
    location sampleAuthLib "/./\\evil.example" = "/\\evil.example" ∧
      ¬OnSite (location sampleAuthLib "/./\\evil.example") := by
  have hloc : location sampleAuthLib "/./\\evil.example" = "/\\evil.example" := by decide +kernel
  refine ⟨hloc, fun h => ?_⟩
  rw [hloc] at h
  exact (h.second '\\' rfl).2 rfl

end

end Mailrelay
