/-
  Routing of requests (`http.ServeMux`).

  A pattern is a method, or none, and segments.  The segments of a path are
  compared one by one after their escapes are read: a literal comes before a
  wildcard, and a wildcard before the rest of the path (`matchPath`).  A path
  that is not clean is redirected and not routed.

  * `serveMux_sound`: a handler is called for a pattern that matches;
  * `unescape_of_segments`: the path begins with its first segment.
-/
import Mailrelay.Lib.Bytes
import Mailrelay.Lib.Url

namespace Lib

inductive PatternSeg where
  /-- `{$}` is the literal of a slash -/
  | lit (s : Bytes)
  /-- `{name}` -/
  | wild
  /-- a slash at the end of the pattern -/
  | multi
  deriving DecidableEq, Repr

structure Pattern where
  /-- empty for any method -/
  method : String
  segs : List PatternSeg
  deriving DecidableEq, Repr

def slash : Bytes := [47]

/-- The segments of a path, each with its escapes read; a slash at the end is a
    segment of its own. -/
def segments : List Char → List Bytes
  | '/' :: cs =>
    let parts := cs.splitOn '/'
    if parts.getLast? = some [] then parts.dropLast.map unescape ++ [slash] else parts.map unescape
  | _ => []

/-- `cleanPath` -/
def cleanPath (path : List Char) : List Char :=
  match path with
  | [] => ['/']
  | c :: cs =>
    let p := if c = '/' then c :: cs else '/' :: c :: cs
    if p.getLast? = some '/' ∧ cleanRooted p ≠ ['/'] then cleanRooted p ++ ['/'] else cleanRooted p

section
variable {α : Type}

/-- The patterns that go on after the segment `s`. -/
def descend (s : PatternSeg) (ps : List (List PatternSeg × α)) : List (List PatternSeg × α) :=
  ps.filterMap fun p =>
    match p.1 with
    | [] => none
    | x :: xs => if x = s then some (xs, p.2) else none

/-- `routingNode.matchPath` -/
def matchPath (ps : List (List PatternSeg × α)) : List Bytes → Option α
  | [] => (ps.find? fun p => p.1.isEmpty).map Prod.snd
  | seg :: rest =>
    (matchPath (descend (.lit seg) ps) rest).or
      ((if seg = slash then none else matchPath (descend .wild ps) rest).or
        ((ps.find? fun p => p.1 = [.multi]).map Prod.snd))

def ofMethod (method : String) (ps : List (Pattern × α)) : List (List PatternSeg × α) :=
  (ps.filter fun p => p.1.method = method).map fun p => (p.1.segs, p.2)

/-- `routingNode.matchMethodAndPath` -/
def matchMethodAndPath (ps : List (Pattern × α)) (method : String) (segs : List Bytes) : Option α :=
  (matchPath (ofMethod method ps) segs).or
    ((if method = "HEAD" then matchPath (ofMethod "GET" ps) segs else none).or
      (matchPath (ofMethod "" ps) segs))

/-- `ServeMux.findHandler` for the escaped path of a request, up to the
    redirects and error replies of the package. -/
def serveMux (ps : List (Pattern × α)) (method : String) (path : List Char) : Option α :=
  if method ≠ "CONNECT" ∧ path ≠ cleanPath path then none
  else matchMethodAndPath ps method (segments path)

/-! ## Soundness -/

/-- The segments of a path match a pattern. -/
def SegsMatch : List PatternSeg → List Bytes → Prop
  | [], [] => True
  | [.multi], _ :: _ => True
  | .lit s :: ps, seg :: segs => s = seg ∧ SegsMatch ps segs
  | .wild :: ps, seg :: segs => seg ≠ slash ∧ SegsMatch ps segs
  | _, _ => False

structure Pattern.Accepts (p : Pattern) (method : String) (path : List Char) : Prop where
  method : p.method = "" ∨ p.method = method ∨ p.method = "GET" ∧ method = "HEAD"
  segs : SegsMatch p.segs (segments path)

variable {ps : List (List PatternSeg × α)} {a : α}

theorem mem_descend {s : PatternSeg} {xs : List PatternSeg} :
    (xs, a) ∈ descend s ps ↔ (s :: xs, a) ∈ ps := by
  unfold descend
  rw [List.mem_filterMap]
  constructor
  · rintro ⟨⟨segs, a'⟩, hmem, h⟩
    rcases segs with _ | ⟨x, segs⟩
    · cases h
    · simp only at h
      split_ifs at h with hx
      cases h
      rwa [← hx]
  · intro h
    exact ⟨_, h, by simp⟩

theorem matchPath_sound {segs : List Bytes} (h : matchPath ps segs = some a) :
    ∃ p, (p, a) ∈ ps ∧ SegsMatch p segs := by
  induction segs generalizing ps with
  | nil =>
    obtain ⟨⟨p, _⟩, hp, rfl⟩ := Option.map_eq_some_iff.1 h
    have hnil : p = [] := by simpa using List.find?_some hp
    exact ⟨p, List.mem_of_find?_eq_some hp, by rw [hnil]; trivial⟩
  | cons seg rest ih =>
    rw [matchPath, Option.or_eq_some_iff, Option.or_eq_some_iff] at h
    rcases h with h | ⟨-, h | ⟨-, h⟩⟩
    · obtain ⟨p, hp, hm⟩ := ih h
      exact ⟨_, mem_descend.1 hp, rfl, hm⟩
    · split_ifs at h with hseg
      obtain ⟨p, hp, hm⟩ := ih h
      exact ⟨_, mem_descend.1 hp, hseg, hm⟩
    · obtain ⟨⟨p, _⟩, hp, rfl⟩ := Option.map_eq_some_iff.1 h
      have hmulti : p = [.multi] := by simpa using List.find?_some hp
      exact ⟨p, List.mem_of_find?_eq_some hp, by rw [hmulti]; trivial⟩

theorem matchPath_ofMethod {ps : List (Pattern × α)} {m : String} {segs : List Bytes}
    (h : matchPath (ofMethod m ps) segs = some a) :
    ∃ p, (p, a) ∈ ps ∧ p.method = m ∧ SegsMatch p.segs segs := by
  obtain ⟨segs', hmem, hm⟩ := matchPath_sound h
  obtain ⟨⟨p, _⟩, hp, heq⟩ := List.mem_map.1 hmem
  cases heq
  rw [List.mem_filter, decide_eq_true_eq] at hp
  exact ⟨p, hp.1, hp.2, hm⟩

/-- **A handler is called for a pattern that matches.** -/
theorem serveMux_sound {ps : List (Pattern × α)} {method : String} {path : List Char}
    (h : serveMux ps method path = some a) : ∃ p, (p, a) ∈ ps ∧ p.Accepts method path := by
  unfold serveMux at h
  split_ifs at h
  rw [matchMethodAndPath, Option.or_eq_some_iff, Option.or_eq_some_iff] at h
  rcases h with h | ⟨-, h | ⟨-, h⟩⟩
  · obtain ⟨p, hp, hm, hsegs⟩ := matchPath_ofMethod h
    exact ⟨p, hp, .inr (.inl hm), hsegs⟩
  · split_ifs at h with hhead
    obtain ⟨p, hp, hm, hsegs⟩ := matchPath_ofMethod h
    exact ⟨p, hp, .inr (.inr ⟨hm, hhead⟩), hsegs⟩
  · obtain ⟨p, hp, hm, hsegs⟩ := matchPath_ofMethod h
    exact ⟨p, hp, .inl hm, hsegs⟩

end

/-! ## The first segment -/

theorem unescape_slash (cs : List Char) : unescape ('/' :: cs) = 47 :: unescape cs :=
  unescape_append_slash [] cs

/-- **A path begins with its first segment**, unless it is the root. -/
theorem unescape_of_segments {path : List Char} {seg : Bytes} {rest : List Bytes}
    (h : segments path = seg :: rest) :
    unescape path = [47] ∨ ∃ tail, unescape path = 47 :: (seg ++ tail) := by
  unfold segments at h
  split at h
  · rename_i cs
    obtain ⟨first, more, hsplit⟩ := List.exists_cons_of_ne_nil (List.splitOn_ne_nil '/' cs)
    have hjoin : cs = ['/'].intercalate (first :: more) := by
      rw [← hsplit, List.intercalate_splitOn]
    -- a part before the first slash, if it is not the empty end
    have hfirst : ∃ tail, unescape cs = unescape first ++ tail := by
      rcases more with _ | ⟨second, more⟩
      · exact ⟨[], by rw [hjoin]; simp⟩
      · refine ⟨47 :: unescape (['/'].intercalate (second :: more)), ?_⟩
        rw [hjoin, List.intercalate_cons_cons, List.append_assoc, List.singleton_append,
          unescape_append_slash]
    obtain ⟨tail, htail⟩ := hfirst
    rw [unescape_slash, htail]
    simp only [hsplit] at h
    split_ifs at h with hlast
    · rcases more with _ | ⟨second, more⟩
      · -- the path is the root
        have hnil : first = [] := by simpa using hlast
        left
        rw [hjoin, hnil] at htail
        simp only [hnil] at htail ⊢
        rw [← htail]
        simp [unescape]
      · rw [List.dropLast_cons_of_ne_nil (by simp), List.map_cons, List.cons_append] at h
        cases h
        exact .inr ⟨tail, rfl⟩
    · cases h
      exact .inr ⟨tail, rfl⟩
  · cases h

end Lib
