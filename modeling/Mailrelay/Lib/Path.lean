/-
  Paths of files on Unix, as Go's `path/filepath` cleans and joins them.

  What a path names is a directory to begin at and the elements that lead on
  from there; `..` stands in front of a path only that does not begin at the
  root.

  * `parse_normal`, `parse_string`: cleaning keeps what a path names, and gives
    one text for each thing that is named;
  * `parse_join`: a name joined to a directory is an entry of that directory.
-/
import Mailrelay.Lib.Url

namespace Lib

/-- What a path names. -/
structure FilePath where
  rooted : Bool
  elems : List (List Char)
  deriving DecidableEq, Repr

namespace FilePath

/-- `..` on the elements kept so far, the last first. -/
def leave (rooted : Bool) : List (List Char) → List (List Char)
  | [] => if rooted then [] else [['.', '.']]
  | last :: kept => if last = ['.', '.'] then ['.', '.'] :: last :: kept else kept

/-- One element of a path on those kept so far. -/
def step (rooted : Bool) (kept : List (List Char)) (elem : List Char) : List (List Char) :=
  if elem = [] ∨ elem = ['.'] then kept
  else if elem = ['.', '.'] then leave rooted kept
  else elem :: kept

def isRooted (path : List Char) : Bool := decide (path.head? = some '/')

def parse (path : List Char) : FilePath :=
  ⟨isRooted path, ((path.splitOn '/').foldl (step (isRooted path)) []).reverse⟩

def string (p : FilePath) : List Char :=
  if p.rooted then '/' :: ['/'].intercalate p.elems
  else if p.elems = [] then ['.'] else ['/'].intercalate p.elems

/-- `filepath.Clean` -/
def clean (path : List Char) : List Char := (parse path).string

/-- `filepath.Join` of two elements -/
def join (dir name : List Char) : List Char :=
  if dir = [] then if name = [] then [] else clean name else clean (dir ++ '/' :: name)

/-- The entry of a directory under a name. -/
def entry (dir : FilePath) (name : List Char) : FilePath := { dir with elems := dir.elems ++ [name] }

/-- A name that an entry of a directory can have. -/
structure IsName (name : List Char) : Prop where
  nonempty : name ≠ []
  not_dot : name ≠ ['.']
  not_dots : name ≠ ['.', '.']
  no_slash : '/' ∉ name

/-- `..` is in front only, and not at the root. -/
def Normal (p : FilePath) : Prop :=
  ∃ up names, p.elems = List.replicate up ['.', '.'] ++ names ∧ (∀ name ∈ names, IsName name) ∧
    (p.rooted = true → up = 0)

section
variable {rooted : Bool} {kept : List (List Char)} {elem : List Char}

theorem step_name (h : IsName elem) : step rooted kept elem = elem :: kept := by
  rw [step, if_neg (not_or.2 ⟨h.nonempty, h.not_dot⟩), if_neg h.not_dots]

theorem leave_name (h : IsName elem) : leave rooted (elem :: kept) = kept := by
  rw [leave, if_neg h.not_dots]

theorem leave_up (up : ℕ) :
    leave false (List.replicate up ['.', '.']) = List.replicate (up + 1) ['.', '.'] := by
  cases up with
  | zero => rfl
  | succ up => rfl

/-- Elements that are names are all kept. -/
theorem foldl_names {names : List (List Char)} (h : ∀ name ∈ names, IsName name) :
    names.foldl (step rooted) kept = names.reverse ++ kept := by
  induction names generalizing kept with
  | nil => rfl
  | cons name names ih =>
    rw [List.foldl_cons, step_name (h name List.mem_cons_self),
      ih fun name' h' => h name' (List.mem_cons_of_mem _ h'), List.reverse_cons, List.append_assoc]
    rfl

/-- So are the `..` in front of a path that does not begin at the root. -/
theorem foldl_up (up up' : ℕ) :
    (List.replicate up ['.', '.']).foldl (step false) (List.replicate up' ['.', '.']) =
      List.replicate (up + up') ['.', '.'] := by
  induction up generalizing up' with
  | zero => simp
  | succ up ih =>
    have hstep : step false (List.replicate up' ['.', '.']) ['.', '.'] =
        List.replicate (up' + 1) ['.', '.'] := leave_up up'
    rw [List.replicate_succ, List.foldl_cons, hstep, ih, show up + 1 + up' = up + (up' + 1) by omega]

theorem normal_step (h : Normal ⟨rooted, kept.reverse⟩) (hslash : '/' ∉ elem) :
    Normal ⟨rooted, (step rooted kept elem).reverse⟩ := by
  obtain ⟨up, names, helems, hnames, hroot⟩ := h
  simp only at helems hroot
  by_cases hskip : elem = [] ∨ elem = ['.']
  · rw [step, if_pos hskip]
    exact ⟨up, names, helems, hnames, hroot⟩
  by_cases hdots : elem = ['.', '.']
  · rw [step, if_neg hskip, if_pos hdots]
    rcases List.eq_nil_or_concat names with rfl | ⟨names, last, rfl⟩
    · -- only `..` in front
      have hkept : kept = List.replicate up ['.', '.'] := by
        rw [List.append_nil] at helems
        rw [← List.reverse_inj, helems, List.reverse_replicate]
      cases rooted with
      | true =>
        obtain rfl := hroot rfl
        rw [hkept]
        exact ⟨0, [], rfl, hnames, fun _ => rfl⟩
      | false =>
        rw [hkept, leave_up]
        refine ⟨up + 1, [], ?_, hnames, fun h => by cases h⟩
        simp only [List.reverse_replicate, List.append_nil]
    · -- the last name goes
      have hkept : kept = last :: (List.replicate up ['.', '.'] ++ names).reverse := by
        rw [← List.reverse_inj, helems]
        simp
      have hlast := hnames last (by simp)
      rw [hkept, leave_name hlast, List.reverse_reverse]
      exact ⟨up, names, rfl, fun name hname => hnames name (by simp [hname]), hroot⟩
  · have hname : IsName elem := ⟨fun h => hskip (.inl h), fun h => hskip (.inr h), hdots, hslash⟩
    rw [step_name hname, List.reverse_cons, helems, List.append_assoc]
    refine ⟨up, names ++ [elem], rfl, fun name h => ?_, hroot⟩
    rcases List.mem_append.1 h with h | h
    · exact hnames name h
    · rw [List.mem_singleton.1 h]
      exact hname

theorem normal_foldl {elems : List (List Char)} (h : Normal ⟨rooted, kept.reverse⟩)
    (hslash : ∀ elem ∈ elems, '/' ∉ elem) :
    Normal ⟨rooted, (elems.foldl (step rooted) kept).reverse⟩ := by
  induction elems generalizing kept with
  | nil => exact h
  | cons elem elems ih =>
    rw [List.foldl_cons]
    exact ih (normal_step h (hslash elem List.mem_cons_self))
      fun elem' h' => hslash elem' (List.mem_cons_of_mem _ h')

end

/-- **What a path names is in normal form.** -/
theorem parse_normal (path : List Char) : (parse path).Normal := by
  have hstart : Normal ⟨isRooted path, ([] : List (List Char)).reverse⟩ :=
    ⟨0, [], rfl, by simp, fun _ => rfl⟩
  exact normal_foldl hstart fun _ h hslash => (mem_of_mem_splitOn h '/' hslash).2 rfl

theorem foldl_normal {p : FilePath} (h : p.Normal) :
    p.elems.foldl (step p.rooted) [] = p.elems.reverse := by
  obtain ⟨up, names, helems, hnames, hroot⟩ := h
  have hup : (List.replicate up ['.', '.']).foldl (step p.rooted) [] = List.replicate up ['.', '.'] := by
    cases hr : p.rooted with
    | true =>
      rw [hroot hr]
      rfl
    | false => exact foldl_up up 0
  rw [helems, List.foldl_append, hup, foldl_names hnames, List.reverse_append, List.reverse_replicate]

theorem Normal.no_slash {p : FilePath} (h : p.Normal) {elem : List Char} (he : elem ∈ p.elems) :
    elem ≠ [] ∧ elem ≠ ['.'] ∧ '/' ∉ elem := by
  obtain ⟨up, names, helems, hnames, -⟩ := h
  rw [helems, List.mem_append] at he
  rcases he with he | he
  · rw [List.eq_of_mem_replicate he]
    decide
  · have hname := hnames elem he
    exact ⟨hname.nonempty, hname.not_dot, hname.no_slash⟩

/-- **Cleaning keeps what a path names.** -/
theorem parse_string {p : FilePath} (h : p.Normal) : parse p.string = p := by
  obtain ⟨rooted, elems⟩ := p
  have hslash : ∀ elem ∈ elems, '/' ∉ elem := fun elem he => (h.no_slash he).2.2
  have hfold := foldl_normal h
  simp only at hfold
  cases rooted with
  | true =>
    have hroot : isRooted (string ⟨true, elems⟩) = true := rfl
    rw [parse, hroot, string, if_pos rfl]
    have hsplit : ('/' :: ['/'].intercalate elems).splitOn '/' =
        [] :: (['/'].intercalate elems).splitOn '/' := by
      rw [List.splitOn_cons_eq_if_modifyHead]
      rfl
    rw [hsplit, List.foldl_cons, show step true [] [] = [] from rfl]
    rcases eq_or_ne elems [] with rfl | hne
    · rfl
    · rw [List.splitOn_intercalate '/' hslash hne, hfold, List.reverse_reverse]
  | false =>
    rcases eq_or_ne elems [] with rfl | hne
    · rfl
    · have hroot : isRooted (['/'].intercalate elems) = false := by
        obtain ⟨elem, rest, rfl⟩ := List.exists_cons_of_ne_nil hne
        obtain ⟨helem, -, hno⟩ := h.no_slash (p := ⟨false, elem :: rest⟩) List.mem_cons_self
        obtain ⟨c, cs, rfl⟩ := List.exists_cons_of_ne_nil helem
        have hc : c ≠ '/' := by
          rintro rfl
          exact hno List.mem_cons_self
        cases rest with
        | nil => simp [isRooted, hc]
        | cons elem' rest => simp [isRooted, List.intercalate, hc]
      rw [string, if_neg (by simp), if_neg hne, parse, hroot,
        List.splitOn_intercalate '/' hslash hne, hfold, List.reverse_reverse]

theorem parse_clean (path : List Char) : parse (clean path) = parse path := parse_string (parse_normal path)

/-- **A name joined to a directory is an entry of the directory.** -/
theorem parse_join {dir name : List Char} (hdir : dir ≠ []) (h : IsName name) :
    parse (join dir name) = (parse dir).entry name := by
  obtain ⟨c, cs, rfl⟩ := List.exists_cons_of_ne_nil hdir
  have hroot : isRooted (c :: cs ++ '/' :: name) = isRooted (c :: cs) := rfl
  rw [join, if_neg hdir, parse_clean, parse, hroot, List.splitOn_append_cons_self,
    List.splitOn_eq_singleton h.no_slash, List.foldl_append, List.foldl_cons, List.foldl_nil, step_name h,
    List.reverse_cons]
  rfl

theorem entry_injective {dir : FilePath} {name name' : List Char} (h : dir.entry name = dir.entry name') :
    name = name' := by
  have helems := congrArg elems h
  simpa [entry] using helems

end FilePath

end Lib
