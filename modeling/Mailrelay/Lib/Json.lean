/-
  JSON documents and the reading of structures from them.

  A document has numbers of a type `ν`: the integers of a program, or what a
  reader makes of them (`map`).  The order of an object's entries means
  nothing, and no key comes twice.  An object is read field by field: `known`
  refuses other keys, `field` reads one, and an absent or null field keeps its
  zero value.

  * `lookup_optional`: an optional entry is found under its own key only;
  * `known_cons`, `known_optional`: the keys that are accepted.
-/
import Mathlib.Data.List.Basic
import Mailrelay.Lib.Check

namespace Lib

inductive Json (ν : Type) where
  | null
  | bool (b : Bool)
  | num (n : ν)
  | str (s : String)
  | arr (l : List (Json ν))
  | obj (l : List (String × Json ν))

namespace Json

variable {ν μ κ : Type}

/-! ## Numbers -/

mutual

/-- Another reading of the numbers. -/
def map (f : ν → μ) : Json ν → Json μ
  | null => null
  | bool b => bool b
  | num n => num (f n)
  | str s => str s
  | arr l => arr (mapList f l)
  | obj l => obj (mapEntries f l)

def mapList (f : ν → μ) : List (Json ν) → List (Json μ)
  | [] => []
  | v :: l => map f v :: mapList f l

def mapEntries (f : ν → μ) : List (String × Json ν) → List (String × Json μ)
  | [] => []
  | (key, v) :: l => (key, map f v) :: mapEntries f l

end

section
variable (f : ν → μ)

theorem mapList_eq (l : List (Json ν)) : mapList f l = l.map (map f) := by
  induction l with
  | nil => rfl
  | cons v l ih => simp [mapList, ih]

theorem mapEntries_eq (l : List (String × Json ν)) :
    mapEntries f l = l.map fun e => (e.1, map f e.2) := by
  induction l with
  | nil => rfl
  | cons e l ih => simp [mapEntries, ih]

@[simp] theorem map_bool (b : Bool) : (bool b : Json ν).map f = bool b := by rw [map]

@[simp] theorem map_num (n : ν) : (num n).map f = num (f n) := by rw [map]

@[simp] theorem map_str (s : String) : (str s : Json ν).map f = str s := by rw [map]

@[simp] theorem map_arr (l : List (Json ν)) : (arr l).map f = arr (l.map (map f)) := by
  rw [map, mapList_eq]

@[simp] theorem map_obj (l : List (String × Json ν)) :
    (obj l).map f = obj (l.map fun e => (e.1, map f e.2)) := by
  rw [map, mapEntries_eq]

end

section
variable (f : ν → μ) (g : μ → κ)

mutual

theorem map_map : ∀ v : Json ν, (v.map f).map g = v.map fun n => g (f n)
  | null => by simp only [map]
  | bool b => by simp only [map]
  | num n => by simp only [map]
  | str s => by simp only [map]
  | arr l => by simp only [map, mapList_map l]
  | obj l => by simp only [map, mapEntries_map l]

theorem mapList_map : ∀ l : List (Json ν), mapList g (mapList f l) = mapList (fun n => g (f n)) l
  | [] => rfl
  | v :: l => by simp only [mapList, map_map v, mapList_map l]

theorem mapEntries_map : ∀ l : List (String × Json ν),
    mapEntries g (mapEntries f l) = mapEntries (fun n => g (f n)) l
  | [] => rfl
  | (_, v) :: l => by simp only [mapEntries, map_map v, mapEntries_map l]

end

end

/-! ## Objects -/

/-- The entry of a field that may be omitted. -/
def optional (key : String) (v : Option (Json ν)) : List (String × Json ν) :=
  v.toList.map fun v => (key, v)

/-- What is wrong with a document. -/
inductive Error where
  | unknownField (key : String)
  | cannotUnmarshal (type : String)
  deriving DecidableEq, Repr

/-- `DisallowUnknownFields` -/
def known (keys : List String) (l : List (String × Json ν)) : Except Error Unit :=
  l.forM fun e => check (e.1 ∉ keys) (.unknownField e.1)

/-- The value of a field from its entry. -/
def fieldOf {α : Type} (zero : α) (decode : Json ν → Except Error α) : Option (Json ν) → Except Error α
  | none | some null => .ok zero
  | some v => decode v

/-- One field of a structure. -/
def field {α : Type} (l : List (String × Json ν)) (key : String) (zero : α)
    (decode : Json ν → Except Error α) : Except Error α :=
  fieldOf zero decode (l.lookup key)

@[simp] theorem map_optional (f : ν → μ) (key : String) (v : Option (Json ν)) :
    ((optional key v).map fun e => (e.1, e.2.map f)) = optional key (v.map (map f)) := by
  cases v <;> rfl

@[simp] theorem lookup_optional (key key' : String) (v : Option (Json ν)) :
    (optional key v).lookup key' = if key' = key then v else none := by
  cases v with
  | none => simp [optional]
  | some v =>
    by_cases h : key' = key
    · simp [optional, h]
    · simp [optional, List.lookup_cons, beq_eq_false_iff_ne.2 h, h]

section
variable {keys : List String} {key : String}

@[simp] theorem known_nil : known keys ([] : List (String × Json ν)) = .ok () := rfl

theorem known_cons (h : key ∈ keys) (v : Json ν) (l : List (String × Json ν)) :
    known keys ((key, v) :: l) = known keys l := by
  simp [known, check, h, bind, Except.bind]

theorem known_optional_append (h : key ∈ keys) (v : Option (Json ν)) (l : List (String × Json ν)) :
    known keys (optional key v ++ l) = known keys l := by
  cases v with
  | none => rfl
  | some v => exact known_cons h v l

theorem known_optional (h : key ∈ keys) (v : Option (Json ν)) : known keys (optional key v) = .ok () := by
  cases v with
  | none => rfl
  | some v => exact known_cons h v []

end

end Json

end Lib
