import Mathlib.Data.List.Basic

/-!
# Lists of results

A list of results stands for its values, or for the first of its errors.

* `Results.firstError`, `Results.values`: what is in the list;
* `Results.map_values`: a list without an error is the list of its values;
* **`Results.mapM_id`**: the results in sequence;
* `Results.firstError_map`, `Results.values_map`: results that are given by their errors and values.
-/

namespace Results

universe u v w

variable {ε : Type u} {α : Type v} {β : Type w} {l : List (Except ε α)}

/-- The error of a result that has one. -/
def errorOf : Except ε α → Option ε
  | .error e => some e
  | .ok _ => none

/-- The first error of a list of results. -/
def firstError (l : List (Except ε α)) : Option ε := l.findSome? errorOf

/-- The values in a list of results. -/
def values (l : List (Except ε α)) : List α := l.filterMap Except.toOption

/-- An error if there is one, or else a value. -/
def attempt (e : Option ε) (a : α) : Except ε α :=
  match e with
  | some e => .error e
  | none => .ok a

theorem firstError_mem {e : ε} (h : firstError l = some e) : .error e ∈ l := by
  obtain ⟨r, hr, he⟩ := List.exists_of_findSome?_eq_some h
  cases r with
  | error e' =>
    cases he
    exact hr
  | ok a => cases he

/-- **A list without an error is the list of its values.** -/
theorem map_values (h : firstError l = none) : (values l).map .ok = l := by
  induction l with
  | nil => rfl
  | cons r l ih =>
    cases r with
    | error e => cases h
    | ok a => exact congrArg (Except.ok a :: ·) (ih h)

theorem ok_of_mem (h : firstError l = none) {r : Except ε α} (hr : r ∈ l) : ∃ a, r = .ok a := by
  rw [← map_values h] at hr
  obtain ⟨a, -, rfl⟩ := List.mem_map.mp hr
  exact ⟨a, rfl⟩

/-- **The results in sequence**: the values, or the first error. -/
theorem mapM_id (l : List (Except ε α)) : l.mapM id = attempt (firstError l) (values l) := by
  induction l with
  | nil => rfl
  | cons r l ih =>
    rw [List.mapM_cons, ih]
    cases r with
    | error e => rfl
    | ok a =>
      show (attempt (firstError l) (values l)).bind _ = attempt (firstError l) (a :: values l)
      cases firstError l with
      | some e => rfl
      | none => rfl

theorem firstError_map (err : β → Option ε) (val : β → α) (js : List β) :
    firstError (js.map fun j => attempt (err j) (val j)) = js.findSome? err := by
  unfold firstError
  rw [List.findSome?_map]
  refine congrArg (List.findSome? · js) (funext fun j => ?_)
  show errorOf (attempt (err j) (val j)) = err j
  cases err j with
  | some e => rfl
  | none => rfl

theorem values_map {err : β → Option ε} {val : β → α} {js : List β} (h : js.findSome? err = none) :
    values (js.map fun j => attempt (err j) (val j)) = js.map val := by
  induction js with
  | nil => rfl
  | cons j js ih =>
    obtain ⟨hj, hjs⟩ := List.forall_mem_cons.mp (List.findSome?_eq_none_iff.mp h)
    rw [List.map_cons, List.map_cons, hj, ← ih (List.findSome?_eq_none_iff.mpr hjs)]
    rfl

end Results
