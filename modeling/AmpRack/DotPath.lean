import Mathlib.Data.List.Basic
import Mathlib.Tactic.Common

/-!
# Paths with dot-dot components

`walk` follows a path from a directory without looking at what is there: a name goes down, `..` goes
up and stays at the root. `resolved` takes the `..` out of a path as far as it goes; what is left is a
number of steps up and names to go down. A path leads directly below the directory it starts from
exactly when it goes down, after its steps up, through the directories it has left to one name more.

`components` reads a path from its text.
-/

namespace DotPath

inductive Component (α : Type*)
  | up
  | down (name : α)

section Walk

variable {α : Type*}

def walk (dir : List α) : List (Component α) → List α
  | [] => dir
  | .up :: cs => walk dir.dropLast cs
  | .down name :: cs => walk (dir ++ [name]) cs

/-- The steps up and the names behind `cs`, from `ups` steps up and the names `names`. -/
def resolvedFrom (ups : ℕ) (names : List α) : List (Component α) → ℕ × List α
  | [] => (ups, names)
  | .up :: cs =>
    if names.isEmpty then resolvedFrom (ups + 1) [] cs else resolvedFrom ups names.dropLast cs
  | .down name :: cs => resolvedFrom ups (names ++ [name]) cs

def resolved (cs : List (Component α)) : ℕ × List α := resolvedFrom 0 [] cs

theorem walk_append (dir : List α) (cs ds : List (Component α)) :
    walk dir (cs ++ ds) = walk (walk dir cs) ds := by
  induction cs generalizing dir with
  | nil => rfl
  | cons c cs ih => cases c <;> exact ih _

theorem walk_take_append (dir : List α) (ups : ℕ) (names : List α) (cs : List (Component α)) :
    walk (dir.take (dir.length - ups) ++ names) cs =
      dir.take (dir.length - (resolvedFrom ups names cs).1) ++ (resolvedFrom ups names cs).2 := by
  induction cs generalizing ups names with
  | nil => rfl
  | cons c cs ih =>
    cases c with
    | up =>
      rw [walk, resolvedFrom]
      by_cases hnames : names.isEmpty = true
      · have htake : (dir.take (dir.length - ups)).dropLast = dir.take (dir.length - (ups + 1)) := by
          rw [List.dropLast_eq_take, List.take_take, List.length_take]
          congr 1
          omega
        rw [if_pos hnames, List.isEmpty_iff.mp hnames, List.append_nil, htake]
        rw [← ih, List.append_nil]
      · rw [if_neg hnames, List.dropLast_append_of_ne_nil (by simpa using hnames), ih]
    | down name =>
      rw [walk, resolvedFrom, List.append_assoc, ih]

/-- A walk goes up from the directory and then down. -/
theorem walk_eq (dir : List α) (cs : List (Component α)) :
    walk dir cs = dir.take (dir.length - (resolved cs).1) ++ (resolved cs).2 := by
  have h := walk_take_append dir 0 [] cs
  rw [Nat.sub_zero, List.take_length, List.append_nil] at h
  exact h

/-- The names lead through the directories that were left to one name more. -/
def OneBelow (dir : List α) (cs : List (Component α)) : Prop :=
  ∃ name, (resolved cs).2 = dir.drop (dir.length - (resolved cs).1) ++ [name]

theorem walk_eq_concat_iff (dir : List α) (cs : List (Component α)) :
    (∃ name, walk dir cs = dir ++ [name]) ↔ OneBelow dir cs := by
  have hdir (name : α) : dir ++ [name] = dir.take (dir.length - (resolved cs).1) ++
      (dir.drop (dir.length - (resolved cs).1) ++ [name]) := by
    rw [← List.append_assoc, List.take_append_drop]
  rw [OneBelow, walk_eq]
  constructor
  · rintro ⟨name, h⟩
    rw [hdir name] at h
    exact ⟨name, List.append_cancel_left h⟩
  · rintro ⟨name, h⟩
    exact ⟨name, by rw [h, ← hdir]⟩

end Walk

/-- The component that a part between slashes stands for; an empty part and `.` stand for none. -/
def component (part : List Char) : Option (Component (List Char)) :=
  if part = [] ∨ part = ['.'] then none
  else if part = ['.', '.'] then some .up
  else some (.down part)

def components (path : List Char) : List (Component (List Char)) :=
  (path.splitOn '/').filterMap component

/-- A directory and what is put behind it are followed one after the other. -/
theorem components_append (s t : List Char) :
    components (s ++ '/' :: t) = components s ++ components t := by
  rw [components, List.splitOn_append_cons_self, List.filterMap_append]
  rfl

/-- A slash behind a path adds no component. -/
theorem components_slash (s : List Char) : components (s ++ ['/']) = components s := by
  rw [components_append]
  exact List.append_nil _

/-- A name without a slash is one step down. -/
theorem components_of_name {name : List Char} (hnil : name ≠ []) (hdot : name ≠ ['.'])
    (hdots : name ≠ ['.', '.']) (hslash : '/' ∉ name) : components name = [.down name] := by
  rw [components, List.splitOn_eq_singleton hslash, List.filterMap_cons, component,
    if_neg (not_or.mpr ⟨hnil, hdot⟩), if_neg hdots]
  rfl

example : resolved (components "a/.././../b//c".toList) = (1, ["b".toList, "c".toList]) := by decide

end DotPath
