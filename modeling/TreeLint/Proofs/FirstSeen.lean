/-
  Tables whose keys stand in the order in which they are first seen.

  A table is built by renewing one entry after another: the entry of a key that is there is renewed in its
  place, and the entry of a new key is put at the end.  After a row of texts the table has one entry for each
  text, in the order of the row, and what each entry holds comes from the occurrences of its key alone.
-/
import Mathlib.Data.List.Induction
import Mathlib.Data.List.Nodup
import TreeLint.Json.Order
import TreeLint.Syntax.Node

set_option autoImplicit false

namespace TreeLint.Json

open TreeLint.Syntax

/-! ## Texts in the order in which they are first seen -/

theorem eraseDups_concat (names : List String) (name : String) :
    (names ++ [name]).eraseDups =
      if name ∈ names then names.eraseDups else names.eraseDups ++ [name] := by
  rw [List.eraseDups_append, List.removeAll]
  by_cases hname : name ∈ names
  · simp [hname]
  · simp [hname, List.eraseDups_cons]

theorem nodup_eraseDups (names : List String) : names.eraseDups.Nodup := by
  induction names using List.reverseRecOn with
  | nil => exact List.nodup_nil
  | append_singleton names name ih =>
    rw [eraseDups_concat]
    split
    · exact ih
    · next hname =>
      refine List.nodup_append'.mpr ⟨ih, List.nodup_singleton name, fun other hother hlast => ?_⟩
      rw [List.mem_singleton.mp hlast] at hother
      exact hname (List.mem_eraseDups.mp hother)

/-! ## Entries -/

section Entries

variable {β : Type}

/-- The entries with that of a key renewed, in its place when it is there and at the end when it is new. -/
def renew (key : Value) (next : Option β → β) : List (Value × β) → List (Value × β)
  | [] => [(key, next none)]
  | (k, b) :: rest =>
    if k.alike key then (k, next (some b)) :: rest else (k, b) :: renew key next rest

/-- One entry for each text of a row, in the order in which the texts are first seen. -/
def entriesOf (names : List String) (entry : String → β) : List (Value × β) :=
  names.eraseDups.map fun name => (.str name, entry name)

variable {name : String} {next : Option β → β} {entry later : String → β}

/-- The entry of a new key is put at the end. -/
theorem renew_of_not_mem {keys : List String} (hname : name ∉ keys) :
    renew (.str name) next (keys.map fun key => (.str key, entry key)) =
      (keys.map fun key => (.str key, entry key)) ++ [(.str name, next none)] := by
  induction keys with
  | nil => rfl
  | cons key keys ih =>
    obtain ⟨hkey, hname⟩ := not_or.mp (mt List.mem_cons.mpr hname)
    rw [List.map_cons, renew, Value.alike_str, beq_false_of_ne (Ne.symm hkey), if_neg Bool.false_ne_true,
      ih hname, List.cons_append]

/-- The entry of a key that is there is renewed, and no other one. -/
theorem renew_of_mem {keys : List String} (hkeys : keys.Nodup) (hname : name ∈ keys)
    (hother : ∀ other, other ≠ name → later other = entry other)
    (hhere : later name = next (some (entry name))) :
    renew (.str name) next (keys.map fun key => (.str key, entry key)) =
      keys.map fun key => (.str key, later key) := by
  induction keys with
  | nil => cases hname
  | cons key keys ih =>
    obtain ⟨hkey, hkeys⟩ := List.nodup_cons.mp hkeys
    rw [List.map_cons, List.map_cons, renew, Value.alike_str]
    by_cases heq : key = name
    · subst heq
      have hrest : (keys.map fun key => (Value.str key, entry key)) =
          keys.map fun key => (Value.str key, later key) :=
        List.map_congr_left fun other hmem => by
          rw [hother other fun hsame => hkey (hsame ▸ hmem)]
      rw [beq_self_eq_true, if_pos rfl, hhere, hrest]
    · have hmem : name ∈ keys := (List.mem_cons.mp hname).resolve_left (Ne.symm heq)
      rw [beq_false_of_ne heq, if_neg Bool.false_ne_true, ih hkeys hmem, hother key heq]

/-- One more text renews its entry, and leaves the others as they are. -/
theorem renew_entriesOf {names : List String} (hother : ∀ other, other ≠ name → later other = entry other)
    (hhere : later name = next (if name ∈ names then some (entry name) else none)) :
    renew (.str name) next (entriesOf names entry) = entriesOf (names ++ [name]) later := by
  rw [entriesOf, entriesOf, eraseDups_concat]
  by_cases hname : name ∈ names
  · rw [if_pos hname] at hhere
    rw [if_pos hname]
    exact renew_of_mem (nodup_eraseDups names) (List.mem_eraseDups.mpr hname) hother hhere
  · rw [if_neg hname] at hhere
    have hkeys : name ∉ names.eraseDups := fun hmem => hname (List.mem_eraseDups.mp hmem)
    have hold : (names.eraseDups.map fun key => (Value.str key, entry key)) =
        names.eraseDups.map fun key => (Value.str key, later key) :=
      List.map_congr_left fun other hmem => by
        rw [hother other fun hsame => hkeys (hsame ▸ hmem)]
    rw [if_neg hname, renew_of_not_mem hkeys, List.map_append, List.map_singleton, hhere, hold]

/-- Where each renewal counts for one, the counts of all entries grow by one with each. -/
theorem total_renew {count : β → Nat} (hfirst : count (next none) = 1)
    (hnext : ∀ b, count (next (some b)) = count b + 1) (key : Value) (entries : List (Value × β)) :
    total (fun e => count e.2) (renew key next entries) = total (fun e => count e.2) entries + 1 := by
  induction entries with
  | nil => simp [renew, hfirst]
  | cons e rest ih =>
    obtain ⟨k, b⟩ := e
    rw [renew]
    split
    · simp only [total_cons, hnext]
      omega
    · simp only [total_cons, ih]
      omega

end Entries

/-! ## Rows -/

section Rows

variable {α β : Type}

/-- The table that a row of members gives, each of them renewing the entry of its name. -/
def tabulate (name : α → String) (next : α → Option β → β) (row : List α) : List (Value × β) :=
  row.foldl (fun entries a => renew (.str (name a)) (next a) entries) []

theorem tabulate_concat (name : α → String) (next : α → Option β → β) (row : List α) (a : α) :
    tabulate name next (row ++ [a]) = renew (.str (name a)) (next a) (tabulate name next row) :=
  List.foldl_concat _ _ _ _

variable {name : α → String} {next : α → Option β → β}

/-- The table of a row has one entry for each name.  What an entry holds changes with the members of its
name, and with no others. -/
theorem tabulate_eq_entriesOf (entry : List α → String → β)
    (hother : ∀ row a other, other ≠ name a → entry (row ++ [a]) other = entry row other)
    (hhere : ∀ row a, entry (row ++ [a]) (name a) =
      next a (if name a ∈ row.map name then some (entry row (name a)) else none)) (row : List α) :
    tabulate name next row = entriesOf (row.map name) (entry row) := by
  induction row using List.reverseRecOn with
  | nil => rfl
  | append_singleton row a ih =>
    rw [tabulate_concat, ih, List.map_append, List.map_singleton]
    exact renew_entriesOf (hother row a) (hhere row a)

/-- Where each renewal counts for one, the counts of all entries come to the number of members. -/
theorem total_tabulate {count : β → Nat} (hfirst : ∀ a, count (next a none) = 1)
    (hnext : ∀ a b, count (next a (some b)) = count b + 1) (row : List α) :
    total (fun e => count e.2) (tabulate name next row) = row.length := by
  induction row using List.reverseRecOn with
  | nil => rfl
  | append_singleton row a ih =>
    rw [tabulate_concat, total_renew (hfirst a) (hnext a), ih, List.length_append, List.length_singleton]

end Rows

end TreeLint.Json
