import Bindery.NameTable
import Bindery.Number.Decimal
import Mathlib.Data.List.Basic
/-!
# Handles of names, and names that are made up

A handle stands for a name: its place among the names of a table, the oldest first. A table only grows, so a handle
keeps its name, and two handles are the same exactly when their names are. Names that are made up differ from each other
as long as their count does not wrap around. Against the names that were recorded before, nothing is checked: a made-up
name has the handle of a recorded one when the text of that one happens to be the same.
-/
namespace Bindery

namespace NameTable

theorem resolve?_handle {table : NameTable} {name : String} (h : name ∈ table.names) :
    table.resolve? (table.handle name) = some name :=
  List.getElem?_idxOf (List.mem_reverse.2 h)

inductive Request where
  | warmUp (names : List String)
  | intern (name : String)
  | internStatic (name : String)
  | generate (hint : String)

namespace Request

/-- The names that are handed out. -/
def names (table : NameTable) : Request → List String
  | warmUp names => names
  | intern name => [name]
  | internStatic name => [name]
  | generate hint => [(table.generate hint).1]

def after (table : NameTable) : Request → NameTable
  | warmUp names => table.insertMany names
  | intern name => table.insert name
  | internStatic name => table.insert name
  | generate hint => (table.generate hint).2

def generates : Request → Bool
  | generate _ => true
  | _ => false

end Request

/-- A handle that was handed out: the name that it was handed out for, and whether the name was made up. -/
structure Issue where
  handle : Nat
  name : String
  made : Bool
  deriving DecidableEq, Repr

/-- The handles that a request gets, as they are in the table afterwards. -/
def issue (table : NameTable) (request : Request) : List Issue :=
  (request.names table).map fun name => ⟨(request.after table).handle name, name, request.generates⟩

/-- The handles that requests get, the first one first. -/
def issueAll (table : NameTable) : List Request → List Issue
  | [] => []
  | request :: rest => table.issue request ++ (request.after table).issueAll rest

def afterAll (table : NameTable) (requests : List Request) : NameTable := requests.foldl Request.after table

/-! ## A handle keeps its name -/

theorem generated_insert (table : NameTable) (name : String) : (table.insert name).generated = table.generated := by
  unfold insert
  split <;> rfl

theorem names_insert_suffix (table : NameTable) (name : String) : table.names <:+ (table.insert name).names := by
  unfold insert
  split
  · exact List.suffix_rfl
  · exact List.suffix_cons name table.names

theorem names_insertMany_suffix (names : List String) : ∀ table : NameTable,
    table.names <:+ (table.insertMany names).names := by
  induction names with
  | nil => exact fun table => List.suffix_rfl
  | cons name rest ih => exact fun table => (table.names_insert_suffix name).trans (ih (table.insert name))

theorem names_after_suffix (table : NameTable) (request : Request) : table.names <:+ (request.after table).names := by
  cases request with
  | warmUp names => exact table.names_insertMany_suffix names
  | intern name => exact table.names_insert_suffix name
  | internStatic name => exact table.names_insert_suffix name
  | generate hint => exact table.names_insert_suffix (table.next hint)

theorem names_afterAll_suffix (requests : List Request) : ∀ table : NameTable,
    table.names <:+ (table.afterAll requests).names := by
  induction requests with
  | nil => exact fun table => List.suffix_rfl
  | cons request rest ih => exact fun table => (table.names_after_suffix request).trans (ih (request.after table))

theorem mem_insertMany (names : List String) : ∀ table : NameTable, ∀ name ∈ names,
    name ∈ (table.insertMany names).names := by
  induction names with
  | nil => exact fun table name h => (List.not_mem_nil h).elim
  | cons first rest ih =>
    intro table name h
    rcases List.mem_cons.1 h with rfl | h
    · exact ((table.insert name).names_insertMany_suffix rest).subset ((mem_insert table name name).2 (.inl rfl))
    · exact ih (table.insert first) name h

theorem mem_names_after {table : NameTable} {request : Request} {name : String} (h : name ∈ request.names table) :
    name ∈ (request.after table).names := by
  cases request with
  | warmUp names => exact mem_insertMany names table name h
  | intern own => exact (mem_insert table own name).2 (.inl (List.mem_singleton.1 h))
  | internStatic own => exact (mem_insert table own name).2 (.inl (List.mem_singleton.1 h))
  | generate hint => exact (mem_insert table (table.next hint) name).2 (.inl (List.mem_singleton.1 h))

/-- **A handle stays the same while the table grows.** -/
theorem handle_eq_of_suffix {table later : NameTable} (h : table.names <:+ later.names) {name : String}
    (hname : name ∈ table.names) : later.handle name = table.handle name := by
  obtain ⟨added, hadded⟩ := h
  rw [handle, ← hadded, List.reverse_append, List.idxOf_append_of_mem (List.mem_reverse.2 hname), handle]

/-- **Every handle that was handed out is that of its name, in the end as in the beginning.** -/
theorem issueAll_handle (requests : List Request) : ∀ table : NameTable, ∀ issue ∈ table.issueAll requests,
    issue.name ∈ (table.afterAll requests).names ∧ issue.handle = (table.afterAll requests).handle issue.name := by
  induction requests with
  | nil => exact fun table issue h => (List.not_mem_nil h).elim
  | cons request rest ih =>
    intro table issue h
    rcases List.mem_append.1 h with h | h
    · obtain ⟨name, hname, rfl⟩ := List.mem_map.1 h
      have hsuffix := names_afterAll_suffix rest (request.after table)
      have hrecorded := mem_names_after hname
      exact ⟨hsuffix.subset hrecorded, (handle_eq_of_suffix hsuffix hrecorded).symm⟩
    · exact ih (request.after table) issue h

/-! ## Names that are made up -/

theorem toList_next (table : NameTable) (hint : String) :
    (table.next hint).toList = hint.toList ++ '$' :: decimalDigits table.generated := by
  have htext : table.next hint = hint ++ "$" ++ toString table.generated := rfl
  rw [htext, String.toList_append, String.toList_append, List.append_assoc, toList_toString]
  rfl

theorem dollar_not_mem_decimalDigits (n : Nat) : '$' ∉ decimalDigits n := fun h =>
  absurd (isDigit_of_mem_decimalDigits h) (by decide)

/-- What stands behind the last occurrence of an item is told by the list. -/
theorem eq_of_append_cons_eq {α : Type} [DecidableEq α] {mark : α} {xs ys ds es : List α} (hd : mark ∉ ds)
    (he : mark ∉ es) (h : xs ++ mark :: ds = ys ++ mark :: es) : ds = es := by
  have hlast : ∀ (l m : List α), mark ∉ m → ((l ++ mark :: m).reverse.takeWhile (· ≠ mark)) = m.reverse := by
    intro l m hm
    rw [List.reverse_append, List.reverse_cons, List.append_assoc, List.takeWhile_append_of_pos]
    · simp
    · intro a ha
      exact decide_eq_true fun heq => hm (heq ▸ List.mem_reverse.1 ha)
  exact List.reverse_inj.1 (by rw [← hlast xs ds hd, h, hlast ys es he])

/-- A made-up name tells its number. -/
theorem generated_eq_of_next_eq {s t : NameTable} {hint other : String} (h : s.next hint = t.next other) :
    s.generated = t.generated := by
  have hlists := congrArg String.toList h
  rw [toList_next, toList_next] at hlists
  exact decimalDigits_inj
    (eq_of_append_cons_eq (dollar_not_mem_decimalDigits _) (dollar_not_mem_decimalDigits _) hlists)

theorem generated_insertMany (names : List String) : ∀ table : NameTable,
    (table.insertMany names).generated = table.generated := by
  induction names with
  | nil => exact fun table => rfl
  | cons name rest ih => exact fun table => (ih (table.insert name)).trans (table.generated_insert name)

/-- The count goes up with each name that is made up, while it has not come to its end. -/
theorem generated_after {table : NameTable} {request : Request} {rest : List Request}
    (hcount : table.generated + (request :: rest).countP Request.generates < pow2 32) :
    (request.after table).generated = table.generated + [request].countP Request.generates := by
  cases request with
  | warmUp names => exact table.generated_insertMany names
  | intern name => exact table.generated_insert name
  | internStatic name => exact table.generated_insert name
  | generate hint =>
    rw [List.countP_cons_of_pos rfl] at hcount
    exact Nat.mod_eq_of_lt (by omega)

theorem countP_cons_eq (request : Request) (rest : List Request) : (request :: rest).countP Request.generates =
    [request].countP Request.generates + rest.countP Request.generates := by
  rw [← List.countP_append, List.singleton_append]

theorem next_of_made {table : NameTable} {request : Request} {issue : Issue} (h : issue ∈ table.issue request)
    (hmade : issue.made) : request.generates ∧ ∃ hint, issue.name = table.next hint := by
  obtain ⟨name, hname, rfl⟩ := List.mem_map.1 h
  cases request with
  | generate hint => exact ⟨rfl, hint, List.mem_singleton.1 hname⟩
  | _ => cases hmade

/-- The names that requests make up have numbers from the table's count on. -/
theorem exists_next_of_made (requests : List Request) : ∀ table : NameTable,
    table.generated + requests.countP Request.generates < pow2 32 → ∀ issue ∈ table.issueAll requests, issue.made →
      ∃ (later : NameTable) (hint : String), issue.name = later.next hint ∧ table.generated ≤ later.generated := by
  induction requests with
  | nil => exact fun table _ issue h => (List.not_mem_nil h).elim
  | cons request rest ih =>
    intro table hcount issue h hmade
    rcases List.mem_append.1 h with h | h
    · obtain ⟨-, hint, hname⟩ := next_of_made h hmade
      exact ⟨table, hint, hname, Nat.le_refl _⟩
    · have hafter := generated_after hcount
      rw [countP_cons_eq] at hcount
      obtain ⟨later, hint, hname, hle⟩ := ih (request.after table) (by omega) issue h hmade
      exact ⟨later, hint, hname, by omega⟩

/-- **Names that are made up differ.** -/
theorem pairwise_made (requests : List Request) : ∀ table : NameTable,
    table.generated + requests.countP Request.generates < pow2 32 →
      (table.issueAll requests).Pairwise fun a b => a.made → b.made → a.name ≠ b.name := by
  induction requests with
  | nil => exact fun table _ => .nil
  | cons request rest ih =>
    intro table hcount
    have hafter := generated_after hcount
    rw [countP_cons_eq] at hcount
    have hrest : (request.after table).generated + rest.countP Request.generates < pow2 32 := by omega
    refine List.pairwise_append.2 ⟨?_, ih _ hrest, ?_⟩
    · cases request with
      | generate hint => exact List.pairwise_singleton _ _
      | _ => exact List.pairwise_map.2 (List.pairwise_of_forall fun _ _ h => by cases h)
    · -- The first name has the number of the table, and the later ones have numbers beyond it.
      intro a ha b hb hmadeA hmadeB heq
      obtain ⟨hgenerates, own, hown⟩ := next_of_made ha hmadeA
      obtain ⟨later, hint, hlater, hle⟩ := exists_next_of_made rest _ hrest b hb hmadeB
      have hnumber : table.generated = later.generated :=
        generated_eq_of_next_eq (hown.symm.trans (heq.trans hlater))
      rw [List.countP_singleton, if_pos hgenerates] at hafter
      omega

/-- **A handle stands for its name, and a made-up name is new unless its text is recorded.** After any requests to an
empty table, of which fewer than 2 ^ 32 make up a name: every handle that was handed out stands for the name it was
handed out for, two handles are the same exactly when their names are, and the handle of a made-up name is an earlier one
exactly when that one was handed out for the same text and not made up. -/
theorem handles_issued (requests : List Request) (hcount : requests.countP Request.generates < pow2 32) :
    let table := empty.afterAll requests
    let issues := empty.issueAll requests
    (∀ a ∈ issues, table.resolve? a.handle = some a.name) ∧
    (∀ a ∈ issues, ∀ b ∈ issues, a.handle = b.handle ↔ a.name = b.name) ∧
    issues.Pairwise fun a b => b.made → (a.handle = b.handle ↔ a.made = false ∧ a.name = b.name) := by
  intro table issues
  have hhandle := issueAll_handle requests empty
  have hresolve : ∀ a ∈ issues, table.resolve? a.handle = some a.name := by
    intro a ha
    obtain ⟨hname, heq⟩ := hhandle a ha
    rw [heq, resolve?_handle hname]
  have hiff : ∀ a ∈ issues, ∀ b ∈ issues, a.handle = b.handle ↔ a.name = b.name := by
    intro a ha b hb
    constructor
    · intro h
      exact Option.some.inj (by rw [← hresolve a ha, ← hresolve b hb, h])
    · intro h
      rw [(hhandle a ha).2, (hhandle b hb).2, h]
  have hmade : issues.Pairwise fun a b => a.made → b.made → a.name ≠ b.name :=
    pairwise_made requests empty (by rw [show empty.generated = 0 from rfl, Nat.zero_add]; exact hcount)
  refine ⟨hresolve, hiff, hmade.imp_of_mem fun {a b} ha hb hne hb' => ?_⟩
  rw [hiff a ha b hb]
  constructor
  · intro h
    exact ⟨Bool.eq_false_iff.2 fun ha' => hne ha' hb' h, h⟩
  · exact And.right

/-- Names of every origin: two warmed up, one recorded twice, and names made up between them. -/
def mixedRequests : List Request :=
  [.warmUp ["Int32", "Bool"], .intern "loop", .generate "loop", .internStatic "loop$0", .generate "loop",
    .intern "Bool"]

theorem mixedRequests_issued : mixedRequests.countP Request.generates < pow2 32 ∧
    (empty.issueAll mixedRequests).map (·.handle) = [0, 1, 2, 3, 3, 4, 1] ∧
    (∀ a ∈ empty.issueAll mixedRequests, (empty.afterAll mixedRequests).resolve? a.handle = some a.name) ∧
    (empty.issueAll mixedRequests).Pairwise fun a b =>
      b.made → (a.handle = b.handle ↔ a.made = false ∧ a.name = b.name) := by
  have hcount : mixedRequests.countP Request.generates < pow2 32 := by decide
  obtain ⟨hresolve, -, hmade⟩ := handles_issued mixedRequests hcount
  exact ⟨hcount, by decide, hresolve, hmade⟩

/-- The name that is made up for a loop is one that the source used before. -/
theorem made_recorded : empty.issueAll [.intern "loop$0", .generate "loop"] =
    [⟨0, "loop$0", false⟩, ⟨0, "loop$0", true⟩] := by
  decide

end NameTable

end Bindery
