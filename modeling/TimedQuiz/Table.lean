/-!
# Ordered tables

A table holds values under distinct names, in the order in which the names were first put in.

* `Table.get?`, `Table.contains` — looking up;
* `Table.insert` — a new name goes to the end, a known one keeps its place and takes the new value;
* `Table.ofList` — inserts from left to right.
-/

namespace TimedQuiz

variable {α : Type}

/-- Values under distinct names, in order. -/
structure Table (α : Type) where
  entries : List (String × α)
  nodup_keys : (entries.map (·.1)).Nodup

namespace Table

/-- No entries. -/
def empty : Table α := ⟨[], List.nodup_nil⟩

instance : EmptyCollection (Table α) := ⟨empty⟩

/-- The names, in order. -/
def keys (t : Table α) : List String := t.entries.map (·.1)

/-- The value under a name. -/
def get? (t : Table α) (key : String) : Option α :=
  (t.entries.find? fun e => e.1 == key).map (·.2)

/-- The name is in the table. -/
def contains (t : Table α) (key : String) : Bool := t.entries.any fun e => e.1 == key

/-- Replaces the value under a name that is present. -/
def replaceEntry (key : String) (value : α) (e : String × α) : String × α :=
  if e.1 = key then (e.1, value) else e

theorem replaceEntry_fst (key : String) (value : α) (e : String × α) :
    (replaceEntry key value e).1 = e.1 := by
  unfold replaceEntry
  split <;> rfl

/-- Puts a value under a name. -/
def insert (t : Table α) (key : String) (value : α) : Table α :=
  if h : key ∈ t.entries.map (·.1) then
    ⟨t.entries.map (replaceEntry key value), by
      simpa [List.map_map, Function.comp_def, replaceEntry_fst] using t.nodup_keys⟩
  else
    ⟨t.entries ++ [(key, value)], by
      rw [List.map_append, List.nodup_append]
      refine ⟨t.nodup_keys, by simp, ?_⟩
      intro a ha b hb hab
      simp only [List.map_cons, List.map_nil, List.mem_singleton] at hb
      exact h (hb ▸ hab ▸ ha)⟩

/-- Inserts every entry, from left to right. -/
def insertMany (t : Table α) (entries : List (String × α)) : Table α :=
  entries.foldl (fun t e => t.insert e.1 e.2) t

/-- The table of a list of entries. -/
def ofList (entries : List (String × α)) : Table α := empty.insertMany entries

end Table

end TimedQuiz
