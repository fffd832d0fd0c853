import Std.Data.TreeMap

/-!
Symbols: every name gets a number when it is first seen, and keeps it.
-/

namespace Progression

abbrev Symbol := Nat

/-- Names at the places that are their symbols, with an index to find them by. -/
structure SymbolTable where
  names : Array String := #[]
  index : Std.TreeMap String Symbol := ∅
  index_eq : ∀ name : String, index[name]? = names.toList.idxOf? name := by simp

namespace SymbolTable

def empty : SymbolTable := {}

def get? (table : SymbolTable) (name : String) : Option Symbol :=
  table.index[name]?

theorem get?_eq_idxOf? (table : SymbolTable) (name : String) :
    table.get? name = table.names.toList.idxOf? name :=
  table.index_eq name

/-- A name that is new is found behind the others, and the others where they were. -/
theorem idxOf?_concat {names : List String} {name : String} (isNew : name ∉ names)
    (other : String) :
    (names ++ [name]).idxOf? other =
      if compare name other = .eq then some names.length else names.idxOf? other := by
  by_cases h : name = other
  · subst h
    have hnone : names.idxOf? name = none := List.idxOf?_eq_none_iff.2 isNew
    simp only [List.idxOf?] at hnone ⊢
    simp [List.findIdx?_append, hnone]
  · simp [List.idxOf?, List.findIdx?_append, h]

/-- Gives the next symbol to a name that has none. -/
def push (table : SymbolTable) (name : String) (isNew : table.get? name = none) : SymbolTable :=
  match table, isNew with
  | ⟨names, index, index_eq⟩, isNew =>
    let s := names.size
    ⟨names.push name, index.insert name s, by
      intro other
      have hnew : name ∉ names.toList := by
        rw [← List.idxOf?_eq_none_iff, ← index_eq]
        exact isNew
      rw [Std.TreeMap.getElem?_insert, index_eq, Array.toList_push, idxOf?_concat hnew,
        Array.length_toList]⟩

/-- The symbol of a name, a new one if the name has none. -/
def intern (table : SymbolTable) (name : String) : SymbolTable × Symbol :=
  match h : table.get? name with
  | some s => (table, s)
  | none =>
    let s := table.names.size
    (table.push name h, s)

/-- The name of a symbol; unknown symbols have the empty name. -/
def name (table : SymbolTable) (s : Symbol) : String :=
  table.names.getD s ""

def size (table : SymbolTable) : Nat :=
  table.names.size

def toList (table : SymbolTable) : List (Symbol × String) :=
  table.names.toList.zipIdx.map fun (name, s) => (s, name)

end SymbolTable

def Symbol.display (s : Symbol) : String :=
  "#" ++ toString s

end Progression
