import Progression.Proofs.Expressions
import Progression.Proofs.Grammar
import Progression.Proofs.Printing

/-!
Rules written down. Every gate whose count gates ask for one named resource has a form in the
notation of rule files, in which each gate is an object with the label of its kind. Main statement:
a table whose gates nest no deeper than the notation allows is loaded from that form as it was,
whatever the layout of the text, unless the text is too large.
-/

namespace Progression

open Authoring

/-! ### The form of a gate -/

mutual

/-- A name stands for itself. A gate is an object with the label of its kind and a list of its
parents, in which a count gate has its threshold in front. -/
def Parent.written : Parent → Json
  | .named name => .string name
  | .inline (.count min) parents =>
    .object [("count", .array (.nat min.toNat :: Parent.writtenAll parents))]
  | .inline kind parents => .object [(kind.label, .array (Parent.writtenAll parents))]

def Parent.writtenAll : List Parent → List Json
  | [] => []
  | p :: ps => p.written :: Parent.writtenAll ps

end

def Gate.written (gate : Gate) : Json :=
  gate.inline.written

/-- The members of a rule file. -/
def Table.written (table : Table) : Json :=
  .object (table.entries.map fun (name, gate) => (name, gate.written))

/-- A count gate asks for one resource by name, for nothing else can be written. -/
def Gate.IsWritable (gate : Gate) : Prop :=
  gate.kind.isCount = true → ∃ resource, gate.parents = [.named resource]

instance Parent.decidableExistsNamed :
    (parents : List Parent) → Decidable (∃ resource, parents = [.named resource])
  | [.named resource] => isTrue ⟨resource, rfl⟩
  | [] | [.inline _ _] | _ :: _ :: _ => isFalse (by simp)

instance (gate : Gate) : Decidable gate.IsWritable :=
  inferInstanceAs
    (Decidable (gate.kind.isCount = true → ∃ resource, gate.parents = [.named resource]))

namespace Parent

theorem written_inline {kind : Kind} (h : kind.isCount = false) (parents : List Parent) :
    (inline kind parents).written = .object [(kind.label, .array (writtenAll parents))] := by
  cases kind <;> first | rfl | contradiction

/-! ### The form is that of the grammar -/

mutual

/-- No key is repeated, so there is nothing to resolve. -/
@[simp] theorem resolved_written : (p : Parent) → p.written.resolved = p.written
  | .named name => rfl
  | .inline kind parents => by
      have hall := resolvedItems_writtenAll parents
      cases kind <;> simp [written, Json.resolved, Json.resolvedItems, Json.resolvedMembers,
        Json.distinct, Json.nat, hall]

@[simp] theorem resolvedItems_writtenAll : (ps : List Parent) →
    Json.resolvedItems (writtenAll ps) = writtenAll ps
  | [] => rfl
  | p :: ps => by
      rw [writtenAll, Json.resolvedItems, resolved_written p, resolvedItems_writtenAll ps]

end

mutual

theorem writes_written : (kind : Kind) → (parents : List Parent) →
    (∀ gate ∈ (inline kind parents).gates, gate.IsWritable) →
    Writes (inline kind parents).written ⟨kind, parents⟩
  | kind, parents, h => by
      have hgates : ∀ gate ∈ gatesAll parents, gate.IsWritable :=
        fun gate hgate => h gate (List.mem_cons_of_mem _ hgate)
      cases hcount : kind.isCount with
      | false =>
          have hlabelled : kind ∈ Kind.labelled := Kind.mem_labelled_iff.2 hcount
          rw [written_inline hcount]
          exact .kind hlabelled (.list (writesAll_written parents hgates))
      | true =>
          obtain ⟨resource, hresource⟩ := h _ List.mem_cons_self hcount
          obtain rfl : parents = [.named resource] := hresource
          cases kind with
          | count min =>
              have hwrites := Writes.count resource min.toNat_lt_size
              rw [UInt32.ofNat_toNat] at hwrites
              exact hwrites
          | _ => contradiction

theorem writesAll_written : (ps : List Parent) → (∀ gate ∈ gatesAll ps, gate.IsWritable) →
    WritesAll (writtenAll ps) ps
  | [], _ => .nil
  | .named name :: ps, h => .name name (writesAll_written ps h)
  | .inline kind parents :: ps, h => by
      have hfirst := writes_written kind parents fun gate hgate =>
        h gate (List.mem_append_left _ hgate)
      have hrest := writesAll_written ps fun gate hgate => h gate (List.mem_append_right _ hgate)
      have hobject : ∀ s, (inline kind parents).written ≠ .string s := by
        intro s hs
        cases kind <;> cases hs
      exact WritesAll.gate hobject hfirst hrest

end

/-! ### The form is read from its text -/

mutual

/-- A gate takes two containers, its object and the list in it. -/
theorem isPlain_written {depth : Nat} : (p : Parent) → p.depth ≤ depth →
    p.written.IsPlain (2 * depth)
  | .named name, _ => .string name
  | .inline kind parents, h => by
      rw [Parent.depth] at h
      obtain ⟨d, rfl⟩ : ∃ d, depth = d + 1 := ⟨depth - 1, by omega⟩
      have hitems : ∀ j ∈ writtenAll parents, j.IsPlain (2 * d) :=
        isPlain_writtenAll parents (by omega)
      show (inline kind parents).written.IsPlain (2 * d + 1 + 1)
      cases hcount : kind.isCount with
      | false =>
          rw [written_inline hcount]
          refine .object fun m hm => ?_
          rw [List.mem_singleton.1 hm]
          exact .array hitems
      | true =>
          cases kind with
          | count min =>
              have hmin : min.toNat < UInt64.size := Nat.lt_trans min.toNat_lt_size (by decide)
              refine .object fun m hm => ?_
              rw [List.mem_singleton.1 hm]
              exact .array (List.forall_mem_cons.2 ⟨.nat hmin, hitems⟩)
          | _ => contradiction

theorem isPlain_writtenAll {depth : Nat} : (ps : List Parent) → depthAll ps ≤ depth →
    ∀ j ∈ writtenAll ps, j.IsPlain (2 * depth)
  | [], _ => List.forall_mem_nil _
  | p :: ps, h => by
      rw [depthAll] at h
      exact List.forall_mem_cons.2
        ⟨isPlain_written p (by omega), isPlain_writtenAll ps (by omega)⟩

end

end Parent

namespace Json

theorem isReadableAll_iff {items : List Json} :
    isReadableAll items = true ↔ ∀ j ∈ items, j.isReadable = true := by
  induction items with
  | nil => simp [isReadableAll]
  | cons j js ih => rw [isReadableAll, Bool.and_eq_true, ih, List.forall_mem_cons]

theorem areReadable_iff {members : List (String × Json)} :
    areReadable members = true ↔ ∀ m ∈ members, m.2.isReadable = true := by
  induction members with
  | nil => simp [areReadable]
  | cons m ms ih => rw [areReadable, Bool.and_eq_true, ih, List.forall_mem_cons]

theorem IsPlain.isReadable {level : Nat} {j : Json} (h : j.IsPlain level) :
    j.isReadable = true := by
  induction h with
  | null | bool _ | nat _ | string _ => rfl
  | array _ ih => exact isReadableAll_iff.2 ih
  | object _ ih => exact areReadable_iff.2 ih

end Json

namespace Table

variable {table : Table}

/-- Every gate can be written, and none has too many others around it. -/
structure IsWritable (table : Table) : Prop where
  depth_le : ∀ entry ∈ table.entries, entry.2.depth ≤ maxNesting
  gates : ∀ entry ∈ table.entries, ∀ gate ∈ entry.2 :: entry.2.inner, gate.IsWritable

/-- The object of the table and two containers for each of up to 33 gates are well within what is
read. -/
theorem IsWritable.isPlain (h : table.IsWritable) : table.written.IsPlain Json.maxDepth := by
  have hmembers : ∀ m ∈ table.entries.map fun (name, gate) => (name, gate.written),
      m.2.IsPlain (2 * 63) := by
    intro m hm
    obtain ⟨entry, hentry, rfl⟩ := List.mem_map.1 hm
    have hdepth : entry.2.inline.depth ≤ maxNesting + 1 :=
      Nat.succ_le_succ (h.depth_le entry hentry)
    exact Parent.isPlain_written entry.2.inline (Nat.le_trans hdepth (by decide))
  exact .object hmembers

theorem entries?_written {entries : List (String × Gate)}
    (hdepth : ∀ entry ∈ entries, entry.2.depth ≤ maxNesting)
    (hgates : ∀ entry ∈ entries, ∀ gate ∈ entry.2 :: entry.2.inner, gate.IsWritable) :
    entries? (entries.map fun (name, gate) => (name, gate.written)) = .ok entries := by
  induction entries with
  | nil => rfl
  | cons entry entries ih =>
      obtain ⟨name, gate⟩ := entry
      obtain ⟨hdepth, hdepths⟩ := List.forall_mem_cons.1 hdepth
      obtain ⟨hgate, hgates⟩ := List.forall_mem_cons.1 hgates
      rw [← Gate.gates_inline] at hgate
      have hread : ruleGate gate.written = .ok gate := by
        rw [ruleGate_eq_ok_iff, Gate.written, Parent.resolved_written]
        exact ⟨Parent.writes_written gate.kind gate.parents hgate, hdepth⟩
      rw [List.map_cons, entries?, hread, ih hdepths hgates]

/-- What spells the words of a table that can be written is loaded as that table. -/
theorem IsWritable.load_of_spells (h : table.IsWritable) {text : String}
    (hspells : Json.Token.Spells (Json.tokens table.written) text.toList)
    (hsize : text.utf8ByteSize ≤ sizeLimit) (name : String) :
    load name .json text = .ok { name, entries := table.entries } := by
  have hparse := Json.parse?_of_spells h.isPlain hspells
  have hreadable := Json.IsPlain.isReadable h.isPlain
  rw [load_json hsize hparse hreadable, entries?_written h.depth_le h.gates]
  rfl

/-- A table that can be written is loaded from its text, whatever blanks stand between words and
however characters are escaped. In particular it is loaded from what the printers make of it. -/
theorem IsWritable.load_written (h : table.IsWritable) (name : String) :
    (∀ text : String, Json.Token.Spells (Json.tokens table.written) text.toList →
      text.utf8ByteSize ≤ sizeLimit →
        load name .json text = .ok { name, entries := table.entries }) ∧
    ∀ text ∈ [table.written.compact, table.written.pretty], text.utf8ByteSize ≤ sizeLimit →
      load name .json text = .ok { name, entries := table.entries } := by
  refine ⟨fun text hspells hsize => h.load_of_spells hspells hsize name, ?_⟩
  simp only [List.forall_mem_cons, List.not_mem_nil, false_implies, implies_true, and_true]
  exact ⟨fun hsize => h.load_of_spells h.isPlain.spells_compact hsize name,
    fun hsize => h.load_of_spells h.isPlain.spells_pretty hsize name⟩

/-- So many gates inside each other, around a name. -/
def tower : Nat → Parent
  | 0 => .named "a"
  | n + 1 => .inline .or [tower n]

/-- A rule whose name is a quote, and two rules of one name: a root that has parents and a gate that
nests as deep as may be. -/
def towerTable : Table where
  name := "t"
  placeable := true
  entries := [("\"", .root), ("d", ⟨.root, [.inline (.count 4294967295) [.named "k"], .named "a"]⟩),
    ("d", ⟨.hardAnd, [tower 32, .inline .and []]⟩)]

theorem load_written_tower : towerTable.IsWritable ∧
    load "t" .json towerTable.written.compact = .ok { towerTable with placeable := false } := by
  have hwritable : towerTable.IsWritable := ⟨by decide +kernel, by decide +kernel⟩
  have hsize : towerTable.written.compact.utf8ByteSize ≤ sizeLimit := by decide +kernel
  obtain ⟨-, hload⟩ := hwritable.load_written "t"
  exact ⟨hwritable, hload _ (List.mem_cons_self (a := towerTable.written.compact)) hsize⟩

end Table

end Progression
