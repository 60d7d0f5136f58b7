import RowGraph.Find.Plan
import RowGraph.Proofs.Sql.Section

/-!
# Proofs — Find — reading a find back

What a find asks for is read off the sections of its statement (`Query.read`): the columns with
their labels, the root, the joins, the condition as it stands, grouping, order and paging.  The
sections are read in the order a find has them, and nothing may be left over.

**Every query that reads some column is read back from its sections** (`Query.read_sections`).
-/

namespace RowGraph

open Sql Fragment

/-! ### Queries -/

/-- A join as it is written; the filter of its include stands elsewhere. -/
structure JoinHead where
  kind : JoinKind
  table : String
  aliasName : String
  left : TableColumn
  right : TableColumn
  deriving DecidableEq, Repr

/-- A find as it is written. -/
structure Query where
  /-- The columns read, each with its label. -/
  columns : List (TableColumn × String)
  table : String
  aliasName : String
  joins : List JoinHead
  condition : Option Fragment
  group : List TableColumn
  order : List (TableColumn × Direction)
  limit : Option Nat
  offset : Option Nat

/-! ### Reading -/

def Sql.Chunk.isComma : Chunk → Bool
  | .token .comma => true
  | _ => false

def JoinKind.ofToken? : Token → Option JoinKind
  | .innerJoin => some .inner
  | .leftOuterJoin => some .leftOuter
  | _ => none

def Direction.ofToken? : Token → Option Direction
  | .asc => some .asc
  | .desc => some .desc
  | _ => none

namespace Query

/-- The items between commas. -/
def items? {α : Type} (item : Fragment → Option α) (f : Fragment) : Option (List α) :=
  (List.splitOnP Chunk.isComma f).mapM item

def column? : Fragment → Option TableColumn
  | [.ident q, .token .dot, .ident c] => some ⟨q, c⟩
  | _ => none

def labelled? : Fragment → Option (TableColumn × String)
  | [.ident q, .token .dot, .ident c, .token .as, .ident label] => some (⟨q, c⟩, label)
  | _ => none

def ordered? : Fragment → Option (TableColumn × Direction)
  | [.ident q, .token .dot, .ident c, .token t] => (Direction.ofToken? t).map (⟨q, c⟩, ·)
  | _ => none

def number? : Fragment → Option Nat
  | [.number n] => some n
  | _ => none

/-- A table and its alias. -/
def table? : Fragment → Option (String × String)
  | [.ident table, .token .as, .ident aliasName] => some (table, aliasName)
  | _ => none

def join? (k : JoinKind) : Fragment → Option JoinHead
  | [.ident table, .token .as, .ident aliasName, .token .on, .ident q, .token .dot, .ident c,
      .token .eq, .ident q', .token .dot, .ident c'] =>
      some ⟨k, table, aliasName, ⟨q, c⟩, ⟨q', c'⟩⟩
  | _ => none

/-- The joins in front, and what follows. -/
def joins? : List Section → Option (List JoinHead × List Section)
  | [] => some ([], [])
  | s :: ss =>
      match JoinKind.ofToken? s.1 with
      | some k => do
          let j ← join? k s.2
          let (js, rest) ← joins? ss
          return (j :: js, rest)
      | none => some ([], s :: ss)

/-- The section of a keyword, if it is in front, and what follows. -/
def part? {α : Type} (t : Token) (read : Fragment → Option α) :
    List Section → Option (Option α × List Section)
  | [] => some (none, [])
  | s :: ss => if s.1 = t then (read s.2).map fun a => (some a, ss) else some (none, s :: ss)

/-- Reads the sections of a find. -/
def read : List Section → Option Query
  | (.select, columns) :: (.fromTable, table) :: ss => do
      let columns ← items? labelled? columns
      let (table, aliasName) ← table? table
      let (joins, ss) ← joins? ss
      let (condition, ss) ← part? .filter some ss
      let (group, ss) ← part? .groupBy (items? column?) ss
      let (order, ss) ← part? .orderBy (items? ordered?) ss
      let (limit, ss) ← part? .limit number? ss
      let (offset, ss) ← part? .offset number? ss
      if ss.isEmpty then
        some ⟨columns, table, aliasName, joins, condition, group.getD [], order.getD [], limit,
          offset⟩
      else none
  | _ => none

/-! ### Writing -/

def labelled (c : TableColumn × String) : Fragment :=
  c.1.fragment ++ Fragment.token .as ++ Fragment.ident c.2

def named (table aliasName : String) : Fragment :=
  Fragment.ident table ++ Fragment.token .as ++ Fragment.ident aliasName

/-- The section of a keyword, if there is anything to say in it. -/
def part (t : Token) (f : Option Fragment) : List Section := f.toList.map (t, ·)

/-- The items behind commas, if there are any. -/
def listed : List Fragment → Option Fragment
  | [] => none
  | fs => some (commas fs)

end Query

def JoinHead.fragment (j : JoinHead) : Fragment :=
  Query.named j.table j.aliasName ++ token .on ++ j.left.fragment ++ token .eq ++ j.right.fragment

namespace Query

/-- The sections behind the joins. -/
def tail (q : Query) : List Section :=
  part .filter q.condition ++ part .groupBy (listed (q.group.map TableColumn.fragment)) ++
    part .orderBy (listed (q.order.map Select.orderTerm)) ++
    part .limit (q.limit.map fun n => [.number n]) ++
    part .offset (q.offset.map fun n => [.number n])

/-- The sections of a query. -/
def sections (q : Query) : List Section :=
  (.select, commas (q.columns.map labelled)) :: (.fromTable, named q.table q.aliasName) ::
    (q.joins.map fun j => (j.kind.token, j.fragment)) ++ q.tail

/-! ### Reading what is written -/

/-- An item is read back, and there is no comma in it. -/
structure Reads {α : Type} (item : Fragment → Option α) (write : α → Fragment) : Prop where
  no_comma : ∀ a, ∀ c ∈ write a, c.isComma = false
  read : ∀ a, item (write a) = some a

theorem reads_column : Reads column? TableColumn.fragment where
  no_comma _ := by simp [TableColumn.fragment, column, Chunk.isComma]
  read _ := rfl

theorem reads_labelled : Reads labelled? labelled where
  no_comma _ := by simp [labelled, TableColumn.fragment, column, token, ident, Chunk.isComma]
  read _ := rfl

theorem reads_ordered : Reads ordered? Select.orderTerm where
  no_comma t := by
    obtain ⟨c, d⟩ := t
    cases d <;>
      simp [Select.orderTerm, TableColumn.fragment, column, token, Direction.token, Chunk.isComma]
  read t := by
    obtain ⟨c, d⟩ := t
    cases d <;> rfl

section

variable {α : Type} {item : Fragment → Option α} {write : α → Fragment}

theorem Reads.commas (h : Reads item write) {as : List α} (has : as ≠ []) :
    items? item (commas (as.map write)) = some as := by
  induction as with
  | nil => exact absurd rfl has
  | cons a as ih =>
      cases as with
      | nil =>
          rw [items?, List.map_singleton, Fragment.commas, join,
            List.splitOnP_eq_singleton (h.no_comma a)]
          simp [h.read]
      | cons b as =>
          have hi : (List.splitOnP Chunk.isComma
              (Fragment.commas ((b :: as).map write))).mapM item = some (b :: as) :=
            ih (List.cons_ne_nil b as)
          have hs : Fragment.commas ((a :: b :: as).map write) =
              write a ++ .token .comma :: Fragment.commas ((b :: as).map write) := rfl
          rw [items?, hs, List.splitOnP_append_cons_of_forall_mem (h.no_comma a) _ rfl,
            List.mapM_cons, h.read, hi]
          rfl

/-- A list is read back; if it is empty there is nothing to read. -/
theorem Reads.listed (h : Reads item write) (as : List α) :
    ∃ x, (listed (as.map write)).mapM (items? item) = some x ∧ x.getD [] = as := by
  cases as with
  | nil => exact ⟨none, rfl, rfl⟩
  | cons a as =>
      have hi := h.commas (List.cons_ne_nil a as)
      exact ⟨some (a :: as), congrArg (Option.map some) hi, rfl⟩

theorem part?_append {t : Token} {f : Option Fragment} {a : Option α}
    (hf : f.mapM item = some a) {ss : List Section} (hs : ∀ s ∈ ss, s.1 ≠ t) :
    part? t item (part t f ++ ss) = some (a, ss) := by
  cases f with
  | none =>
      cases hf
      cases ss with
      | nil => rfl
      | cons s ss => exact if_neg (hs s List.mem_cons_self)
  | some f =>
      obtain ⟨b, hb, rfl⟩ := Option.map_eq_some_iff.mp hf
      rw [part, Option.toList_some, List.map_singleton, List.singleton_append, part?, if_pos rfl,
        hb]
      rfl

end

theorem joins?_append {js : List JoinHead} {ss : List Section}
    (hs : ∀ s ∈ ss, JoinKind.ofToken? s.1 = none) :
    joins? ((js.map fun j => (j.kind.token, j.fragment)) ++ ss) = some (js, ss) := by
  induction js with
  | nil =>
      cases ss with
      | nil => rfl
      | cons s ss => rw [List.map_nil, List.nil_append, joins?, hs s List.mem_cons_self]
  | cons j js ih =>
      have hk : JoinKind.ofToken? j.kind.token = some j.kind := by cases j.kind <;> rfl
      have hj : join? j.kind j.fragment = some j := rfl
      rw [List.map_cons, List.cons_append, joins?, hk]
      simp [hj, ih]

/-- The keyword of a section that is there. -/
@[simp] theorem mem_part {t : Token} {f : Option Fragment} {s : Section} :
    s ∈ part t f ↔ s.1 = t ∧ f = some s.2 := by
  constructor
  · intro h
    obtain ⟨g, hg, rfl⟩ := List.mem_map.mp h
    exact ⟨rfl, Option.mem_toList.mp hg⟩
  · rintro ⟨rfl, hf⟩
    exact List.mem_map.mpr ⟨s.2, Option.mem_toList.mpr hf, rfl⟩

/-- **A query that reads some column is read back from its sections.** -/
theorem read_sections {q : Query} (hq : q.columns ≠ []) : read q.sections = some q := by
  have hcolumns := reads_labelled.commas hq
  have htable : table? (named q.table q.aliasName) = some (q.table, q.aliasName) := rfl
  obtain ⟨group, hgroup, hg⟩ := reads_column.listed q.group
  obtain ⟨order, horder, ho⟩ := reads_ordered.listed q.order
  have hcondition : q.condition.mapM some = some q.condition := by cases q.condition <;> rfl
  have hnumber (n : Option Nat) :
      (n.map fun n => ([.number n] : Fragment)).mapM number? = some n := by cases n <;> rfl
  -- no section behind another has its keyword
  have htail : ∀ s ∈ q.tail, JoinKind.ofToken? s.1 = none := by
    intro s hs
    simp only [tail, List.mem_append, mem_part] at hs
    rcases hs with (((⟨hs, -⟩ | ⟨hs, -⟩) | ⟨hs, -⟩) | ⟨hs, -⟩) | ⟨hs, -⟩ <;> rw [hs] <;> rfl
  rw [sections, List.cons_append, List.cons_append, read, hcolumns, htable]
  simp only [Option.bind_eq_bind, Option.bind_some]
  rw [joins?_append htail]
  simp only [tail, List.append_assoc, Option.bind_some]
  rw [part?_append hcondition (by simp +contextual [or_imp]), Option.bind_some,
    part?_append hgroup (by simp +contextual [or_imp]), Option.bind_some,
    part?_append horder (by simp +contextual [or_imp]), Option.bind_some,
    part?_append (hnumber q.limit) (by simp +contextual), Option.bind_some,
    ← List.append_nil (part .offset _), part?_append (hnumber q.offset) (by simp),
    Option.bind_some, hg, ho]
  rfl

end Query

end RowGraph
