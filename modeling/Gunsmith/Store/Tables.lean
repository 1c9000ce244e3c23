/-
  The tables of the store.

  The store is a fixed set of tables, each of which may be missing; a table is the list
  of its rows in the order of insertion.  Rows hold texts where other programs may have
  written them, so that a row can fail to decode; what is only ever written by this
  library is kept in its own type.

  A call on the store is a `Transaction`: it either answers and leaves a new store, or
  fails and leaves the store as it was.
-/
import Gunsmith.Error
import Gunsmith.Item

namespace Gunsmith

/-! ### Rows -/

/-- A value set for a key. -/
structure Setting where
  key : String
  value : String
deriving DecidableEq, Inhabited

/-- A slot, the item that has it, and its place among the slots of that item. -/
structure SlotRow where
  id : String
  ownerId : String
  name : String
  position : Int
deriving DecidableEq, Inhabited

/-- An item that fits a slot, and its place among those that do. -/
structure AllowedRow where
  slotId : String
  itemId : String
  position : Int
deriving DecidableEq, Inhabited

/-- A conflict that an item declares. -/
structure ConflictRow where
  itemId : String
  otherId : String
deriving DecidableEq, Inhabited

/-- An offer for an item. -/
structure OfferRow where
  itemId : String
  trader : String
  minLevel : Int
  price : Int
deriving DecidableEq, Inhabited

/-- A job. -/
structure JobRow where
  id : String
  itemId : String
  stat : String
  constraints : String
  priority : Int
  status : String
  createdAt : String
  startedAt : Option String
  completedAt : Option String
  error : Option String
deriving DecidableEq, Inhabited

/-- A stored build; item, stat, constraints key and version identify it. -/
structure BuildRow where
  id : String
  itemId : String
  stat : String
  constraintsKey : String
  version : String
  constraints : String
  status : String
  result : Option String
  error : Option String
  createdAt : String
  updatedAt : String
deriving DecidableEq, Inhabited

/-- An isolated solution; item, stat, levels key and version identify it. -/
structure IsolatedRow where
  itemId : String
  stat : Stat
  levelsKey : String
  version : String
  sums : Totals
  selections : String
deriving DecidableEq, Inhabited

/-- A result with its depth; item, stat, constraints key and version identify it. -/
structure SubtreeRow where
  itemId : String
  stat : Stat
  constraintsKey : String
  version : String
  depth : Int
  result : String
deriving DecidableEq, Inhabited

/-! ### Tables -/

/-- The tables. -/
inductive Table where
  | versions
  | settings
  | items
  | slots
  | allowed
  | conflicts
  | offers
  | jobs
  | builds
  | isolated
  | subtrees
deriving DecidableEq, Inhabited

namespace Table

/-- All tables, in the order in which they are set up. -/
def all : List Table :=
  [.versions, .settings, .items, .slots, .allowed, .conflicts, .offers, .jobs, .builds, .isolated,
    .subtrees]

/-- The name of a table. -/
def name : Table → String
  | .versions => "schema_version"
  | .settings => "config_kv"
  | .items => "item"
  | .slots => "item_slot"
  | .allowed => "slot_allowed_item"
  | .conflicts => "item_conflict"
  | .offers => "trader_offer"
  | .jobs => "evaluation_queue"
  | .builds => "optimal_build"
  | .isolated => "conflict_free_cache"
  | .subtrees => "subtree_cache"

/-- The rows of a table. -/
abbrev Row : Table → Type
  | .versions => Int
  | .settings => Setting
  | .items => Item
  | .slots => SlotRow
  | .allowed => AllowedRow
  | .conflicts => ConflictRow
  | .offers => OfferRow
  | .jobs => JobRow
  | .builds => BuildRow
  | .isolated => IsolatedRow
  | .subtrees => SubtreeRow

/-- The tables to whose rows the rows of a table refer. -/
def parents : Table → List Table
  | .slots => [.items]
  | .allowed => [.items, .slots]
  | _ => []

theorem mem_all (t : Table) : t ∈ all := by
  cases t <;> decide

end Table

/-- The store: the rows of each table, or none for a table that does not exist. -/
structure Store where
  versions : Option (List Int)
  settings : Option (List Setting)
  items : Option (List Item)
  slots : Option (List SlotRow)
  allowed : Option (List AllowedRow)
  conflicts : Option (List ConflictRow)
  offers : Option (List OfferRow)
  jobs : Option (List JobRow)
  builds : Option (List BuildRow)
  isolated : Option (List IsolatedRow)
  subtrees : Option (List SubtreeRow)
deriving DecidableEq, Inhabited

namespace Store

/-- The store without any table. -/
def bare : Store :=
  ⟨none, none, none, none, none, none, none, none, none, none, none⟩

/-- The rows of a table, if it exists. -/
def rows? (s : Store) : (t : Table) → Option (List t.Row)
  | .versions => s.versions
  | .settings => s.settings
  | .items => s.items
  | .slots => s.slots
  | .allowed => s.allowed
  | .conflicts => s.conflicts
  | .offers => s.offers
  | .jobs => s.jobs
  | .builds => s.builds
  | .isolated => s.isolated
  | .subtrees => s.subtrees

/-- The store with a table replaced, or removed. -/
def put (s : Store) : (t : Table) → Option (List t.Row) → Store
  | .versions, rows => { s with versions := rows }
  | .settings, rows => { s with settings := rows }
  | .items, rows => { s with items := rows }
  | .slots, rows => { s with slots := rows }
  | .allowed, rows => { s with allowed := rows }
  | .conflicts, rows => { s with conflicts := rows }
  | .offers, rows => { s with offers := rows }
  | .jobs, rows => { s with jobs := rows }
  | .builds, rows => { s with builds := rows }
  | .isolated, rows => { s with isolated := rows }
  | .subtrees, rows => { s with subtrees := rows }

@[simp]
theorem rows?_put_self (s : Store) (t : Table) (rows : Option (List t.Row)) :
    (s.put t rows).rows? t = rows := by
  cases t <;> rfl

theorem rows?_put_of_ne (s : Store) {t u : Table} (h : t ≠ u) (rows : Option (List t.Row)) :
    (s.put t rows).rows? u = s.rows? u := by
  cases t <;> cases u <;> first | rfl | exact absurd rfl h

/-- Stores with the same tables are equal. -/
theorem ext_rows? {s t : Store} (h : ∀ u, s.rows? u = t.rows? u) : s = t := by
  obtain ⟨_, _, _, _, _, _, _, _, _, _, _⟩ := s
  obtain ⟨_, _, _, _, _, _, _, _, _, _, _⟩ := t
  have h₁ := h .versions
  have h₂ := h .settings
  have h₃ := h .items
  have h₄ := h .slots
  have h₅ := h .allowed
  have h₆ := h .conflicts
  have h₇ := h .offers
  have h₈ := h .jobs
  have h₉ := h .builds
  have h₁₀ := h .isolated
  have h₁₁ := h .subtrees
  simp only [rows?] at h₁ h₂ h₃ h₄ h₅ h₆ h₇ h₈ h₉ h₁₀ h₁₁
  simp only [h₁, h₂, h₃, h₄, h₅, h₆, h₇, h₈, h₉, h₁₀, h₁₁]

/-- The rows of a table that has to exist. -/
def rows (s : Store) (t : Table) : Except StoreError (List t.Row) :=
  match s.rows? t with
  | some rows => .ok rows
  | none => .error (.missingTable t.name)

end Store

/-! ### Calls on the store -/

/-- A call on the store: an answer and a new store, or a failure that changes nothing. -/
abbrev Transaction := StateT Store (Except StoreError)

namespace Transaction

/-- The rows of a table. -/
def rows (t : Table) : Transaction (List t.Row) := do
  (← get).rows t

/-- Replaces the rows of a table. -/
def write (t : Table) (rows : List t.Row) : Transaction Unit :=
  modify fun s => s.put t (some rows)

/-- Makes the call: the answer or the failure, and the store as it is afterwards. -/
def call {α : Type} (action : Transaction α) (s : Store) : Except StoreError α × Store :=
  match action s with
  | .ok (a, s') => (.ok a, s')
  | .error e => (.error e, s)

end Transaction

/-! ### Rows with a key -/

/-- Changes the first row that has the key, or adds a new one at the end. -/
def upsertRow {α : Type} (hasKey : α → Bool) (change : α → α) (fresh : α) : List α → List α
  | [] => [fresh]
  | row :: rows =>
    if hasKey row then change row :: rows else row :: upsertRow hasKey change fresh rows

/-- Changes all rows that satisfy a condition, and counts them. -/
def updateRows {α : Type} (applies : α → Bool) (change : α → α) (rows : List α) : List α × Nat :=
  (rows.map fun row => if applies row then change row else row, (rows.filter applies).length)

/-- What the surroundings hand to a call: the time, as a text whose order is that of time, and an
identifier that is not in use. -/
structure Moment where
  now : String
  fresh : String
deriving DecidableEq, Inhabited

end Gunsmith
