/-
  Written records are read back.

  Constraints and builds are stored by their JSON form.  A build with sums that fit 64
  bits comes back as it was (`BuildResult.ofJson?_toJson`), and so do constraints that
  were accepted (`Constraints.ofJson?_toJson`): a set has one list of members, and levels
  are determined by the level of each trader, in whatever order they are set.
-/
import Gunsmith.Json.Forms
import Gunsmith.Proofs.Constraints

namespace Gunsmith

/-! ### Lists -/

/-- A list is read back if its items are. -/
theorem Json.listOf?_list {α : Type} {read : Json → Option α} {write : α → Json}
    (h : ∀ a, read (write a) = some a) (as : List α) :
    Json.listOf? read (.list (as.map write)) = some as := by
  show (as.map write).mapM read = some as
  induction as with
  | nil => rfl
  | cons a as ih => simp [h a, ih]

/-! ### Keywords -/

theorem Stat.ofJson?_toJson (stat : Stat) : Stat.ofJson? stat.toJson = some stat := by
  cases stat <;> rfl

theorem Trader.ofJson?_toJson (trader : Trader) : Trader.ofJson? trader.toJson = some trader := by
  cases trader <;> rfl

/-! ### Sets, levels and constraints -/

theorem NameSet.ofJson?_toJson (set : NameSet) : NameSet.ofJson? set.toJson = some set := by
  have hread : Json.listOf? Json.text? (.list (set.toList.map .text)) = some set.toList :=
    @Json.listOf?_list _ Json.text? Json.text (fun _ => rfl) set.toList
  show (Json.listOf? Json.text? (.list (set.toList.map .text))).map NameSet.ofList = some set
  rw [hread, Option.map_some]
  exact congrArg some (NameSet.ext_mem fun x => NameSet.mem_ofList.trans NameSet.mem_toList)

namespace TraderLevels

/-- Levels set one after the other, where no trader gets two of them. -/
theorem level_foldl_set {levels : TraderLevels} {l : List (Trader × Nat)}
    (h : ∀ p ∈ l, levels.level p.1 = some p.2) (base : TraderLevels) (t : Trader) :
    (l.foldl (fun levels p => levels.set p.1 p.2) base).level t =
      if t ∈ l.map Prod.fst then levels.level t else base.level t := by
  induction l generalizing base with
  | nil => rfl
  | cons p l ih =>
    have hp : levels.level p.1 = some p.2 := h p List.mem_cons_self
    rw [List.foldl_cons, ih (fun p hp => h p (List.mem_cons_of_mem _ hp)), level_set,
      List.map_cons]
    by_cases hl : t ∈ l.map Prod.fst
    · rw [if_pos hl, if_pos (List.mem_cons_of_mem _ hl)]
    · rw [if_neg hl]
      by_cases ht : t = p.1
      · rw [if_pos ht, if_pos (ht ▸ List.mem_cons_self), ht, hp]
      · rw [if_neg ht, if_neg (by simp only [List.mem_cons, ht, hl, or_self, not_false_iff])]

/-- The levels are what setting all that they list makes of nothing. -/
theorem foldl_set_toList (levels : TraderLevels) :
    levels.toList.foldl (fun levels p => levels.set p.1 p.2) empty = levels := by
  have hlevel : (levels.toList.foldl (fun levels p => levels.set p.1 p.2) empty).level =
      levels.level := by
    funext t
    rw [level_foldl_set fun p hp => mem_toList.mp hp]
    split
    · rfl
    · next hnot =>
      show none = levels.level t
      cases ht : levels.level t with
      | none => rfl
      | some n => exact absurd (List.mem_map_of_mem (f := Prod.fst) (mem_toList.mpr ht)) hnot
  exact congrArg TraderLevels.mk hlevel

/-- Levels that were accepted lie in range. -/
theorem le_of_validate {levels : TraderLevels} (h : levels.validate = .ok ()) {t : Trader} {n : Nat}
    (ht : levels.level t = some n) : n ≤ maxLevel := by
  unfold validate at h
  split at h
  · next hnone =>
    have := List.find?_eq_none.mp hnone (t, n) (mem_toList.mpr ht)
    simp at this
    omega
  · exact absurd h nofun

/-- All levels are bytes. -/
def AreBytes (levels : TraderLevels) : Prop := ∀ t n, levels.level t = some n → n ≤ 255

theorem areBytes_of_validate {levels : TraderLevels} (h : levels.validate = .ok ()) :
    levels.AreBytes := fun _ _ ht => (le_of_validate h ht).trans (by decide)

/-- Levels that are bytes are read back, whether they were accepted or not. -/
theorem AreBytes.ofJson?_toJson {levels : TraderLevels} (h : levels.AreBytes) :
    ofJson? levels.toJson = some levels := by
  have hread : ∀ (l : List (Trader × Nat)) (base : TraderLevels), (∀ p ∈ l, p.2 ≤ 255) →
      (l.map fun (p : Trader × Nat) => (p.1.name, Json.int p.2)).foldlM
        (fun levels (m : String × Json) => do
          let trader ← Trader.ofJson? (.text m.1)
          let n ← m.2.natUpTo? 255
          return levels.set trader n) base =
        some (l.foldl (fun levels p => levels.set p.1 p.2) base) := by
    intro l
    induction l with
    | nil =>
      intro base _
      rfl
    | cons p l ih =>
      intro base hp
      have htrader : Trader.ofJson? (.text p.1.name) = some p.1 := Trader.ofJson?_toJson p.1
      have hn : (Json.int p.2).natUpTo? 255 = some p.2 := by
        have := hp p List.mem_cons_self
        simp [Json.natUpTo?, Json.intIn?]
        omega
      rw [List.map_cons, List.foldlM_cons, htrader, hn, List.foldl_cons]
      exact ih _ fun q hq => hp q (List.mem_cons_of_mem p hq)
  have hle : ∀ p ∈ levels.toList, p.2 ≤ 255 := fun p hp => h _ _ (mem_toList.mp hp)
  exact (hread levels.toList empty hle).trans (congrArg some levels.foldl_set_toList)

end TraderLevels

/-- Constraints whose levels are bytes are read back, whether they were accepted or not. -/
theorem Constraints.ofJson?_toJson_of_bytes {c : Constraints} (h : c.levels.AreBytes) :
    Constraints.ofJson? c.toJson = some c := by
  have hlevels := h.ofJson?_toJson
  have hignored := NameSet.ofJson?_toJson c.ignoredSlots
  have hexcluded := NameSet.ofJson?_toJson c.excludedItems
  simp [Constraints.ofJson?, Constraints.toJson, Json.record?, Json.Members.required?,
    Json.Members.defaulted?, Json.Members.find?, hlevels, hignored, hexcluded]

/-- Constraints that were accepted are read back. -/
theorem Constraints.ofJson?_toJson {c : Constraints} (h : c.validate = .ok ()) :
    Constraints.ofJson? c.toJson = some c :=
  ofJson?_toJson_of_bytes (TraderLevels.areBytes_of_validate (validate_iff.mp h).1)

/-- Constraints may also be a list of the values of their members: of the levels, of the ignored slots
unless nothing follows, and of the excluded items. -/
theorem Constraints.ofJson?_list {items : List Json} (hleast : 1 ≤ items.length)
    (hmost : items.length ≤ 3) : Constraints.ofJson? (.list items) = Constraints.ofJson? (.object
      (["trader_levels", "ignored_slot_names", "excluded_item_ids"].zip items)) := by
  have hrecord : Json.record? ["trader_levels"] ["ignored_slot_names", "excluded_item_ids"]
      (.list items) =
        some (["trader_levels", "ignored_slot_names", "excluded_item_ids"].zip items) :=
    if_pos ⟨hleast, hmost⟩
  rw [Constraints.ofJson?, hrecord]
  rfl

/-- The sets are empty if they are left out. -/
example : (Constraints.ofJson? (.list [.object [("Prapor", .int 4)]])).map Constraints.key =
    some "Prapor=4|ignore=|exclude=" := by decide +kernel

/-! ### Builds -/

theorem Selection.ofJson?_toJson (s : Selection) : Selection.ofJson? s.toJson = some s := by
  obtain ⟨parentId, slotId, slotName, itemId, itemName⟩ := s
  cases itemId <;> cases itemName <;>
    simp [Selection.ofJson?, Selection.toJson, Json.record?, Json.Members.required?,
      Json.Members.optional?, Json.Members.find?, Json.text?, Json.ofOption]

/-- The number fits 64 bits with a sign. -/
def Fits64 (n : Int) : Prop := -9223372036854775808 ≤ n ∧ n ≤ 9223372036854775807

/-- Both sums fit 64 bits. -/
def Totals.Fit (t : Totals) : Prop := Fits64 t.recoil ∧ Fits64 t.ergonomics

theorem Json.int64?_int {n : Int} (h : Fits64 n) : Json.int64? (.int n) = some n :=
  if_pos h

/-- A build whose sums fit 64 bits is read back. -/
theorem BuildResult.ofJson?_toJson {r : BuildResult} (h : r.sums.Fit) :
    BuildResult.ofJson? r.toJson = some r := by
  have hstat := Stat.ofJson?_toJson r.stat
  have hrecoil := Json.int64?_int h.1
  have hergonomics := Json.int64?_int h.2
  have hselections : Json.listOf? Selection.ofJson? (Selection.listToJson r.selections) =
      some r.selections := Json.listOf?_list Selection.ofJson?_toJson r.selections
  simp [BuildResult.ofJson?, BuildResult.toJson, Json.record?, Json.Members.required?,
    Json.Members.find?, Json.text?, hstat, hrecoil, hergonomics, hselections]

end Gunsmith
