/-
  Items of the catalogue, and the records in which it is read.

  The catalogue holds weapons and attachments, the slots that each of them has, and for
  each slot the attachments that fit.  A reader of the catalogue gets it in pieces: one
  record per question that the collection of candidates asks.
-/
import Gunsmith.Stat

namespace Gunsmith

/-- What an item is: something to build on, or something to mount. -/
inductive ItemKind where
  | weapon
  | attachment
deriving DecidableEq, Inhabited

namespace ItemKind

/-- The keyword of a kind. -/
def name : ItemKind → String
  | .weapon => "weapon"
  | .attachment => "weapon_mod"

/-- Reads the keyword of a kind, which has one spelling only. -/
def parse (text : String) : Except String ItemKind :=
  if text = "weapon" then .ok .weapon
  else if text = "weapon_mod" then .ok .attachment
  else .error s!"未知的物品种类: {text}"

end ItemKind

/-- An item with its modifiers. -/
structure Item where
  id : String
  name : String
  kind : ItemKind
  modifiers : Totals
deriving DecidableEq, Inhabited

/-- What is read of a weapon. -/
structure Weapon where
  id : String
  name : String
  modifiers : Totals
deriving DecidableEq, Inhabited

/-- What is read of a slot. -/
structure SlotRecord where
  id : String
  name : String
deriving DecidableEq, Inhabited

/-- What is read of an item that fits a slot. -/
structure AllowedItem where
  id : String
  name : String
deriving DecidableEq, Inhabited

/-- What is read of an attachment: its modifiers and the conflicts that it declares. -/
structure Properties where
  modifiers : Totals
  conflicts : List String
deriving DecidableEq, Inhabited

end Gunsmith
