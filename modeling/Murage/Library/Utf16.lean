import Mathlib.Data.List.Lex
import Mathlib.Order.Defs.LinearOrder

/-!
Owns texts as lists of UTF-16 code units, and their order. It names no system.
-/

namespace Murage.Library.Utf16

abbrev Text := List UInt16

instance linearOrderUnit : LinearOrder UInt16 where
  le_refl a := UInt16.le_refl a
  le_trans _ _ _ := UInt16.le_trans
  le_antisymm _ _ := UInt16.le_antisymm
  le_total := UInt16.le_total
  lt_iff_le_not_ge a b := by
    rw [UInt16.lt_iff_toNat_lt, UInt16.le_iff_toNat_le, UInt16.le_iff_toNat_le]
    omega
  toDecidableLE := inferInstance
  toDecidableLT := inferInstance
  toDecidableEq := inferInstance

def unit (c : Char) : UInt16 := c.val.toUInt16

def units (s : String) : Text := s.toList.map unit

end Murage.Library.Utf16
