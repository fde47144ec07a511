-- The powers of whole numbers and the larger of two fractions as the core library has them. With
-- these in scope a definition means the same whatever else is imported.

namespace Reckoner

namespace CoreArithmetic

scoped instance (priority := 2000) natPower : Pow Nat Nat := instPowNat

scoped instance (priority := 2000) intPower : Pow Int Nat := instPowNat

scoped instance (priority := 2000) ratMax : Max Rat := Rat.instMax

end CoreArithmetic

end Reckoner
