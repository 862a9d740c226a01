/-! Whole numbers that fit 64 bits, with and without a sign. -/
namespace UserManagedAccess.Word

def signedLow : Int := -0x8000000000000000
def signedHigh : Int := 0x7FFFFFFFFFFFFFFF

/-- The greatest number without a sign. -/
def high : Nat := 0xFFFFFFFFFFFFFFFF

/-- Whether a number fits with its sign. -/
def fitsSigned (n : Int) : Bool := signedLow ≤ n && n ≤ signedHigh

end UserManagedAccess.Word
