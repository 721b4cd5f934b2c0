import Mathlib

/-! Constants of dnsblast.h and dns.h, and what the C standard leaves to the platform. -/
namespace BlastHeader

/-- MAX_UDP_DATA_SIZE: 0xffff less the IP and UDP headers. -/
def maxUdpDataSize : ℕ := 0xffff - 20 - 8

def updateStatusPeriod : ℕ := 2000

def typeA : ℕ := 1
def typePTR : ℕ := 12
def typeSOA : ℕ := 6
def typeMX : ℕ := 15
def typeTXT : ℕ := 16
def typeAAAA : ℕ := 28

/-- FLAGS_OPCODE_QUERY | FLAGS_RECURSION_DESIRED. -/
def queryFlags : ℕ := 0x0 ||| 0x0100

def classIN : ℕ := 1

/-- What the build decides. `indexFirst` is the order in which `a[f()] = g()` makes its
two calls; `round` is applied to the exact result of every double operation; `invalidInt`
and `invalidUnsignedLong` come out of converting a double that the type cannot hold. -/
structure Platform where
  randMax : ℕ
  randMax_lower : 32767 ≤ randMax
  randMax_upper : randMax ≤ 2 ^ 31 - 1
  littleEndian : Bool
  indexFirst : Bool
  round : ℚ → ℚ
  invalidInt : ℤ
  invalidUnsignedLong : ℕ

/-- gcc and glibc on x86-64, with exact doubles. -/
def glibc : Platform where
  randMax := 2 ^ 31 - 1
  randMax_lower := by decide
  randMax_upper := by decide
  littleEndian := true
  indexFirst := false
  round := id
  invalidInt := -2 ^ 31
  invalidUnsignedLong := 2 ^ 63

structure RandStream (P : Platform) where
  value : ℕ → ℕ
  le_randMax : ∀ i, value i ≤ P.randMax

def constantStream (P : Platform) (r : ℕ) (h : r ≤ P.randMax) : RandStream P :=
  ⟨fun _ => r, fun _ => h⟩

def repeatedNameProbability (P : Platform) : ℕ := P.randMax * 13854 / 100000

def refuzzProbability (P : Platform) : ℕ := P.randMax * 500 / 100000

structure WeightedType where
  weight : ℕ
  type : ℕ
  deriving DecidableEq, Repr

def weightedTypes (P : Platform) : List WeightedType :=
  [⟨P.randMax * 33831 / 100000, typeA⟩,
   ⟨P.randMax * 38831 / 100000, typePTR⟩,
   ⟨P.randMax * 803 / 100000, typeSOA⟩,
   ⟨P.randMax * 5073 / 100000, typeMX⟩,
   ⟨P.randMax * 2604 / 100000, typeTXT⟩,
   ⟨P.randMax * 13858 / 100000, typeAAAA⟩]

def queryTypes : List ℕ := [typeA, typePTR, typeSOA, typeMX, typeTXT, typeAAAA]

theorem weightedTypes_type (P : Platform) :
    (weightedTypes P).map WeightedType.type = queryTypes := rfl

end BlastHeader
