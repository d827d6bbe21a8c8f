/-
# DurableRuns.Cli.NewName -- names for new runs

A new run is named by a random number of 128 bits in the usual form of such names: 32
hexadecimal digits in five groups, of which one digit tells that the number is random.
-/
import DurableRuns.Json.Value

namespace DurableRuns.Cli

set_option autoImplicit false

/-- Random bytes with the marks of a random name: the version 4 and the variant. -/
def markRandom (random : Bytes) : Bytes :=
  random.mapIdx fun index byte =>
    if index = 6 then byte % 16 + 64 else if index = 8 then byte % 64 + 128 else byte

/-- Bytes in hexadecimal. -/
def hexText (bytes : Bytes) : String :=
  String.ofList (bytes.flatMap fun byte =>
    [byte.toNat / 16, byte.toNat % 16].map fun digit => Char.ofNat (Json.hexDigit digit).toNat)

/-- Bytes in groups of given sizes. -/
def groupsOf : List Nat → Bytes → List Bytes
  | [], _ => []
  | size :: sizes, bytes => bytes.take size :: groupsOf sizes (bytes.drop size)

/-- The name that sixteen random bytes give to a new run. -/
def newName (random : Bytes) : String :=
  "-".intercalate ((groupsOf [4, 2, 2, 2, 6] (markRandom random)).map hexText)

end DurableRuns.Cli
