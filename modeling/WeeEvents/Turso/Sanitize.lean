import Mathlib

/-!
# Turso database names

A partition name becomes a database name of at most 51 lower-case letters,
digits and dashes: an abbreviated prefix with part of its hash, what is left of
the name, and the name's hash. The default partition's database is named by the
sanitised prefix alone.
-/
namespace WeeEvents.Turso

/-- The loop state of `sanitize_fragment`: the characters so far and whether the
last input character became a dash. -/
structure Fragment where
  result : List Char
  prevDash : Bool

/-- The character an input character becomes, and the dash flag after it; `none`
where it is skipped. -/
def Fragment.out (fragment : Fragment) (c : Char) : Option (Char × Bool) :=
  if 'a' ≤ c ∧ c ≤ 'z' ∨ '0' ≤ c ∧ c ≤ '9' then some (c, false)
  else if 'A' ≤ c ∧ c ≤ 'Z' then some (c.toLower, false)
  else if fragment.prevDash || fragment.result.isEmpty then none
  else some ('-', true)

def sanitizeLoop (limit : Nat) : List Char → Fragment → Fragment
  | [], fragment => fragment
  | c :: rest, fragment =>
      match fragment.out c with
      | none => sanitizeLoop limit rest fragment
      | some (out, prevDash) =>
          if fragment.result.length ≥ limit then ⟨fragment.result, prevDash⟩
          else sanitizeLoop limit rest ⟨fragment.result ++ [out], prevDash⟩

def sanitizeFragment (raw : String) (limit : Nat) : String :=
  String.ofList ((sanitizeLoop limit raw.toList ⟨[], false⟩).result.rdropWhile (· == '-'))

def fnvOffset : UInt64 := 0xcbf29ce484222325
def fnvPrime : UInt64 := 0x00000100000001b3

def stableHash (raw : String) : UInt64 :=
  raw.toUTF8.data.toList.foldl (fun hash byte => (hash ^^^ byte.toUInt64) * fnvPrime) fnvOffset

def hexDigit (n : Nat) : Char := "0123456789abcdef".toList.getD n '0'

/-- The lower-case hexadecimal digits of `n`, most significant first. -/
def hexDigits : Nat → Nat → List Char
  | 0, _ => []
  | width + 1, n => hexDigits width (n / 16) ++ [hexDigit (n % 16)]

/-- The format `016x` of the hash. -/
def stableHashHex (raw : String) : String := String.ofList (hexDigits 16 (stableHash raw).toNat)

def prefixFragmentLimit : Nat := 12
def prefixHashLen : Nat := 8

def namedDatabasePrefix (pre : String) : String :=
  let fragment := sanitizeFragment pre prefixFragmentLimit
  (if fragment.isEmpty then "db" else fragment) ++ "-" ++
    String.ofList ((stableHashHex pre).toList.take prefixHashLen)

def sanitizeDatabaseName (partitionName pre : String) : String :=
  if partitionName.isEmpty then sanitizeFragment pre 51
  else
    let named := namedDatabasePrefix pre
    let partitionHash := stableHashHex partitionName
    let remaining := 51 - named.utf8ByteSize - partitionHash.utf8ByteSize - 2
    let partition := sanitizeFragment partitionName remaining
    if partition.isEmpty then named ++ "-" ++ partitionHash
    else named ++ "-" ++ partition ++ "-" ++ partitionHash

example : sanitizeDatabaseName "" "My_App:" = "my-app" := by decide +kernel

end WeeEvents.Turso
